import PathQuery.Sql.Piece

/-!
Quoted names read back. A reader that takes two backticks for one of the name and a single backtick
for its end finds the name that was quoted, whatever the name holds, and stops where the quotes do;
behind a dot it goes on with the next segment of a table name.
-/

set_option autoImplicit false

namespace PathQuery

namespace Sql

/-- Reads on from inside a name to its end: the rest of the name and the text behind it. -/
def readInside : List Char → Option (List Char × List Char)
  | [] => none
  | [c] => if c = '`' then some ([], []) else none
  | c :: d :: rest =>
    if c = '`' then
      if d = '`' then (readInside rest).map fun (name, behind) => ('`' :: name, behind)
      else some ([], d :: rest)
    else (readInside (d :: rest)).map fun (name, behind) => (c :: name, behind)
termination_by structural cs => cs

def readName : List Char → Option (List Char × List Char)
  | '`' :: rest => readInside rest
  | _ => none

theorem length_readInside {cs name behind : List Char} (h : readInside cs = some (name, behind)) :
    behind.length < cs.length := by
  fun_induction readInside cs generalizing name with
  | case1 => cases h
  | case2 =>
    obtain ⟨-, rfl⟩ := Prod.mk.inj (Option.some.inj h)
    exact Nat.zero_lt_one
  | case3 => cases h
  | case4 rest ih =>
    obtain ⟨⟨name', behind'⟩, hread, heq⟩ := Option.map_eq_some_iff.1 h
    obtain ⟨-, rfl⟩ := Prod.mk.inj heq
    have := ih hread
    simp only [List.length_cons]
    omega
  | case5 d rest =>
    obtain ⟨-, rfl⟩ := Prod.mk.inj (Option.some.inj h)
    exact Nat.lt_succ_self _
  | case6 c d rest _ ih =>
    obtain ⟨⟨name', behind'⟩, hread, heq⟩ := Option.map_eq_some_iff.1 h
    obtain ⟨-, rfl⟩ := Prod.mk.inj heq
    exact Nat.lt_succ_of_lt (ih hread)

theorem length_readName {cs name behind : List Char} (h : readName cs = some (name, behind)) :
    behind.length < cs.length := by
  unfold readName at h
  split at h
  · exact Nat.lt_succ_of_lt (length_readInside h)
  · cases h

def continues : List Char → Bool
  | '.' :: '`' :: _ => true
  | _ => false

def readDotted (cs : List Char) : Option (List (List Char) × List Char) :=
  match _h : readName cs with
  | none => none
  | some (name, behind) =>
    if continues behind then
      (readDotted behind.tail).map fun (names, behind) => (name :: names, behind)
    else some ([name], behind)
termination_by cs.length
decreasing_by
  have hlt := length_readName _h
  simp only [List.length_tail]
  omega

def readFurther (cs : List Char) : Option (List (List Char) × List Char) :=
  if continues cs then readDotted cs.tail else some ([], cs)

theorem readInside_cons {c : Char} {cs : List Char} (hc : c ≠ '`') (hcs : cs ≠ []) :
    readInside (c :: cs) = (readInside cs).map fun (name, behind) => (c :: name, behind) := by
  cases cs with
  | nil => exact absurd rfl hcs
  | cons d rest => rw [readInside, if_neg hc]

/-- A single backtick ends the name, unless another one makes it a double one. -/
theorem readInside_closing {behind : List Char} (h : behind.head? ≠ some '`') :
    readInside ('`' :: behind) = some ([], behind) := by
  cases behind with
  | nil => rfl
  | cons d rest =>
    have hd : d ≠ '`' := fun hd => h (congrArg some hd)
    rw [readInside, if_pos rfl, if_neg hd]

theorem readInside_escape (name : List Char) {behind : List Char} (h : behind.head? ≠ some '`') :
    readInside (Ident.escape name ++ '`' :: behind) = some (name, behind) := by
  induction name with
  | nil => exact readInside_closing h
  | cons c name ih =>
    by_cases hc : c = '`'
    · subst hc
      rw [Ident.escape, if_pos rfl, List.cons_append, List.cons_append, readInside, if_pos rfl,
        if_pos rfl, ih]
      rfl
    · rw [Ident.escape, if_neg hc, List.cons_append, readInside_cons hc (by simp), ih]
      rfl

theorem readName_quoted (name : List Char) {behind : List Char} (h : behind.head? ≠ some '`') :
    readName (Ident.quoted name ++ behind) = some (name, behind) := by
  have htext : Ident.quoted name ++ behind = '`' :: (Ident.escape name ++ '`' :: behind) := by
    simp [Ident.quoted]
  rw [htext, readName, readInside_escape name h]

theorem readDotted_quoted (name : List Char) {behind : List Char} (h : behind.head? ≠ some '`') :
    readDotted (Ident.quoted name ++ behind) =
      (readFurther behind).map fun (names, rest) => (name :: names, rest) := by
  rw [readDotted]
  split
  · next hread => simp [readName_quoted name h] at hread
  · next name' behind' hread =>
    rw [readName_quoted name h] at hread
    obtain ⟨rfl, rfl⟩ := Prod.mk.inj (Option.some.inj hread)
    unfold readFurther
    split <;> rfl

theorem chars_dottedName_cons (s s' : List Char) (rest : List (List Char)) :
    chars (dottedName (s :: s' :: rest)) =
      Ident.quoted s ++ '.' :: chars (dottedName (s' :: rest)) := by
  simp [dottedName, Piece.chars, lit]

theorem chars_dottedName_single (s : List Char) : chars (dottedName [s]) = Ident.quoted s := by
  simp [dottedName, Piece.chars]

theorem readFurther_dottedName (s : List Char) (rest : List (List Char)) (behind : List Char) :
    readFurther ('.' :: chars (dottedName (s :: rest)) ++ behind) =
      readDotted (chars (dottedName (s :: rest)) ++ behind) := by
  cases rest with
  | nil => rw [chars_dottedName_single]; rfl
  | cons s' rest => rw [chars_dottedName_cons]; rfl

theorem readDotted_dottedName {segments : List (List Char)} (hne : segments ≠ [])
    {behind : List Char} (h : behind.head? ≠ some '`') :
    readDotted (chars (dottedName segments) ++ behind) =
      (readFurther behind).map fun (names, rest) => (segments ++ names, rest) := by
  induction segments with
  | nil => exact absurd rfl hne
  | cons s rest ih =>
    cases rest with
    | nil => rw [chars_dottedName_single, readDotted_quoted s h]; rfl
    | cons s' rest =>
      have hnext : ('.' :: chars (dottedName (s' :: rest)) ++ behind).head? ≠ some '`' := by simp
      rw [chars_dottedName_cons, List.append_assoc, readDotted_quoted s hnext,
        readFurther_dottedName, ih (List.cons_ne_nil _ _), Option.map_map]
      rfl

end Sql

/-- Whatever characters a name holds, its quotes end where the name does: from the quoted name and a
text behind it, which does not start with a backtick, exactly the name and that text are read. From
a table name its segments are read, which hold no dots and make up the name, and behind them only
what the text behind goes on with. -/
theorem readName_quote (name : String) (behind : List Char) (h : behind.head? ≠ some '`') :
    Sql.readName ((quote name).toList ++ behind) = some (name.toList, behind) ∧
      ∃ segments : List (List Char), ['.'].intercalate segments = name.toList ∧
        (∀ s ∈ segments, '.' ∉ s) ∧
        Sql.readDotted (Sql.chars (Sql.tableName name)) = some (segments, []) ∧
        Sql.readDotted (Sql.chars (Sql.tableName name) ++ behind) =
          (Sql.readFurther behind).map fun (names, rest) => (segments ++ names, rest) := by
  constructor
  · rw [quote, String.toList_ofList]
    exact Sql.readName_quoted name.toList h
  · have hne := Text.splitOn_ne_nil '.' name.toList
    refine ⟨Text.splitOn '.' name.toList, Text.intercalate_splitOn '.' _, fun s hs =>
      Text.sep_notMem_of_mem_splitOn hs, ?_, Sql.readDotted_dottedName hne h⟩
    have hend : ([] : List Char).head? ≠ some '`' := by simp
    have halone := Sql.readDotted_dottedName hne hend
    simpa [Sql.tableName, Sql.readFurther, Sql.continues] using halone

theorem readName_quote_of_backticks :
    let name := "`.a``b."
    let behind := ".`c` d".toList
    Sql.readName ((quote name).toList ++ behind) = some (name.toList, behind) ∧
      ∃ segments : List (List Char), ['.'].intercalate segments = name.toList ∧
        (∀ s ∈ segments, '.' ∉ s) ∧
        Sql.readDotted (Sql.chars (Sql.tableName name)) = some (segments, []) ∧
        Sql.readDotted (Sql.chars (Sql.tableName name) ++ behind) =
          (Sql.readFurther behind).map fun (names, rest) => (segments ++ names, rest) :=
  readName_quote "`.a``b." ".`c` d".toList (by decide)

end PathQuery
