import PathQuery.Sql.Piece

/-!
A reader of statements that looks for placeholders. It goes from left to right and passes over
names between backticks; two backticks inside a name stand for one and do not end it. So that a
question mark can be traced back to its value, the reader takes characters that carry marks, and
the pieces of a statement are written once more with every placeholder marked.
-/

set_option autoImplicit false

namespace PathQuery.Sql

section Reader

variable {α β : Type} (char : α → Char)

mutual

/-- What stands outside of names. -/
def outside : List α → List α
  | [] => []
  | a :: rest => if char a = '`' then inside rest else a :: outside rest
termination_by structural xs => xs

def inside : List α → List α
  | [] => []
  | [_] => []
  | a :: b :: rest =>
    if char a = '`' then if char b = '`' then inside rest else outside (b :: rest)
    else inside (b :: rest)
termination_by structural xs => xs

end

/-- The same reading without looking ahead: every backtick opens or closes a name. -/
def toggled (within : Bool) : List α → List α
  | [] => []
  | a :: rest =>
    if char a = '`' then toggled (!within) rest
    else if within then toggled within rest else a :: toggled within rest

theorem reading_eq_toggled (n : Nat) (xs : List α) (hn : xs.length ≤ n) :
    outside char xs = toggled char false xs ∧ inside char xs = toggled char true xs := by
  induction n generalizing xs with
  | zero =>
    obtain rfl := List.length_eq_zero_iff.1 (Nat.le_zero.1 hn)
    exact ⟨rfl, rfl⟩
  | succ n ih =>
    match xs, hn with
    | [], _ => exact ⟨rfl, rfl⟩
    | [a], _ =>
      by_cases ha : char a = '`'
      · simp [outside, inside, toggled, ha]
      · simp [outside, inside, toggled, ha]
    | a :: b :: rest, hn =>
      have hrest := ih rest (by simp at hn; omega)
      have hb := ih (b :: rest) (by simpa using hn)
      constructor
      · rw [outside, toggled, hb.1, hb.2]
        simp
      · rw [inside, toggled, hb.1, hb.2, hrest.2]
        by_cases ha : char a = '`'
        · by_cases hb : char b = '`'
          · simp [ha, hb, toggled]
          · simp [ha, hb, toggled]
        · simp [ha]

theorem outside_eq_toggled (xs : List α) : outside char xs = toggled char false xs :=
  (reading_eq_toggled char xs.length xs (Nat.le_refl _)).1

theorem toggled_map (f : β → α) (within : Bool) (xs : List β) :
    toggled char within (xs.map f) = (toggled (fun b => char (f b)) within xs).map f := by
  induction xs generalizing within with
  | nil => rfl
  | cons b xs ih =>
    by_cases hb : char (f b) = '`'
    · simp [toggled, hb, ih]
    · cases within with
      | false => simp [toggled, hb, ih]
      | true => simp [toggled, hb, ih]

theorem outside_map (f : β → α) (xs : List β) :
    outside char (xs.map f) = (outside (fun b => char (f b)) xs).map f := by
  simp only [outside_eq_toggled, toggled_map]

theorem toggled_append_of_forall {xs : List α} (h : ∀ a ∈ xs, char a ≠ '`') (ys : List α) :
    toggled char false (xs ++ ys) = xs ++ toggled char false ys := by
  induction xs with
  | nil => rfl
  | cons a xs ih =>
    have ha : char a ≠ '`' := h a (by simp)
    simp [toggled, ha, ih fun b hb => h b (by simp [hb])]

end Reader

abbrev Mark := Char × Option Value

def unmarked (cs : List Char) : List Mark :=
  cs.map fun c => (c, none)

mutual

/-- The placeholders of a value, each with the part of the value that it stands for. -/
def markedPlaceholders : Value → List Mark
  | .raw sql => unmarked sql.toList
  | .list items => markedTuple items
  | .entity [part] => [('?', some (.entity [part]))]
  | .entity key => markedTuple key
  | v => [('?', some v)]
termination_by structural v => v

def markedTuple : List Value → List Mark
  | [] => unmarked "(NULL)".toList
  | v :: rest => ('(', none) :: markedPlaceholders v ++ markedRest rest
termination_by structural vs => vs

def markedRest : List Value → List Mark
  | [] => [(')', none)]
  | v :: rest => (',', none) :: markedPlaceholders v ++ markedRest rest
termination_by structural vs => vs

end

def Piece.marked : Piece → List Mark
  | .text cs => unmarked cs
  | .name n => unmarked (Ident.quoted n.toList)
  | .bound v => markedPlaceholders v

def marked (ps : List Piece) : List Mark :=
  ps.flatMap Piece.marked

/-- For each question mark outside of names, in order, the value that it was written for. -/
def questions (ps : List Piece) : List (Option Value) :=
  ((outside Prod.fst (marked ps)).filter fun m => m.1 == '?').map Prod.snd

@[simp] theorem unmarked_chars (cs : List Char) : (unmarked cs).map Prod.fst = cs := by
  induction cs with
  | nil => rfl
  | cons c cs ih => simpa [unmarked] using ih

mutual

theorem markedPlaceholders_chars (v : Value) :
    (markedPlaceholders v).map Prod.fst = placeholders v := by
  cases v with
  | list items => simp [markedPlaceholders, placeholders, markedTuple_chars items]
  | entity key =>
    match key with
    | [] => simp [markedPlaceholders, placeholders, markedTuple, tuple]
    | [part] => simp [markedPlaceholders, placeholders]
    | part :: next :: rest =>
      have h := markedTuple_chars (part :: next :: rest)
      simpa [markedPlaceholders, placeholders] using h
  | _ => simp [markedPlaceholders, placeholders]
termination_by structural v

theorem markedTuple_chars (vs : List Value) : (markedTuple vs).map Prod.fst = tuple vs := by
  cases vs with
  | nil => simp [markedTuple, tuple]
  | cons v rest =>
    simp [markedTuple, tuple, markedPlaceholders_chars v, markedRest_chars rest]
termination_by structural vs

theorem markedRest_chars (vs : List Value) : (markedRest vs).map Prod.fst = tupleRest vs := by
  cases vs with
  | nil => simp [markedRest, tupleRest]
  | cons v rest =>
    simp [markedRest, tupleRest, markedPlaceholders_chars v, markedRest_chars rest]
termination_by structural vs

end

theorem marked_chars (ps : List Piece) : (marked ps).map Prod.fst = chars ps := by
  induction ps with
  | nil => rfl
  | cons p ps ih =>
    have hp : p.marked.map Prod.fst = p.chars := by
      cases p with
      | text cs => simp [Piece.marked, Piece.chars]
      | name n => simp [Piece.marked, Piece.chars]
      | bound v => simp [Piece.marked, Piece.chars, markedPlaceholders_chars]
    simp [marked] at ih ⊢
    simp [hp, ih]

end PathQuery.Sql
