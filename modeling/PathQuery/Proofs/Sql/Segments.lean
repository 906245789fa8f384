import Mathlib.Data.List.TakeWhile
import PathQuery.Proofs.Sql.OuterWords

/-!
Conditions read off a text. The text is split at the AND and OR that stand outside of backticks and
parentheses, where a BETWEEN owns the first AND behind it. Texts that read as one condition can be
joined by connectives: splitting gives back the texts and the connectives.
-/

set_option autoImplicit false

namespace PathQuery

namespace Text

def isTight (t : List Char) : Bool :=
  t.head?.any (! isBlank ·) && t.getLast?.any (! isBlank ·)

section Ends

variable {t u : List Char} {p : Char → Bool}

theorem first_append (h : t.head?.any p = true) (u : List Char) : (t ++ u).head?.any p = true := by
  cases t with
  | nil => simp at h
  | cons c t => exact h

theorem last_append (t : List Char) (h : u.getLast?.any p = true) :
    (t ++ u).getLast?.any p = true := by
  have hne : u ≠ [] := by
    rintro rfl
    simp at h
  rwa [List.getLast?_append_of_ne_nil _ hne]

theorem isTight_append (ht : t.head?.any (! isBlank ·) = true)
    (hu : u.getLast?.any (! isBlank ·) = true) : isTight (t ++ u) = true :=
  Bool.and_eq_true_iff.2 ⟨first_append ht u, last_append t hu⟩

end Ends

variable {t : List Char}

theorem dropWhile_isBlank {pre u : List Char} (hpre : ∀ c ∈ pre, isBlank c = true)
    (hu : u.head?.any (! isBlank ·) = true) : (pre ++ u).dropWhile isBlank = u := by
  rw [List.dropWhile_append_of_pos hpre]
  cases u with
  | nil => rfl
  | cons c u =>
    have hc : isBlank c = false := by simpa using hu
    simp [hc]

theorem trim_of_isTight {pre post : List Char} (hpre : ∀ c ∈ pre, isBlank c = true)
    (hpost : ∀ c ∈ post, isBlank c = true) (ht : isTight t = true) :
    trim (pre ++ (t ++ post)) = t := by
  obtain ⟨hfirst, hlast⟩ := Bool.and_eq_true_iff.1 ht
  have hstart : trimStart (pre ++ (t ++ post)) = t ++ post :=
    dropWhile_isBlank hpre (first_append hfirst post)
  have hreverse : (post.reverse ++ t.reverse).dropWhile isBlank = t.reverse :=
    dropWhile_isBlank (fun c hc => hpost c (List.mem_reverse.1 hc))
      (by rw [List.head?_reverse]; exact hlast)
  rw [trim, hstart, trimEnd, List.reverse_append, hreverse, List.reverse_reverse]

end Text

namespace Sql

def written (ws : List Word) : List Char :=
  Text.trim (ws.flatten.map Prod.fst)

/-- Takes words apart at AND and OR. A BETWEEN owns the first AND behind it: while one is owed, an
AND is a word like others. -/
def cut (owed : Bool) : List Word → List Word × List (Connective × List Word)
  | [] => ([], [])
  | w :: rest =>
    match keyword? w with
    | some .between => (w :: (cut true rest).1, (cut true rest).2)
    | some (.joining c) =>
      if owed && c == .and then (w :: (cut false rest).1, (cut false rest).2)
      else ([], (c, (cut owed rest).1) :: (cut owed rest).2)
    | _ => (w :: (cut owed rest).1, (cut owed rest).2)

/-- The first condition of a text, and the others with the connectives in front of them. -/
def split (text : List Char) : List Char × List (Connective × List Char) :=
  let parts := cut false (outerWords text)
  (written parts.1, parts.2.map fun part => (part.1, written part.2))

/-- The text behind the WHERE of a statement, up to the next clause. -/
def whereText? (text : List Char) : Option (List Char) :=
  match (outerWords text).dropWhile (keyword? · != some .opening) with
  | [] => none
  | _ :: rest => some (written (rest.takeWhile (keyword? · != some .closing)))

def upToClosing : Nesting → List Char → Option (List Char × List Char)
  | _, [] => none
  | n, c :: rest =>
    match n.next? c with
    | none => some ([], rest)
    | some n' => (upToClosing n' rest).map fun parts => (c :: parts.1, parts.2)

def enclosed? (text : List Char) : Option (List Char × List Char × List Char) :=
  match text.dropWhile (· != '(') with
  | [] => none
  | _ :: rest =>
    (upToClosing {} rest).map fun parts => (text.takeWhile (· != '('), parts.1, parts.2)

theorem upToClosing_append {n m : Nesting} {t : List Char} (h : nestingBehind n t = some m)
    (u : List Char) :
    upToClosing n (t ++ u) = (upToClosing m u).map fun parts => (t ++ parts.1, parts.2) := by
  induction t generalizing n with
  | nil =>
    obtain rfl : n = m := by simpa [nestingBehind_nil] using h
    simp
  | cons c t ih =>
    rw [nestingBehind_cons, Option.bind_eq_some_iff] at h
    obtain ⟨n', hnext, ht⟩ := h
    simp [upToClosing, hnext, ih ht, Function.comp_def]

theorem enclosed?_append (before : List Char) {inner : List Char} (hbefore : '(' ∉ before)
    (hinner : Balanced inner) (after : List Char) :
    enclosed? (before ++ '(' :: (inner ++ ')' :: after)) = some (before, inner, after) := by
  have hall : ∀ c ∈ before, (c != '(') = true := by
    intro c hc
    rw [bne_iff_ne]
    rintro rfl
    exact hbefore hc
  have hdrop : (before ++ '(' :: (inner ++ ')' :: after)).dropWhile (· != '(') =
      '(' :: (inner ++ ')' :: after) := by
    rw [List.dropWhile_append_of_pos hall]
    rfl
  have htake : (before ++ '(' :: (inner ++ ')' :: after)).takeWhile (· != '(') = before := by
    rw [List.takeWhile_append_of_pos hall]
    simp
  have hclosing : upToClosing {} (')' :: after) = some ([], after) := rfl
  rw [enclosed?, hdrop, htake]
  simp [upToClosing_append hinner, hclosing]

/-- Whether an AND is owed behind some keywords; nothing if a condition ends between them. -/
def owedBehind : Bool → List Keyword → Option Bool
  | owed, [] => some owed
  | _, .between :: rest => owedBehind true rest
  | owed, .joining c :: rest => if owed && c == .and then owedBehind false rest else none
  | owed, _ :: rest => owedBehind owed rest

theorem cut_append {owed owed' : Bool} {ws : List Word}
    (h : owedBehind owed (keywordsOf ws) = some owed') (rest : List Word) :
    cut owed (ws ++ rest) = (ws ++ (cut owed' rest).1, (cut owed' rest).2) := by
  induction ws generalizing owed with
  | nil =>
    obtain rfl : owed = owed' := by simpa [keywordsOf, owedBehind] using h
    rfl
  | cons w ws ih =>
    rw [keywordsOf, List.filterMap_cons] at h
    rw [List.cons_append, cut]
    cases hw : keyword? w with
    | none =>
      simp only [hw] at h
      simp [ih h]
    | some k =>
      cases k with
      | opening | closing | between =>
        simp only [hw, owedBehind] at h
        simp [ih h]
      | joining c =>
        simp only [hw, owedBehind] at h
        by_cases hc : (owed && c == .and) = true
        · rw [if_pos hc] at h
          simp [hc, ih h]
        · simp [hc] at h

/-- The text of one condition: read by itself it is not split, it holds no other clause, and no
blank stands around it. -/
structure IsSegment (t : List Char) : Prop where
  balanced : Balanced t
  whole : owedBehind false (keywords t) = some false
  within : ∀ k ∈ keywords t, k ≠ .opening ∧ k ≠ .closing
  tight : Text.isTight t = true

def laterText : List (Connective × List Char) → List Char
  | [] => []
  | part :: rest => (' ' :: part.1.sql.toList ++ [' ']) ++ (part.2 ++ laterText rest)

section LaterText

variable {later : List (Connective × List Char)}

theorem balanced_connective (c : Connective) : Balanced (' ' :: c.sql.toList ++ [' ']) := by
  cases c <;> decide

theorem done_connective (c : Connective) : Done (' ' :: c.sql.toList ++ [' ']) := by
  cases c <;> decide

theorem fresh_laterText (later : List (Connective × List Char)) : Fresh (laterText later) := by
  cases later with
  | nil => decide
  | cons part rest => exact .cons (by decide) _

theorem outerWords_laterText_cons (c : Connective) {t : List Char} (ht : Balanced t)
    (rest : List (Connective × List Char)) :
    outerWords (laterText ((c, t) :: rest)) =
      outerWords (' ' :: c.sql.toList ++ [' ']) ++
        (outerWords t ++ outerWords (laterText rest)) := by
  rw [laterText, outerWords_append (balanced_connective c) (done_connective c).apart,
    outerWords_append ht (fresh_laterText rest).apart]

theorem cut_connective (c : Connective) (ws : List Word) :
    cut false (outerWords (' ' :: c.sql.toList ++ [' ']) ++ ws) =
      ([[(' ', true)]], (c, [(' ', true)] :: (cut false ws).1) :: (cut false ws).2) := by
  cases c with
  | and => rfl
  | or => rfl

theorem written_segment {t : List Char} (ht : IsSegment t) (pre : List Word) {post : List Word}
    (hpre : ∀ c ∈ pre.flatten.map Prod.fst, Text.isBlank c = true)
    (hpost : ∀ c ∈ post.flatten.map Prod.fst, Text.isBlank c = true) :
    written (pre ++ (outerWords t ++ post)) = t := by
  rw [written, List.flatten_append, List.flatten_append, List.map_append, List.map_append,
    flatten_outerWords]
  exact Text.trim_of_isTight hpre hpost ht.tight

/-- Only blanks stand in front of the first connective, and each connective is followed by its
condition. -/
theorem cut_laterText (h : ∀ part ∈ later, IsSegment part.2) :
    (∀ c ∈ (cut false (outerWords (laterText later))).1.flatten.map Prod.fst,
        Text.isBlank c = true) ∧
      (cut false (outerWords (laterText later))).2.map (fun part => (part.1, written part.2)) =
        later := by
  induction later with
  | nil => exact ⟨by simp [laterText, outerWords, seen, cut], rfl⟩
  | cons part rest ih =>
    obtain ⟨c, t⟩ := part
    obtain ⟨ht, hrest⟩ := List.forall_mem_cons.1 h
    obtain ⟨hgap, hlater⟩ := ih hrest
    rw [outerWords_laterText_cons c ht.balanced, cut_connective, cut_append ht.whole]
    refine ⟨by simp [Text.isBlank], ?_⟩
    have hwritten := written_segment ht [[(' ', true)]] (by simp [Text.isBlank]) hgap
    rw [List.map_cons, hlater]
    exact congrArg (fun own => (c, own) :: rest) hwritten

/-- Splitting conditions that were joined by connectives gives them back. -/
theorem split_append_laterText {t : List Char} (ht : IsSegment t)
    (h : ∀ part ∈ later, IsSegment part.2) : split (t ++ laterText later) = (t, later) := by
  obtain ⟨hgap, hlater⟩ := cut_laterText h
  have hwritten := written_segment ht [] (by simp) hgap
  rw [split, outerWords_append ht.balanced (fresh_laterText later).apart, cut_append ht.whole]
  exact Prod.ext hwritten hlater

example : split "`a` BETWEEN ? AND ? or (`b` = ? OR `c` = ?) AND `x AND y` IS NULL".toList =
    ("`a` BETWEEN ? AND ?".toList,
      [(.or, "(`b` = ? OR `c` = ?)".toList), (.and, "`x AND y` IS NULL".toList)]) := by
  decide +kernel

theorem balanced_laterText (h : ∀ part ∈ later, IsSegment part.2) : Balanced (laterText later) := by
  induction later with
  | nil => exact .nil
  | cons part rest ih =>
    obtain ⟨ht, hrest⟩ := List.forall_mem_cons.1 h
    exact (balanced_connective part.1).append (ht.balanced.append (ih hrest))

theorem keywords_laterText (h : ∀ part ∈ later, IsSegment part.2) :
    ∀ k ∈ keywords (laterText later), k ≠ .opening ∧ k ≠ .closing := by
  induction later with
  | nil => decide
  | cons part rest ih =>
    obtain ⟨c, t⟩ := part
    obtain ⟨ht, hrest⟩ := List.forall_mem_cons.1 h
    have hconnective : keywords (' ' :: c.sql.toList ++ [' ']) = [.joining c] := by
      cases c <;> rfl
    rw [laterText, keywords_append (balanced_connective c) (done_connective c).apart,
      keywords_append ht.balanced (fresh_laterText rest).apart, hconnective]
    intro k hk
    rcases List.mem_append.1 hk with hk | hk
    · obtain rfl := List.mem_singleton.1 hk
      exact ⟨nofun, nofun⟩
    · exact (List.mem_append.1 hk).elim (ht.within k) (ih hrest k)

theorem isTight_append_laterText {t : List Char} (ht : Text.isTight t = true)
    (h : ∀ part ∈ later, IsSegment part.2) : Text.isTight (t ++ laterText later) = true := by
  induction later generalizing t with
  | nil => rwa [laterText, List.append_nil]
  | cons part rest ih =>
    obtain ⟨hpart, hrest⟩ := List.forall_mem_cons.1 h
    obtain ⟨hfirst, -⟩ := Bool.and_eq_true_iff.1 ht
    obtain ⟨-, hlast⟩ := Bool.and_eq_true_iff.1 (ih hpart.tight hrest)
    exact Text.isTight_append hfirst (Text.last_append _ hlast)

end LaterText

theorem keyword?_ne {k : Keyword} {ws : List Word} (h : k ∉ keywordsOf ws) :
    ∀ w ∈ ws, (keyword? w != some k) = true := by
  intro w hw
  rw [bne_iff_ne]
  exact fun hk => h (List.mem_filterMap.2 ⟨w, hw, hk⟩)

theorem whereText?_eq_none {t : List Char} (h : .opening ∉ keywords t) : whereText? t = none := by
  have hdrop : (outerWords t).dropWhile (keyword? · != some .opening) = [] :=
    List.dropWhile_eq_nil_iff.2 (keyword?_ne h)
  rw [whereText?, hdrop]

def IsTail (t : List Char) : Prop :=
  t = [] ∨ ∃ w ws, outerWords t = [(' ', true)] :: w :: ws ∧ keyword? w = some .closing

theorem takeWhile_tail {ws : List Word} {tail : List Char} (hws : .closing ∉ keywordsOf ws)
    (htail : IsTail tail) :
    ∃ gap : List Word, (∀ c ∈ gap.flatten.map Prod.fst, Text.isBlank c = true) ∧
      (ws ++ outerWords tail).takeWhile (keyword? · != some .closing) = ws ++ gap := by
  rcases htail with rfl | ⟨w, rest, hw, hkeyword⟩
  · refine ⟨[], by simp, ?_⟩
    rw [List.takeWhile_append_of_pos (keyword?_ne hws)]
    rfl
  · refine ⟨[[(' ', true)]], by simp [Text.isBlank], ?_⟩
    have hblank : keyword? [(' ', true)] = none := by decide
    rw [List.takeWhile_append_of_pos (keyword?_ne hws), hw]
    simp [hblank, hkeyword]

/-- Between the text in front of the WHERE and the clauses behind, the conditions are found. -/
theorem whereText?_append {head conditions tail : List Char} (hhead : Balanced head)
    (hwhere : .opening ∉ keywords head) (hconditions : Balanced conditions)
    (hclosing : .closing ∉ keywords conditions) (htight : Text.isTight conditions = true)
    (hfresh : Fresh tail) (htail : IsTail tail) :
    whereText? (head ++ (" WHERE ".toList ++ (conditions ++ tail))) = some conditions := by
  let mark : Word := [('W', true), ('H', true), ('E', true), ('R', true), ('E', true)]
  have hfront : Fresh (" WHERE ".toList ++ (conditions ++ tail)) := .cons (by decide) _
  have hwords : outerWords (head ++ (" WHERE ".toList ++ (conditions ++ tail))) =
      outerWords head ++ ([[(' ', true)], mark, [(' ', true)]] ++
        (outerWords conditions ++ outerWords tail)) := by
    rw [outerWords_append hhead hfront.apart,
      outerWords_append (by decide) (Done.apart (by decide)),
      outerWords_append hconditions hfresh.apart]
    rfl
  have hdrop : (outerWords (head ++ (" WHERE ".toList ++ (conditions ++ tail)))).dropWhile
      (keyword? · != some .opening) =
      mark :: (([(' ', true)] :: outerWords conditions) ++ outerWords tail) := by
    rw [hwords, List.dropWhile_append_of_pos (keyword?_ne hwhere)]
    rfl
  have hclosing' : .closing ∉ keywordsOf ([(' ', true)] :: outerWords conditions) := by
    have hblank : keyword? [(' ', true)] = none := by decide
    rwa [keywordsOf, List.filterMap_cons_none hblank]
  obtain ⟨gap, hgap, htake⟩ := takeWhile_tail hclosing' htail
  rw [whereText?, hdrop]
  simp only [htake]
  rw [written, List.cons_append, List.flatten_cons, List.flatten_append, List.map_append,
    List.map_append, flatten_outerWords]
  exact congrArg some (Text.trim_of_isTight (by simp [Text.isBlank]) hgap htight)

end Sql

end PathQuery
