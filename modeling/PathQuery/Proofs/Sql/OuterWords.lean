import Mathlib.Data.List.SplitBy
import PathQuery.Ident
import PathQuery.Operator

/-!
A reader of SQL that sees only what stands outside of backticks and parentheses. It takes a text
apart into words and finds the keywords among them. Texts that close whatever they open can be
read one behind the other.
-/

set_option autoImplicit false

namespace PathQuery.Sql

/-- In how many parentheses a reader stands, and whether between backticks. A doubled backtick
closes a name and opens it again. -/
structure Nesting where
  parens : Nat := 0
  quoted : Bool := false
  deriving DecidableEq, Repr

namespace Nesting

def next? (n : Nesting) (c : Char) : Option Nesting :=
  if c = '`' then some { n with quoted := !n.quoted }
  else if n.quoted then some n
  else if c = '(' then some { n with parens := n.parens + 1 }
  else if c = ')' then if n.parens = 0 then none else some { n with parens := n.parens - 1 }
  else some n

def next (n : Nesting) (c : Char) : Nesting :=
  (n.next? c).getD n

def shows (n : Nesting) (c : Char) : Bool :=
  n.parens == 0 && !n.quoted && c != '`' && c != '(' && c != ')'

def deeper (k : Nat) (n : Nesting) : Nesting :=
  { n with parens := n.parens + k }

end Nesting

/-- A character, and whether it stands outside of backticks and parentheses. -/
abbrev Seen := Char × Bool

def seen : Nesting → List Char → List Seen
  | _, [] => []
  | n, c :: rest => (c, n.shows c) :: seen (n.next c) rest

def joined (a b : Seen) : Bool :=
  a.2 && b.2 && Ident.isWordChar a.1 && Ident.isWordChar b.1

/-- A run of outer word characters, or a single character of another sort. -/
abbrev Word := List Seen

def outerWords (text : List Char) : List Word :=
  (seen {} text).splitBy joined

inductive Keyword where
  | joining (c : Connective)
  | between
  | opening
  | closing
  deriving DecidableEq, Repr

def Keyword.spellings : List (List Char × Keyword) :=
  [("AND".toList, .joining .and), ("OR".toList, .joining .or), ("BETWEEN".toList, .between),
    ("WHERE".toList, .opening), ("GROUP".toList, .closing), ("ORDER".toList, .closing),
    ("LIMIT".toList, .closing)]

def keyword? (w : Word) : Option Keyword :=
  if w.all Prod.snd then Keyword.spellings.lookup (Text.upperAscii (w.map Prod.fst)) else none

def keywordsOf (ws : List Word) : List Keyword :=
  ws.filterMap keyword?

def keywords (text : List Char) : List Keyword :=
  keywordsOf (outerWords text)

def nestingBehind (n : Nesting) (text : List Char) : Option Nesting :=
  text.foldlM Nesting.next? n

/-- The text closes the backticks and the parentheses that it opens, and no others. -/
def Balanced (text : List Char) : Prop :=
  nestingBehind {} text = some {}

instance (text : List Char) : Decidable (Balanced text) :=
  inferInstanceAs (Decidable (_ = _))

section Nesting

variable {n m : Nesting} {c : Char} {t u : List Char}

theorem next?_deeper (h : n.next? c = some m) (k : Nat) :
    (n.deeper k).next? c = some (m.deeper k) := by
  obtain ⟨parens, quoted⟩ := n
  simp only [Nesting.next?] at h
  simp only [Nesting.next?, Nesting.deeper]
  by_cases hbacktick : c = '`'
  · simp only [hbacktick, if_true, Option.some.injEq] at h ⊢
    simp [← h]
  · cases quoted with
    | true =>
      simp only [hbacktick, if_true, if_false, Option.some.injEq] at h ⊢
      simp [← h]
    | false =>
      by_cases hopen : c = '('
      · subst hopen
        obtain rfl : { parens := parens + 1 } = m := Option.some.inj h
        simp [Nat.add_right_comm]
      · by_cases hclose : c = ')'
        · subst hclose
          cases parens with
          | zero => simp at h
          | succ parens =>
            obtain rfl : { parens } = m := Option.some.inj h
            simp [Nat.add_right_comm]
        · simp [hbacktick, hopen, hclose] at h
          simp [hbacktick, hopen, hclose, ← h]

theorem nestingBehind_nil (n : Nesting) : nestingBehind n [] = some n := rfl

theorem nestingBehind_cons (n : Nesting) (c : Char) (t : List Char) :
    nestingBehind n (c :: t) = (n.next? c).bind (nestingBehind · t) := by
  simp [nestingBehind]

theorem nestingBehind_append (n : Nesting) (t u : List Char) :
    nestingBehind n (t ++ u) = (nestingBehind n t).bind (nestingBehind · u) := by
  simp [nestingBehind]

theorem nestingBehind_deeper (h : nestingBehind n t = some m) (k : Nat) :
    nestingBehind (n.deeper k) t = some (m.deeper k) := by
  induction t generalizing n with
  | nil => simpa [nestingBehind_nil] using congrArg (Option.map (Nesting.deeper k)) h
  | cons c t ih =>
    rw [nestingBehind_cons, Option.bind_eq_some_iff] at h
    obtain ⟨n', hnext, ht⟩ := h
    rw [nestingBehind_cons, next?_deeper hnext, Option.bind_some, ih ht]

theorem seen_map_fst (n : Nesting) (t : List Char) : (seen n t).map Prod.fst = t := by
  induction t generalizing n with
  | nil => rfl
  | cons c t ih => simp [seen, ih]

theorem seen_append (h : nestingBehind n t = some m) (u : List Char) :
    seen n (t ++ u) = seen n t ++ seen m u := by
  induction t generalizing n with
  | nil =>
    obtain rfl : n = m := by simpa [nestingBehind_nil] using h
    rfl
  | cons c t ih =>
    rw [nestingBehind_cons, Option.bind_eq_some_iff] at h
    obtain ⟨n', hnext, ht⟩ := h
    have hstep : n.next c = n' := by simp [Nesting.next, hnext]
    rw [List.cons_append, seen, seen, hstep, ih ht, List.cons_append]

theorem seen_deeper (h : nestingBehind n t = some m) (k : Nat) :
    seen (n.deeper (k + 1)) t = t.map (·, false) := by
  induction t generalizing n with
  | nil => rfl
  | cons c t ih =>
    rw [nestingBehind_cons, Option.bind_eq_some_iff] at h
    obtain ⟨n', hnext, ht⟩ := h
    have hstep : (n.deeper (k + 1)).next c = n'.deeper (k + 1) := by
      simp [Nesting.next, next?_deeper hnext]
    have hhidden : (n.deeper (k + 1)).shows c = false := by simp [Nesting.shows, Nesting.deeper]
    rw [seen, hstep, ih ht, hhidden, List.map_cons]

end Nesting

namespace Balanced

variable {t u : List Char}

theorem nil : Balanced [] := rfl

theorem append (ht : Balanced t) (hu : Balanced u) : Balanced (t ++ u) := by
  rw [Balanced, nestingBehind_append, ht, Option.bind_some, hu]

theorem behind (ht : Balanced t) (k : Nat) :
    nestingBehind (Nesting.deeper k {}) t = some (Nesting.deeper k {}) :=
  nestingBehind_deeper ht k

theorem parens (ht : Balanced t) : Balanced ('(' :: t ++ [')']) := by
  have hopen : Nesting.next? {} '(' = some (Nesting.deeper 1 {}) := rfl
  have hclose : nestingBehind (Nesting.deeper 1 {}) [')'] = some {} := rfl
  rw [Balanced, List.cons_append, nestingBehind_cons, hopen, Option.bind_some,
    nestingBehind_append, ht.behind 1, Option.bind_some, hclose]

theorem of_forall (h : ∀ c ∈ t, c ≠ '`' ∧ c ≠ '(' ∧ c ≠ ')') : Balanced t := by
  induction t with
  | nil => exact nil
  | cons c t ih =>
    obtain ⟨⟨hbacktick, hopen, hclose⟩, ht⟩ := List.forall_mem_cons.1 h
    have hstep : Nesting.next? {} c = some {} := by
      simp [Nesting.next?, hbacktick, hopen, hclose]
    rw [Balanced, nestingBehind_cons, hstep, Option.bind_some]
    exact ih ht

end Balanced

theorem seen_escape (name : List Char) :
    nestingBehind { quoted := true } (Ident.escape name) = some { quoted := true } ∧
      seen { quoted := true } (Ident.escape name) = (Ident.escape name).map (·, false) := by
  induction name with
  | nil => exact ⟨rfl, rfl⟩
  | cons c name ih =>
    by_cases hc : c = '`'
    · have hclose : Nesting.next? { quoted := true } '`' = some {} := rfl
      have hopen : Nesting.next? {} '`' = some { quoted := true } := rfl
      have hnext : Nesting.next { quoted := true } '`' = {} := rfl
      have hnext' : Nesting.next {} '`' = { quoted := true } := rfl
      rw [Ident.escape, if_pos hc]
      constructor
      · rw [nestingBehind_cons, hclose, Option.bind_some, nestingBehind_cons, hopen,
          Option.bind_some, ih.1]
      · rw [seen, hnext, seen, hnext', ih.2]
        rfl
    · have hstep : Nesting.next? { quoted := true } c = some { quoted := true } := by
        simp [Nesting.next?, hc]
      have hnext : Nesting.next { quoted := true } c = { quoted := true } := by
        simp [Nesting.next, hstep]
      rw [Ident.escape, if_neg hc]
      constructor
      · rw [nestingBehind_cons, hstep, Option.bind_some, ih.1]
      · rw [seen, hnext, ih.2]
        rfl

theorem balanced_quoted (name : List Char) : Balanced (Ident.quoted name) := by
  have hopen : Nesting.next? {} '`' = some { quoted := true } := rfl
  have hclose : nestingBehind { quoted := true } ['`'] = some {} := rfl
  rw [Balanced, Ident.quoted, List.cons_append, nestingBehind_cons, hopen, Option.bind_some,
    nestingBehind_append, (seen_escape name).1, Option.bind_some, hclose]

/-- Of a quoted name nothing stands outside, whatever characters it holds. -/
theorem seen_quoted (name : List Char) :
    seen {} (Ident.quoted name) = (Ident.quoted name).map (·, false) := by
  have hnext : Nesting.next {} '`' = { quoted := true } := rfl
  rw [Ident.quoted, List.cons_append, seen, hnext, seen_append (seen_escape name).1,
    (seen_escape name).2, List.map_cons, List.map_append]
  rfl

theorem seen_parens {t : List Char} (ht : Balanced t) :
    seen {} ('(' :: t ++ [')']) = ('(' :: t ++ [')']).map (·, false) := by
  have hnext : Nesting.next {} '(' = Nesting.deeper 1 {} := rfl
  rw [List.cons_append, seen, hnext, seen_append (ht.behind 1), seen_deeper ht 0, List.map_cons,
    List.map_append]
  rfl

/-- Two texts whose words do not run together. -/
def Apart (t u : List Char) : Prop :=
  ∀ c ∈ t.getLast?, ∀ d ∈ u.head?, Ident.isWordChar c = false ∨ Ident.isWordChar d = false

def Fresh (t : List Char) : Prop :=
  t.head?.any Ident.isWordChar = false

instance (t : List Char) : Decidable (Fresh t) :=
  inferInstanceAs (Decidable (_ = false))

def Done (t : List Char) : Prop :=
  t.getLast?.any Ident.isWordChar = false

instance (t : List Char) : Decidable (Done t) :=
  inferInstanceAs (Decidable (_ = false))

section Words

variable {t u : List Char}

theorem Fresh.nil : Fresh [] := rfl

theorem Fresh.cons {c : Char} (hc : Ident.isWordChar c = false) (t : List Char) : Fresh (c :: t) :=
  hc

theorem Fresh.apart (h : Fresh u) : Apart t u := by
  intro c _ d hd
  rw [Fresh, Option.mem_def.1 hd] at h
  exact .inr h

theorem Done.apart (h : Done t) : Apart t u := by
  intro c hc d _
  rw [Done, Option.mem_def.1 hc] at h
  exact .inl h

theorem outerWords_append (ht : Balanced t) (h : Apart t u) :
    outerWords (t ++ u) = outerWords t ++ outerWords u := by
  rw [outerWords, seen_append ht]
  refine List.splitBy_append fun a ha b hb => ?_
  have hlast : a.1 ∈ t.getLast? := by
    rw [← seen_map_fst {} t, List.getLast?_map]
    exact Option.mem_map_of_mem _ ha
  have hhead : b.1 ∈ u.head? := by
    rw [← seen_map_fst {} u, List.head?_map]
    exact Option.mem_map_of_mem _ hb
  rcases h a.1 hlast b.1 hhead with hword | hword
  · simp [joined, hword]
  · simp [joined, hword]

theorem keywords_append (ht : Balanced t) (h : Apart t u) :
    keywords (t ++ u) = keywords t ++ keywords u := by
  rw [keywords, outerWords_append ht h, keywordsOf, List.filterMap_append]
  rfl

/-- Taking a text apart into words forgets nothing. -/
theorem flatten_outerWords (t : List Char) : (outerWords t).flatten.map Prod.fst = t := by
  rw [outerWords, List.flatten_splitBy, seen_map_fst]

/-- Letters that no keyword starts with, and characters that do not stand outside. -/
def isSilent (a : Seen) : Bool :=
  !(a.2 && "AOBWGL".toList.contains a.1.toUpper)

theorem keyword?_of_isSilent {a : Seen} {w : Word} (h : isSilent a = true) :
    keyword? (a :: w) = none := by
  have hinitial : ∀ entry ∈ Keyword.spellings, entry.1.head?.all ("AOBWGL".toList.contains ·) := by
    decide
  by_cases hall : (a :: w).all Prod.snd
  · have houter : a.2 = true := by
      simp only [List.all_cons, Bool.and_eq_true] at hall
      exact hall.1
    have hnone : ∀ entry ∈ Keyword.spellings,
        (Text.upperAscii ((a :: w).map Prod.fst) != entry.1) = true := by
      intro entry hentry
      rw [bne_iff_ne]
      intro heq
      have hstart := hinitial entry hentry
      rw [← heq, List.map_cons, Text.upperAscii, List.map_cons, List.head?_cons,
        Option.all_some] at hstart
      rw [isSilent, houter, hstart] at h
      exact absurd h (by decide)
    rw [keyword?, if_pos hall, List.lookup_eq_none_iff]
    exact hnone
  · rw [keyword?, if_neg hall]

theorem keywords_eq_nil_of_seen (h : ∀ a ∈ seen {} t, isSilent a = true) : keywords t = [] := by
  rw [keywords, keywordsOf, List.filterMap_eq_nil_iff]
  intro w hw
  cases w with
  | nil => exact absurd hw (List.nil_notMem_splitBy _ _)
  | cons a w =>
    refine keyword?_of_isSilent (h a ?_)
    rw [← List.flatten_splitBy joined (seen {} t)]
    exact List.mem_flatten.2 ⟨a :: w, hw, List.mem_cons_self⟩

theorem keywords_of_hidden (h : seen {} t = t.map (·, false)) : keywords t = [] := by
  refine keywords_eq_nil_of_seen fun a ha => ?_
  rw [h, List.mem_map] at ha
  obtain ⟨c, _, rfl⟩ := ha
  rfl

end Words

end PathQuery.Sql
