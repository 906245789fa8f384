import PathQuery.Proofs.Outcome
import PathQuery.Proofs.Sql.QuotedNames
import PathQuery.Proofs.Text.Letters

/-!
What is accepted as an identifier. The grammar is stated over texts, without the splitting loop that
checks them: segments with single dots between them, ASCII throughout. What is accepted is written
as it stands, a backtick on either side of each segment.
-/

set_option autoImplicit false

namespace PathQuery

namespace Text

variable {sep : Char} {cs : List Char}

theorem splitOn_append_sep (h : sep ∉ cs) (rest : List Char) :
    splitOn sep (cs ++ sep :: rest) = cs :: splitOn sep rest := by
  induction cs with
  | nil => rw [List.nil_append, splitOn, if_pos rfl]
  | cons c cs ih =>
    rw [List.mem_cons, not_or] at h
    rw [List.cons_append, splitOn, if_neg (Ne.symm h.1), ih h.2]

theorem splitOn_of_notMem (h : sep ∉ cs) : splitOn sep cs = [cs] := by
  induction cs with
  | nil => rfl
  | cons c cs ih =>
    rw [List.mem_cons, not_or] at h
    rw [splitOn, if_neg (Ne.symm h.1), ih h.2]

end Text

namespace Ident

/-- A letter or an underscore, and behind it letters, digits, underscores and dollar signs. Letters
and digits are those of ASCII. -/
inductive IsSegment : List Char → Prop
  | mk {c : Char} {rest : List Char} (first : c.isAlpha ∨ c = '_')
    (others : ∀ d ∈ rest, d.isAlphanum ∨ d = '_' ∨ d = '$') : IsSegment (c :: rest)

inductive IsDotted : List Char → Prop
  | single {s : List Char} (segment : IsSegment s) : IsDotted s
  | cons {s rest : List Char} (segment : IsSegment s) (dotted : IsDotted rest) :
    IsDotted (s ++ '.' :: rest)

theorem isStart_iff {c : Char} : isStart c = true ↔ c.isAlpha ∨ c = '_' := by
  simp [isStart, isAsciiLetter, Text.isAlpha_iff, Text.isUpper_iff, Text.isLower_iff]
  tauto

theorem isWordChar_iff {c : Char} : isWordChar c = true ↔ c.isAlphanum ∨ c = '_' ∨ c = '$' := by
  simp [isWordChar, isAsciiLetter, Text.isAlphanum_iff, Text.isAlpha_iff, Text.isUpper_iff,
    Text.isLower_iff, Text.isDigit_iff]
  tauto

theorem IsSegment.notMem {s : List Char} (h : IsSegment s) {c : Char}
    (hword : isWordChar c = false) : c ∉ s := by
  obtain ⟨first, others⟩ := h
  intro hc
  have hchar : c.isAlphanum ∨ c = '_' ∨ c = '$' := by
    rcases List.mem_cons.1 hc with rfl | hc
    · exact first.imp Text.isAlphanum_of_isAlpha .inl
    · exact others c hc
  rw [isWordChar_iff.2 hchar] at hword
  cases hword

theorem isDotted_intercalate {segments : List (List Char)} (hne : segments ≠ [])
    (h : ∀ s ∈ segments, IsSegment s) : IsDotted (['.'].intercalate segments) := by
  induction segments with
  | nil => exact absurd rfl hne
  | cons s rest ih =>
    rw [List.forall_mem_cons] at h
    cases rest with
    | nil => simpa [List.intercalate] using IsDotted.single h.1
    | cons s' rest =>
      have hrest := ih (List.cons_ne_nil _ _) h.2
      have htext :
          ['.'].intercalate (s :: s' :: rest) = s ++ '.' :: ['.'].intercalate (s' :: rest) := by
        simp [List.intercalate]
      rw [htext]
      exact .cons h.1 hrest

theorem isDotted_iff {cs : List Char} :
    IsDotted cs ↔ ∀ s ∈ Text.splitOn '.' cs, IsSegment s := by
  constructor
  · intro h
    induction h with
    | single segment =>
      rw [Text.splitOn_of_notMem (segment.notMem (by decide))]
      simpa using segment
    | cons segment _ ih =>
      rw [Text.splitOn_append_sep (segment.notMem (by decide)), List.forall_mem_cons]
      exact ⟨segment, ih⟩
  · intro h
    rw [← Text.intercalate_splitOn '.' cs]
    exact isDotted_intercalate (Text.splitOn_ne_nil '.' cs) h

theorem checkSegment_eq_ok_iff {text : String} {s s' : List Char} :
    checkSegment text s = .ok s' ↔ IsSegment s ∧ s' = s := by
  cases s with
  | nil => exact ⟨nofun, nofun⟩
  | cons c rest =>
    rw [checkSegment]
    constructor
    · intro h
      split at h
      · cases h
      · next hstart =>
        split at h
        · cases h
        · next hrest =>
          have hstart : isStart c = true := by simpa using hstart
          have hrest : ∀ d ∈ rest, isWordChar d = true := by simpa using hrest
          exact ⟨⟨isStart_iff.1 hstart, fun d hd => isWordChar_iff.1 (hrest d hd)⟩,
            (Except.ok.inj h).symm⟩
    · rintro ⟨⟨first, others⟩, rfl⟩
      have hrest : rest.find? (! isWordChar ·) = none := by
        simpa using fun d hd => isWordChar_iff.2 (others d hd)
      simp [isStart_iff.2 first, hrest]

theorem checkSegments_eq_ok_iff {text : String} {ss ss' : List (List Char)} :
    checkSegments text ss = .ok ss' ↔ (∀ s ∈ ss, IsSegment s) ∧ ss' = ss := by
  induction ss generalizing ss' with
  | nil => simp [checkSegments, eq_comm]
  | cons s rest ih =>
    rw [checkSegments, bind_eq_ok_iff, List.forall_mem_cons]
    constructor
    · rintro ⟨_, hs, h⟩
      obtain ⟨_, hrest, hpure⟩ := bind_eq_ok_iff.1 h
      obtain ⟨hsegment, rfl⟩ := checkSegment_eq_ok_iff.1 hs
      obtain ⟨hsegments, rfl⟩ := ih.1 hrest
      exact ⟨⟨hsegment, hsegments⟩, (pure_eq_ok_iff.1 hpure).symm⟩
    · rintro ⟨⟨hsegment, hsegments⟩, rfl⟩
      exact ⟨s, checkSegment_eq_ok_iff.2 ⟨hsegment, rfl⟩,
        bind_eq_ok_iff.2 ⟨rest, ih.2 ⟨hsegments, rfl⟩, rfl⟩⟩

theorem parse_eq_ok_iff {text : String} {i : Ident} :
    parse text = .ok i ↔ IsDotted text.toList ∧ i = ⟨Text.splitOn '.' text.toList⟩ := by
  rw [isDotted_iff, parse]
  split
  · next hempty =>
    rw [hempty]
    refine ⟨nofun, fun ⟨h, _⟩ => ?_⟩
    have hsegment := h [] (by simp [Text.splitOn])
    cases hsegment
  · rw [show Except.map Ident.mk = (Ident.mk <$> ·) from rfl, map_eq_ok_iff]
    constructor
    · rintro ⟨ss, hss, rfl⟩
      obtain ⟨h, rfl⟩ := checkSegments_eq_ok_iff.1 hss
      exact ⟨h, rfl⟩
    · rintro ⟨h, rfl⟩
      exact ⟨_, checkSegments_eq_ok_iff.2 ⟨h, rfl⟩, rfl⟩

theorem escape_eq_self {s : List Char} (h : '`' ∉ s) : escape s = s := by
  induction s with
  | nil => rfl
  | cons c s ih =>
    rw [List.mem_cons, not_or] at h
    rw [escape, if_neg (Ne.symm h.1), ih h.2]

end Ident

theorem Sql.chars_dottedName (segments : List (List Char)) :
    chars (dottedName segments) = ['.'].intercalate (segments.map Ident.quoted) := by
  induction segments with
  | nil => rfl
  | cons s rest ih =>
    cases rest with
    | nil => simp [chars_dottedName_single, List.intercalate]
    | cons s' rest =>
      rw [chars_dottedName_cons, ih]
      simp [List.intercalate]

/-- Exactly the texts of the grammar are accepted. An identifier is the text it was read from, and
is written like a table of that name: its segments, none of which holds a backtick, each between
two. -/
theorem Ident.parse_accepts_dotted (text : String) :
    ((∃ i, Ident.parse text = .ok i) ↔ IsDotted text.toList) ∧
      ∀ i, Ident.parse text = .ok i →
        i.text = text ∧ i.sql = Sql.chars (Sql.tableName text) ∧
          ∃ segments : List (List Char), ['.'].intercalate segments = text.toList ∧
            (∀ s ∈ segments, IsSegment s ∧ '`' ∉ s) ∧
            i.sql = ['.'].intercalate (segments.map fun s => '`' :: s ++ ['`']) := by
  refine ⟨⟨fun ⟨i, hi⟩ => (parse_eq_ok_iff.1 hi).1, fun h => ⟨_, parse_eq_ok_iff.2 ⟨h, rfl⟩⟩⟩, ?_⟩
  intro i hi
  obtain ⟨hdotted, rfl⟩ := parse_eq_ok_iff.1 hi
  have hjoined := Text.intercalate_splitOn '.' text.toList
  have hsegments := isDotted_iff.1 hdotted
  have hplain : ∀ s ∈ Text.splitOn '.' text.toList, '`' ∉ s :=
    fun s hs => (hsegments s hs).notMem (by decide)
  refine ⟨?_, ?_, Text.splitOn '.' text.toList, hjoined,
    fun s hs => ⟨hsegments s hs, hplain s hs⟩, ?_⟩
  · rw [Ident.text, hjoined, String.ofList_toList]
  · rw [Sql.tableName, Sql.chars_dottedName, Ident.sql]
  · rw [Ident.sql]
    congr 1
    exact List.map_congr_left fun s hs => by rw [quoted, escape_eq_self (hplain s hs)]

theorem Ident.parse_accepts_dotted_of_schema :
    let text := "my_db.t$1"
    let i : Ident := ⟨["my_db".toList, "t$1".toList]⟩
    Ident.parse text = .ok i ∧ IsDotted text.toList ∧
      i.text = text ∧ i.sql = Sql.chars (Sql.tableName text) ∧
        ∃ segments : List (List Char), ['.'].intercalate segments = text.toList ∧
          (∀ s ∈ segments, IsSegment s ∧ '`' ∉ s) ∧
          i.sql = ['.'].intercalate (segments.map fun s => '`' :: s ++ ['`']) := by
  have hparse : Ident.parse "my_db.t$1" = .ok ⟨["my_db".toList, "t$1".toList]⟩ := by decide
  have hexact := Ident.parse_accepts_dotted "my_db.t$1"
  exact ⟨hparse, hexact.1.1 ⟨_, hparse⟩, hexact.2 _ hparse⟩

end PathQuery
