import PathQuery.StatementLog

/-!
What is left of a statement in the log. The search for the end of a cut goes down byte by byte and
stops at the first place between characters, so it finds the last such place within the limit; the
start of the text is one, and the search goes no further down.
-/

set_option autoImplicit false

namespace PathQuery.StatementLog

variable {s : String} {n : Nat}

/-- `kept` is the longest part of a text from its start that takes at most `limit` bytes. Texts
consist of whole characters, so it ends between two of them. -/
structure LongestStart (s : String) (limit : Nat) (kept : String) : Prop where
  starts : ∃ rest, s = kept ++ rest
  fits : kept.utf8ByteSize ≤ limit
  longest : ∀ other rest, s = other ++ rest → other.utf8ByteSize ≤ limit →
    other.utf8ByteSize ≤ kept.utf8ByteSize

theorem boundary?_eq_some {place : s.Pos} (h : boundary? s n = some place) :
    place.offset.byteIdx ≤ n ∧
      ∀ other : s.Pos, other.offset.byteIdx ≤ n → other.offset.byteIdx ≤ place.offset.byteIdx := by
  induction n with
  | zero =>
    rw [boundary?] at h
    split at h
    · obtain rfl := Option.some.inj h
      exact ⟨Nat.le_refl 0, fun other hother => hother⟩
    · cases h
  | succ n ih =>
    rw [boundary?] at h
    split at h
    · obtain rfl := Option.some.inj h
      exact ⟨Nat.le_refl (n + 1), fun other hother => hother⟩
    · next hinside =>
      obtain ⟨hle, hlast⟩ := ih h
      refine ⟨Nat.le_succ_of_le hle, fun other hother => hlast other ?_⟩
      -- The byte behind lies inside a character, so no place of the text is there.
      have hne : other.offset.byteIdx ≠ n + 1 := by
        intro heq
        have hvalid := other.isValid
        rw [show other.offset = ⟨n + 1⟩ from String.Pos.Raw.ext heq] at hvalid
        exact hinside hvalid
      omega

theorem utf8ByteSize_sliceTo (place : s.Pos) :
    (s.sliceTo place).copy.utf8ByteSize = place.offset.byteIdx := by
  rw [place.splits.offset_eq_rawEndPos, String.byteIdx_rawEndPos]

theorem longestStart_of_boundary? {place : s.Pos} (h : boundary? s n = some place) :
    LongestStart s n (s.sliceTo place).copy where
  starts := ⟨_, place.splits.eq_append⟩
  fits := by
    rw [utf8ByteSize_sliceTo]
    exact (boundary?_eq_some h).1
  longest other rest hsplit hfits := by
    have hvalid : other.rawEndPos.IsValid s :=
      String.Pos.Raw.isValid_iff_exists_append.2 ⟨other, rest, hsplit, rfl⟩
    rw [utf8ByteSize_sliceTo]
    exact (boundary?_eq_some h).2 (s.pos other.rawEndPos hvalid) hfits

/-- A text is logged whole where there is no limit or it is within the limit. Any other is logged up
to the last place between characters within the limit, which the search reaches before it has run
through all bytes, and marked. -/
theorem truncate_within_limit (log : StatementLog) (s : String) :
    ((∀ limit, log.maxLength = some limit → s.utf8ByteSize ≤ limit) → log.truncate s = s) ∧
      ∀ limit, log.maxLength = some limit → limit < s.utf8ByteSize →
        ∃ place, boundary? s (min limit s.utf8ByteSize) = some place ∧
          ∃ kept, kept.utf8ByteSize = place.offset.byteIdx ∧ LongestStart s limit kept ∧
            log.truncate s = kept ++ "..." := by
  constructor
  · intro hwithin
    unfold truncate
    cases hmax : log.maxLength with
    | none => rfl
    | some limit => exact if_neg (Nat.not_lt.2 (hwithin limit hmax))
  · intro limit hmax hlong
    obtain ⟨place, hplace⟩ :=
      Option.isSome_iff_exists.1 (isSome_boundary? s (min limit s.utf8ByteSize))
    have hlongest := longestStart_of_boundary? hplace
    rw [Nat.min_eq_left (Nat.le_of_lt hlong)] at hlongest
    refine ⟨place, hplace, (s.sliceTo place).copy, utf8ByteSize_sliceTo place, hlongest, ?_⟩
    rw [truncate, hmax]
    simp only [hlong, if_true, cut, hplace, Option.get_some]

/-- Six bytes hold the whole text; two end inside its second character. -/
theorem truncate_within_limit_of_accent :
    ({ maxLength := some 6 } : StatementLog).truncate "héllo" = "héllo" ∧
      ∃ place, boundary? "héllo" (min 2 "héllo".utf8ByteSize) = some place ∧
        ∃ kept, kept.utf8ByteSize = place.offset.byteIdx ∧ LongestStart "héllo" 2 kept ∧
          ({ maxLength := some 2 } : StatementLog).truncate "héllo" = kept ++ "..." := by
  have hwithin : ∀ limit, some 6 = some limit → "héllo".utf8ByteSize ≤ limit := by
    rintro limit ⟨⟩
    decide
  have hlong : 2 < "héllo".utf8ByteSize := by decide
  exact ⟨(truncate_within_limit { maxLength := some 6 } "héllo").1 hwithin,
    (truncate_within_limit { maxLength := some 2 } "héllo").2 2 rfl hlong⟩

end PathQuery.StatementLog
