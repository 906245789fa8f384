import PathQuery.Text.WordCase

/-!
Letters and their case. On ASCII the tables are not asked; past it a lower-case letter is in none of
the ranges that have a lower case elsewhere, so it is its own.
-/

set_option autoImplicit false

namespace PathQuery.Text

variable {c : Char}

theorem forall_ascii {P : Char → Prop} (h : ∀ n < 128, P (Char.ofNat n)) (hc : isAscii c = true) :
    P c := by
  have hlt : c.toNat < 128 := by simpa [isAscii] using hc
  simpa [Char.ofNat_toNat] using h c.toNat hlt

theorem isUpper_iff : c.isUpper = true ↔ 'A' ≤ c ∧ c ≤ 'Z' :=
  decide_eq_true_iff

theorem isLower_iff : c.isLower = true ↔ 'a' ≤ c ∧ c ≤ 'z' :=
  Bool.and_eq_true_iff.trans (and_congr decide_eq_true_iff decide_eq_true_iff)

theorem isDigit_iff : c.isDigit = true ↔ '0' ≤ c ∧ c ≤ '9' :=
  Bool.and_eq_true_iff.trans (and_congr decide_eq_true_iff decide_eq_true_iff)

theorem isAlpha_iff : c.isAlpha = true ↔ c.isUpper = true ∨ c.isLower = true :=
  Bool.or_eq_true_iff

theorem isAlphanum_iff : c.isAlphanum = true ↔ c.isAlpha = true ∨ c.isDigit = true :=
  Bool.or_eq_true_iff

theorem isAscii_of_isAlphanum (h : c.isAlphanum = true) : isAscii c = true := by
  have hval : c.toNat = c.val.toNat := rfl
  simp [isAlphanum_iff, isAlpha_iff, isUpper_iff, isLower_iff, isDigit_iff, Char.le_def,
    UInt32.le_iff_toNat_le] at h
  rw [isAscii, decide_eq_true_eq]
  omega

theorem isUppercase_of_isAlphanum (h : c.isAlphanum = true) : isUppercase c = c.isUpper :=
  if_pos (isAscii_of_isAlphanum h)

theorem isLowercase_of_isAlphanum (h : c.isAlphanum = true) : isLowercase c = c.isLower :=
  if_pos (isAscii_of_isAlphanum h)

theorem isAlphanumeric_of_isAlphanum (h : c.isAlphanum = true) : isAlphanumeric c = true :=
  (if_pos (isAscii_of_isAlphanum h)).trans h

theorem toLowercase_of_isAlphanum (h : c.isAlphanum = true) : toLowercase c = [c.toLower] :=
  if_pos (isAscii_of_isAlphanum h)

theorem toUppercase_of_isAlphanum (h : c.isAlphanum = true) : toUppercase c = [c.toUpper] :=
  if_pos (isAscii_of_isAlphanum h)

theorem isAlphanum_of_isAlpha (h : c.isAlpha = true) : c.isAlphanum = true :=
  isAlphanum_iff.2 (.inl h)

theorem isAlpha_of_isUpper (h : c.isUpper = true) : c.isAlpha = true :=
  isAlpha_iff.2 (.inl h)

theorem isAlpha_of_isLower (h : c.isLower = true) : c.isAlpha = true :=
  isAlpha_iff.2 (.inr h)

theorem forall_isAlphanum {P : Char → Prop} (h : ∀ n < 128, P (Char.ofNat n))
    (hc : c.isAlphanum = true) : P c :=
  forall_ascii h (isAscii_of_isAlphanum hc)

theorem isLower_of_isUpper (h : c.isUpper = true) : c.isLower = false :=
  forall_isAlphanum (P := fun c => c.isUpper = true → c.isLower = false) (by decide)
    (isAlphanum_of_isAlpha (isAlpha_of_isUpper h)) h

theorem isUpper_of_isLower (h : c.isLower = true) : c.isUpper = false := by
  rw [Bool.eq_false_iff]
  intro hupper
  rw [isLower_of_isUpper hupper] at h
  cases h

theorem isAlphanum_toLower (h : c.isAlphanum = true) : c.toLower.isAlphanum = true :=
  forall_isAlphanum (P := fun c => c.isAlphanum = true → c.toLower.isAlphanum = true)
    (by decide) h h

theorem isAlphanum_toUpper (h : c.isAlphanum = true) : c.toUpper.isAlphanum = true :=
  forall_isAlphanum (P := fun c => c.isAlphanum = true → c.toUpper.isAlphanum = true)
    (by decide) h h

theorem isLower_toLower (h : c.isAlpha = true) : c.toLower.isLower = true :=
  forall_isAlphanum (P := fun c => c.isAlpha = true → c.toLower.isLower = true) (by decide)
    (isAlphanum_of_isAlpha h) h

theorem isUpper_toUpper (h : c.isAlpha = true) : c.toUpper.isUpper = true :=
  forall_isAlphanum (P := fun c => c.isAlpha = true → c.toUpper.isUpper = true) (by decide)
    (isAlphanum_of_isAlpha h) h

theorem isUpper_toLower (h : c.isAlphanum = true) : c.toLower.isUpper = false :=
  forall_isAlphanum (P := fun c => c.toLower.isUpper = false) (by decide) h

theorem toLower_of_not_isUpper (h : c.isAlphanum = true) (hc : c.isUpper = false) : c.toLower = c :=
  forall_isAlphanum (P := fun c => c.isUpper = false → c.toLower = c) (by decide) h hc

theorem toUpper_of_isUpper (h : c.isUpper = true) : c.toUpper = c :=
  forall_isAlphanum (P := fun c => c.isUpper = true → c.toUpper = c) (by decide)
    (isAlphanum_of_isAlpha (isAlpha_of_isUpper h)) h

theorem toLower_toUpper (h : c.isAlphanum = true) : c.toUpper.toLower = c.toLower :=
  forall_isAlphanum (P := fun c => c.toUpper.toLower = c.toLower) (by decide) h

/-- Apart, or step by step at characters of different parity. -/
def CaseShift.clear (s : CaseShift) (r : CharRange) : Bool :=
  s.2.1 < r.1 || r.2.1 < s.1 ||
    (r.2.2 == 2 && s.1 % 2 != r.1 % 2 && (s.2.2.1 == 2 || s.1 == s.2.1))

theorem CaseShift.not_holds_of_clear {s : CaseShift} {r : CharRange}
    (h : s.clear r = true) {n : Nat} (hr : r.holds n = true) : s.holds n = false := by
  obtain ⟨first, last, step⟩ := r
  obtain ⟨start, stop, stride, shift⟩ := s
  rw [Bool.eq_false_iff]
  intro hs
  simp only [CaseShift.clear, CaseShift.holds, CharRange.holds, Bool.or_eq_true, Bool.and_eq_true,
    decide_eq_true_eq, beq_iff_eq, bne_iff_ne] at h hr hs
  rcases h with (h | h) | ⟨⟨rfl, hparity⟩, rfl | rfl⟩ <;> omega

/-- Checked range by range: no letter that has a lower case elsewhere counts as lower case. -/
theorem lowerShifts_clear :
    (lowerShifts.all fun s => lowercaseRanges.all fun r => s.clear r) = true := by
  decide +kernel

theorem lowerExpansions_clear :
    (lowerExpansions.all fun e => lowercaseRanges.all fun r => !r.holds e.1) = true := by
  decide +kernel

theorem toLowercase_of_isLowercase (h : isLowercase c = true) : toLowercase c = [c] := by
  by_cases hascii : isAscii c = true
  · rw [isLowercase, if_pos hascii] at h
    have hplain : c.isAlphanum = true := isAlphanum_of_isAlpha (isAlpha_of_isLower h)
    rw [toLowercase, if_pos hascii, toLower_of_not_isUpper hplain (isUpper_of_isLower h)]
  · rw [isLowercase, if_neg hascii, List.any_eq_true] at h
    obtain ⟨r, hr, hrange⟩ := h
    have hexpansion : lowerExpansions.lookup c.toNat = none := by
      rw [List.lookup_eq_none_iff]
      intro e he
      rw [bne_iff_ne]
      intro heq
      have hclear := List.all_eq_true.1 (List.all_eq_true.1 lowerExpansions_clear e he) r hr
      simp [← heq, hrange] at hclear
    have hshift : lowerShifts.find? (·.holds c.toNat) = none := by
      rw [List.find?_eq_none]
      intro s hs
      have hclear := List.all_eq_true.1 (List.all_eq_true.1 lowerShifts_clear s hs) r hr
      simp [CaseShift.not_holds_of_clear hclear hrange]
    rw [toLowercase, if_neg hascii, mapCase, hexpansion, hshift]

end PathQuery.Text
