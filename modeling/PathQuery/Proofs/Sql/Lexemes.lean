import Mathlib.Data.List.Infix
import PathQuery.Proofs.Sql.WriteGuard

/-!
The guard in front of execution against a grammar of SQL. A text is a sequence of lexemes with
blanks between them: words, quoted texts, comments, signs, and sequences in parentheses. What the
guard finds character by character is a word that stands in no parentheses.
-/

set_option autoImplicit false

namespace PathQuery.Sql

/-- A text that may stand between two marks: the mark itself is written twice, and between single
quotes a backslash guards the character behind it. -/
inductive IsQuotable (mark : Char) : List Char → Prop
  | nil : IsQuotable mark []
  | plain {c : Char} {cs : List Char} (other : c ≠ mark) (unguarded : mark = '\'' → c ≠ '\\')
    (rest : IsQuotable mark cs) : IsQuotable mark (c :: cs)
  | doubled {cs : List Char} (rest : IsQuotable mark cs) : IsQuotable mark (mark :: mark :: cs)
  | guarded {c : Char} {cs : List Char} (single : mark = '\'') (rest : IsQuotable mark cs) :
    IsQuotable mark ('\\' :: c :: cs)

def isSign (c : Char) : Bool :=
  !Ident.isWordChar c && !Text.isBlank c && !isQuoteMark c && c != '(' && c != ')'

/-- Whether a lexeme ends in front of the text: at its end, a blank or a closing parenthesis. -/
def isEnd (cs : List Char) : Bool :=
  cs.head?.all fun c => Text.isBlank c || c == ')'

mutual

/-- One lexeme, with the words in it that stand in no parentheses. -/
inductive IsLexeme : List Char → List (List Char) → Prop
  | word {w : List Char} (nonempty : w ≠ []) (chars : ∀ c ∈ w, Ident.isWordChar c = true) :
    IsLexeme w [w]
  | quoted {mark : Char} {body : List Char} (isMark : isQuoteMark mark = true)
    (quotable : IsQuotable mark body) : IsLexeme (mark :: body ++ [mark]) []
  | blockComment {body : List Char} (unclosed : ¬ ['*', '/'] <:+: body) :
    IsLexeme ('/' :: '*' :: body ++ ['*', '/']) []
  | sign {c : Char} (isSign : isSign c = true) : IsLexeme [c] []
  | parens {inner : List Char} {words : List (List Char)} (lexemes : AreLexemes inner words) :
    IsLexeme ('(' :: inner ++ [')']) []

/-- Lexemes with blanks between them. A line comment ends with a blank of its own, its newline. -/
inductive AreLexemes : List Char → List (List Char) → Prop
  | nil : AreLexemes [] []
  | blank {c : Char} {cs : List Char} {words : List (List Char)} (isBlank : Text.isBlank c = true)
    (rest : AreLexemes cs words) : AreLexemes (c :: cs) words
  | lineComment {body cs : List Char} {words : List (List Char)} (oneLine : '\n' ∉ body)
    (rest : AreLexemes cs words) : AreLexemes ('-' :: '-' :: body ++ '\n' :: cs) words
  | cons {x cs : List Char} {own words : List (List Char)} (first : IsLexeme x own)
    (apart : cs.head?.all Text.isBlank = true) (rest : AreLexemes cs words) :
    AreLexemes (x ++ cs) (own ++ words)

end

theorem isWordChar_of_toUpper {c : Char} (h : Ident.isAsciiLetter c.toUpper = true) :
    Ident.isWordChar c = true := by
  have hletter : Ident.isAsciiLetter c = true := by
    by_cases hlower : c.val ≥ 97 ∧ c.val ≤ 122
    · simp only [Ident.isAsciiLetter, Char.le_def, Char.reduceVal, Bool.or_eq_true,
        decide_eq_true_eq, Bool.and_eq_true]
      exact .inl hlower
    · rwa [show c.toUpper = c from dif_neg hlower] at h
  rw [Ident.isWordChar, hletter, Bool.or_true, Bool.true_or]

theorem toUpper_ne_of_not_isWordChar {c : Char} (h : Ident.isWordChar c = false) :
    c.toUpper ≠ 'W' := by
  intro hc
  rw [isWordChar_of_toUpper (by rw [hc]; decide)] at h
  cases h

theorem not_isWordChar_of_isBlank {c : Char} (h : Text.isBlank c = true) :
    Ident.isWordChar c = false := by
  refine Bool.eq_false_iff.2 fun hword => ?_
  simp only [Ident.isWordChar, Ident.isAsciiLetter, Text.isBlank, Bool.or_eq_true,
    Bool.and_eq_true, beq_iff_eq, decide_eq_true_eq, Char.le_def, Char.ext_iff,
    UInt32.le_iff_toNat_le, ← UInt32.toNat_inj, Char.reduceVal, UInt32.reduceToNat] at h hword
  omega

theorem startsWithKeyword_eq {keyword : List Char}
    (hkeyword : keyword.all (Ident.isAsciiLetter ·.toUpper) = true) (cs : List Char) :
    startsWithKeyword keyword cs =
      Text.eqAsciiCase (cs.takeWhile Ident.isWordChar) keyword := by
  induction keyword generalizing cs with
  | nil =>
    cases cs with
    | nil => rfl
    | cons c cs =>
      cases hc : Ident.isWordChar c <;>
        simp [startsWithKeyword, Text.eqAsciiCase, Text.upperAscii, hc]
  | cons k keyword ih =>
    obtain ⟨hk, hkeyword⟩ := Bool.and_eq_true_iff.1 hkeyword
    cases cs with
    | nil => rfl
    | cons c cs =>
      have hrest := ih hkeyword cs
      simp only [startsWithKeyword, Text.eqAsciiCase, Text.upperAscii] at hrest
      simp only [startsWithKeyword, Text.eqAsciiCase, Text.upperAscii, List.length_cons,
        List.take_succ_cons, List.drop_succ_cons, List.map_cons, List.takeWhile_cons]
      by_cases hc : c.toUpper = k.toUpper
      · rw [if_pos (isWordChar_of_toUpper (hc ▸ hk)), List.map_cons, hc]
        simpa only [List.cons_beq_cons, BEq.rfl, Bool.true_and] using hrest
      · have hne : (c.toUpper == k.toUpper) = false := beq_false_of_ne hc
        cases Ident.isWordChar c <;> simp [hne]

theorem isEnd_of_blank {cs : List Char} (h : cs.head?.all Text.isBlank = true) :
    isEnd cs = true := by
  cases cs with
  | nil => rfl
  | cons c cs =>
    have hc : Text.isBlank c = true := h
    simp [isEnd, hc]

theorem isEnd_append {cs rest : List Char} (h : cs.head?.all Text.isBlank = true)
    (hrest : isEnd rest = true) : isEnd (cs ++ rest) = true := by
  cases cs with
  | nil => exact hrest
  | cons c cs => exact isEnd_of_blank h

theorem head?_ne_of_isEnd {cs : List Char} (h : isEnd cs = true) {c : Char}
    (hc : (Text.isBlank c || c == ')') = false) : cs.head? ≠ some c := by
  intro hhead
  rw [isEnd, hhead, Option.all_some, hc] at h
  cases h

theorem not_isWordChar_of_isEnd {c : Char} {cs : List Char} (h : isEnd (c :: cs) = true) :
    Ident.isWordChar c = false := by
  have hc : Text.isBlank c = true ∨ c = ')' := by simpa [isEnd] using h
  rcases hc with hc | rfl
  · exact not_isWordChar_of_isBlank hc
  · decide

theorem takeWhile_word_append {w behind : List Char} (chars : ∀ c ∈ w, Ident.isWordChar c = true)
    (h : isEnd behind = true) : (w ++ behind).takeWhile Ident.isWordChar = w := by
  have hbehind : behind.takeWhile Ident.isWordChar = [] := by
    cases behind with
    | nil => rfl
    | cons c behind => exact List.takeWhile_cons_of_neg (by simp [not_isWordChar_of_isEnd h])
  rw [List.takeWhile_append_of_pos chars, hbehind, List.append_nil]

theorem hasWhere_after_of_isEnd {cs : List Char} (h : isEnd cs = true) (depth : Nat)
    (after : Bool) :
    hasWhere (.code depth after) cs = hasWhere (.code depth false) cs := by
  cases cs with
  | nil => rfl
  | cons c cs =>
    have hc := toUpper_ne_of_not_isWordChar (not_isWordChar_of_isEnd h)
    rw [hasWhere_cons hc, hasWhere_cons hc]
    rfl

def isWhere (w : List Char) : Bool :=
  Text.eqAsciiCase w "WHERE".toList

/-- Read from the start of a lexeme to the text behind, the text shows a WHERE exactly when one of
its words is one and no parenthesis is open. -/
def Shows (text : List Char) (words : List (List Char)) (behind : List Char) : Prop :=
  ∀ depth, hasWhere (.code depth false) (text ++ behind) =
    (depth == 0 && words.any isWhere || hasWhere (.code depth false) behind)

theorem shows_nil_iff {text behind : List Char} :
    Shows text [] behind ↔ ∀ depth,
      hasWhere (.code depth false) (text ++ behind) = hasWhere (.code depth false) behind := by
  simp [Shows]

theorem isCalm_of_word {w : List Char} (h : ∀ c ∈ w, Ident.isWordChar c = true) :
    isCalm true w = true := by
  induction w with
  | nil => rfl
  | cons c w ih =>
    obtain ⟨hc, hw⟩ := List.forall_mem_cons.1 h
    have hne : ∀ d : Char, Ident.isWordChar d = false → c ≠ d := by
      rintro d hd rfl
      exact absurd (hc.symm.trans hd) (by decide)
    simp [isCalm, isQuoteMark, hc, ih hw, hne '\'' rfl, hne '"' rfl, hne '`' rfl, hne '-' rfl,
      hne '/' rfl, hne '(' rfl, hne ')' rfl]

/-- A word is found as a whole: the guard tests it at its first character only. -/
theorem shows_word {w behind : List Char} (nonempty : w ≠ [])
    (chars : ∀ c ∈ w, Ident.isWordChar c = true) (h : isEnd behind = true) :
    Shows w [w] behind := by
  intro depth
  obtain ⟨c, w, rfl⟩ := List.exists_cons_of_ne_nil nonempty
  have hkeyword : startsWithKeyword "WHERE".toList (c :: w ++ behind) = isWhere (c :: w) := by
    rw [startsWithKeyword_eq (by decide), takeWhile_word_append chars h, isWhere]
  have hcalm : isCalm true (c :: w) = true := isCalm_of_word chars
  obtain ⟨after, hrest⟩ := hasWhere_calm depth hcalm
  have hrest := (hrest behind).trans (hasWhere_after_of_isEnd h depth after)
  rw [List.cons_append, hasWhere] at hrest ⊢
  have hdepth : (Place.code depth false).isOutermost = (depth == 0) := by cases depth <;> rfl
  have htrue : (Place.code depth true).isOutermost = false := by cases depth <;> rfl
  rw [htrue, Bool.false_and, Bool.false_or] at hrest
  rw [hdepth, ← List.cons_append, hkeyword, List.any_cons, List.any_nil, Bool.or_false]
  exact congrArg _ hrest

theorem hasWhere_cons_of_not_isOutermost {place : Place} (h : place.isOutermost = false) (c : Char)
    (rest : List Char) : hasWhere place (c :: rest) = hasWhere (place.next c rest.head?) rest := by
  rw [hasWhere, h, Bool.false_and, Bool.false_or]

theorem hasWhere_quoted (depth : Nat) {mark : Char} {body behind : List Char}
    (quotable : IsQuotable mark body) (h : behind.head? ≠ some mark) :
    hasWhere (.quoted depth mark) (body ++ mark :: behind) =
      hasWhere (.code depth false) behind := by
  induction quotable with
  | nil =>
    have hne : (behind.head? == some mark) = false := beq_false_of_ne h
    rw [List.nil_append, hasWhere_cons_of_not_isOutermost rfl]
    simp [Place.next, hne]
  | @plain c cs other unguarded _ ih =>
    have hplain : (c == '\\' && mark == '\'') = false := by
      simp only [Bool.and_eq_false_imp, beq_iff_eq, beq_eq_false_iff_ne, ne_eq]
      exact fun hc hmark => unguarded hmark hc
    rw [List.cons_append, hasWhere_cons_of_not_isOutermost rfl, ← ih]
    simp [Place.next, other, hplain]
  | @doubled cs _ ih =>
    rw [List.cons_append, List.cons_append, hasWhere_cons_of_not_isOutermost rfl, ← ih]
    simp only [Place.next, List.head?_cons, BEq.rfl, if_true]
    exact hasWhere_cons_of_not_isOutermost rfl _ _
  | @guarded c cs single _ ih =>
    subst single
    rw [List.cons_append, List.cons_append, hasWhere_cons_of_not_isOutermost rfl, ← ih]
    exact hasWhere_cons_of_not_isOutermost rfl _ _

theorem shows_quoted {mark : Char} {body behind : List Char} (isMark : isQuoteMark mark = true)
    (quotable : IsQuotable mark body) (h : isEnd behind = true) :
    Shows (mark :: body ++ [mark]) [] behind := by
  have hmark : mark.toUpper ≠ 'W' ∧ (Text.isBlank mark || mark == ')') = false := by
    simp only [isQuoteMark, Bool.or_eq_true, beq_iff_eq] at isMark
    rcases isMark with (rfl | rfl) | rfl <;> decide
  refine shows_nil_iff.2 fun depth => ?_
  rw [← hasWhere_quoted depth quotable (head?_ne_of_isEnd h hmark.2), List.cons_append,
    List.cons_append, hasWhere_cons hmark.1, List.append_assoc, List.singleton_append]
  simp [Place.next, isMark]

theorem hasWhere_blockComment (depth : Nat) {body : List Char} (unclosed : ¬ ['*', '/'] <:+: body)
    (behind : List Char) :
    hasWhere (.blockComment depth) (body ++ '*' :: '/' :: behind) =
      hasWhere (.code depth false) behind := by
  induction body with
  | nil =>
    rw [List.nil_append, hasWhere_cons_of_not_isOutermost rfl]
    exact hasWhere_cons_of_not_isOutermost rfl _ _
  | cons c body ih =>
    have hopen : ¬(c == '*' && (body ++ '*' :: '/' :: behind).head? == some '/') = true := by
      simp only [Bool.and_eq_true, beq_iff_eq, not_and]
      rintro rfl hhead
      cases body with
      | nil => cases hhead
      | cons d body =>
        obtain rfl : d = '/' := Option.some.inj hhead
        exact unclosed ⟨[], body, rfl⟩
    rw [List.cons_append, hasWhere_cons_of_not_isOutermost rfl,
      ← ih fun h => unclosed (List.infix_cons h), Place.next, if_neg hopen]

theorem shows_blockComment {body : List Char} (unclosed : ¬ ['*', '/'] <:+: body)
    (behind : List Char) : Shows ('/' :: '*' :: body ++ ['*', '/']) [] behind := by
  refine shows_nil_iff.2 fun depth => ?_
  rw [← hasWhere_blockComment depth unclosed behind, List.cons_append, List.cons_append,
    List.cons_append, List.cons_append, hasWhere_cons (by decide), List.append_assoc]
  exact hasWhere_cons_of_not_isOutermost rfl _ _

theorem hasWhere_lineComment (depth : Nat) {body : List Char} (oneLine : '\n' ∉ body)
    (behind : List Char) :
    hasWhere (.lineComment depth) (body ++ '\n' :: behind) =
      hasWhere (.code depth false) behind := by
  induction body with
  | nil => exact hasWhere_cons_of_not_isOutermost rfl _ _
  | cons c body ih =>
    obtain ⟨hc, hbody⟩ := not_or.1 (List.mem_cons.not.1 oneLine)
    rw [List.cons_append, hasWhere_cons_of_not_isOutermost rfl, ← ih hbody]
    simp [Place.next, Ne.symm hc]

theorem shows_lineComment {body : List Char} (oneLine : '\n' ∉ body) (behind : List Char) :
    Shows ('-' :: '-' :: body ++ ['\n']) [] behind := by
  refine shows_nil_iff.2 fun depth => ?_
  rw [← hasWhere_lineComment depth oneLine behind, List.cons_append, List.cons_append,
    List.cons_append, List.cons_append, hasWhere_cons (by decide), List.append_assoc]
  exact hasWhere_cons_of_not_isOutermost rfl _ _

theorem shows_blank {c : Char} (isBlank : Text.isBlank c = true) (behind : List Char) :
    Shows [c] [] behind := by
  have hword : Ident.isWordChar c = false := not_isWordChar_of_isBlank isBlank
  have hne : ∀ d : Char, Text.isBlank d = false → c ≠ d := by
    rintro d hd rfl
    exact absurd (isBlank.symm.trans hd) (by decide)
  refine shows_nil_iff.2 fun depth => ?_
  rw [List.singleton_append, hasWhere_cons (toUpper_ne_of_not_isWordChar hword)]
  simp [Place.next, isQuoteMark, hword, hne '\'' rfl, hne '"' rfl, hne '`' rfl, hne '-' rfl,
    hne '/' rfl, hne '(' rfl, hne ')' rfl]

theorem shows_sign {c : Char} {behind : List Char} (hsign : isSign c = true)
    (h : isEnd behind = true) : Shows [c] [] behind := by
  simp only [isSign, Bool.and_eq_true, Bool.not_eq_true', bne_iff_ne] at hsign
  obtain ⟨⟨⟨⟨hword, _⟩, hquote⟩, hopen⟩, hclose⟩ := hsign
  have hdash : (behind.head? == some '-') = false :=
    beq_false_of_ne (head?_ne_of_isEnd h (by decide))
  have hstar : (behind.head? == some '*') = false :=
    beq_false_of_ne (head?_ne_of_isEnd h (by decide))
  refine shows_nil_iff.2 fun depth => ?_
  rw [List.singleton_append, hasWhere_cons (toUpper_ne_of_not_isWordChar hword)]
  simp [Place.next, hquote, hdash, hstar, hopen, hclose, hword]

theorem shows_parens {inner behind : List Char} {words : List (List Char)}
    (h : Shows inner words (')' :: behind)) : Shows ('(' :: inner ++ [')']) [] behind := by
  refine shows_nil_iff.2 fun depth => ?_
  rw [List.cons_append, List.cons_append, List.append_assoc, List.singleton_append,
    hasWhere_cons (by decide)]
  calc hasWhere (.code (depth + 1) false) (inner ++ ')' :: behind)
      = hasWhere (.code (depth + 1) false) (')' :: behind) := by
        rw [h, beq_false_of_ne (Nat.succ_ne_zero depth), Bool.false_and, Bool.false_or]
    _ = hasWhere (.code depth false) behind := hasWhere_cons (by decide) _ _

theorem Shows.append {x cs behind : List Char} {own words : List (List Char)}
    (hx : Shows x own (cs ++ behind)) (hcs : Shows cs words behind) :
    Shows (x ++ cs) (own ++ words) behind := by
  intro depth
  rw [List.append_assoc, hx, hcs, List.any_append, Bool.and_or_distrib_left, Bool.or_assoc]

mutual

theorem IsLexeme.shows {x : List Char} {own : List (List Char)} {behind : List Char}
    (hend : isEnd behind = true) : IsLexeme x own → Shows x own behind
  | .word nonempty chars => shows_word nonempty chars hend
  | .quoted isMark quotable => shows_quoted isMark quotable hend
  | .blockComment unclosed => shows_blockComment unclosed behind
  | .sign isSign => shows_sign isSign hend
  | .parens lexemes => shows_parens (lexemes.shows rfl)

theorem AreLexemes.shows {cs : List Char} {words : List (List Char)} {behind : List Char}
    (hend : isEnd behind = true) : AreLexemes cs words → Shows cs words behind
  | .nil => fun _ => by simp
  | .blank isBlank rest => (shows_blank isBlank _).append (rest.shows hend)
  | .lineComment oneLine rest => by
    simpa using (shows_lineComment oneLine _).append (rest.shows hend)
  | .cons first apart rest => .append (first.shows (isEnd_append apart hend)) (rest.shows hend)

end

theorem isWordChar_of_eqAsciiCase {w keyword : List Char}
    (hkeyword : keyword.all (Ident.isAsciiLetter ·.toUpper) = true)
    (h : Text.eqAsciiCase w keyword = true) : ∀ c ∈ w, Ident.isWordChar c = true := by
  intro c hc
  have hupper : w.map Char.toUpper = keyword.map Char.toUpper := beq_iff_eq.1 h
  obtain ⟨k, hk, hck⟩ := List.mem_map.1 (hupper ▸ List.mem_map_of_mem hc)
  exact isWordChar_of_toUpper (hck ▸ List.all_eq_true.1 hkeyword k hk)

theorem skipNoise_word {w : List Char} (nonempty : w ≠ [])
    (chars : ∀ c ∈ w, Ident.isWordChar c = true) (rest : List Char) :
    skipNoise .between (w ++ rest) = w ++ rest := by
  obtain ⟨c, w, rfl⟩ := List.exists_cons_of_ne_nil nonempty
  have hc : Ident.isWordChar c = true := chars c (List.mem_cons_self ..)
  have hblank : Text.isBlank c = false :=
    Bool.eq_false_iff.2 fun h => by simp [not_isWordChar_of_isBlank h] at hc
  have hne : ∀ d : Char, Ident.isWordChar d = false → c ≠ d := by
    rintro d hd rfl
    exact absurd (hc.symm.trans hd) (by decide)
  simp [skipNoise, hblank, hne '(' rfl, hne '-' rfl, hne '/' rfl]

/-- The guard reads a DELETE or UPDATE as its grammar does: the statement may run exactly when one
of the words that stand in no parentheses, quotes or comments is WHERE. -/
theorem isSafe_iff_word_where {keyword rest : List Char} {words : List (List Char)}
    (hwrite : Text.eqAsciiCase keyword "DELETE".toList = true ∨
      Text.eqAsciiCase keyword "UPDATE".toList = true)
    (apart : rest.head?.all Text.isBlank = true) (lexemes : AreLexemes rest words) :
    isSafe (String.ofList (keyword ++ rest)) = true ↔
      ∃ w ∈ words, Text.eqAsciiCase w "WHERE".toList = true := by
  have chars : ∀ c ∈ keyword, Ident.isWordChar c = true :=
    hwrite.elim (isWordChar_of_eqAsciiCase (by decide)) (isWordChar_of_eqAsciiCase (by decide))
  have nonempty : keyword ≠ [] := by
    rintro rfl
    revert hwrite
    decide
  have hother : isWhere keyword = false := by
    refine Bool.eq_false_iff.2 fun h => ?_
    have hupper := beq_iff_eq.1 h
    rw [Text.eqAsciiCase, Text.eqAsciiCase, hupper] at hwrite
    revert hwrite
    decide
  have hstart (name : List Char) (hname : name.all (Ident.isAsciiLetter ·.toUpper) = true) :
      startsWithKeyword name (keyword ++ rest) = Text.eqAsciiCase keyword name := by
    rw [startsWithKeyword_eq hname, takeWhile_word_append chars (isEnd_of_blank apart)]
  have hall : AreLexemes (keyword ++ rest) ([keyword] ++ words) :=
    .cons (.word nonempty chars) apart lexemes
  have hshows : hasWhere (.code 0 false) (keyword ++ rest) = ([keyword] ++ words).any isWhere := by
    have hread : Shows (keyword ++ rest) ([keyword] ++ words) [] := hall.shows rfl
    simpa [hasWhere] using hread 0
  rw [isSafe, String.toList_ofList, isSafeText_of_write (skipNoise_word nonempty chars rest)
    (by rwa [hstart _ (by decide), hstart _ (by decide)]), hshows, List.singleton_append,
    List.any_cons, hother, Bool.false_or, List.any_eq_true]
  rfl

theorem isSafe_of_hidden_words :
    let front := "uPdate `a``b` SET = 'it\\'s WHERE ''' -- WHERE\n, ( /* ) */ WHERE )"
    isSafe (front ++ " nowhere 1") = false ∧ isSafe (front ++ " whERe 1") = true := by
  intro front
  have put {x cs : List Char} {own words : List (List Char)} (hx : IsLexeme x own)
      (h : AreLexemes (' ' :: cs) words) : AreLexemes (' ' :: (x ++ ' ' :: cs)) (own ++ words) :=
    .blank rfl (.cons hx rfl h)
  have word (w : String) (nonempty : w.toList ≠ [])
      (chars : w.toList.all Ident.isWordChar = true) : IsLexeme w.toList [w.toList] :=
    .word nonempty (List.all_eq_true.1 chars)
  have plain (cs : List Char) (h : cs.all fun c => c != '\'' && c != '\\') {rest : List Char}
      (hrest : IsQuotable '\'' rest) : IsQuotable '\'' (cs ++ rest) := by
    induction cs with
    | nil => exact hrest
    | cons c cs ih =>
      rw [List.all_cons, Bool.and_eq_true, Bool.and_eq_true, bne_iff_ne, bne_iff_ne] at h
      exact .plain h.1.1 (fun _ => h.1.2) (ih h.2)
  have name : IsLexeme ['`', 'a', '`', '`', 'b', '`'] [] :=
    .quoted rfl (.plain (by decide) (by decide) (.doubled (.plain (by decide) (by decide) .nil)))
  have string : IsLexeme
      ('\'' :: ("it".toList ++ '\\' :: '\'' :: ("s WHERE ".toList ++ ['\'', '\''])) ++ ['\'']) [] :=
    .quoted rfl (plain _ (by decide) (.guarded rfl (plain _ (by decide) (.doubled .nil))))
  have comment : IsLexeme ('/' :: '*' :: " ) ".toList ++ ['*', '/']) [] :=
    .blockComment (by decide)
  have last : AreLexemes [' '] [] := .blank rfl .nil
  have parens := IsLexeme.parens (put comment (put (word "WHERE" (by decide) (by decide)) last))
  have hfront {cs : List Char} {words : List (List Char)} (h : AreLexemes (' ' :: cs) words) :=
    put name (put (word "SET" (by decide) (by decide)) (put (.sign (show isSign '=' from rfl))
      (put string (.blank (show Text.isBlank ' ' from rfl)
        (.lineComment (show '\n' ∉ " WHERE".toList by decide)
          (.cons (.sign (show isSign ',' from rfl)) rfl (put parens h)))))))
  have hone : AreLexemes ['1'] ["1".toList] := .cons (word "1" (by decide) (by decide)) rfl .nil
  have hnowhere := hfront (put (word "nowhere" (by decide) (by decide)) (.blank rfl hone))
  have hwhere := hfront (put (word "whERe" (by decide) (by decide)) (.blank rfl hone))
  have hupdate : Text.eqAsciiCase "uPdate".toList "DELETE".toList = true ∨
      Text.eqAsciiCase "uPdate".toList "UPDATE".toList = true := by decide
  have hbare := isSafe_iff_word_where hupdate rfl hnowhere
  have hlimited := isSafe_iff_word_where hupdate rfl hwhere
  exact ⟨Bool.eq_false_iff.2 fun h => absurd (hbare.1 h) (by decide), hlimited.2 (by decide)⟩

end PathQuery.Sql
