import Mathlib.Data.List.Basic
import PathQuery.Proofs.Sql.Markup

/-!
Text that the guard in front of execution reads without coming upon a WHERE. Reading starts and
ends outside of quotes and comments and at the same depth of parentheses, so that such texts can
stand behind each other. Quoted names are quiet whatever they hold, and so is everything that a
statement writes in front of its WHERE.
-/

set_option autoImplicit false

namespace PathQuery

namespace Value

mutual

def hasFragment : Value → Bool
  | .raw _ => true
  | .list items => anyFragment items
  | .entity key => anyFragment key
  | _ => false
termination_by structural v => v

def anyFragment : List Value → Bool
  | [] => false
  | v :: rest => v.hasFragment || anyFragment rest
termination_by structural vs => vs

end

end Value

namespace Sql

/-- Read where no quote and no comment is open, the text shows no WHERE outside of parentheses and
closes every parenthesis that it opens. -/
def Quiet (xs : List Char) : Prop :=
  ∀ depth after, ∃ after', ∀ rest,
    hasWhere (.code depth after) (xs ++ rest) = hasWhere (.code depth after') rest

namespace Quiet

theorem nil : Quiet [] := fun _ after => ⟨after, fun _ => rfl⟩

theorem append {xs ys : List Char} (hx : Quiet xs) (hy : Quiet ys) : Quiet (xs ++ ys) := by
  intro depth after
  obtain ⟨between, hx⟩ := hx depth after
  obtain ⟨after', hy⟩ := hy depth between
  exact ⟨after', fun rest => by rw [List.append_assoc, hx, hy]⟩

end Quiet

theorem not_startsWithWhere {c : Char} (hc : c.toUpper ≠ 'W') (rest : List Char) :
    startsWithKeyword "WHERE".toList (c :: rest) = false := by
  have hupper : Text.upperAscii "WHERE".toList = 'W' :: "HERE".toList := by decide
  have htake : (c :: rest).take "WHERE".toList.length = c :: rest.take 4 := rfl
  have hne : Text.eqAsciiCase ((c :: rest).take "WHERE".toList.length) "WHERE".toList = false := by
    rw [Text.eqAsciiCase, htake, hupper, Text.upperAscii, List.map_cons, List.cons_beq_cons,
      beq_eq_false_iff_ne.2 hc, Bool.false_and]
  rw [startsWithKeyword, hne, Bool.false_and]

theorem hasWhere_cons {c : Char} (hc : c.toUpper ≠ 'W') (place : Place) (rest : List Char) :
    hasWhere place (c :: rest) = hasWhere (place.next c rest.head?) rest := by
  rw [hasWhere, not_startsWithWhere hc, Bool.and_false, Bool.false_or]

theorem Quiet.parens {xs : List Char} (hx : Quiet xs) : Quiet ('(' :: xs ++ [')']) := by
  intro depth after
  obtain ⟨after', hx⟩ := hx (depth + 1) false
  refine ⟨false, fun rest => ?_⟩
  have hopen : hasWhere (.code depth after) ('(' :: (xs ++ ')' :: rest)) =
      hasWhere (.code (depth + 1) false) (xs ++ ')' :: rest) :=
    hasWhere_cons (by decide) _ _
  have hclose : hasWhere (.code (depth + 1) after') (')' :: rest) =
      hasWhere (.code depth false) rest :=
    hasWhere_cons (by decide) _ _
  rw [List.append_assoc, List.cons_append, List.singleton_append, hopen, hx, hclose]

theorem hasWhere_calm (depth : Nat) {after : Bool} {xs : List Char} (h : isCalm after xs) :
    ∃ after', ∀ rest,
      hasWhere (.code depth after) (xs ++ rest) = hasWhere (.code depth after') rest := by
  induction xs generalizing after with
  | nil => exact ⟨after, fun _ => rfl⟩
  | cons c xs ih =>
    simp only [isCalm, Bool.and_eq_true, Bool.or_eq_true, Bool.not_eq_true', bne_iff_ne] at h
    obtain ⟨⟨⟨⟨⟨⟨hquote, hdash⟩, hslash⟩, hopen⟩, hclose⟩, hword⟩, hxs⟩ := h
    obtain ⟨after', hxs⟩ := ih hxs
    refine ⟨after', fun rest => ?_⟩
    have hnext : (Place.code depth after).next c (xs ++ rest).head? =
        .code depth (Ident.isWordChar c) := by
      simp [Place.next, hquote, hdash, hslash, hopen, hclose]
    have hnone : ((Place.code depth after).isOutermost &&
        startsWithKeyword "WHERE".toList (c :: (xs ++ rest))) = false := by
      rcases hword with rfl | hword
      · cases depth <;> rfl
      · rw [not_startsWithWhere hword, Bool.and_false]
    rw [List.cons_append, hasWhere, hnone, hnext, Bool.false_or, hxs]

theorem quiet_of_isCalm {xs : List Char} (h : isCalm false xs) : Quiet xs :=
  fun depth after => hasWhere_calm depth (isCalm_of_false after h)

theorem hasWhere_backtick (depth : Nat) (xs : List Char) :
    hasWhere (.quoted depth '`') ('`' :: xs) = hasWhere (.code depth false) xs := by
  cases xs with
  | nil => rfl
  | cons c xs =>
    by_cases hc : c = '`'
    · subst hc
      rw [hasWhere_cons (by decide), hasWhere_cons (by decide), hasWhere_cons (by decide)]
      rfl
    · rw [hasWhere_cons (by decide)]
      simp [Place.next, hc]

theorem hasWhere_escape (depth : Nat) (cs rest : List Char) :
    hasWhere (.quoted depth '`') (Ident.escape cs ++ '`' :: rest) =
      hasWhere (.code depth false) rest := by
  induction cs with
  | nil => exact hasWhere_backtick depth rest
  | cons c cs ih =>
    by_cases hc : c = '`'
    · have hopen : hasWhere (.code depth false) ('`' :: (Ident.escape cs ++ '`' :: rest)) =
          hasWhere (.quoted depth '`') (Ident.escape cs ++ '`' :: rest) :=
        hasWhere_cons (by decide) _ _
      rw [hc, Ident.escape, if_pos rfl, List.cons_append, List.cons_append, hasWhere_backtick,
        hopen, ih]
    · rw [Ident.escape, if_neg hc, List.cons_append, hasWhere, ← ih]
      simp [Place.isOutermost, Place.next, hc]

theorem quiet_quoted (name : List Char) : Quiet (Ident.quoted name) := by
  intro depth after
  refine ⟨false, fun rest => ?_⟩
  have hopen : hasWhere (.code depth after) ('`' :: (Ident.escape name ++ '`' :: rest)) =
      hasWhere (.quoted depth '`') (Ident.escape name ++ '`' :: rest) :=
    hasWhere_cons (by decide) _ _
  rw [Ident.quoted, List.append_assoc, List.cons_append, List.singleton_append, hopen,
    hasWhere_escape]

mutual

theorem quiet_placeholders (v : Value) (h : v.hasFragment = false) : Quiet (placeholders v) := by
  have hmark : Quiet ['?'] := quiet_of_isCalm (by decide)
  cases v with
  | raw sql => simp [Value.hasFragment] at h
  | list items => exact quiet_tuple items (by simpa [Value.hasFragment] using h)
  | entity key =>
    match key with
    | [] => exact quiet_tuple [] rfl
    | [part] => exact hmark
    | part :: next :: rest =>
      exact quiet_tuple (part :: next :: rest) (by simpa [Value.hasFragment] using h)
  | _ => exact hmark
termination_by structural v

theorem quiet_tuple (vs : List Value) (h : Value.anyFragment vs = false) : Quiet (tuple vs) := by
  cases vs with
  | nil =>
    have hnull : Quiet "NULL".toList := quiet_of_isCalm (by decide)
    exact hnull.parens
  | cons v rest =>
    have hparts : v.hasFragment = false ∧ Value.anyFragment rest = false := by
      simpa [Value.anyFragment] using h
    obtain ⟨ys, hys, hrest⟩ := quiet_tupleRest rest hparts.2
    have htuple : tuple (v :: rest) = '(' :: (placeholders v ++ ys) ++ [')'] := by
      change '(' :: placeholders v ++ tupleRest rest = _
      rw [hys, List.cons_append, List.cons_append, List.append_assoc]
    rw [htuple]
    exact ((quiet_placeholders v hparts.1).append hrest).parens
termination_by structural vs

theorem quiet_tupleRest (vs : List Value) (h : Value.anyFragment vs = false) :
    ∃ ys, tupleRest vs = ys ++ [')'] ∧ Quiet ys := by
  cases vs with
  | nil => exact ⟨[], rfl, .nil⟩
  | cons v rest =>
    have hparts : v.hasFragment = false ∧ Value.anyFragment rest = false := by
      simpa [Value.anyFragment] using h
    obtain ⟨ys, hys, hrest⟩ := quiet_tupleRest rest hparts.2
    refine ⟨[','] ++ (placeholders v ++ ys), by simp [tupleRest, hys], ?_⟩
    exact (quiet_of_isCalm (by decide)).append ((quiet_placeholders v hparts.1).append hrest)
termination_by structural vs

end

theorem quiet_lit {s : String} {ps : List Piece} (h : isCalm false s.toList)
    (hps : Quiet (chars ps)) : Quiet (chars (lit s :: ps)) := by
  rw [chars_cons]
  exact (quiet_of_isCalm h).append hps

theorem quiet_name (n : String) {ps : List Piece} (hps : Quiet (chars ps)) :
    Quiet (chars (.name n :: ps)) := by
  rw [chars_cons]
  exact (quiet_quoted n.toList).append hps

theorem quiet_append {ps qs : List Piece} (hp : Quiet (chars ps)) (hq : Quiet (chars qs)) :
    Quiet (chars (ps ++ qs)) := by
  rw [chars_append]
  exact hp.append hq

theorem markup_quiet : Markup fun ps => Quiet (chars ps) where
  nil := .nil
  name n := quiet_name n .nil
  lit s hs := by
    rw [isMarkup, Bool.and_eq_true] at hs
    exact quiet_lit hs.1 .nil
  append := quiet_append
  parens {ps} h := by
    have hchars : chars (lit "(" :: ps ++ [lit ")"]) = '(' :: chars ps ++ [')'] := by
      simp [lit, Piece.chars]
    rw [hchars]
    exact h.parens
  renamed {ps} n h := by
    have hchars : chars (lit "(" :: ps ++ [lit ") AS ", .name n]) =
        ('(' :: chars ps ++ [')']) ++ chars [lit " AS ", .name n] := by
      simp [lit, Piece.chars]
    rw [hchars]
    exact h.parens.append (quiet_lit (by decide) (quiet_name n .nil))

theorem quiet_assignment (a : Aliasing) {target : ColumnRef × Value}
    (h : target.2.hasFragment = false) : Quiet (chars (assignment a target)) := by
  have hvalue : Quiet (chars [.bound target.2]) := by
    rw [chars_cons, chars_nil, List.append_nil]
    exact quiet_placeholders target.2 h
  exact quiet_append (markup_quiet.column a target.1) (quiet_lit (by decide) hvalue)

end Sql

end PathQuery
