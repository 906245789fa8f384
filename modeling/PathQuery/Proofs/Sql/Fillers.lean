import Mathlib.Data.List.Infix
import PathQuery.Sql.Guard

/-!
What stands in front of a statement: blanks, opening parentheses and comments. The guard passes over
them up to the first keyword, except that a block comment whose body starts with a slash is over at
that slash: the star of the opening mark is taken for that of a closing one, and the rest of the
body is read as the statement.
-/

set_option autoImplicit false

namespace PathQuery.Sql

inductive Filler where
  | blank (c : Char)
  | opening
  | lineComment (body : List Char)
  | blockComment (body : List Char)
  deriving DecidableEq, Repr

namespace Filler

def text : Filler → List Char
  | .blank c => [c]
  | .opening => ['(']
  | .lineComment body => '-' :: '-' :: body ++ ['\n']
  | .blockComment body => '/' :: '*' :: body ++ ['*', '/']

/-- The text ends where the filler does: a comment does not close before. -/
def IsClosed : Filler → Prop
  | .blank c => Text.isBlank c = true
  | .opening => True
  | .lineComment body => '\n' ∉ body
  | .blockComment body => ¬ ['*', '/'] <:+: body

instance (f : Filler) : Decidable f.IsClosed := by
  cases f <;> unfold IsClosed <;> infer_instance

/-- What the guard takes for the statement behind the opening mark of the comment, if the comment is
over for it at once. -/
def cutShort? : Filler → Option (List Char)
  | .blockComment ('/' :: body) => some (body ++ ['*', '/'])
  | _ => none

end Filler

def fillerText (fillers : List Filler) : List Char :=
  fillers.flatMap Filler.text

theorem skipNoise_lineComment {body : List Char} (oneLine : '\n' ∉ body) (behind : List Char) :
    skipNoise .lineComment (body ++ '\n' :: behind) = skipNoise .between behind := by
  induction body with
  | nil => rfl
  | cons c body ih =>
    obtain ⟨hc, hbody⟩ := not_or.1 (List.mem_cons.not.1 oneLine)
    rw [List.cons_append, skipNoise, if_neg (Ne.symm hc), ih hbody]

/-- A block comment is over at its first closing mark, whose star may be one that was read before.
-/
theorem skipNoise_blockComment {body : List Char} (unclosed : ¬ ['*', '/'] <:+: body)
    {afterStar : Bool} (hstar : afterStar = true → body.head? ≠ some '/') (behind : List Char) :
    skipNoise (.blockComment afterStar) (body ++ '*' :: '/' :: behind) =
      skipNoise .between behind := by
  induction body generalizing afterStar with
  | nil => cases afterStar <;> rfl
  | cons c body ih =>
    have hopen : ¬(afterStar && c == '/') = true := by
      simp only [Bool.and_eq_true, beq_iff_eq, not_and]
      rintro hafter rfl
      exact hstar hafter rfl
    have hnext : (c == '*') = true → body.head? ≠ some '/' := by
      intro hc hhead
      obtain rfl := beq_iff_eq.1 hc
      cases body with
      | nil => cases hhead
      | cons d body =>
        obtain rfl : d = '/' := Option.some.inj hhead
        exact unclosed ⟨[], body, rfl⟩
    rw [List.cons_append, skipNoise, if_neg hopen]
    exact ih (fun h => unclosed (List.infix_cons h)) hnext

theorem skipNoise_filler {f : Filler} (closed : f.IsClosed) (hwhole : f.cutShort? = none)
    (behind : List Char) : skipNoise .between (f.text ++ behind) = skipNoise .between behind := by
  cases f with
  | blank c =>
    have hblank : Text.isBlank c = true := closed
    simp [Filler.text, skipNoise, hblank]
  | opening => rfl
  | lineComment body =>
    have htext : (Filler.lineComment body).text ++ behind =
        '-' :: '-' :: (body ++ '\n' :: behind) := by simp [Filler.text]
    rw [htext]
    exact skipNoise_lineComment closed behind
  | blockComment body =>
    have hstar : body.head? ≠ some '/' := by
      intro hhead
      cases body with
      | nil => cases hhead
      | cons c body =>
        obtain rfl : c = '/' := Option.some.inj hhead
        cases hwhole
    have htext : (Filler.blockComment body).text ++ behind =
        '/' :: '*' :: (body ++ '*' :: '/' :: behind) := by simp [Filler.text]
    rw [htext]
    exact skipNoise_blockComment closed (fun _ => hstar) behind

theorem skipNoise_cutShort {f : Filler} {rest : List Char} (hcut : f.cutShort? = some rest)
    (behind : List Char) :
    skipNoise .between (f.text ++ behind) = skipNoise .between (rest ++ behind) := by
  cases f with
  | blockComment body =>
    cases body with
    | nil => cases hcut
    | cons c body =>
      unfold Filler.cutShort? at hcut
      split at hcut
      · next heq =>
        obtain ⟨rfl, rfl⟩ := List.cons.inj (Filler.blockComment.inj heq)
        obtain rfl := Option.some.inj hcut
        rfl
      · cases hcut
  | _ => cases hcut

theorem skipNoise_fillers {fillers : List Filler}
    (h : ∀ f ∈ fillers, f.IsClosed ∧ f.cutShort? = none) (behind : List Char) :
    skipNoise .between (fillerText fillers ++ behind) = skipNoise .between behind := by
  induction fillers with
  | nil => rfl
  | cons f fillers ih =>
    obtain ⟨⟨hclosed, hwhole⟩, hrest⟩ := List.forall_mem_cons.1 h
    calc skipNoise .between (fillerText (f :: fillers) ++ behind)
        = skipNoise .between (f.text ++ (fillerText fillers ++ behind)) := by simp [fillerText]
      _ = skipNoise .between (fillerText fillers ++ behind) := skipNoise_filler hclosed hwhole _
      _ = skipNoise .between behind := ih hrest

theorem isSafeText_congr {cs ds : List Char} (h : skipNoise .between cs = skipNoise .between ds) :
    isSafeText cs = isSafeText ds := by
  rw [isSafeText, isSafeText, h]

/-- Blanks, opening parentheses and comments in front of a text do not change the verdict, as long
as no block comment has a slash as the first character of its body. From the first one that has, the
guard judges the rest of that body and all behind it. -/
theorem isSafe_behind_fillers {fillers : List Filler} (closed : ∀ f ∈ fillers, f.IsClosed)
    (sql : String) :
    ((∀ f ∈ fillers, f.cutShort? = none) →
      isSafe (String.ofList (fillerText fillers) ++ sql) = isSafe sql) ∧
    ∀ front f behind rest, fillers = front ++ f :: behind → (∀ g ∈ front, g.cutShort? = none) →
      f.cutShort? = some rest →
      isSafe (String.ofList (fillerText fillers) ++ sql) =
        isSafe (String.ofList (rest ++ fillerText behind) ++ sql) := by
  simp only [isSafe, String.toList_append, String.toList_ofList]
  refine ⟨fun hwhole => ?_, ?_⟩
  · exact isSafeText_congr (skipNoise_fillers (fun f hf => ⟨closed f hf, hwhole f hf⟩) _)
  rintro front f behind rest rfl hwhole hcut
  have hfront : ∀ g ∈ front, g.IsClosed ∧ g.cutShort? = none := fun g hg =>
    ⟨closed g (List.mem_append_left _ hg), hwhole g hg⟩
  refine isSafeText_congr ?_
  calc skipNoise .between (fillerText (front ++ f :: behind) ++ sql.toList)
      = skipNoise .between (fillerText front ++ (f.text ++ (fillerText behind ++ sql.toList))) := by
        simp [fillerText]
    _ = skipNoise .between (f.text ++ (fillerText behind ++ sql.toList)) :=
        skipNoise_fillers hfront _
    _ = skipNoise .between (rest ++ (fillerText behind ++ sql.toList)) :=
        skipNoise_cutShort hcut _
    _ = skipNoise .between (rest ++ fillerText behind ++ sql.toList) := by
        rw [List.append_assoc]

theorem isSafe_behind_fillers_of_comments :
    let front : List Filler := [.blank '\u3000', .opening, .lineComment "*/ (DELETE".toList,
      .blockComment "** -- /* ".toList, .blockComment "*".toList, .blank '\n']
    let write := "DELETE FROM `t`"
    isSafe (String.ofList (fillerText front) ++ write) = isSafe write ∧
      isSafe
        (String.ofList (fillerText (front ++ .blockComment "/ WHERE ".toList :: front)) ++ write) =
        isSafe (String.ofList (" WHERE */".toList ++ fillerText front) ++ write) := by
  intro front write
  have closed : ∀ f ∈ front, f.IsClosed := by decide
  have closed' : ∀ f ∈ front ++ .blockComment "/ WHERE ".toList :: front, f.IsClosed := by decide
  exact ⟨(isSafe_behind_fillers closed write).1 (by decide),
    (isSafe_behind_fillers closed' write).2 front _ front _ rfl (by decide) rfl⟩

/-- A comment whose body starts with a slash hides a DELETE without a WHERE from the guard. -/
theorem delete_behind_comment_passes :
    (Filler.blockComment "/ x ".toList).IsClosed ∧
      isSafe "DELETE FROM `t`" = false ∧
      isSafe (String.ofList (fillerText [.blockComment "/ x ".toList]) ++ "DELETE FROM `t`") =
        true := by
  decide

end PathQuery.Sql
