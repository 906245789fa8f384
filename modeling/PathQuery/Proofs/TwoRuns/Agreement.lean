import Mathlib.Data.List.Forall2

/-!
Two runs of a computation that may fail. They agree where both fail with the same error, or both
succeed with results that are related.
-/

set_option autoImplicit false

namespace PathQuery

inductive Agree {ε α β : Type} (R : α → β → Prop) : Except ε α → Except ε β → Prop
  | error (e : ε) : Agree R (.error e) (.error e)
  | ok {a : α} {b : β} (h : R a b) : Agree R (.ok a) (.ok b)

theorem isEmpty_eq_of_forall₂ {α β : Type} {R : α → β → Prop} {xs : List α} {ys : List β}
    (h : List.Forall₂ R xs ys) : xs.isEmpty = ys.isEmpty := by
  cases h <;> rfl

namespace Agree

variable {ε α β γ δ : Type} {R : α → β → Prop} {S : γ → δ → Prop}

theorem pure {a : α} {b : β} (h : R a b) :
    Agree R (Pure.pure a : Except ε α) (Pure.pure b) :=
  .ok h

theorem throw (e : ε) : Agree R (MonadExcept.throw e : Except ε α) (MonadExcept.throw e) :=
  .error e

theorem refl (x : Except ε α) : Agree Eq x x := by
  cases x with
  | error e => exact .error e
  | ok a => exact .ok rfl

theorem mono {R' : α → β → Prop} {x : Except ε α} {y : Except ε β} (h : Agree R x y)
    (hR : ∀ a b, R a b → R' a b) : Agree R' x y := by
  cases h with
  | error e => exact .error e
  | ok h => exact .ok (hR _ _ h)

theorem bind {x : Except ε α} {y : Except ε β} {f : α → Except ε γ} {g : β → Except ε δ}
    (h : Agree R x y) (hfg : ∀ a b, R a b → Agree S (f a) (g b)) :
    Agree S (x >>= f) (y >>= g) := by
  cases h with
  | error e => exact .error e
  | ok h => exact hfg _ _ h

theorem map {x : Except ε α} {y : Except ε β} {f : α → γ} {g : β → δ}
    (h : Agree R x y) (hfg : ∀ a b, R a b → S (f a) (g b)) : Agree S (f <$> x) (g <$> y) := by
  cases h with
  | error e => exact .error e
  | ok h => exact .ok (hfg _ _ h)

theorem of_map {x : Except ε α} {y : Except ε β} {f : α → γ} {g : β → δ}
    (h : Agree S (f <$> x) (g <$> y)) : Agree (fun a b => S (f a) (g b)) x y := by
  cases x with
  | error e =>
    cases y with
    | error e' =>
      cases h
      exact .error e
    | ok b => nomatch h
  | ok a =>
    cases y with
    | error e => nomatch h
    | ok b =>
      cases h with
      | ok h => exact .ok h

theorem symm {x : Except ε α} {y : Except ε β} (h : Agree R x y) :
    Agree (fun b a => R a b) y x := by
  cases h with
  | error e => exact .error e
  | ok h => exact .ok h

theorem trans {T : β → γ → Prop} {x : Except ε α} {y : Except ε β} {z : Except ε γ}
    (h : Agree R x y) (h' : Agree T y z) :
    Agree (fun a c => ∃ b, R a b ∧ T b c) x z := by
  cases h with
  | error e =>
    cases h'
    exact .error e
  | ok h =>
    cases h' with
    | ok h' => exact .ok ⟨_, h, h'⟩

theorem mapM {f : α → Except ε γ} {g : β → Except ε δ} {xs : List α} {ys : List β}
    (h : List.Forall₂ R xs ys) (hfg : ∀ a b, R a b → Agree S (f a) (g b)) :
    Agree (List.Forall₂ S) (xs.mapM f) (ys.mapM g) := by
  induction h with
  | nil => exact .ok .nil
  | cons hab _ ih =>
    rw [List.mapM_cons, List.mapM_cons]
    exact (hfg _ _ hab).bind fun _ _ hc => ih.bind fun _ _ hcs => .ok (.cons hc hcs)

theorem mapM_ne_nil {f : α → Except ε γ} {g : α → Except ε δ} {xs : List α} (hne : xs ≠ [])
    (h : ∀ x ∈ xs, Agree S (f x) (g x)) :
    Agree (fun ys zs => List.Forall₂ S ys zs ∧ ys ≠ []) (xs.mapM f) (xs.mapM g) := by
  cases xs with
  | nil => exact absurd rfl hne
  | cons x xs =>
    rw [List.forall_mem_cons] at h
    have hrest : Agree (List.Forall₂ S) (xs.mapM f) (xs.mapM g) := by
      refine mapM (R := fun x y => x = y ∧ x ∈ xs) ?_ ?_
      · exact List.forall₂_same.2 fun x hx => ⟨rfl, hx⟩
      · rintro x _ ⟨rfl, hx⟩
        exact h.2 x hx
    rw [List.mapM_cons, List.mapM_cons]
    exact h.1.bind fun _ _ hy => hrest.bind fun _ _ hys => .ok ⟨.cons hy hys, List.cons_ne_nil _ _⟩

end Agree

end PathQuery
