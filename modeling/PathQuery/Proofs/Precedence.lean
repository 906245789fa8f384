import Mathlib.Order.ConditionallyCompleteLattice.Basic
import Mathlib.Order.Hom.BoundedLattice
import PathQuery.Operator

/-!
Values joined by connectives, read as a WHERE clause reads them: AND binds tighter than OR. A list
is a disjunction of runs, a run the conjunction of its members. The connective of the first value
has no meaning, and an empty list asks for nothing. Truth may have two values or three: a bounded
lattice is all that reading needs.
-/

set_option autoImplicit false

namespace PathQuery.Connective

section Lattice

variable {α : Type} [Lattice α]

def readFrom (run : α) : List (Connective × α) → α
  | [] => run
  | (.and, a) :: rest => readFrom (run ⊓ a) rest
  | (.or, a) :: rest => run ⊔ readFrom a rest

theorem readFrom_run (run : α) (as : List α) (rest : List (Connective × α)) :
    readFrom run (as.map (Prod.mk .and) ++ rest) = readFrom (as.foldl (· ⊓ ·) run) rest := by
  induction as generalizing run with
  | nil => rfl
  | cons a as ih => exact ih (run ⊓ a)

theorem foldl_inf (run a : α) (as : List α) :
    as.foldl (· ⊓ ·) (run ⊓ a) = run ⊓ as.foldl (· ⊓ ·) a := by
  induction as generalizing a with
  | nil => rfl
  | cons b as ih => simpa only [List.foldl_cons, inf_assoc] using ih (a ⊓ b)

theorem readFrom_grouped (run : α) (c : Connective) (a : α) (as : List α)
    (rest : List (Connective × α)) :
    readFrom run ((c, a) :: (as.map (Prod.mk .and) ++ rest)) =
      readFrom run ((c, as.foldl (· ⊓ ·) a) :: rest) := by
  cases c with
  | and => rw [readFrom, readFrom, readFrom_run, foldl_inf]
  | or => rw [readFrom, readFrom, readFrom_run]

/-- Values of members that are all joined by AND are a run, from whatever number on each is read. -/
theorem values_eq_run {β : Type} {connective : β → Connective} {value : Nat → β → α}
    {size : β → Nat} {values : Nat → List β → List (Connective × α)}
    (hnil : ∀ first, values first [] = [])
    (hcons : ∀ first x xs, values first (x :: xs) =
      (connective x, value first x) :: values (first + size x) xs)
    (first : Nat) {xs : List β} (h : ∀ x ∈ xs, connective x = .and) :
    values first xs = ((values first xs).map Prod.snd).map (Prod.mk .and) := by
  induction xs generalizing first with
  | nil => simp only [hnil, List.map_nil]
  | cons x xs ih =>
    rw [List.forall_mem_cons] at h
    rw [hcons, h.1, List.map_cons, List.map_cons, ← ih _ h.2]

variable [BoundedOrder α]

def read : List (Connective × α) → α
  | [] => ⊤
  | (_, a) :: rest => readFrom a rest

def earlier (run : α) : List (Connective × α) → α
  | [] => ⊥
  | (.and, a) :: rest => earlier (run ⊓ a) rest
  | (.or, a) :: rest => run ⊔ earlier a rest

def lastRun (run : α) : List (Connective × α) → α
  | [] => run
  | (.and, a) :: rest => lastRun (run ⊓ a) rest
  | (.or, a) :: rest => lastRun a rest

/-- What follows a list goes on with its last run; the runs before are closed. -/
theorem readFrom_append (run : α) (xs ys : List (Connective × α)) :
    readFrom run (xs ++ ys) = earlier run xs ⊔ readFrom (lastRun run xs) ys := by
  induction xs generalizing run with
  | nil => simp [earlier, lastRun]
  | cons x xs ih =>
    obtain ⟨c, a⟩ := x
    cases c with
    | and => simp [readFrom, earlier, lastRun, ih]
    | or => simp [readFrom, earlier, lastRun, ih, sup_assoc]

theorem read_run (c : Connective) (a : α) (as : List α) :
    read ((c, a) :: as.map (Prod.mk .and)) = as.foldl (· ⊓ ·) a := by
  simpa [read, readFrom] using readFrom_run a as []

/-- Members joined by AND may be read beforehand, whatever stands before and behind them. -/
theorem read_grouped (before after : List (Connective × α)) (c : Connective) (a : α)
    (as : List α) :
    read (before ++ (c, a) :: (as.map (Prod.mk .and) ++ after)) =
      read (before ++ (c, read ((.and, a) :: as.map (Prod.mk .and))) :: after) := by
  rw [read_run]
  cases before with
  | nil => exact readFrom_run a as after
  | cons e before =>
    simp only [List.cons_append, read, readFrom_append, readFrom_grouped]

theorem map_readFrom {β : Type} [Lattice β] [BoundedOrder β] (f : BoundedLatticeHom α β) (run : α)
    (xs : List (Connective × α)) :
    f (readFrom run xs) = readFrom (f run) (xs.map (Prod.map id f)) := by
  induction xs generalizing run with
  | nil => rfl
  | cons x xs ih =>
    obtain ⟨c, a⟩ := x
    cases c <;> simp [readFrom, ih]

theorem map_read {β : Type} [Lattice β] [BoundedOrder β] (f : BoundedLatticeHom α β)
    (xs : List (Connective × α)) : f (read xs) = read (xs.map (Prod.map id f)) := by
  cases xs with
  | nil => simp [read]
  | cons x xs =>
    obtain ⟨c, a⟩ := x
    simp [read, map_readFrom]

end Lattice

theorem readFrom_and (run : Prop) {xs : List (Connective × Prop)} (h : ∀ x ∈ xs, x.1 = .and) :
    readFrom run xs ↔ run ∧ ∀ x ∈ xs, x.2 := by
  induction xs generalizing run with
  | nil => simp [readFrom]
  | cons x xs ih =>
    obtain ⟨c, a⟩ := x
    obtain rfl : c = .and := h (c, a) (by simp)
    have hxs : ∀ x ∈ xs, x.1 = .and := fun x hx => h x (by simp [hx])
    rw [readFrom, ih _ hxs]
    simp [and_assoc]

theorem readFrom_or (run : Prop) {xs : List (Connective × Prop)} (h : ∀ x ∈ xs, x.1 = .or) :
    readFrom run xs ↔ run ∨ ∃ x ∈ xs, x.2 := by
  induction xs generalizing run with
  | nil => simp [readFrom]
  | cons x xs ih =>
    obtain ⟨c, a⟩ := x
    obtain rfl : c = .or := h (c, a) (by simp)
    have hxs : ∀ x ∈ xs, x.1 = .or := fun x hx => h x (by simp [hx])
    rw [readFrom]
    simp [ih _ hxs]

theorem read_and {xs : List (Connective × Prop)} (h : ∀ x ∈ xs.drop 1, x.1 = .and) :
    read xs ↔ ∀ x ∈ xs, x.2 := by
  cases xs with
  | nil => simp [read]
  | cons x xs =>
    obtain ⟨c, a⟩ := x
    have hxs : ∀ x ∈ xs, x.1 = .and := h
    rw [read, readFrom_and a hxs]
    simp

theorem read_or {xs : List (Connective × Prop)} (hne : xs ≠ [])
    (h : ∀ x ∈ xs.drop 1, x.1 = .or) : read xs ↔ ∃ x ∈ xs, x.2 := by
  cases xs with
  | nil => exact absurd rfl hne
  | cons x xs =>
    obtain ⟨c, a⟩ := x
    have hxs : ∀ x ∈ xs, x.1 = .or := h
    rw [read, readFrom_or a hxs]
    simp

theorem readFrom_of_all {run : Prop} {xs : List (Connective × Prop)} (hrun : run)
    (h : ∀ x ∈ xs, x.2) : readFrom run xs := by
  induction xs generalizing run with
  | nil => exact hrun
  | cons x xs ih =>
    obtain ⟨c, a⟩ := x
    have ha : a := h (c, a) (by simp)
    have hxs : ∀ x ∈ xs, x.2 := fun x hx => h x (by simp [hx])
    cases c with
    | and => exact ih ⟨hrun, ha⟩ hxs
    | or => exact Or.inl hrun

theorem not_readFrom_of_none {run : Prop} {xs : List (Connective × Prop)} (hrun : ¬ run)
    (h : ∀ x ∈ xs, ¬ x.2) : ¬ readFrom run xs := by
  induction xs generalizing run with
  | nil => exact hrun
  | cons x xs ih =>
    obtain ⟨c, a⟩ := x
    have ha : ¬ a := h (c, a) (by simp)
    have hxs : ∀ x ∈ xs, ¬ x.2 := fun x hx => h x (by simp [hx])
    cases c with
    | and => exact ih (fun hr => hrun hr.1) hxs
    | or => exact fun hr => hr.elim hrun (ih ha hxs)

/-- Once OR occurs, members that all hold make up a closed run that holds. -/
theorem earlier_of_all {run : Prop} {xs : List (Connective × Prop)} (hrun : run)
    (h : ∀ x ∈ xs, x.2) (hor : ∃ x ∈ xs, x.1 = .or) : earlier run xs := by
  induction xs generalizing run with
  | nil => simp at hor
  | cons x xs ih =>
    obtain ⟨c, a⟩ := x
    have ha : a := h (c, a) (by simp)
    have hxs : ∀ x ∈ xs, x.2 := fun x hx => h x (by simp [hx])
    cases c with
    | and => exact ih ⟨hrun, ha⟩ hxs (by simpa using hor)
    | or => exact Or.inl hrun

theorem readFrom_of_or (run : Prop) {xs : List (Connective × Prop)} (h : ∀ x ∈ xs, x.2)
    (hor : ∃ x ∈ xs, x.1 = .or) : readFrom run xs := by
  induction xs generalizing run with
  | nil => simp at hor
  | cons x xs ih =>
    obtain ⟨c, a⟩ := x
    have ha : a := h (c, a) (by simp)
    have hxs : ∀ x ∈ xs, x.2 := fun x hx => h x (by simp [hx])
    cases c with
    | and => exact ih _ hxs (by simpa using hor)
    | or => exact Or.inr (readFrom_of_all ha hxs)

end PathQuery.Connective
