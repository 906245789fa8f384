import PathQuery.Proofs.Precedence

/-!
The three truth values of SQL. AND takes the least of them and OR the greatest; a WHERE clause lets
a row through only where its conditions hold, and that is a question with two answers which both
connectives respect.
-/

set_option autoImplicit false

namespace PathQuery

inductive Truth where
  | fails
  | unknown
  | holds
  deriving DecidableEq, Repr

namespace Truth

def rank : Truth → Nat
  | .fails => 0
  | .unknown => 1
  | .holds => 2

theorem rank_injective {a b : Truth} (h : a.rank = b.rank) : a = b := by
  cases a <;> cases b <;> simp [rank] at h ⊢

def and : Truth → Truth → Truth
  | .holds, b => b
  | .fails, _ => .fails
  | .unknown, .fails => .fails
  | .unknown, _ => .unknown

def or : Truth → Truth → Truth
  | .fails, b => b
  | .holds, _ => .holds
  | .unknown, .holds => .holds
  | .unknown, _ => .unknown

def not : Truth → Truth
  | .fails => .holds
  | .unknown => .unknown
  | .holds => .fails

def ofBool (b : Bool) : Truth :=
  if b then .holds else .fails

instance : PartialOrder Truth where
  le a b := a.rank ≤ b.rank
  le_refl _ := Nat.le_refl _
  le_trans _ _ _ := Nat.le_trans
  le_antisymm _ _ h h' := rank_injective (Nat.le_antisymm h h')

instance (a b : Truth) : Decidable (a ≤ b) :=
  inferInstanceAs (Decidable (a.rank ≤ b.rank))

instance : Lattice Truth where
  sup := or
  inf := and
  le_sup_left a b := by cases a <;> cases b <;> decide
  le_sup_right a b := by cases a <;> cases b <;> decide
  sup_le a b c := by cases a <;> cases b <;> cases c <;> decide
  inf_le_left a b := by cases a <;> cases b <;> decide
  inf_le_right a b := by cases a <;> cases b <;> decide
  le_inf a b c := by cases a <;> cases b <;> cases c <;> decide

instance : BoundedOrder Truth where
  top := .holds
  bot := .fails
  le_top a := by cases a <;> decide
  bot_le a := by cases a <;> decide

@[simp] theorem ofBool_eq_holds {b : Bool} : ofBool b = .holds ↔ b = true := by
  cases b <;> decide

theorem and_eq_holds {a b : Truth} : a ⊓ b = .holds ↔ a = .holds ∧ b = .holds := by
  cases a <;> cases b <;> decide

theorem or_eq_holds {a b : Truth} : a ⊔ b = .holds ↔ a = .holds ∨ b = .holds := by
  cases a <;> cases b <;> decide

def holding : BoundedLatticeHom Truth Prop where
  toFun a := a = .holds
  map_sup' _ _ := propext or_eq_holds
  map_inf' _ _ := propext and_eq_holds
  map_top' := propext (iff_true_intro rfl)
  map_bot' := propext (iff_false_intro (by decide))

@[simp] theorem holding_apply (a : Truth) : holding a ↔ a = .holds :=
  Iff.rfl

/-- A list is read as holding by what holds of its members alone. -/
theorem read_eq_holds (xs : List (Connective × Truth)) :
    Connective.read xs = .holds ↔ Connective.read (xs.map (Prod.map id holding)) := by
  rw [← Connective.map_read holding]
  rfl

end Truth

end PathQuery
