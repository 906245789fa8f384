import PathQuery.Proofs.Database.Truth
import PathQuery.Statement

/-!
What a database engine does with the contents of columns. Which contents there are, how they are
ordered and what matches a pattern differ from engine to engine and stay open; how the operators
make truth values of them is SQL's. A comparison with NULL is unknown.
-/

set_option autoImplicit false

namespace PathQuery

structure Engine where
  Cell : Type
  decEq : DecidableEq Cell
  less : Cell → Cell → Bool
  like : Cell → Cell → Bool
  /-- What a parameter or a fragment stands for; NULL stands for nothing. -/
  denote : Value → Option Cell
  number : Nat → Cell
  tuple : Operator → List (Option Cell) → Value → Truth
  denote_null : denote .null = none
  denote_number : ∀ n, denote (.raw (toString n)) = some (number n)
  number_injective : Function.Injective number

namespace Engine

variable (E : Engine)

instance : DecidableEq E.Cell :=
  E.decEq

def strict (test : E.Cell → E.Cell → Bool) : Option E.Cell → Option E.Cell → Truth
  | some x, some y => .ofBool (test x y)
  | _, _ => .unknown

def relate (op : Operator) (x y : Option E.Cell) : Truth :=
  match op with
  | .eq => E.strict (fun a b => a = b) x y
  | .isIn => E.strict (fun a b => a = b) x y
  | .ne => (E.strict (fun a b => a = b) x y).not
  | .notIn => (E.strict (fun a b => a = b) x y).not
  | .lt => E.strict E.less x y
  | .ltAny => E.strict E.less x y
  | .le => E.strict (fun a b => E.less a b || a = b) x y
  | .leAny => E.strict (fun a b => E.less a b || a = b) x y
  | .gt => E.strict (fun a b => E.less b a) x y
  | .gtAny => E.strict (fun a b => E.less b a) x y
  | .ge => E.strict (fun a b => E.less b a || a = b) x y
  | .geAny => E.strict (fun a b => E.less b a || a = b) x y
  | .like => E.strict E.like x y
  | .notLike => (E.strict E.like x y).not
  | .is => .ofBool (x = y)
  | .isNot => .ofBool (x ≠ y)
  | .isNull => .ofBool (x = none)
  | .isNotNull => .ofBool (x ≠ none)
  | .between => .unknown
  | .notBetween => .unknown

/-- Some comparison with a value of a list: false if the list is empty. -/
def relateAny (op : Operator) (x : Option E.Cell) (values : List Value) : Truth :=
  (values.map fun v => E.relate op x (E.denote v)).foldr (· ⊔ ·) ⊥

def within (x : Option E.Cell) (low high : Value) : Truth :=
  E.relate .ge x (E.denote low) ⊓ E.relate .le x (E.denote high)

def compareOne (op : Operator) (x : Option E.Cell) (value : Value) : Truth :=
  match op, value with
  | .isIn, .list values => E.relateAny .eq x values
  | .notIn, .list values => (E.relateAny .eq x values).not
  | .ltAny, .list values => E.relateAny .lt x values
  | .leAny, .list values => E.relateAny .le x values
  | .gtAny, .list values => E.relateAny .gt x values
  | .geAny, .list values => E.relateAny .ge x values
  | .between, .list [low, high] => E.within x low high
  | .notBetween, .list [low, high] => (E.within x low high).not
  | op, v => E.relate op x (E.denote v)

def compare (op : Operator) (xs : List (Option E.Cell)) (value : Value) : Truth :=
  match xs with
  | [x] => E.compareOne op x value
  | _ => E.tuple op xs value

def member (x : Option E.Cell) (values : List Value) (negated : Bool) : Truth :=
  if negated then (E.relateAny .eq x values).not else E.relateAny .eq x values

def meets (x y : Option E.Cell) : Bool :=
  E.relate .eq x y = .holds

theorem meets_iff {x y : Option E.Cell} : E.meets x y = true ↔ ∃ a, x = some a ∧ y = some a := by
  rw [meets, decide_eq_true_iff, relate]
  cases x with
  | none => simp [strict]
  | some a =>
    cases y with
    | none => simp [strict]
    | some b =>
      simp only [strict, Truth.ofBool_eq_holds, decide_eq_true_eq, Option.some.injEq]
      constructor
      · rintro rfl
        exact ⟨a, rfl, rfl⟩
      · rintro ⟨c, rfl, rfl⟩
        rfl

theorem not_meets_none (x : Option E.Cell) : E.meets x none = false := by
  rw [Bool.eq_false_iff, Ne, E.meets_iff]
  simp

theorem compare_number (x : Option E.Cell) (n : Nat) :
    E.compare .eq [x] (.raw (toString n)) = .holds ↔ x = some (E.number n) := by
  rw [compare, compareOne, E.denote_number, relate]
  · cases x <;> simp [strict]
  all_goals simp

def textual : Engine where
  Cell := String
  decEq := inferInstance
  less a b := a < b
  like a b := a = b
  denote v := if v.isNull then none else some v.display
  number n := toString n
  tuple _ _ _ := .unknown
  denote_null := rfl
  denote_number n := by
    simp only [Value.isNull, Value.display, Value.write, String.ofList_toList, Bool.false_eq_true,
      if_false]
  number_injective m n h := by
    have hdigits := congrArg (fun s => Nat.ofDigitChars 10 s.toList 0) h
    simpa [Nat.toString_eq_repr, Nat.toList_repr, Nat.ofDigitChars_toDigits] using hdigits

end Engine

end PathQuery
