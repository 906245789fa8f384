import PathQuery.JoinTree

/-!
Building a statement: steps that grow a join tree and may fail. Besides the errors that a caller
is told about there are two inputs without an answer, kept apart from errors.
-/

set_option autoImplicit false

namespace PathQuery

inductive Failure where
  | error (e : Error)
  /-- Hooks kept producing conditions on hooked attributes to the end of the allowed depth. -/
  | endless
  /-- An empty list was compared with a key without columns: no column stands for the test. -/
  | keyless
  deriving Repr

abbrev Building (α : Type) := StateT JoinTree (Except Failure) α

namespace Building

def fail {α : Type} (e : Error) : Building α :=
  throw (.error e)

def ofExcept {α : Type} : Except Error α → Building α
  | .ok a => pure a
  | .error e => fail e

def step {α : Type} (f : JoinTree → Except Error α × JoinTree) : Building α := fun t =>
  match f t with
  | (.ok a, t) => .ok (a, t)
  | (.error e, _) => .error (.error e)

def resolveFrom (start : Nat) (path : String) : Building (Nat × String) :=
  step (·.resolveFrom start path)

def child (parent : Nat) (name : String) : Building Nat :=
  step (·.child parent name)

def aliasOf (id : Nat) : Building String := do
  return ((← get).node id).tableAlias

def attach (id : Nat) (leaf : Condition) : Building Unit :=
  modify (·.attach id leaf)

end Building

end PathQuery
