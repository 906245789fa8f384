import PathQuery.JoinTree.SemiJoins
import PathQuery.Proofs.Relation.LinkedRows

/-!
What a list of conditions on the nodes of a tree asks of a row. AND binds tighter than OR and a
group stands in parentheses. A condition on a node that relations to one row lead to is asked of the
row joined there. Of one run of AND, the conditions below the same relation to many are asked
together of the rows linked by it: each of them, or what it comes to there, of some linked row.
-/

set_option autoImplicit false

namespace PathQuery

variable {E : Engine}

namespace JoinTree

variable (t : JoinTree) (db : Database E) (scalar : Database.Scalar E)

def anchorAt? (scope : Nat) (x : Condition) : Option Nat :=
  (t.owner? x).bind (t.anchor? scope)

def leavesAt (scope anchor : Nat) (xs : List Condition) : List Condition :=
  (xs.filter fun x => t.anchorAt? scope x = some anchor).map (·.withConnective .and)

def followAt (x : Tuple E) (id : Nat) : Tuple E :=
  match (t.node id).relation with
  | some r => r.follow db x
  | none => x

/-- The row `y` at a scope, and with it the rows that relations to one row join below it. -/
def extend (rows : Nat → Tuple E) (scope : Nat) (y : Tuple E) (id : Nat) : Tuple E :=
  match t.pathBetween? scope id with
  | some path =>
    if path.all fun n => !(t.node n).isToMany then path.foldl (t.followAt db) y else rows id
  | none => rows id

def rowsAt (rows : Nat → Tuple E) (id : Nat) : List (Tuple E) :=
  match (t.node id).relation, (t.node id).parent with
  | some r, some p => r.linkedRows db (rows p)
  | _, _ => []

def scene (rows : Nat → Tuple E) : Scene E :=
  fun a => ((t.idOfAlias? a).map rows).getD nullRow

def LeafHolds (rows : Nat → Tuple E) (x : Condition) : Prop :=
  db.Lets scalar (t.scene rows) x

/-- Conditions below a relation to many, read at the rows that it links: each that stays there holds
of some linked row, and so do those below each further relation to many, taken together. -/
def LinkedHold (anchor : Nat) (leaves : List Condition) (rows : Nat → Tuple E) : Prop :=
  (∀ x ∈ leaves, t.anchorAt? anchor x = none → ∃ y ∈ t.rowsAt db rows anchor,
    t.LeafHolds db scalar (t.extend db rows anchor y) x) ∧
  ∀ a : Below t anchor, t.leavesAt anchor a.val leaves ≠ [] → ∃ y ∈ t.rowsAt db rows anchor,
    LinkedHold a.val (t.leavesAt anchor a.val leaves) (t.extend db rows anchor y)
termination_by t.size - anchor
decreasing_by
  have := a.property
  omega

/-- A list of conditions holds of the rows of a scope: it is empty, or all members of one of its
runs hold. -/
inductive Holds (scope : Nat) (rows : Nat → Tuple E) : List Condition → Prop
  | nothing : Holds scope rows []
  | run {xs run : List Condition} (mem : run ∈ runs xs)
    (groups : ∀ c members, .group c members ∈ run → Holds scope rows members)
    (near : ∀ x ∈ run, members? x = none → t.anchorAt? scope x = none →
      t.LeafHolds db scalar rows x)
    (far : ∀ a, t.leavesAt scope a run ≠ [] →
      t.LinkedHold db scalar a (t.leavesAt scope a run) rows) :
    Holds scope rows xs

variable {t db scalar}

theorem linkedHold_iff {anchor : Nat} {leaves : List Condition} {rows : Nat → Tuple E} :
    t.LinkedHold db scalar anchor leaves rows ↔
      (∀ x ∈ leaves, t.anchorAt? anchor x = none → ∃ y ∈ t.rowsAt db rows anchor,
        t.LeafHolds db scalar (t.extend db rows anchor y) x) ∧
      ∀ a, anchor < a → a < t.size → t.leavesAt anchor a leaves ≠ [] →
        ∃ y ∈ t.rowsAt db rows anchor,
          t.LinkedHold db scalar a (t.leavesAt anchor a leaves) (t.extend db rows anchor y) := by
  rw [LinkedHold]
  constructor
  · rintro ⟨hnear, hfar⟩
    exact ⟨hnear, fun a hlt hsize => hfar ⟨a, hlt, hsize⟩⟩
  · rintro ⟨hnear, hfar⟩
    exact ⟨hnear, fun a => hfar a.val a.property.1 a.property.2⟩

end JoinTree

end PathQuery
