import Mathlib.Data.List.Nodup
import PathQuery.Statement

/-!
Scopes: the rows that a condition may speak of, those of its own statement in front of those of the
statements around it. Where an alias is brought in more than once the innermost rows are meant.
-/

set_option autoImplicit false

namespace PathQuery

def Join.source (j : Join) : Source :=
  .table j.table j.tableAlias

theorem Join.map_source (js : List Join) :
    (js.map Join.source).map Source.tableAlias = js.map Join.tableAlias := by
  rw [List.map_map]
  rfl

namespace Frame

def opening (f : Frame) : List Source :=
  f.source.toList ++ f.deleteUsing.toList

def sources (f : Frame) : List Source :=
  f.opening ++ f.joins.map Join.source

def columnRefs (f : Frame) : List ColumnRef :=
  f.columns.filterMap (fun
    | .column c _ => some c
    | .raw _ => none) ++
    f.aggregates.filterMap Aggregate.column ++ f.groupBy ++ f.orderBy.map Ordering.column ++
    f.assignments.map Prod.fst

end Frame

def Condition.aliases : Condition → List String
  | .compare _ a _ _ _ => [a]
  | .membership _ c _ _ => [c.tableAlias]
  | .columns _ left _ right => [left.tableAlias, right.tableAlias]
  | _ => []

@[simp] theorem Condition.aliases_withConnective (c : Connective) (x : Condition) :
    (x.withConnective c).aliases = x.aliases := by
  cases x <;> rfl

namespace Source

variable {s : Source} {own outer : List Source}

/-- The rows that an alias means: the innermost ones brought in under it. -/
def under? (scope : List Source) (a : String) : Option Source :=
  scope.find? (·.tableAlias == a)

def SeenIn (s : Source) (scope : List Source) : Prop :=
  under? scope s.tableAlias = some s

theorem of_under? {scope : List Source} {a : String} (h : under? scope a = some s) :
    s ∈ scope ∧ s.tableAlias = a :=
  ⟨List.mem_of_find?_eq_some h, by simpa using List.find?_some h⟩

theorem seenIn_of_mem (honce : (own.map Source.tableAlias).Nodup) (hs : s ∈ own) :
    s.SeenIn (own ++ outer) := by
  induction own with
  | nil => cases hs
  | cons first rest ih =>
    rw [List.map_cons, List.nodup_cons] at honce
    rw [SeenIn, under?, List.cons_append, List.find?_cons]
    rcases List.mem_cons.1 hs with rfl | hs
    · rw [beq_self_eq_true]
    · have hne : first.tableAlias ≠ s.tableAlias := fun heq =>
        honce.1 (heq ▸ List.mem_map_of_mem hs)
      rw [beq_false_of_ne hne]
      exact ih honce.2 hs

/-- What is seen outside is seen inside unless its alias is brought in again. -/
theorem SeenIn.inside (h : s.SeenIn outer) (hnew : ∀ s' ∈ own, s'.tableAlias ≠ s.tableAlias) :
    s.SeenIn (own ++ outer) := by
  have hnone : own.find? (·.tableAlias == s.tableAlias) = none := by
    simpa [List.find?_eq_none] using hnew
  rw [SeenIn, under?, List.find?_append, hnone, Option.none_or]
  exact h

end Source

end PathQuery
