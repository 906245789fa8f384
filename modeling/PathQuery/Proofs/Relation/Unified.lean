import PathQuery.Proofs.Relation.Bodies

/-!
One spelling for `IN`. Whether a column is in a list can be said by a comparison and by a
membership. A condition is unified where every such membership is spelled as a comparison. What
becomes of a condition depends on what both spellings share, so unifying the conditions first and
making a semi-join of them comes to the same as unifying the semi-join.
-/

set_option autoImplicit false

namespace PathQuery

namespace Condition

mutual

/-- The condition with each `IN` inside it spelled as a comparison. A negated membership needs no
row, unlike the comparison with `NOT IN`, and stays. -/
def unified : Condition → Condition
  | .compare c a names op v => .compare c a names op v
  | .group c members => .group c (unifiedAll members)
  | .existence c negated frame inner => .existence c negated frame (unifiedAll inner)
  | .membership c column values true => .membership c column values true
  | .membership c column values false =>
    .compare c column.tableAlias [column.column] .isIn (.list values)
  | .columns c left op right => .columns c left op right
  | .subquery c frame inner op v => .subquery c frame (unifiedAll inner) op v
termination_by structural x => x

def unifiedAll : List Condition → List Condition
  | [] => []
  | x :: rest => x.unified :: unifiedAll rest
termination_by structural xs => xs

end

def SameTest (x y : Condition) : Prop :=
  x.unified = y.unified

def SameTests (xs ys : List Condition) : Prop :=
  xs.map unified = ys.map unified

theorem unifiedAll_eq (xs : List Condition) : unifiedAll xs = xs.map unified := by
  induction xs with
  | nil => rfl
  | cons x rest ih => rw [unifiedAll, ih, List.map_cons]

@[simp] theorem unified_group (c : Connective) (members : List Condition) :
    (Condition.group c members).unified = .group c (members.map unified) := by
  rw [unified, unifiedAll_eq]

@[simp] theorem unified_existence (c : Connective) (negated : Bool) (frame : Frame)
    (inner : List Condition) :
    (Condition.existence c negated frame inner).unified =
      .existence c negated frame (inner.map unified) := by
  rw [unified, unifiedAll_eq]

@[simp] theorem unified_columns (c : Connective) (left : ColumnRef) (op : Operator)
    (right : ColumnRef) :
    (Condition.columns c left op right).unified = .columns c left op right := rfl

@[simp] theorem unified_ofColumn (a column : String) (op : Operator) (v : Value) :
    (ofColumn a column op v).unified = ofColumn a column op v := rfl

@[simp] theorem connective_unified (x : Condition) : x.unified.connective = x.connective := by
  cases x with
  | membership c column values negated => cases negated <;> rfl
  | _ => rfl

@[simp] theorem unified_withConnective (c : Connective) (x : Condition) :
    (x.withConnective c).unified = x.unified.withConnective c := by
  cases x with
  | membership d column values negated => cases negated <;> rfl
  | _ => rfl

@[simp] theorem tableAlias?_unified (x : Condition) : x.unified.tableAlias? = x.tableAlias? := by
  cases x with
  | membership c column values negated => cases negated <;> rfl
  | _ => rfl

@[simp] theorem needsRow_unified (x : Condition) : x.unified.needsRow = x.needsRow := by
  cases x with
  | membership c column values negated => cases negated <;> rfl
  | _ => rfl

mutual

theorem hasSubquery_unified (x : Condition) : x.unified.hasSubquery = x.hasSubquery := by
  cases x with
  | membership c column values negated => cases negated <;> rfl
  | group c members => exact anySubquery_unifiedAll members
  | _ => rfl
termination_by structural x

theorem anySubquery_unifiedAll (xs : List Condition) :
    anySubquery (unifiedAll xs) = anySubquery xs := by
  cases xs with
  | nil => rfl
  | cons x rest =>
    rw [unifiedAll, anySubquery, hasSubquery_unified x, anySubquery_unifiedAll rest, anySubquery]
termination_by structural xs

end

@[simp] theorem anySubquery_unified (xs : List Condition) :
    anySubquery (xs.map unified) = anySubquery xs := by
  rw [← unifiedAll_eq, anySubquery_unifiedAll]

section Keys

variable (a key : String)

mutual

theorem usesOnlyKey_unified (x : Condition) :
    x.unified.usesOnlyKey a key = x.usesOnlyKey a key := by
  cases x with
  | membership c column values negated =>
    cases negated with
    | true => rfl
    | false => simp [unified, usesOnlyKey]
  | group c members => exact useOnlyKey_unifiedAll members
  | _ => rfl
termination_by structural x

theorem useOnlyKey_unifiedAll (xs : List Condition) :
    useOnlyKey a key (unifiedAll xs) = useOnlyKey a key xs := by
  cases xs with
  | nil => rfl
  | cons x rest =>
    rw [unifiedAll, useOnlyKey, usesOnlyKey_unified x, useOnlyKey_unifiedAll rest, useOnlyKey]
termination_by structural xs

end

@[simp] theorem useOnlyKey_unified (xs : List Condition) :
    useOnlyKey a key (xs.map unified) = useOnlyKey a key xs := by
  rw [← unifiedAll_eq, useOnlyKey_unifiedAll]

variable (target : ColumnRef)

mutual

theorem redirect_unified (x : Condition) :
    x.unified.redirect a target = (x.redirect a target).unified := by
  cases x with
  | compare c b names op v =>
    simp only [unified, redirect]
    split <;> rfl
  | membership c column values negated =>
    cases negated <;> simp only [unified, redirect] <;> split <;> rfl
  | group c members =>
    have h := redirectAll_unifiedAll members
    simp only [unified, redirect, h]
  | _ => rfl
termination_by structural x

theorem redirectAll_unifiedAll (xs : List Condition) :
    redirectAll a target (unifiedAll xs) = unifiedAll (redirectAll a target xs) := by
  cases xs with
  | nil => rfl
  | cons x rest =>
    rw [unifiedAll, redirectAll, redirect_unified x, redirectAll_unifiedAll rest, redirectAll,
      unifiedAll]
termination_by structural xs

end

theorem redirectAll_unified (xs : List Condition) :
    redirectAll a target (xs.map unified) = (redirectAll a target xs).map unified := by
  rw [← unifiedAll_eq, redirectAll_unifiedAll, unifiedAll_eq]

end Keys

@[simp] theorem conjoined_unified (xs : List Condition) :
    conjoined (xs.map unified) = (conjoined xs).map unified := by
  match xs with
  | [] => rfl
  | [x] => simp [conjoined]
  | x :: y :: rest => simp [conjoined]

end Condition

namespace Relation

open Condition

@[simp] theorem numbered_unified (tableAlias : String) (number : Nat) (xs : List Condition) :
    numbered tableAlias number (xs.map unified) = (numbered tableAlias number xs).map unified := by
  induction xs generalizing number with
  | nil => rfl
  | cons x rest ih => simp [numbered, ih]

def Body.unified (b : Body) : Body :=
  { b with conditions := b.conditions.map Condition.unified }

variable (r : Relation) (parentAlias tableAlias : String) (extra : List Join) (xs : List Condition)

theorem body_unified (division : Bool) :
    r.body parentAlias tableAlias extra (xs.map unified) division =
      (r.body parentAlias tableAlias extra xs division).unified := by
  unfold body
  cases r.kind with
  | manyMany through =>
    dsimp only
    rw [useOnlyKey_unified, redirectAll_unified]
    simp only [Body.unified, apply_ite (List.map unified)]
  | _ => rfl

theorem unified_correlation (division : Bool) :
    (r.body parentAlias tableAlias extra xs division).correlation.unified =
      (r.body parentAlias tableAlias extra xs division).correlation := by
  rcases r.body_cases parentAlias tableAlias extra xs division with
    ⟨-, hbody⟩ | ⟨through, -, hbody | ⟨-, -, hbody⟩⟩ <;> rw [hbody] <;> rfl

theorem semiJoin_unified (strategy : Strategy) (c : Connective) :
    r.semiJoin parentAlias tableAlias extra (xs.map unified) strategy c =
      (r.semiJoin parentAlias tableAlias extra xs strategy c).unified := by
  rw [semiJoin_eq, semiJoin_eq, List.length_map, body_unified, body_unified]
  split
  · simp [Body.divided, Body.unified, Body.frame, unified_correlation]
  · simp [Body.single, Body.unified, Body.frame, unified_correlation]

end Relation

end PathQuery
