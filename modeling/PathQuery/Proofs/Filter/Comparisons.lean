import PathQuery.Filter.Resolve
import PathQuery.Proofs.Outcome

/-!
The forms that comparisons take. One column is compared by one test, whatever form the operator
takes for the value; several columns by the tests of each tuple.
-/

set_option autoImplicit false

namespace PathQuery.Condition

theorem nullTest_eq_ok {a column : String} {op : Operator} {x : Condition}
    (h : nullTest a column op = .ok x) : ∃ op', x = ofColumn a column op' .null := by
  unfold nullTest at h
  split at h
  all_goals first
    | exact ⟨_, (Except.ok.inj h).symm⟩
    | cases h

theorem ofScalar_of_single (a column : String) (op : Operator) {v : Value}
    (hnull : v.isNull = false) (hlist : v.isList = false) :
    ofScalar a column op v =
      if op.isUnary then nullTest a column op
      else if op.isMembership then .ok (ofColumn a column op (.list [v]))
      else if op.takesList then malformed (.needsList op column)
      else .ok (ofColumn a column op v) := by
  cases v with
  | null => simp [Value.isNull] at hnull
  | list _ => simp [Value.isList] at hlist
  | _ => rfl

/-- The comparison with a list that operators on one value take apart. -/
def ofItems (a column : String) (op : Operator) (items : List Value) : Except Failure Condition :=
  match items with
  | [] => nullTest a column op
  | [v] => ofScalar a column op v
  | _ =>
    match op.listForm? with
    | some op => .ok (ofColumn a column op (.list items))
    | none => malformed (.refusesList op column)

theorem ofScalar_list (a column : String) (op : Operator) (items : List Value) :
    ofScalar a column op (.list items) =
      if op.isUnary then nullTest a column op
      else if op.isRange then
        if items.length = 2 then .ok (ofColumn a column op (.list items))
        else malformed (.needsTwoValues op column)
      else if op.takesList then .ok (ofColumn a column op (.list items))
      else ofItems a column op items := by
  cases items with
  | nil => rfl
  | cons v rest => cases rest <;> rfl

theorem ofScalar_eq_ok {a column : String} {op : Operator} {v : Value} {x : Condition}
    (h : ofScalar a column op v = .ok x) : ∃ op' w, x = ofColumn a column op' w := by
  have hnull : ∀ {op}, nullTest a column op = .ok x → ∃ op' w, x = ofColumn a column op' w := by
    intro op hx
    obtain ⟨op', rfl⟩ := nullTest_eq_ok hx
    exact ⟨op', .null, rfl⟩
  have hcolumn : ∀ {op w}, (.ok (ofColumn a column op w) : Except Failure Condition) = .ok x →
      ∃ op' w, x = ofColumn a column op' w := fun hx => ⟨_, _, (Except.ok.inj hx).symm⟩
  fun_induction ofScalar a column op v with
  | case7 _ _ _ v ih => exact ih h
  | _ => first | exact hnull h | exact hcolumn h | cases h

def tupleOf : Value → List Value
  | .list values => values
  | v => [v]

theorem tupleOf_of_single {v : Value} (h : v.isList = false) : tupleOf v = [v] := by
  cases v with
  | list _ => simp [Value.isList] at h
  | _ => rfl

theorem tuples_list (v : Value) (vs : List Value) :
    tuples (.list (v :: vs)) =
      if (v :: vs).all Value.isList then (v :: vs).map tupleOf else [v :: vs] :=
  rfl

theorem tuples_of_single {v : Value} (h : v.isList = false) : tuples v = [[v]] := by
  cases v with
  | list _ => simp [Value.isList] at h
  | _ => rfl

def joinedBy (c : Connective) : List Condition → List Condition
  | [] => []
  | x :: rest => x.withConnective .and :: rest.map (withConnective c)

theorem joinedBy_ne_nil {c : Connective} {xs : List Condition} (h : xs ≠ []) :
    joinedBy c xs ≠ [] := by
  cases xs with
  | nil => exact absurd rfl h
  | cons x rest => exact List.cons_ne_nil _ _

theorem forall_mem_joinedBy {P : Condition → Prop} (hP : ∀ c x, P x → P (x.withConnective c))
    {c : Connective} {xs : List Condition} (h : ∀ x ∈ xs, P x) : ∀ x ∈ joinedBy c xs, P x := by
  cases xs with
  | nil => simp [joinedBy]
  | cons x rest =>
    rw [List.forall_mem_cons] at h
    rw [joinedBy, List.forall_mem_cons, List.forall_mem_map]
    exact ⟨hP .and x h.1, fun y hy => hP c y (h.2 y hy)⟩

theorem forall₂_joinedBy {R : Condition → Condition → Prop}
    (hR : ∀ c x y, R x y → R (x.withConnective c) (y.withConnective c)) (c : Connective)
    {xs ys : List Condition} (h : List.Forall₂ R xs ys) :
    List.Forall₂ R (joinedBy c xs) (joinedBy c ys) := by
  cases h with
  | nil => exact .nil
  | cons hxy hrest =>
    refine .cons (hR .and _ _ hxy) ?_
    rw [List.forall₂_map_left_iff, List.forall₂_map_right_iff]
    exact hrest.imp fun x y => hR c x y

theorem ofTuple_eq (a : String) (columns : List String) (op : Operator) (inner : Connective)
    (values : List Value) :
    ofTuple a columns op inner values =
      if values.length ≠ columns.length then .error (.error (.malformed .conditions
        (.tupleWidth columns values.length)))
      else joinedBy inner <$> (columns.zip values).mapM fun p => ofScalar a p.1 op p.2 := by
  unfold ofTuple
  split
  · rfl
  · cases (columns.zip values).mapM fun p => ofScalar a p.1 op p.2 with
    | error f => rfl
    | ok tests => cases tests <;> rfl

theorem ofTuple_eq_ok {a : String} {columns : List String} {op : Operator} {inner : Connective}
    {values : List Value} {xs : List Condition} (h : ofTuple a columns op inner values = .ok xs) :
    values.length = columns.length ∧ ∃ tests, xs = joinedBy inner tests ∧
      List.Forall₂ (fun p x => ofScalar a p.1 op p.2 = .ok x) (columns.zip values) tests := by
  rw [ofTuple_eq] at h
  split at h
  · cases h
  · next hwidth =>
    obtain ⟨tests, htests, rfl⟩ := map_eq_ok_iff.1 h
    exact ⟨not_not.1 hwidth, tests, rfl, mapM_eq_ok_iff.1 htests⟩

theorem zip_ne_nil {columns : List String} (hcolumns : columns ≠ []) {values : List Value}
    (hwidth : values.length = columns.length) : columns.zip values ≠ [] := by
  intro hnil
  rcases List.zip_eq_nil_iff.1 hnil with h | rfl
  · exact hcolumns h
  · exact hcolumns (List.length_eq_zero_iff.1 hwidth.symm)

theorem chain_eq (outer : Connective) (groups : List (List Condition)) :
    chain outer groups = joinedBy outer (groups.map (.group .and)) := by
  cases groups with
  | nil => rfl
  | cons members rest =>
    rw [chain, List.map_cons, joinedBy, List.map_map]
    rfl

def ofTupleList (a : String) (columns : List String) (negated : Bool) :
    List (List Value) → Except Failure Condition
  | [] =>
    match columns with
    | [] => throw .keyless
    | c :: _ => return .membership .and ⟨a, c⟩ [] negated
  | vs :: rest => do
    let groups ← (vs :: rest).mapM
      (ofTuple a columns (if negated then .ne else .eq) (if negated then .or else .and))
    match groups with
    | [members] => return .group .and members
    | _ => return .group .and (chain (if negated then .and else .or) groups)

/-- Whether a comparison of several columns is negated; most operators are refused. -/
def tupleSense : Operator → Except Failure Bool
  | .eq => pure false
  | .isIn => pure false
  | .ne => pure true
  | .notIn => pure true
  | op => malformed (.unsupportedOnCompound op)

theorem ofTuples_eq (a : String) (columns : List String) (op : Operator) (v : Value) :
    ofTuples a columns op v =
      tupleSense op >>= fun negated => ofTupleList a columns negated (tuples v) := by
  unfold ofTuples
  cases tuples v with
  | nil => cases op <;> cases columns <;> rfl
  | cons vs rest => cases op <;> rfl

def ofColumns (tableAlias : String) (op : Operator) (v : Value) :
    List String → Except Failure Condition
  | [column] => ofScalar tableAlias column op v
  | names => ofTuples tableAlias names op v

end PathQuery.Condition

namespace PathQuery.Filter

open Building

def compareAttribute (c : Connective) (id : Nat) (name : String) (op : Operator) (v : Value) :
    Building Condition := do
  let (id, columns) ← columnsOf id name
  let leaf ← Condition.ofColumns (← aliasOf id) op v.dereference columns
  attach id (leaf.withConnective c)
  return leaf.withConnective c

theorem resolveCompare_eq (expand : Expansion) (scope : Nat) (c : Connective)
    (path operator : String) (v : Value) :
    resolveCompare expand scope c path operator v = (do
      let op ← ofExcept (Operator.parse operator)
      let (id, name) ← resolveFrom scope path
      match ((← get).model? id).bind (·.hook? name) with
      | some hook => do
        let f ← ofExcept (hook op v)
        return .group c (← expand id f)
      | none => compareAttribute c id name op v) := by
  refine bind_congr fun op => bind_congr fun p => ?_
  obtain ⟨id, name⟩ := p
  refine bind_congr fun t => ?_
  cases (t.model? id).bind (·.hook? name) with
  | some hook => rfl
  | none =>
    refine bind_congr fun q => ?_
    obtain ⟨target, columns⟩ := q
    refine bind_congr fun a => ?_
    match columns with
    | [] => rfl
    | [column] => rfl
    | _ :: _ :: _ => rfl

end PathQuery.Filter
