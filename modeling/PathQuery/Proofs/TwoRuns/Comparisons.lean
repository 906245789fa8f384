import PathQuery.Proofs.Filter.Comparisons
import PathQuery.Proofs.TwoRuns.Values

/-!
Comparisons with values that are alike. Which operator a comparison takes, how many tests it
becomes and whether it is refused follow from the shape of its value; the scalars are carried over.
-/

set_option autoImplicit false

namespace PathQuery.Condition

variable {ρ : Value → Value → Prop}

theorem alike_ofColumn (a column : String) (op : Operator) {v w : Value} (h : v.Alike ρ w) :
    (ofColumn a column op v).Alike ρ (ofColumn a column op w) :=
  ⟨w, rfl, h⟩

theorem Alike.connective_eq {x y : Condition} (h : x.Alike ρ y) : x.connective = y.connective :=
  h.view_eq fun x => by cases x <;> rfl

theorem Alike.withConnective (c : Connective) {x y : Condition} (h : x.Alike ρ y) :
    (x.withConnective c).Alike ρ (y.withConnective c) := by
  cases x with
  | compare _ a names op v =>
    obtain ⟨w, rfl, hv⟩ := h
    exact ⟨w, rfl, hv⟩
  | group _ xs =>
    obtain ⟨ys, rfl, hys⟩ := h
    exact ⟨ys, rfl, hys⟩
  | existence _ negated f xs =>
    obtain ⟨g, ys, rfl, hrest⟩ := h
    exact ⟨g, ys, rfl, hrest⟩
  | membership _ col vs negated =>
    obtain ⟨ws, rfl, hws⟩ := h
    exact ⟨ws, rfl, hws⟩
  | columns _ left op right =>
    obtain rfl := h
    rfl
  | subquery _ f xs op v =>
    obtain ⟨g, ys, w, rfl, hrest⟩ := h
    exact ⟨g, ys, w, rfl, hrest⟩

theorem alike_group (c : Connective) {xs ys : List Condition}
    (h : List.Forall₂ (Alike ρ) xs ys) : (Condition.group c xs).Alike ρ (.group c ys) :=
  ⟨ys, rfl, allAlike_iff.2 h⟩

theorem agree_nullTest (a column : String) (op : Operator) :
    Agree (Alike ρ) (nullTest a column op) (nullTest a column op) := by
  have hnull : Value.null.Alike ρ .null := rfl
  cases op <;> first | exact .ok (alike_ofColumn a column _ hnull) | exact .error _

theorem agree_ofScalar_of_single (a column : String) (op : Operator) {v w : Value}
    (h : v.Alike ρ w) (hnull : v.isNull = false) (hlist : v.isList = false) :
    Agree (Alike ρ) (ofScalar a column op v) (ofScalar a column op w) := by
  rw [ofScalar_of_single a column op hnull hlist,
    ofScalar_of_single a column op (h.isNull_eq ▸ hnull) (h.isList_eq ▸ hlist)]
  split
  · exact agree_nullTest a column op
  · split
    · exact .ok (alike_ofColumn a column op (Value.alike_list (.cons h .nil)))
    · split
      · exact .error _
      · exact .ok (alike_ofColumn a column op h)

theorem agree_ofScalar (a column : String) (op : Operator) (v : Value) {w : Value}
    (h : v.Alike ρ w) : Agree (Alike ρ) (ofScalar a column op v) (ofScalar a column op w) := by
  match v, h with
  | .null, h =>
    obtain rfl := h
    exact agree_nullTest a column op
  | .list xs, h =>
    obtain ⟨ys, rfl, hys⟩ := h
    have hlist : (Value.list xs).Alike ρ (.list ys) := ⟨ys, rfl, hys⟩
    have hlength : xs.length = ys.length := (Value.allAlike_iff.1 hys).length_eq
    have hitems : Agree (Alike ρ) (ofItems a column op xs) (ofItems a column op ys) := by
      match xs, hys, hlist with
      | [], hys, _ =>
        obtain rfl := hys
        exact agree_nullTest a column op
      | [x], ⟨y, ys', hy, hxy, hnil⟩, _ =>
        obtain rfl := hnil
        subst hy
        exact agree_ofScalar a column op x hxy
      | x :: x' :: xs, ⟨y, ys', hy, hxy, y', ys'', hy', hrest⟩, hlist =>
        subst hy' hy
        simp only [ofItems]
        cases op.listForm? with
        | none => exact .error _
        | some op' => exact .ok (alike_ofColumn a column op' hlist)
    rw [ofScalar_list, ofScalar_list, hlength]
    split
    · exact agree_nullTest a column op
    · split
      · split
        · exact .ok (alike_ofColumn a column op hlist)
        · exact .error _
      · split
        · exact .ok (alike_ofColumn a column op hlist)
        · exact hitems
  | .entity xs, h => exact agree_ofScalar_of_single a column op h rfl rfl
  | .raw sql, h => exact agree_ofScalar_of_single a column op h rfl rfl
  | .bool b, h => exact agree_ofScalar_of_single a column op h rfl rfl
  | .int n, h => exact agree_ofScalar_of_single a column op h rfl rfl
  | .float x, h => exact agree_ofScalar_of_single a column op h rfl rfl
  | .text s, h => exact agree_ofScalar_of_single a column op h rfl rfl
  | .blob bytes, h => exact agree_ofScalar_of_single a column op h rfl rfl
  | .timestamp t, h => exact agree_ofScalar_of_single a column op h rfl rfl
  | .uuid u, h => exact agree_ofScalar_of_single a column op h rfl rfl
  | .json j, h => exact agree_ofScalar_of_single a column op h rfl rfl
termination_by structural v

theorem all_isList_eq {vs ws : List Value} (h : List.Forall₂ (Value.Alike ρ) vs ws) :
    vs.all Value.isList = ws.all Value.isList := by
  induction h with
  | nil => rfl
  | cons hv _ ih => rw [List.all_cons, List.all_cons, hv.isList_eq, ih]

theorem tupleOf_alike {v w : Value} (h : v.Alike ρ w) :
    List.Forall₂ (Value.Alike ρ) (tupleOf v) (tupleOf w) := by
  rcases h.list_or_single with ⟨xs, ys, rfl, rfl, hys⟩ | ⟨hv, hw⟩
  · exact hys
  · rw [tupleOf_of_single hv, tupleOf_of_single hw]
    exact .cons h .nil

theorem tuples_alike {v w : Value} (h : v.Alike ρ w) :
    List.Forall₂ (List.Forall₂ (Value.Alike ρ)) (tuples v) (tuples w) := by
  rcases h.list_or_single with ⟨xs, ys, rfl, rfl, hys⟩ | ⟨hv, hw⟩
  · cases hys with
    | nil => exact .nil
    | cons hxy hrest =>
      have hitems := List.Forall₂.cons hxy hrest
      rw [tuples_list, tuples_list, all_isList_eq hitems]
      split
      · rw [List.forall₂_map_left_iff, List.forall₂_map_right_iff]
        exact hitems.imp fun _ _ => tupleOf_alike
      · exact .cons hitems .nil
  · rw [tuples_of_single hv, tuples_of_single hw]
    exact .cons (.cons h .nil) .nil

theorem zip_alike (columns : List String) {vs ws : List Value}
    (h : List.Forall₂ (Value.Alike ρ) vs ws) :
    List.Forall₂ (AssignmentAlike ρ) (columns.zip vs) (columns.zip ws) := by
  induction h generalizing columns with
  | nil => simp
  | cons hv _ ih =>
    cases columns with
    | nil => exact .nil
    | cons c columns => exact .cons ⟨rfl, hv⟩ (ih columns)

theorem agree_ofTuple (a : String) (columns : List String) (op : Operator) (inner : Connective)
    {vs ws : List Value} (h : List.Forall₂ (Value.Alike ρ) vs ws) :
    Agree (List.Forall₂ (Alike ρ)) (ofTuple a columns op inner vs)
      (ofTuple a columns op inner ws) := by
  have htests : Agree (List.Forall₂ (Alike ρ))
      ((columns.zip vs).mapM fun p => ofScalar a p.1 op p.2)
      ((columns.zip ws).mapM fun p => ofScalar a p.1 op p.2) := by
    refine Agree.mapM (zip_alike columns h) fun p p' hp => ?_
    rw [hp.1]
    exact agree_ofScalar a p'.1 op p.2 hp.2
  rw [ofTuple_eq, ofTuple_eq, h.length_eq]
  split
  · exact .error _
  · exact htests.map fun _ _ => forall₂_joinedBy (fun c _ _ hxy => hxy.withConnective c) inner

theorem chain_alike (outer : Connective) {gs gs' : List (List Condition)}
    (h : List.Forall₂ (List.Forall₂ (Alike ρ)) gs gs') :
    List.Forall₂ (Alike ρ) (chain outer gs) (chain outer gs') := by
  rw [chain_eq, chain_eq]
  refine forall₂_joinedBy (fun c _ _ hxy => hxy.withConnective c) outer ?_
  rw [List.forall₂_map_left_iff, List.forall₂_map_right_iff]
  exact h.imp fun _ _ hxs => alike_group .and hxs

theorem agree_ofTupleList (a : String) (columns : List String) (negated : Bool)
    {vss wss : List (List Value)} (h : List.Forall₂ (List.Forall₂ (Value.Alike ρ)) vss wss) :
    Agree (Alike ρ) (ofTupleList a columns negated vss) (ofTupleList a columns negated wss) := by
  cases h with
  | nil =>
    cases columns with
    | nil => exact .error _
    | cons c _ => exact .ok ⟨[], rfl, .nil⟩
  | cons hvs hrest =>
    refine (Agree.mapM (.cons hvs hrest) fun _ _ h => agree_ofTuple a columns _ _ h).bind ?_
    intro gs gs' hgs
    cases hgs with
    | nil => exact .ok (alike_group _ .nil)
    | cons hg hrest =>
      cases hrest with
      | nil => exact .ok (alike_group _ hg)
      | cons hg' hrest => exact .ok (alike_group _ (chain_alike _ (.cons hg (.cons hg' hrest))))

theorem agree_ofTuples (a : String) (columns : List String) (op : Operator) {v w : Value}
    (h : v.Alike ρ w) : Agree (Alike ρ) (ofTuples a columns op v) (ofTuples a columns op w) := by
  rw [ofTuples_eq, ofTuples_eq]
  refine (Agree.refl _).bind fun negated _ hnegated => ?_
  subst hnegated
  exact agree_ofTupleList a columns negated (tuples_alike h)

theorem agree_ofColumns (a : String) (op : Operator) (columns : List String) {v w : Value}
    (h : v.Alike ρ w) : Agree (Alike ρ) (ofColumns a op v columns) (ofColumns a op w columns) := by
  match columns with
  | [] => exact agree_ofTuples a [] op h
  | [column] => exact agree_ofScalar a column op v h
  | column :: column' :: rest => exact agree_ofTuples a (column :: column' :: rest) op h

end PathQuery.Condition
