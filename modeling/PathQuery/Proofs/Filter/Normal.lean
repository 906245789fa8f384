import PathQuery.Proofs.Filter.Resolved
import PathQuery.Proofs.JoinTree.Settled

/-!
Filters without a SELECT of the caller resolve to conditions on columns of nodes.
-/

set_option autoImplicit false

namespace PathQuery

mutual

def Criterion.avoidsSelects : Criterion → Bool
  | .compare _ _ _ _ => true
  | .group _ members => avoidSelects members
  | .membership _ _ _ _ => true
  | .columns _ _ _ _ => true
  | .existence _ _ _ => false
  | .subquery _ _ _ _ => false
termination_by structural x => x

def Criterion.avoidSelects : List Criterion → Bool
  | [] => true
  | x :: rest => x.avoidsSelects && avoidSelects rest
termination_by structural xs => xs

end

def Filter.avoidsSelects (f : Filter) : Bool :=
  Criterion.avoidSelects f.criteria

def Schema.HooksAvoidSelects (s : Schema) : Prop :=
  ∀ m ∈ s.models, ∀ name hook op v f, m.hook? name = some hook → hook op v = .ok f →
    f.avoidsSelects

namespace Condition

/-- A test of columns under one alias against values. -/
def Under (a : String) : Condition → Prop
  | .compare _ b _ _ _ => b = a
  | .membership _ column _ _ => column.tableAlias = a
  | _ => False

@[simp] theorem under_withConnective {a : String} {c : Connective} {x : Condition} :
    (x.withConnective c).Under a ↔ x.Under a := by
  cases x <;> rfl

theorem Under.tableAlias?_eq {a : String} {x : Condition} (h : x.Under a) :
    x.tableAlias? = some a := by
  cases x with
  | compare c b names op v => exact congrArg some h
  | membership c column values negated => exact congrArg some h
  | _ => exact h.elim

open JoinTree

theorem eachLeaf_under_withConnective {a : String} {x : Condition} (c : Connective)
    (h : EachLeaf (Under a) x) : EachLeaf (Under a) (x.withConnective c) :=
  eachLeaf_withConnective (fun _ _ => under_withConnective.2) h

variable {a : String} {columns : List String} {op : Operator} {v : Value} {x : Condition}

section Made

variable {G : Condition → Prop} (hG : ∀ c x, G x → G (x.withConnective c))
  (hcompare : ∀ column ∈ columns, ∀ op v, G (ofColumn a column op v))
  (hempty : ∀ column ∈ columns, ∀ negated, G (.membership .and ⟨a, column⟩ [] negated))

include hG hcompare

theorem eachLeafOf_ofTuple {inner : Connective} {values : List Value} {xs : List Condition}
    (h : ofTuple a columns op inner values = .ok xs) : EachLeafOf G xs := by
  obtain ⟨-, tests, rfl, htests⟩ := ofTuple_eq_ok h
  refine eachLeafOf_iff.2
    (forall_mem_joinedBy (fun _ _ => eachLeaf_withConnective hG) fun x hx => ?_)
  obtain ⟨⟨column, v⟩, hmem, hx⟩ := exists_of_mem_right htests hx
  obtain ⟨op', w, rfl⟩ := ofScalar_eq_ok hx
  exact hcompare column (List.of_mem_zip hmem).1 op' w

include hempty

theorem eachLeaf_ofTupleList {negated : Bool} {tuples : List (List Value)}
    (h : ofTupleList a columns negated tuples = .ok x) : EachLeaf G x := by
  unfold ofTupleList at h
  split at h
  · cases columns with
    | nil => cases h
    | cons c rest =>
      obtain rfl := Except.ok.inj h
      exact hempty c List.mem_cons_self negated
  · obtain ⟨groups, hgroups, h⟩ := bind_eq_ok_iff.1 h
    have hleaves : ∀ members ∈ groups, EachLeafOf G members := by
      intro members hmem
      obtain ⟨values, -, hmembers⟩ := exists_of_mem_right (mapM_eq_ok_iff.1 hgroups) hmem
      exact eachLeafOf_ofTuple hG hcompare hmembers
    split at h
    · next members =>
      obtain rfl := Except.ok.inj h
      exact hleaves members List.mem_cons_self
    · obtain rfl := Except.ok.inj h
      rw [chain_eq]
      exact eachLeafOf_iff.2 (forall_mem_joinedBy (fun _ _ => eachLeaf_withConnective hG)
        (List.forall_mem_map.2 hleaves))

theorem eachLeaf_ofColumns (h : ofColumns a op v columns = .ok x) : EachLeaf G x := by
  unfold ofColumns at h
  split at h
  · next column =>
    obtain ⟨op', w, rfl⟩ := ofScalar_eq_ok h
    exact hcompare column List.mem_cons_self op' w
  · rw [ofTuples_eq] at h
    obtain ⟨negated, -, h⟩ := bind_eq_ok_iff.1 h
    exact eachLeaf_ofTupleList hG hcompare hempty h

end Made

theorem under_ofColumns (h : ofColumns a op v columns = .ok x) : EachLeaf (Under a) x :=
  eachLeaf_ofColumns (fun _ _ => under_withConnective.2) (fun _ _ _ _ => rfl) (fun _ _ _ => rfl) h

end Condition

namespace JoinTree

variable {t : JoinTree} {s : Schema}

theorem isNormal_of_under {a : String} {x : Condition} (ha : t.idOfAlias? a ≠ none)
    (h : x.Under a) : t.IsNormal x := by
  cases x with
  | compare c b names op v =>
    obtain rfl : b = a := h
    exact ha
  | membership c column values negated =>
    obtain rfl : column.tableAlias = a := h
    exact ha
  | _ => exact h.elim

theorem isNormal_ofColumns {id : Nat} (hid : id < t.size) {op : Operator} {v : Value}
    {columns : List String} {x : Condition}
    (h : Condition.ofColumns (t.node id).tableAlias op v columns = .ok x) : t.IsNormal x := by
  have ha : t.idOfAlias? (t.node id).tableAlias ≠ none := idOfAlias?_ne_none.2 ⟨id, hid, rfl⟩
  exact isNormal_of_eachLeaf (EachLeaf.imp (fun _ => isNormal_of_under ha) x
    (Condition.under_ofColumns h))

mutual

theorem Resolves.isNormal (hs : t.schema = some s) (hhooks : s.HooksAvoidSelects)
    (ht : t.WellFormed) {scope : Nat} {x : Criterion} {y : Condition} (hscope : scope < t.size) :
    t.Resolves scope x y → x.avoidsSelects → t.IsNormal y
  | .compare read found plain about made, _ => by
    have hid := lt_size_of_resolveFrom ht hscope found
    rw [isNormal_withConnective]
    exact isNormal_ofColumns (columnsOf_later ht hid about).1 made
  | .hooked read found hooked returned inner, _ => by
    have hid := lt_size_of_resolveFrom ht hscope found
    obtain ⟨m, hm, hname⟩ := Option.bind_eq_some_iff.1 hooked
    have havoids := hhooks m (mem_of_model? hs hm) _ _ _ _ _ hname returned
    exact inner.areNormal hs hhooks ht hid havoids
  | .group inner, hx =>
    inner.areNormal hs hhooks ht hscope (by simpa [Criterion.avoidsSelects] using hx)
  | .membership about, _ =>
    idOfAlias?_ne_none.2 ⟨_, (target_later ht hscope about).1, rfl⟩
  | .columns read about against, _ =>
    ⟨idOfAlias?_ne_none.2 ⟨_, (target_later ht hscope about).1, rfl⟩,
      idOfAlias?_ne_none.2 ⟨_, (target_later ht hscope against).1, rfl⟩⟩
  | .existence, hx => by simp [Criterion.avoidsSelects] at hx
  | .subquery read, hx => by simp [Criterion.avoidsSelects] at hx

theorem ResolvesAll.areNormal (hs : t.schema = some s) (hhooks : s.HooksAvoidSelects)
    (ht : t.WellFormed) {scope : Nat} {xs : List Criterion} {ys : List Condition}
    (hscope : scope < t.size) :
    t.ResolvesAll scope xs ys → Criterion.avoidSelects xs → t.AreNormal ys
  | .nil, _ => trivial
  | .cons head tail, hxs => by
    obtain ⟨hx, hrest⟩ : _ ∧ _ := by simpa [Criterion.avoidSelects] using hxs
    exact ⟨head.isNormal hs hhooks ht hscope hx, tail.areNormal hs hhooks ht hscope hrest⟩

end

mutual

/-- What a criterion resolves to is a SELECT of the caller or compares columns of nodes. -/
theorem Resolves.leaves (ht : t.WellFormed) {scope : Nat} {x : Criterion} {y : Condition}
    (hscope : scope < t.size) :
    t.Resolves scope x y → EachLeaf (fun z => z.hasSubquery = true ∨ t.IsNormal z) y
  | .compare read found plain about made => by
    have hid := lt_size_of_resolveFrom ht hscope found
    have hnormal := isNormal_ofColumns (columnsOf_later ht hid about).1 made
    exact eachLeaf_withConnective (fun c z hz => by simpa using hz)
      (EachLeaf.imp (fun _ => .inr) _ (eachLeaf_of_isNormal hnormal))
  | .hooked read found hooked returned inner =>
    inner.leaves ht (lt_size_of_resolveFrom ht hscope found)
  | .group inner => inner.leaves ht hscope
  | .membership about =>
    .inr (idOfAlias?_ne_none.2 ⟨_, (target_later ht hscope about).1, rfl⟩)
  | .columns read about against =>
    .inr ⟨idOfAlias?_ne_none.2 ⟨_, (target_later ht hscope about).1, rfl⟩,
      idOfAlias?_ne_none.2 ⟨_, (target_later ht hscope against).1, rfl⟩⟩
  | .existence => .inl rfl
  | .subquery read => .inl rfl

theorem ResolvesAll.leaves (ht : t.WellFormed) {scope : Nat} {xs : List Criterion}
    {ys : List Condition} (hscope : scope < t.size) :
    t.ResolvesAll scope xs ys → EachLeafOf (fun z => z.hasSubquery = true ∨ t.IsNormal z) ys
  | .nil => trivial
  | .cons head tail => ⟨head.leaves ht hscope, tail.leaves ht hscope⟩

end

end JoinTree

end PathQuery
