import PathQuery.Proofs.Filter.Failures
import PathQuery.Proofs.Filter.Normal
import PathQuery.Proofs.Sql.Writable

/-!
The shape of resolved filters. Every comparison that is made of a value names one column, and takes
an operator that the value fits; a group of comparisons that a criterion comes to has members,
unless the filter, or one that a hook returned, has a group without any.
-/

set_option autoImplicit false

namespace PathQuery

namespace Condition

variable {a column : String} {op : Operator} {v : Value} {x : Condition} {hollow : Prop}

theorem sound_ofColumn (h : op.Fits v) : (ofColumn a column op v).Sound hollow :=
  ⟨⟨column, rfl⟩, h⟩

theorem sound_nullTest (h : nullTest a column op = .ok x) : x.Sound hollow := by
  unfold nullTest at h
  split at h
  all_goals first
    | cases h
      exact sound_ofColumn rfl
    | cases h

theorem fits_listForm {op' : Operator} (h : op.listForm? = some op') (items : List Value) :
    op'.Fits (.list items) := by
  cases op <;> cases h <;> exact ⟨items, rfl⟩

theorem fits_list (hunary : ¬ op.isUnary = true) (hrange : ¬ op.isRange = true)
    (hlist : op.takesList = true) (items : List Value) : op.Fits (.list items) := by
  rw [Operator.Fits, if_neg hunary, if_neg hrange, if_pos hlist]
  exact ⟨items, rfl⟩

theorem isRange_eq_false (h : ¬ op.takesList = true) : ¬ op.isRange = true := by
  cases op <;> simp [Operator.takesList, Operator.isRange] at h ⊢

theorem sound_ofScalar (h : ofScalar a column op v = .ok x) : x.Sound hollow := by
  fun_induction ofScalar a column op v with
  | case1 | case2 | case6 | case10 => exact sound_nullTest h
  | case3 items hunary hrange htwo =>
    obtain rfl := Except.ok.inj h
    refine sound_ofColumn ?_
    rw [Operator.Fits, if_neg hunary, if_pos hrange]
    obtain ⟨low, high, rfl⟩ := List.length_eq_two.1 htwo
    exact ⟨low, high, rfl⟩
  | case5 items hunary hrange hlist =>
    obtain rfl := Except.ok.inj h
    exact sound_ofColumn (fits_list hunary hrange hlist items)
  | case7 hunary hrange hlist v ih => exact ih h
  | case8 items hunary hrange hlist op' hform =>
    obtain rfl := Except.ok.inj h
    exact sound_ofColumn (fits_listForm hform items)
  | case11 v hnull hitems hunary hmember =>
    obtain rfl := Except.ok.inj h
    refine sound_ofColumn ?_
    cases op <;> first | exact ⟨[v], rfl⟩ | cases hmember
  | case13 v hnull hitems hunary hmember hlist =>
    obtain rfl := Except.ok.inj h
    refine sound_ofColumn ?_
    rw [Operator.Fits, if_neg hunary, if_neg (isRange_eq_false hlist), if_neg hlist]
    cases v with
    | null => exact absurd rfl hnull
    | list items => exact absurd rfl (hitems items)
    | _ => exact ⟨rfl, rfl⟩
  | case4 | case9 | case12 => cases h

theorem throughout_ofScalar (h : ofScalar a column op v = .ok x) : x.Throughout (Sound hollow) := by
  have hsound : x.Sound hollow := sound_ofScalar h
  obtain ⟨op', w, rfl⟩ := ofScalar_eq_ok h
  exact hsound

theorem throughout_of_members {c : Connective} {xs : List Condition} (hne : xs ≠ [])
    (h : ∀ x ∈ xs, x.Throughout (Sound hollow)) :
    (Condition.group c xs).Throughout (Sound hollow) :=
  throughout_group.2 ⟨fun hnil => absurd hnil hne, h⟩

variable {columns : List String} (hcolumns : columns ≠ [])

include hcolumns

theorem throughout_ofTuple {inner c : Connective} {values : List Value} {xs : List Condition}
    (h : ofTuple a columns op inner values = .ok xs) :
    (Condition.group c xs).Throughout (Sound hollow) := by
  obtain ⟨hwidth, tests, rfl, htests⟩ := ofTuple_eq_ok h
  have hne : tests ≠ [] := by
    rintro rfl
    exact zip_ne_nil hcolumns hwidth (List.forall₂_nil_right_iff.1 htests)
  refine throughout_of_members (joinedBy_ne_nil hne) (forall_mem_joinedBy ?_ fun x hx => ?_)
  · exact fun _ _ => throughout_withConnective Sound.withConnective
  · obtain ⟨p, -, hp⟩ := exists_of_mem_right htests hx
    exact throughout_ofScalar hp

theorem throughout_ofTupleList {negated : Bool} {tuples : List (List Value)}
    (h : ofTupleList a columns negated tuples = .ok x) : x.Throughout (Sound hollow) := by
  unfold ofTupleList at h
  split at h
  · cases columns with
    | nil => exact absurd rfl hcolumns
    | cons c rest =>
      obtain rfl := Except.ok.inj h
      trivial
  · obtain ⟨groups, hgroups, h⟩ := bind_eq_ok_iff.1 h
    have hgroups := mapM_eq_ok_iff.1 hgroups
    have hmade :
        ∀ c, ∀ members ∈ groups, (Condition.group c members).Throughout (Sound hollow) := by
      intro c members hmembers
      obtain ⟨values, -, hvalues⟩ := exists_of_mem_right hgroups hmembers
      exact throughout_ofTuple hcolumns hvalues
    split at h
    · obtain rfl := Except.ok.inj h
      exact hmade .and _ List.mem_cons_self
    · obtain rfl := Except.ok.inj h
      rw [chain_eq]
      refine throughout_of_members (joinedBy_ne_nil ?_) (forall_mem_joinedBy
        (fun _ _ => throughout_withConnective Sound.withConnective) ?_)
      · cases hgroups
        simp
      · rw [List.forall_mem_map]
        exact hmade .and

theorem throughout_ofColumns (h : ofColumns a op v columns = .ok x) :
    x.Throughout (Sound hollow) := by
  unfold ofColumns at h
  split at h
  · exact throughout_ofScalar h
  · rw [ofTuples_eq] at h
    obtain ⟨negated, -, h⟩ := bind_eq_ok_iff.1 h
    exact throughout_ofTupleList hcolumns h

end Condition

namespace Criterion

mutual

def hasMembers : Criterion → Bool
  | .group _ members => !members.isEmpty && haveMembers members
  | _ => true
termination_by structural x => x

def haveMembers : List Criterion → Bool
  | [] => true
  | x :: rest => x.hasMembers && haveMembers rest
termination_by structural xs => xs

end

end Criterion

namespace Schema

variable {s : Schema} {c c' : Model × Filter}

/-- Neither the filter nor a filter that hooks return for it holds a SELECT of the caller. -/
def AvoidsSelects (s : Schema) (c : Model × Filter) : Prop :=
  ∀ c', s.LeadsTo c c' → c'.2.avoidsSelects

/-- No group is empty in the filter, nor in a filter that hooks return for it, and neither is such a
filter itself. -/
structure NoEmptyGroup (s : Schema) (c : Model × Filter) : Prop where
  members : ∀ c', s.LeadsTo c c' → Criterion.haveMembers c'.2.criteria
  returned : ∀ c', s.LeadsTo c c' → ∀ c'' ∈ s.calls c', c''.2.criteria ≠ []

theorem AvoidsSelects.of_call (h : s.AvoidsSelects c) (hc : c' ∈ s.calls c) : s.AvoidsSelects c' :=
  fun c'' hleads => h c'' (.head hc hleads)

theorem NoEmptyGroup.of_call (h : s.NoEmptyGroup c) (hc : c' ∈ s.calls c) : s.NoEmptyGroup c' where
  members c'' hleads := h.members c'' (.head hc hleads)
  returned c'' hleads := h.returned c'' (.head hc hleads)

def Returns (s : Schema) (hollow : Prop) (m : Model) (xs : List Comparison) : Prop :=
  ∀ x ∈ xs, ∀ c, s.call? m x = some c →
    s.AvoidsSelects c ∧ (¬ hollow → s.NoEmptyGroup c ∧ c.2.criteria ≠ [])

theorem returns_of_calls {hollow : Prop} (hplain : s.AvoidsSelects c)
    (hgroups : ¬ hollow → s.NoEmptyGroup c) : s.Returns hollow c.1 c.2.comparisons := by
  intro x hx c' hcall
  have hc : c' ∈ s.calls c := mem_calls hx hcall
  refine ⟨hplain.of_call hc, fun hfull => ⟨(hgroups hfull).of_call hc, ?_⟩⟩
  exact (hgroups hfull).returned c .refl c' hc

end Schema

namespace JoinTree

open Condition

variable {s : Schema} {t : JoinTree} {hollow : Prop}

theorem ResolvesAll.eq_nil {scope : Nat} {xs : List Criterion} {ys : List Condition} :
    t.ResolvesAll scope xs ys → ys = [] → xs = []
  | .nil, _ => rfl

/-- Where no key is empty, every path leads to some column. -/
theorem Over.columnsOf_ne_nil (ht : t.Over s) (hclosed : s.Closed)
    (hkeys : ∀ m ∈ s.models, m.table.primaryKey ≠ []) {id target : Nat} {name : String}
    {columns : List String} (h : Building.columnsOf id name t = .ok ((target, columns), t)) :
    columns ≠ [] := by
  rintro rfl
  obtain ⟨m, r, linked, -, -, -, -, hlinked, hkey⟩ := ht.columnsOf_nil hclosed h
  exact hkeys linked (List.mem_of_find?_eq_some hlinked) hkey

mutual

theorem Resolves.throughout (ht : t.Over s) (hclosed : s.Closed)
    (hkeys : ∀ m ∈ s.models, m.table.primaryKey ≠ []) {scope : Nat} {m : Model} {x : Criterion}
    {y : Condition} (hscope : scope < t.size) (hm : t.model? scope = some m)
    (hreturns : s.Returns hollow m x.comparisons) :
    t.Resolves scope x y → x.avoidsSelects → (¬ hollow → x.hasMembers) →
      y.Throughout (Sound hollow)
  | .compare read found plain about made, _, _ =>
    throughout_withConnective Sound.withConnective
      (throughout_ofColumns (ht.columnsOf_ne_nil hclosed hkeys about) made)
  | .hooked read found hooked returned inner, _, _ => by
    have hid := lt_size_of_resolveFrom ht.wellFormed hscope found
    obtain ⟨m', hm', hnamed⟩ := Option.bind_eq_some_iff.1 hooked
    obtain ⟨m₀, hm₀, hend⟩ := ht.pathEnd? found hm'
    obtain rfl : m₀ = m := by simpa [hm] using hm₀.symm
    obtain ⟨hplain, hgroups⟩ := hreturns _ List.mem_cons_self _
      (Schema.call?_eq_some read hend hnamed returned)
    refine throughout_group.2 ⟨fun hnil => ?_, ?_⟩
    · by_contra hfull
      exact (hgroups hfull).2 (inner.eq_nil hnil)
    · exact inner.throughout ht hclosed hkeys hid hm'
        (Schema.returns_of_calls hplain fun hfull => (hgroups hfull).1) (hplain _ .refl)
        fun hfull => (hgroups hfull).1.members _ .refl
  | .group inner, havoids, hmembers => by
    simp only [Criterion.avoidsSelects] at havoids
    simp only [Criterion.hasMembers, Bool.and_eq_true, Bool.not_eq_true'] at hmembers
    refine throughout_group.2 ⟨fun hnil => ?_, ?_⟩
    · by_contra hfull
      exact List.isEmpty_eq_false_iff.1 (hmembers hfull).1 (inner.eq_nil hnil)
    · exact inner.throughout ht hclosed hkeys hscope hm hreturns havoids fun hfull =>
        (hmembers hfull).2
  | .membership about, _, _ => trivial
  | .columns read about against, _, _ => trivial
  | .existence, havoids, _ => by simp [Criterion.avoidsSelects] at havoids
  | .subquery read, havoids, _ => by simp [Criterion.avoidsSelects] at havoids

theorem ResolvesAll.throughout (ht : t.Over s) (hclosed : s.Closed)
    (hkeys : ∀ m ∈ s.models, m.table.primaryKey ≠ []) {scope : Nat} {m : Model}
    {xs : List Criterion} {ys : List Condition} (hscope : scope < t.size)
    (hm : t.model? scope = some m) (hreturns : s.Returns hollow m (Criterion.comparisonsOf xs)) :
    t.ResolvesAll scope xs ys → Criterion.avoidSelects xs →
      (¬ hollow → Criterion.haveMembers xs) → ∀ y ∈ ys, y.Throughout (Sound hollow)
  | .nil, _, _ => by simp
  | .cons head tail, havoids, hmembers => by
    obtain ⟨hx, hrest⟩ := List.forall_mem_append.1 hreturns
    simp only [Criterion.avoidSelects, Bool.and_eq_true] at havoids
    simp only [Criterion.haveMembers, Bool.and_eq_true] at hmembers
    rw [List.forall_mem_cons]
    exact ⟨head.throughout ht hclosed hkeys hscope hm hx havoids.1
        fun hfull => (hmembers hfull).1,
      tail.throughout ht hclosed hkeys hscope hm hrest havoids.2
        fun hfull => (hmembers hfull).2⟩

end

end JoinTree

end PathQuery
