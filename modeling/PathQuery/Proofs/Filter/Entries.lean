import PathQuery.Proofs.Filter.Normal
import PathQuery.Proofs.JoinTree.ColumnRefs

/-!
The entries of a filter: its criteria, the members of their groups, and the criteria of the filters
that hooks return, at any depth. Each of them resolves to a condition of its own, and a column that
the resolved conditions refer to is one that tables or relations give, or one that an entry names.
-/

set_option autoImplicit false

namespace PathQuery

def attributesOf (name : String) : List String :=
  if name.toList.contains ',' then Building.listed name else [name]

namespace JoinTree

variable {t : JoinTree}

/-- An entry of a list of criteria, and the node that its paths start from: one of the criteria, an
entry of a group, or one of the filter that the hook of a compared attribute returned. -/
inductive Entry (t : JoinTree) : Nat → List Criterion → Nat → Criterion → Prop
  | here {scope : Nat} {xs : List Criterion} {x : Criterion} (mem : x ∈ xs) :
    Entry t scope xs scope x
  | inGroup {scope id : Nat} {xs members : List Criterion} {c : Connective} {x : Criterion}
    (mem : .group c members ∈ xs) (inner : Entry t scope members id x) : Entry t scope xs id x
  | inHook {scope node id : Nat} {xs : List Criterion} {c : Connective}
    {path operator name : String} {v : Value} {op : Operator} {hook : Hook} {f : Filter}
    {x : Criterion}
    (mem : .compare c path operator v ∈ xs) (read : Operator.parse operator = .ok op)
    (found : t.resolveFrom scope path = (.ok (node, name), t))
    (hooked : (t.model? node).bind (·.hook? name) = some hook) (returned : hook op v = .ok f)
    (inner : Entry t node f.criteria id x) : Entry t scope xs id x

theorem Entry.mono {scope id : Nat} {xs ys : List Criterion} {x : Criterion} (hsub : xs ⊆ ys)
    (h : t.Entry scope xs id x) : t.Entry scope ys id x := by
  cases h with
  | here mem => exact .here (hsub mem)
  | inGroup mem inner => exact .inGroup (hsub mem) inner
  | inHook mem read found hooked returned inner =>
    exact .inHook (hsub mem) read found hooked returned inner

theorem ResolvesAll.exists_of_mem {scope : Nat} {xs : List Criterion} {ys : List Condition}
    {x : Criterion} (h : t.ResolvesAll scope xs ys) (hx : x ∈ xs) :
    ∃ y ∈ ys, t.Resolves scope x y := by
  induction xs generalizing ys with
  | nil => cases hx
  | cons first rest ih =>
    cases h with
    | cons head tail =>
      rcases List.mem_cons.1 hx with rfl | hx
      · exact ⟨_, List.mem_cons_self, head⟩
      · obtain ⟨y, hy, hxy⟩ := ih tail hx
        exact ⟨y, List.mem_cons_of_mem _ hy, hxy⟩

/-- A comparison of a hooked attribute resolves to the group of what the hook returned. -/
theorem Resolves.of_hooked {scope id : Nat} {c : Connective} {path operator name : String}
    {v : Value} {hook : Hook} {y : Condition} (h : t.Resolves scope (.compare c path operator v) y)
    (found : t.resolveFrom scope path = (.ok (id, name), t))
    (hooked : (t.model? id).bind (·.hook? name) = some hook) :
    ∃ op f ys, Operator.parse operator = .ok op ∧ hook op v = .ok f ∧
      t.ResolvesAll id f.criteria ys ∧ y = .group c ys := by
  cases h with
  | compare read found' plain about made =>
    obtain ⟨rfl, rfl⟩ := Prod.mk.inj (Except.ok.inj (Prod.mk.inj (found.symm.trans found')).1)
    rw [hooked] at plain
    cases plain
  | hooked read found' hooked' returned inner =>
    obtain ⟨rfl, rfl⟩ := Prod.mk.inj (Except.ok.inj (Prod.mk.inj (found.symm.trans found')).1)
    obtain rfl := Option.some.inj (hooked.symm.trans hooked')
    exact ⟨_, _, _, read, returned, inner, rfl⟩

/-- Every entry resolves to a condition inside of what the filter resolves to. -/
theorem Entry.resolves {scope id : Nat} {xs : List Criterion} {x : Criterion}
    (h : t.Entry scope xs id x) :
    ∀ {ys : List Condition}, t.ResolvesAll scope xs ys →
      ∃ y, Condition.Inside ys y ∧ t.Resolves id x y := by
  induction h with
  | here mem =>
    intro ys hys
    obtain ⟨y, hy, hxy⟩ := hys.exists_of_mem mem
    exact ⟨y, .here hy, hxy⟩
  | inGroup mem _ ih =>
    intro ys hys
    obtain ⟨y, hy, hxy⟩ := hys.exists_of_mem mem
    cases hxy with
    | group inner =>
      obtain ⟨z, hz, hxz⟩ := ih inner
      exact ⟨z, .within hy hz, hxz⟩
  | inHook mem read found hooked returned _ ih =>
    intro ys hys
    obtain ⟨y, hy, hxy⟩ := hys.exists_of_mem mem
    obtain ⟨op, f, zs, hread, hreturned, inner, rfl⟩ := hxy.of_hooked found hooked
    obtain rfl := Except.ok.inj (read.symm.trans hread)
    obtain rfl := Except.ok.inj (returned.symm.trans hreturned)
    obtain ⟨z, hz, hxz⟩ := ih inner
    exact ⟨z, .within hy hz, hxz⟩

/-- A column that the tree gives: one that a node's table maps an attribute to, one of its key, one
of a relation of its model or of one that the tree follows, or the column that conditions on the
rows behind a relation are counted in. -/
inductive Gives (t : JoinTree) : ColumnRef → Prop
  | mapped {id : Nat} {name column : String} (known : (t.table id).column? name = some column) :
    Gives t ⟨(t.node id).tableAlias, column⟩
  | key {id : Nat} {column : String} (mem : column ∈ (t.table id).primaryKeyColumns) :
    Gives t ⟨(t.node id).tableAlias, column⟩
  | current {id : Nat} {name : String} {r : Relation}
    (own : (t.model? id).bind (·.relation? name) = some r) :
    Gives t ⟨(t.node id).tableAlias, r.current.column⟩
  | linked {p id : Nat} {r : Relation} (edge : t.Edge p id r) :
    Gives t ⟨(t.node id).tableAlias, r.linked.column⟩
  | fromColumn {p id : Nat} {r : Relation} {through : JoinTable} (edge : t.Edge p id r)
    (many : r.kind = .manyMany through) :
    Gives t ⟨Relation.joinTableAlias (t.node id).tableAlias, through.fromColumn⟩
  | toColumn {p id : Nat} {r : Relation} {through : JoinTable} (edge : t.Edge p id r)
    (many : r.kind = .manyMany through) :
    Gives t ⟨Relation.joinTableAlias (t.node id).tableAlias, through.toColumn⟩
  | counted {p id : Nat} {r : Relation} (edge : t.Edge p id r) :
    Gives t ⟨Relation.seriesAlias (t.node id).tableAlias, seriesColumn⟩

structure EndsIn (t : JoinTree) (scope : Nat) (path : String) (id : Nat) (column : String) :
    Prop where
  found : ∃ name, t.resolveFrom scope path = (.ok (id, name), t) ∧ column ∈ attributesOf name
  unmapped : (t.table id).column? column = none

/-- The columns that an entry names by itself: an attribute that no column is mapped to is taken for
the name of one, and a SELECT of the caller refers to columns as it likes. A comparison asks first
for a hook of what its path ends in; the other entries do not. -/
inductive Names (t : JoinTree) (scope : Nat) : Criterion → ColumnRef → Prop
  | compare {id : Nat} {c : Connective} {path operator column : String} {v : Value}
    (ends : t.EndsIn scope path id column)
    (plain : ∀ name, t.resolveFrom scope path = (.ok (id, name), t) →
      (t.model? id).bind (·.hook? name) = none) :
    Names t scope (.compare c path operator v) ⟨(t.node id).tableAlias, column⟩
  | membership {id : Nat} {c : Connective} {path column : String} {values : List Value}
    {negated : Bool} (ends : t.EndsIn scope path id column) :
    Names t scope (.membership c path values negated) ⟨(t.node id).tableAlias, column⟩
  | left {id : Nat} {c : Connective} {left operator right column : String}
    (ends : t.EndsIn scope left id column) :
    Names t scope (.columns c left operator right) ⟨(t.node id).tableAlias, column⟩
  | right {id : Nat} {c : Connective} {left operator right column : String}
    (ends : t.EndsIn scope right id column) :
    Names t scope (.columns c left operator right) ⟨(t.node id).tableAlias, column⟩
  | existence {c : Connective} {query : Statement} {negated : Bool} {r : ColumnRef}
    (mem : r ∈ query.refs) : Names t scope (.existence c query negated) r
  | subquery {c : Connective} {query : Statement} {operator : String} {v : Value} {r : ColumnRef}
    (mem : r ∈ query.refs) : Names t scope (.subquery c query operator v) r

theorem gives_columnsOf {scope id : Nat} {path name : String} {p : Nat × List String}
    (hfound : t.resolveFrom scope path = (.ok (id, name), t))
    (h : Building.columnsOf id name t = .ok (p, t)) :
    ∀ column ∈ p.2, t.Gives ⟨(t.node p.1).tableAlias, column⟩ ∨
      p.1 = id ∧ t.EndsIn scope path id column := by
  have hattribute : ∀ a ∈ attributesOf name,
      t.Gives ⟨(t.node id).tableAlias, (t.table id).columnOf a⟩ ∨
        t.EndsIn scope path id ((t.table id).columnOf a) := by
    intro a ha
    rw [Table.columnOf]
    cases hcolumn : (t.table id).column? a with
    | some column => exact .inl (.mapped hcolumn)
    | none => exact .inr ⟨⟨name, hfound, ha⟩, hcolumn⟩
  by_cases hcomma : name.toList.contains ',' = true
  · rw [Building.columnsOf_list hcomma] at h
    obtain ⟨rfl, -⟩ := Prod.mk.inj (Except.ok.inj h)
    rw [List.forall_mem_map]
    exact fun a ha => (hattribute a (by rwa [attributesOf, if_pos hcomma])).imp_right (⟨rfl, ·⟩)
  cases hr : (t.model? id).bind (·.relation? name) with
  | none =>
    rw [Building.columnsOf_attribute hcomma hr] at h
    obtain ⟨rfl, -⟩ := Prod.mk.inj (Except.ok.inj h)
    refine List.forall_mem_singleton.2 ((hattribute name ?_).imp_right (⟨rfl, ·⟩))
    rw [attributesOf, if_neg hcomma]
    exact List.mem_singleton_self name
  | some r =>
    by_cases hkind : r.kind = .belongsTo
    · rw [Building.columnsOf_belongsTo hcomma hr hkind] at h
      obtain ⟨rfl, -⟩ := Prod.mk.inj (Except.ok.inj h)
      exact List.forall_mem_singleton.2 (.inl (.current hr))
    · rw [(Building.of_columnsOf_relation hcomma hr hkind h).2]
      exact fun column hcolumn => .inl (.key hcolumn)

theorem WellFormed.gives_target (ht : t.WellFormed) {scope : Nat} (hscope : scope < t.size)
    {path : String} {p : Nat × List String} (h : Building.target scope path t = .ok (p, t)) :
    ∀ column ∈ p.2, t.Gives ⟨(t.node p.1).tableAlias, column⟩ ∨ t.EndsIn scope path p.1 column := by
  obtain ⟨⟨id, name⟩, hfound, hcolumns⟩ := Building.of_target ht hscope h
  refine fun column hcolumn => (gives_columnsOf hfound hcolumns column hcolumn).imp_right ?_
  rintro ⟨rfl, ends⟩
  exact ends

/-- A reference that the tree gives, or that an entry names. -/
def Accounts (t : JoinTree) (scope : Nat) (xs : List Criterion) (c : ColumnRef) : Prop :=
  t.Gives c ∨ ∃ id x, t.Entry scope xs id x ∧ t.Names id x c

theorem Accounts.mono {scope : Nat} {xs ys : List Criterion} {c : ColumnRef} (hsub : xs ⊆ ys)
    (h : t.Accounts scope xs c) : t.Accounts scope ys c :=
  h.imp_right fun ⟨id, x, entry, names⟩ => ⟨id, x, entry.mono hsub, names⟩

theorem accounts_of_names {scope : Nat} {x : Criterion} {c : ColumnRef} (h : t.Names scope x c) :
    t.Accounts scope [x] c :=
  .inr ⟨scope, x, .here List.mem_cons_self, h⟩

theorem refsOnly_compare {scope id target : Nat} {c : Connective} {path operator name : String}
    {v w : Value} {op : Operator} {columns : List String} {x : Condition}
    (found : t.resolveFrom scope path = (.ok (id, name), t))
    (plain : (t.model? id).bind (·.hook? name) = none)
    (about : Building.columnsOf id name t = .ok ((target, columns), t))
    (made : Condition.ofColumns (t.node target).tableAlias op w columns = .ok x) :
    x.RefsOnly (t.Accounts scope [.compare c path operator v]) := by
  have hcolumns : ∀ column ∈ columns,
      t.Accounts scope [.compare c path operator v] ⟨(t.node target).tableAlias, column⟩ := by
    intro column hcolumn
    rcases gives_columnsOf found about column hcolumn with given | ⟨rfl, ends⟩
    · exact .inl given
    refine accounts_of_names (.compare ends fun name' found' => ?_)
    obtain ⟨-, rfl⟩ := Prod.mk.inj (Except.ok.inj (Prod.mk.inj (found.symm.trans found')).1)
    exact plain
  refine (eachLeaf_refsOnly x).1 (Condition.eachLeaf_ofColumns eachLeaf_refsOnly_withConnective
    (fun column hcolumn op v => ?_) (fun column hcolumn negated => ?_) made)
  · exact List.forall_mem_singleton.2 (hcolumns column hcolumn)
  · exact List.forall_mem_singleton.2 (hcolumns column hcolumn)

theorem WellFormed.refers_accounts (ht : t.WellFormed) (scope : Nat) (xs : List Criterion) :
    t.Refers (t.Accounts scope xs) where
  wellFormed := ht
  edge e := {
    current := .inl (.current e.registered)
    linked := .inl (.linked e)
    fromColumn := fun _ many => .inl (.fromColumn e many)
    toColumn := fun _ many => .inl (.toColumn e many)
    counted := .inl (.counted e) }

mutual

/-- A resolved condition refers to what the tree gives, and to what the entries of its criterion
name. -/
theorem Resolves.refsOnly (ht : t.WellFormed) {scope : Nat} {x : Criterion} {y : Condition}
    (hscope : scope < t.size) : t.Resolves scope x y → y.RefsOnly (t.Accounts scope [x])
  | .compare _ found plain about made =>
    Condition.refsOnly_withConnective.2 (refsOnly_compare found plain about made)
  | .hooked read found hooked returned inner => by
    have hid := lt_size_of_resolveFrom ht hscope found
    refine Condition.refsOnly_group.2 fun y hy c hc => ?_
    refine (inner.refsOnly ht hid y hy c hc).imp_right fun ⟨id, e, entry, names⟩ => ?_
    exact ⟨id, e, .inHook List.mem_cons_self read found hooked returned entry, names⟩
  | .group inner => by
    refine Condition.refsOnly_group.2 fun y hy c hc => ?_
    refine (inner.refsOnly ht hscope y hy c hc).imp_right fun ⟨id, e, entry, names⟩ => ?_
    exact ⟨id, e, .inGroup List.mem_cons_self entry, names⟩
  | .membership about => by
    have hcolumn := List.forall_mem_singleton.1 (ht.gives_target hscope about)
    refine List.forall_mem_singleton.2 (hcolumn.elim .inl fun ends => ?_)
    exact accounts_of_names (.membership ends)
  | .columns read about against => by
    have hleft := List.forall_mem_singleton.1 (ht.gives_target hscope about)
    have hright := List.forall_mem_singleton.1 (ht.gives_target hscope against)
    refine List.forall_mem_cons.2 ⟨?_, List.forall_mem_singleton.2 ?_⟩
    · exact hleft.elim .inl fun ends => accounts_of_names (.left ends)
    · exact hright.elim .inl fun ends => accounts_of_names (.right ends)
  | .existence => fun c hc => accounts_of_names (.existence hc)
  | .subquery read => fun c hc => accounts_of_names (.subquery hc)

theorem ResolvesAll.refsOnly (ht : t.WellFormed) {scope : Nat} {xs : List Criterion}
    {ys : List Condition} (hscope : scope < t.size) :
    t.ResolvesAll scope xs ys → ∀ y ∈ ys, y.RefsOnly (t.Accounts scope xs)
  | .nil => by simp
  | .cons head tail => by
    refine List.forall_mem_cons.2 ⟨fun c hc => ?_, fun y hy c hc => ?_⟩
    · exact (head.refsOnly ht hscope c hc).mono (by simp)
    · exact (tail.refsOnly ht hscope y hy c hc).mono (List.subset_cons_self _ _)

end

end JoinTree

end PathQuery
