import PathQuery.Proofs.Filter.Entries
import PathQuery.Proofs.JoinTree.Meaning
import PathQuery.Proofs.Relation.Columns

/-!
Names of columns from the paths of a filter to settled conditions. The names that tables and
relations give were checked when the schema was resolved. An attribute that no column is mapped to
is taken for the name of a column as it is spelled.
-/

set_option autoImplicit false

namespace PathQuery

namespace Condition

open JoinTree

variable {N : String → Prop}

mutual

theorem eachLeaf_namesOnly (x : Condition) : EachLeaf (NamesOnly N) x ↔ x.NamesOnly N := by
  cases x with
  | group c members => exact (eachLeafOf_namesOnly members).trans namesOnly_group.symm
  | _ => rfl
termination_by structural x

theorem eachLeafOf_namesOnly (xs : List Condition) :
    EachLeafOf (NamesOnly N) xs ↔ ∀ x ∈ xs, x.NamesOnly N := by
  cases xs with
  | nil => simp [EachLeafOf]
  | cons x rest =>
    rw [EachLeafOf, eachLeaf_namesOnly x, eachLeafOf_namesOnly rest, List.forall_mem_cons]
termination_by structural xs

end

end Condition

namespace JoinTree

variable {t u : JoinTree} {N : String → Prop} {xs : List Condition}

structure Checked (t : JoinTree) : Prop where
  wellFormed : t.WellFormed
  tables : ∀ id, (t.table id).Checked
  relations : ∀ id name r, (t.model? id).bind (·.relation? name) = some r → r.Checked

theorem checked_of_resolve {settings : Settings} {decls : List ModelDecl} {s : Schema}
    {name : String} {start : JoinTree} (hresolve : Schema.resolve settings decls = .ok s)
    (hstart : ofModel s name = .ok start) (h : Reached start t) : t.Checked := by
  have hs := Schema.sound_of_resolve hresolve
  have hschema := h.schema hstart
  refine ⟨h.wellFormed hstart, fun id => ?_, fun id name r hr => ?_⟩
  · rw [table]
    cases hm : t.model? id with
    | none =>
      obtain ⟨m, hm, rfl⟩ := ofModel_eq_ok hstart
      rw [h.rootTable]
      exact hs.tables m (List.mem_of_find?_eq_some (Schema.model_eq_ok_iff.1 hm))
    | some m => exact hs.tables m (mem_of_model? hschema hm)
  · obtain ⟨m, hm, hr⟩ := Option.bind_eq_some_iff.1 hr
    obtain ⟨owner, -, howner⟩ : ∃ owner, (t.node id).model = some owner ∧ s.model? owner = some m :=
      Option.bind_eq_some_iff.1 (by simpa [model?, hschema] using hm)
    exact (hs.relations owner name r (Schema.relation_of_model? howner hr)).2.1

theorem Checked.edge (hc : t.Checked) {p id : Nat} {r : Relation} (e : t.Edge p id r) : r.Checked :=
  hc.relations p r.name r e.registered

theorem Checked.isIdent_of_gives (hc : t.Checked) {c : ColumnRef} (h : t.Gives c) :
    IsIdent c.column := by
  cases h with
  | @mapped id name column known =>
    obtain ⟨before, after, heq, -⟩ := List.lookup_eq_some_iff.1 known
    exact (hc.tables id).columns (name, column) (by simp [heq])
  | key mem => exact (hc.tables _).primaryKey _ mem
  | current own => exact (hc.relations _ _ _ own).current
  | linked edge => exact (hc.edge edge).linked
  | fromColumn edge many => exact ((hc.edge edge).through _ many).2.1
  | toColumn edge many => exact ((hc.edge edge).through _ many).2.2
  | counted edge => exact isIdent_seriesColumn

section Settled

variable (hN : ∀ column, IsIdent column → N column) (hc : t.Checked)

include hN hc

theorem Checked.refers : t.Refers fun c => N c.column where
  wellFormed := hc.wellFormed
  edge e := {
    current := hN _ (hc.edge e).current
    linked := hN _ (hc.edge e).linked
    fromColumn := fun through hkind => hN _ ((hc.edge e).through through hkind).2.1
    toColumn := fun through hkind => hN _ ((hc.edge e).through through hkind).2.2
    counted := hN _ isIdent_seriesColumn }

theorem Checked.names_statementJoins :
    ∀ j ∈ t.statementJoins, ∀ column ∈ j.columnNames, N column := by
  intro j hj
  rw [← j.map_refs, List.forall_mem_map]
  exact (hc.refers hN).refs_statementJoins j hj

/-- Settling adds no names but those that were checked. -/
theorem Checked.namesOnly_settle (scope : Nat) (xs : List Condition)
    (hxs : EachLeafOf (Condition.NamesOnly N) xs) (r : Settled) (h : t.settle scope xs = .ok r) :
    ∀ x ∈ r.conditions, x.NamesOnly N := by
  have hrefs : ∀ x ∈ xs, x.RefsOnly fun c => N c.column := fun x hx =>
    Condition.namesOnly_iff.1 ((Condition.eachLeafOf_namesOnly xs).1 hxs x hx)
  exact fun x hx =>
    Condition.namesOnly_iff.2 ((hc.refers hN).refsOnly_settle scope xs hrefs r h x hx)

end Settled

/-- The names that a criterion gives to statements as they are: of attributes without a column in
paths, those of a hook's criteria included, and all names in a SELECT of the caller. -/
inductive Spells (t : JoinTree) : Nat → Criterion → String → Prop
  | compare {scope id : Nat} {c : Connective} {path operator column : String} {v : Value}
    (ends : t.EndsIn scope path id column) : Spells t scope (.compare c path operator v) column
  | hooked {scope id : Nat} {c : Connective} {path operator name column : String} {v : Value}
    {op : Operator} {hook : Hook} {f : Filter} {x : Criterion}
    (found : t.resolveFrom scope path = (.ok (id, name), t))
    (hooked : (t.model? id).bind (·.hook? name) = some hook)
    (returned : hook op v = .ok f) (mem : x ∈ f.criteria) (inner : Spells t id x column) :
    Spells t scope (.compare c path operator v) column
  | group {scope : Nat} {c : Connective} {members : List Criterion} {x : Criterion}
    {column : String} (mem : x ∈ members) (inner : Spells t scope x column) :
    Spells t scope (.group c members) column
  | membership {scope id : Nat} {c : Connective} {path column : String} {values : List Value}
    {negated : Bool} (ends : t.EndsIn scope path id column) :
    Spells t scope (.membership c path values negated) column
  | left {scope id : Nat} {c : Connective} {left operator right column : String}
    (ends : t.EndsIn scope left id column) : Spells t scope (.columns c left operator right) column
  | right {scope id : Nat} {c : Connective} {left operator right column : String}
    (ends : t.EndsIn scope right id column) : Spells t scope (.columns c left operator right) column
  | existence {scope : Nat} {c : Connective} {query : Statement} {negated : Bool} {column : String}
    (mem : column ∈ query.columnNames) : Spells t scope (.existence c query negated) column
  | subquery {scope : Nat} {c : Connective} {query : Statement} {operator : String} {v : Value}
    {column : String} (mem : column ∈ query.columnNames) :
    Spells t scope (.subquery c query operator v) column

theorem Names.spells {scope : Nat} {x : Criterion} {c : ColumnRef} (h : t.Names scope x c) :
    t.Spells scope x c.column := by
  have hselect : ∀ query : Statement, c ∈ query.refs → c.column ∈ query.columnNames :=
    fun query hc => query.map_refs ▸ List.mem_map_of_mem hc
  cases h with
  | compare ends plain => exact .compare ends
  | membership ends => exact .membership ends
  | left ends => exact .left ends
  | right ends => exact .right ends
  | existence mem => exact .existence (hselect _ mem)
  | subquery mem => exact .subquery (hselect _ mem)

theorem Entry.spells {scope id : Nat} {xs : List Criterion} {x : Criterion} {column : String}
    (h : t.Entry scope xs id x) (hx : t.Spells id x column) :
    ∃ y ∈ xs, t.Spells scope y column := by
  induction h with
  | here mem => exact ⟨_, mem, hx⟩
  | inGroup mem _ ih =>
    obtain ⟨y, hy, hspells⟩ := ih hx
    exact ⟨_, mem, .group hy hspells⟩
  | inHook mem read found hooked returned _ ih =>
    obtain ⟨y, hy, hspells⟩ := ih hx
    exact ⟨_, mem, .hooked found hooked returned hy hspells⟩

/-- Resolved conditions name what was checked, and what their criteria spell. -/
theorem ResolvesAll.namesOnly (hc : t.Checked) {scope : Nat} {xs : List Criterion}
    {ys : List Condition} (hscope : scope < t.size) (h : t.ResolvesAll scope xs ys) :
    ∀ y ∈ ys, y.NamesOnly fun column => IsIdent column ∨ ∃ x ∈ xs, t.Spells scope x column := by
  refine fun y hy => Condition.namesOnly_iff.2 fun c hc' => ?_
  refine (h.refsOnly hc.wellFormed hscope y hy c hc').imp hc.isIdent_of_gives fun hnames => ?_
  obtain ⟨_, _, entry, names⟩ := hnames
  exact entry.spells names.spells

end JoinTree

end PathQuery
