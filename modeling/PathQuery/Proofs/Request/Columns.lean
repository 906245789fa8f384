import PathQuery.Proofs.Filter.Columns
import PathQuery.Proofs.Request.Built
import PathQuery.Sql.Render

/-!
Which names of columns a built statement holds. Every clause checks the columns that it asks for,
and joins compare columns that were checked with the schema; a filter takes an attribute that no
column is mapped to as it is spelled, and nothing checks it.
-/

set_option autoImplicit false

namespace PathQuery

def SelectItem.Checked (item : SelectItem) : Prop :=
  ∀ c label, item = .column c label → IsIdent c.column

theorem SelectItem.checked_column {c : ColumnRef} {label : Option String} (h : IsIdent c.column) :
    (SelectItem.column c label).Checked := by
  rintro _ _ ⟨⟩
  exact h

namespace Building

open JoinTree

variable {P : JoinTree → JoinTree → Prop} {t start : JoinTree}

section Root

variable [KeptByPaths P]

theorem leads_read (column : String) :
    Leads P (discard (ofExcept (Ident.read column))) t fun _ u => u = t ∧ IsIdent column := by
  cases hparse : Ident.parse column with
  | ok i =>
    exact (leads_discard _).mono fun _ _ _ hu => ⟨hu, i, hparse⟩
  | error fault =>
    have hread : Ident.read column = .error (.invalid (.ident fault)) := by
      rw [Ident.read, hparse]
      rfl
    rw [hread]
    intro a u h
    cases h

theorem leads_checked_rootColumn (clause : Clause) (name : String) :
    Leads P (rootColumn clause name) t fun column u => u = t ∧ IsIdent column := by
  refine leads_rootTable.bind fun table _ _ htable => leads_ite (fun _ => leads_throw _) fun _ => ?_
  obtain ⟨rfl, rfl⟩ := htable
  refine (leads_read _).bind fun _ _ _ h => ?_
  obtain ⟨rfl, hident⟩ := h
  exact leads_pure ⟨rfl, hident⟩

theorem leads_checked_assignment (target : String × Value) :
    Leads P (Options.assignment target) t fun x u => u = t ∧ IsIdent x.1.column := by
  refine (leads_checked_rootColumn .set target.1).bind fun column _ _ h => ?_
  obtain ⟨rfl, hident⟩ := h
  exact leads_pure ⟨rfl, hident⟩

end Root

section Clauses

variable [KeptByColumns P] (ht : t.WellFormed)

include ht

theorem leads_checked_columnAt (clause : Clause) (path : String) :
    Leads P (columnAt clause path) t fun p _ => IsIdent p.2.1.column := by
  refine Leads.bind (Q := fun _ _ => True) (leads_step fun p u h => ?_) fun p u hu hp =>
    leads_get ?_
  · rcases hr : t.resolve path with ⟨e | found, v⟩
    · simp [hr] at h
    · obtain ⟨rfl, rfl⟩ : found = p ∧ v = u := by simpa [hr] using h
      obtain ⟨hreached, hP, -⟩ :=
        leads_resolveFrom (P := P) ht ht.nonempty path found v (step_eq_ok hr)
      exact ⟨hreached, hP, trivial⟩
  refine (leads_read _).bind fun _ _ _ h => ?_
  obtain ⟨rfl, hident⟩ := h
  refine (leads_modify (.joinPath p.1) (KeptByColumns.joinPath _ p.1)).bind fun _ w hw _ => ?_
  exact (leads_aliasOf p.1).bind fun a _ _ _ => leads_pure hident

theorem leads_checked_selectedField (path : String) :
    Leads P (selectedField path) t fun item _ => item.Checked := by
  refine (leads_checked_columnAt ht .fields path).bind fun p u _ hp => ?_
  exact (leads_labelOf p.1 p.2.2).bind fun label _ _ _ => leads_pure (SelectItem.checked_column hp)

theorem leads_checked_grouping (path : String) : Leads P (grouping path) t fun p _ =>
    IsIdent p.1.column ∧ p.2.Checked := by
  refine (leads_checked_columnAt ht .groupBy path).bind fun p u _ hp => ?_
  exact (leads_labelOf p.1 p.2.2).bind fun label _ _ _ =>
    leads_pure ⟨hp, SelectItem.checked_column hp⟩

theorem leads_checked_aggregate (a : AggregateRequest) : Leads P (aggregate a) t fun g _ =>
    ∀ c, g.column = some c → IsIdent c.column := by
  unfold aggregate
  cases a.path with
  | none => exact leads_pure (by simp)
  | some path =>
    refine (leads_checked_columnAt ht .aggregates path).bind fun p u _ hp =>
      leads_pure fun c hc => ?_
    obtain rfl := Option.some.inj hc
    exact hp

theorem leads_checked_ordering (spec : String) :
    Leads P (ordering spec) t fun o _ => IsIdent o.column.column := by
  refine (leads_ofExcept _).bind fun p _ _ hp => ?_
  obtain ⟨-, rfl⟩ := hp
  exact (leads_checked_columnAt ht .orderBy p.1).bind fun q u _ hq => leads_pure hq

theorem leads_checked_mapM {α β : Type} {f : α → Building β} {C : β → Prop} (as : List α)
    (hf : ∀ a ∈ as, ∀ u, Reached t u → u.WellFormed → Leads P (f a) u fun b _ => C b) :
    Leads P (as.mapM f) t fun bs _ => ∀ b ∈ bs, C b := by
  refine (leads_mapM (S := fun _ b _ => C b) (fun _ _ _ _ _ h => h) as fun a ha u hu => ?_).mono
    fun bs u _ hbs b hb => ?_
  · exact hf a ha u hu (hu.grown.wellFormed ht)
  · obtain ⟨-, -, h⟩ := hbs b hb
    exact h

end Clauses

end Building

namespace Options

open Building JoinTree

variable {o : Options} {start u : JoinTree} {depth : Nat} {st : Statement}
  (hc : ∀ t, Reached start t → t.Checked)

include hc

theorem leads_checked_fieldItems {t : JoinTree} (ht : Reached start t) :
    Leads (fun _ _ => True) o.fieldItems t fun items _ => ∀ item ∈ items, item.Checked := by
  have hw := (hc t ht).wellFormed
  refine leads_ite (fun _ => ?_) fun _ => leads_ite (fun _ => ?_) fun _ => leads_pure (by simp)
  · exact leads_checked_mapM hw o.fields fun path _ u _ hu => leads_checked_selectedField hu path
  · refine leads_rootTable.bind fun _ _ _ h => ?_
    obtain ⟨rfl, rfl⟩ := h
    refine leads_pure (List.forall_mem_map.2 fun entry hentry => ?_)
    exact SelectItem.checked_column ((hc _ ht).tables rootId |>.columns entry hentry)

theorem leads_checked_eager {t : JoinTree} (ht : Reached start t) :
    Leads (fun _ _ => True) (o.eager.mapM eagerPath) t fun lists _ =>
      ∀ items ∈ lists, ∀ item ∈ items, item.Checked := by
  refine leads_checked_mapM (hc t ht).wellFormed o.eager fun path _ v hv hw => ?_
  refine (leads_eagerPath hw path).mono fun items w hw hitems item hitem => ?_
  obtain ⟨id, c, label, rfl, hloads⟩ := hitems item hitem
  obtain ⟨entry, hentry, heq⟩ := List.mem_map.1 hloads.column
  exact SelectItem.checked_column
    (heq ▸ ((hc w ((ht.trans hv).trans hw)).tables id).columns entry hentry)

/-- Whatever a SELECT asks for, its clauses name columns that were checked. -/
theorem checked_select (h : o.select depth start = .ok (st, u)) :
    (∀ c ∈ st.columnRefs, IsIdent c.column) ∧ st.insertColumns = [] := by
  obtain ⟨fields, t₁, eager, t₂, groups, t₃, aggregates, t₄, orderBy, t₅, limit, offset,
    ys, hfields, heager, hgroups, haggregates, horder, -, rfl⟩ := select_eq_ok h
  obtain ⟨h₁, -, hfields⟩ := leads_checked_fieldItems hc .start _ _ hfields
  obtain ⟨h₂, -, heager⟩ := leads_checked_eager hc h₁ _ _ heager
  have r₂ := h₁.trans h₂
  obtain ⟨h₃, -, hgroups⟩ := leads_checked_mapM (P := fun _ _ => True) (hc t₂ r₂).wellFormed
    o.groupBy (fun path _ v _ hv => leads_checked_grouping hv path) _ _ hgroups
  have r₃ := r₂.trans h₃
  obtain ⟨h₄, -, haggregates⟩ := leads_checked_mapM (P := fun _ _ => True) (hc t₃ r₃).wellFormed
    o.aggregates (fun a _ v _ hv => leads_checked_aggregate hv a) _ _ haggregates
  have r₄ := r₃.trans h₄
  obtain ⟨-, -, horder⟩ := leads_checked_mapM (P := fun _ _ => True) (hc t₄ r₄).wellFormed
    o.orderBy (fun spec _ v _ hv => leads_checked_ordering hv spec) _ _ horder
  refine ⟨fun c hc => ?_, rfl⟩
  simp only [Frame.columnRefs, List.mem_append, List.map_nil, List.not_mem_nil, or_false] at hc
  rcases hc with ((hc | hc) | hc) | hc
  · obtain ⟨item, hitem, hc⟩ := List.mem_filterMap.1 hc
    have hchecked : item.Checked := by
      rcases List.mem_append.1 hitem with hitem | hitem
      · rcases List.mem_append.1 hitem with hitem | hitem
        · exact hfields item hitem
        · obtain ⟨items, hitems, hitem⟩ := List.mem_flatten.1 hitem
          exact heager items hitems item hitem
      · split at hitem
        · obtain ⟨p, hp, rfl⟩ := List.mem_map.1 hitem
          exact (hgroups p hp).2
        · cases hitem
    cases item with
    | column c' label =>
      obtain rfl := Option.some.inj hc
      exact hchecked _ _ rfl
    | raw sql => cases hc
  · obtain ⟨g, hg, hc⟩ := List.mem_filterMap.1 hc
    exact haggregates g hg c hc
  · obtain ⟨p, hp, rfl⟩ := List.mem_map.1 hc
    exact (hgroups p hp).1
  · obtain ⟨x, hx, rfl⟩ := List.mem_map.1 hc
    exact horder x hx

theorem checked_update (h : o.update depth start = .ok (st, u)) :
    (∀ c ∈ st.columnRefs, IsIdent c.column) ∧ st.insertColumns = [] := by
  rcases run_ite h with ⟨-, h⟩ | ⟨-, h⟩
  · cases h
  obtain ⟨source, t₁, ⟨h₁, -, -⟩, h⟩ := (leads_rootSource (P := fun _ _ => True)).run_bind h
  obtain ⟨assignments, t₂, ⟨-, -, hassignments⟩, h⟩ := (leads_checked_mapM (P := fun _ _ => True)
    (C := fun x => IsIdent x.1.column) (hc t₁ h₁).wellFormed o.assignments fun target _ v _ _ =>
      (leads_checked_assignment target).mono fun _ _ _ h => h.2).run_bind h
  obtain ⟨⟨ys, w⟩, -, h⟩ := bind_eq_ok_iff.1 h
  obtain ⟨rfl, -⟩ := Prod.mk.inj (Except.ok.inj h)
  refine ⟨fun c hc => ?_, rfl⟩
  obtain ⟨x, hx, rfl⟩ : ∃ x ∈ assignments, x.1 = c := by simpa [Frame.columnRefs] using hc
  exact hassignments x hx

omit hc in
theorem checked_delete (h : o.delete depth start = .ok (st, u)) :
    st.columnRefs = [] ∧ st.insertColumns = [] := by
  obtain ⟨source, t₁, -, h⟩ := (leads_rootSource (P := fun _ _ => True)).run_bind h
  obtain ⟨⟨ys, w⟩, -, h⟩ := bind_eq_ok_iff.1 h
  obtain ⟨rfl, -⟩ := Prod.mk.inj (Except.ok.inj h)
  split <;> exact ⟨rfl, rfl⟩

theorem checked_insert (h : o.insert start = .ok (st, u)) :
    ∀ column ∈ st.insertColumns, IsIdent column := by
  rcases run_ite h with ⟨-, h⟩ | ⟨-, h⟩
  · cases h
  rcases run_ite h with ⟨-, h⟩ | ⟨-, h⟩
  · cases h
  obtain ⟨columns, t₁, ⟨-, -, hcolumns⟩, h⟩ := (leads_checked_mapM (P := fun _ _ => True)
    (C := IsIdent) (hc start .start).wellFormed _ fun name _ v _ _ =>
      (leads_checked_rootColumn .fields name).mono fun _ _ _ h => h.2).run_bind h
  obtain ⟨⟨_, t₂⟩, -, h⟩ := bind_eq_ok_iff.1 h
  obtain ⟨rfl, -⟩ := Prod.mk.inj (Except.ok.inj h)
  exact hcolumns

end Options

namespace Request

open JoinTree

variable {settings : Settings} {decls : List ModelDecl} {s : Schema} {name : String} {r : Request}
  {depth : Nat} {st : Statement}

/-- Every column that a statement names outside of its conditions was checked, those in joins too. A
column that conditions name, down to the innermost SELECT, was checked or is spelled by the filter:
an attribute at the end of a path that no column is mapped to. -/
theorem columns_checked_or_spelled (hresolve : Schema.resolve settings decls = .ok s)
    (htarget : r.target = .model s name) (h : r.build depth = .ok st) :
    (∀ column ∈ st.toFrame.columnNames, IsIdent column) ∧
      ∃ start t, JoinTree.ofModel s name = .ok start ∧ Reached start t ∧
        ∀ column ∈ Condition.columnNamesOf st.conditions,
          IsIdent column ∨ ∃ x ∈ r.options.filter.criteria, t.Spells rootId x column := by
  obtain ⟨start, u, hstart, hrun⟩ := run_of_build htarget h
  have hc : ∀ t, Reached start t → t.Checked := fun t ht => checked_of_resolve hresolve hstart ht
  have hframe : ∀ {st : Statement}, (∀ c ∈ st.columnRefs, IsIdent c.column) →
      (∀ j ∈ st.joins, ∀ column ∈ j.columnNames, IsIdent column) →
      (∀ column ∈ st.insertColumns, IsIdent column) →
      ∀ column ∈ st.toFrame.columnNames, IsIdent column := by
    intro st hrefs hjoins hinsert
    rw [Frame.columnNames, List.forall_mem_append, List.forall_mem_append, List.forall_mem_map]
    exact ⟨⟨hrefs, fun column hcolumn => by
      obtain ⟨j, hj, hcolumn⟩ := List.mem_flatMap.1 hcolumn
      exact hjoins j hj column hcolumn⟩, hinsert⟩
  by_cases hkind : r.kind = .insert
  · rw [hkind] at hrun
    have hinsert := Options.checked_insert hc hrun
    obtain ⟨into, columns, rows, rfl⟩ := Options.insert_eq_ok hrun
    exact ⟨hframe (by simp [Frame.columnRefs]) (by simp) hinsert, start, start, hstart, .start,
      by simp [Condition.columnNamesOf]⟩
  · obtain ⟨v, xs, hyields⟩ := Options.yields_statement (P := fun _ _ => True)
      (fun _ => inferInstance) (wellFormed_ofModel hstart) hkind hrun
    have hv := hc v hyields.reached
    have hu := hc u (hyields.reached.trans (reached_settleRoot hyields.settled))
    have hclauses : (∀ c ∈ st.columnRefs, IsIdent c.column) ∧ st.insertColumns = [] := by
      cases hk : r.kind with
      | select => exact Options.checked_select hc (by rwa [hk] at hrun)
      | insert => exact absurd hk hkind
      | update => exact Options.checked_update hc (by rwa [hk] at hrun)
      | delete =>
        obtain ⟨hrefs, hinsert⟩ := Options.checked_delete (by rwa [hk] at hrun)
        exact ⟨by simp [hrefs], hinsert⟩
    refine ⟨hframe hclauses.1 ?_ (by simp [hclauses.2]), start, v, hstart, hyields.reached, ?_⟩
    · rw [hyields.joins]
      exact hu.names_statementJoins fun _ h => h
    · obtain ⟨settled, hsettled, hconditions, -⟩ := settleRoot_eq_ok hyields.settled
      have hw := hc _ (hyields.reached.trans (reached_requireAll v (v.requiredBy xs)))
      have hxs := hyields.resolved.namesOnly hv hv.wellFormed.nonempty
      rw [hconditions, Condition.forall_mem_columnNamesOf]
      refine hw.namesOnly_settle (fun _ => .inl) rootId xs ?_ settled hsettled
      exact (Condition.eachLeafOf_namesOnly xs).2 hxs

/-- The titles of articles by the name of their author, in the order of the name. -/
theorem columns_checked_or_spelled_of_articles :
    let r : Request := {
      target := .model Blog.schema "Article"
      kind := .select
      options := {
        filter := Filter.empty.eq "author/articles/title" (.text "B")
        fields := ["title"]
        orderBy := ["author/name"] } }
    Schema.resolve {} Blog.decls = .ok Blog.schema ∧ ∃ st, r.build 1 = .ok st ∧
      (∀ column ∈ st.toFrame.columnNames, IsIdent column) ∧
        ∃ start t, JoinTree.ofModel Blog.schema "Article" = .ok start ∧ Reached start t ∧
          ∀ column ∈ Condition.columnNamesOf st.conditions,
            IsIdent column ∨ ∃ x ∈ r.options.filter.criteria, t.Spells rootId x column := by
  intro r
  have hresolve : Schema.resolve {} Blog.decls = .ok Blog.schema := by with_unfolding_all rfl
  have hopens : r.opens 1 = true := by decide +kernel
  obtain ⟨st, hst⟩ := exists_build rfl hopens
  exact ⟨hresolve, st, hst, columns_checked_or_spelled hresolve rfl hst⟩

namespace Unmapped

def request : Request where
  target := .model Blog.schema "Author"
  kind := .select
  options := { filter := Filter.empty.eq "first name" (.int 1) }

def leaf : Condition :=
  .compare .and rootAlias ["first name"] .eq (.int 1)

def statement : Statement where
  kind := .select
  source := some (.table "authors" rootAlias)
  columns := [.column (.root "id") (some "id"), .column (.root "name") (some "name")]
  conditions := [leaf]

def tree : JoinTree :=
  Blog.root.attach rootId leaf

theorem resolves : request.options.filter.resolve 1 rootId Blog.root = .ok ([leaf], tree) := by
  have hpath : Building.resolveFrom rootId "first name" Blog.root =
      .ok ((rootId, "first name"), Blog.root) :=
    Building.resolveFrom_segment ⟨by decide, by decide +kernel, by decide⟩ Blog.root rootId
  have hop : Building.ofExcept (Operator.parse "=") Blog.root = .ok (.eq, Blog.root) := by
    with_unfolding_all rfl
  have hcompare : Filter.resolveCompare (Filter.resolve 0) rootId .and "first name" "=" (.int 1)
      Blog.root = .ok (leaf, tree) := by
    rw [Filter.resolveCompare, Building.bind_run hop, Building.bind_run hpath]
    rfl
  change (Filter.resolveCompare (Filter.resolve 0) rootId .and "first name" "=" (.int 1) >>= _)
    Blog.root = _
  rw [Building.bind_run hcompare]
  rfl

theorem builds : request.build 1 = .ok statement := by
  have howner : tree.owner? leaf = some rootId := by decide +kernel
  exact build_of_rooted_leaf rfl rfl rfl ⟨rfl, rfl, rfl, rfl, rfl⟩ rfl rfl
    (sameShape_attach _ rootId leaf) resolves rfl howner rfl

end Unmapped

/-- A comparison of an attribute that no column is mapped to brings its name into the SQL, though it
is no identifier. -/
theorem unmapped_attribute_reaches_sql :
    Schema.resolve {} Blog.decls = .ok Blog.schema ∧
      Unmapped.request.options.filter.avoidsSelects = true ∧
      Unmapped.request.build 1 = .ok Unmapped.statement ∧
      "first name" ∈ Unmapped.statement.columnNames ∧ ¬ IsIdent "first name" ∧
      (Unmapped.statement.compile (.of Unmapped.statement)).toOption.map Compiled.sql =
        some "SELECT `id`,`name` FROM `authors` WHERE `first name` = ?" := by
  have hresolve : Schema.resolve {} Blog.decls = .ok Blog.schema := by with_unfolding_all rfl
  have hfault : Ident.parse "first name" = .error (.badCharacter ' ' "first name") := by
    decide +kernel
  refine ⟨hresolve, rfl, Unmapped.builds, by decide, ?_, by decide +kernel⟩
  rintro ⟨i, hi⟩
  rw [hfault] at hi
  cases hi

end Request

end PathQuery
