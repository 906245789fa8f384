import PathQuery.Proofs.Filter.Normal
import PathQuery.Proofs.JoinTree.Settled
import PathQuery.Proofs.Request.Clauses

/-!
Statements that build. Their clauses find their columns in a tree that is reached from the root of
the model; the filter is resolved there, and the conditions that it comes to are settled at the
root, which marks the last nodes that the statement joins.
-/

set_option autoImplicit false

namespace PathQuery

namespace Building

open JoinTree

theorem exists_of_bind {α β : Type} {m : Building α} {f : α → Building β} {t v : JoinTree} {b : β}
    (h : (m >>= f) t = .ok (b, v)) : ∃ a u, m t = .ok (a, u) ∧ f a u = .ok (b, v) := by
  change (m t >>= fun p => f p.1 p.2) = .ok (b, v) at h
  obtain ⟨⟨a, u⟩, hu, h⟩ := bind_eq_ok_iff.1 h
  exact ⟨a, u, hu, h⟩

theorem Leads.run_bind {P : JoinTree → JoinTree → Prop} {α β : Type} {m : Building α}
    {f : α → Building β} {t v : JoinTree} {Q : α → JoinTree → Prop} {b : β} (h : Leads P m t Q)
    (hv : (m >>= f) t = .ok (b, v)) :
    ∃ a u, (Reached t u ∧ P t u ∧ Q a u) ∧ f a u = .ok (b, v) := by
  obtain ⟨a, u, hu, hv⟩ := exists_of_bind hv
  exact ⟨a, u, h a u hu, hv⟩

theorem run_ite {α : Type} {c : Prop} [Decidable c] {m n : Building α} {t : JoinTree}
    {r : α × JoinTree} (h : (if c then m else n) t = .ok r) :
    (c ∧ m t = .ok r) ∨ (¬ c ∧ n t = .ok r) := by
  split at h
  · next hc => exact .inl ⟨hc, h⟩
  · next hc => exact .inr ⟨hc, h⟩

theorem run_get {α : Type} {f : JoinTree → Building α} {t : JoinTree} {r : α × JoinTree}
    (h : (get >>= f) t = .ok r) : f t t = .ok r :=
  h

end Building

namespace Options

open Building JoinTree

variable {P : JoinTree → JoinTree → Prop} {o : Options} {start v t u : JoinTree} {depth : Nat}
  {xs : List Condition} {st : Statement}

/-- Nothing is asked for besides conditions and assignments. -/
structure Bare (o : Options) : Prop where
  fields : o.fields = []
  eager : o.eager = []
  orderBy : o.orderBy = []
  groupBy : o.groupBy = []
  aggregates : o.aggregates = []

structure Names (o : Options) (t : JoinTree) (st : Statement) : Prop where
  columns : ∀ item ∈ st.columns, ∃ c label, item = .column c (some label) ∧
    ((∃ path ∈ o.fields ++ o.groupBy, ∃ id name, t.Reads path id name c) ∨
      (∃ path ∈ o.eager, ∃ id, t.Loads path id c) ∨
      (c.tableAlias = rootAlias ∧ c.column ∈ (t.table rootId).columns.map Prod.snd))
  aggregates : ∀ g ∈ st.aggregates, ∀ c, g.column = some c →
    ∃ a ∈ o.aggregates, ∃ path id name, a.path = some path ∧ t.Reads path id name c
  groupBy : ∀ c ∈ st.groupBy, ∃ path ∈ o.groupBy, ∃ id name, t.Reads path id name c
  orderBy : ∀ x ∈ st.orderBy, ∃ spec ∈ o.orderBy, ∃ path id name,
    readOrder spec = .ok (path, x.descending) ∧ t.Reads path id name x.column
  assignments : ∀ x ∈ st.assignments, ∃ target ∈ o.assignments, x.1 =
    .root ((t.table rootId).columnOf (String.ofList (Text.trim target.1.toList)))

theorem Names.later (h : o.Names t st) (hu : Reached t u) (ht : t.WellFormed) :
    o.Names u st where
  columns item hitem := by
    obtain ⟨c, label, rfl, hc⟩ := h.columns item hitem
    refine ⟨c, label, rfl, ?_⟩
    rcases hc with ⟨path, hpath, id, name, hc⟩ | ⟨path, hpath, id, hc⟩ | hc
    · exact .inl ⟨path, hpath, id, name, hc.later hu⟩
    · exact .inr (.inl ⟨path, hpath, id, hc.later hu⟩)
    · rw [hu.table_eq (show rootId < t.size from ht.nonempty)]
      exact .inr (.inr hc)
  aggregates g hg c hc := by
    obtain ⟨a, ha, path, id, name, hpath, hreads⟩ := h.aggregates g hg c hc
    exact ⟨a, ha, path, id, name, hpath, hreads.later hu⟩
  groupBy c hc := by
    obtain ⟨path, hpath, id, name, hreads⟩ := h.groupBy c hc
    exact ⟨path, hpath, id, name, hreads.later hu⟩
  orderBy x hx := by
    obtain ⟨spec, hspec, path, id, name, hpath, hreads⟩ := h.orderBy x hx
    exact ⟨spec, hspec, path, id, name, hpath, hreads.later hu⟩
  assignments x hx := by
    rw [hu.table_eq (show rootId < t.size from ht.nonempty)]
    exact h.assignments x hx

/-- A statement on rows that are there comes of its options: `v` is the tree when its conditions are
resolved, `t` when they are settled. -/
structure Yields (P : JoinTree → JoinTree → Prop) (o : Options) (start v t : JoinTree)
    (xs : List Condition) (st : Statement) : Prop where
  reached : Reached start v
  kept : P start v
  resolved : v.ResolvesAll rootId o.filter.criteria xs
  settled : v.settleRoot xs = .ok (st.conditions, t)
  joins : st.joins = t.statementJoins
  sources : st.source.toList ++ st.deleteUsing.toList = [.table (t.table rootId).name rootAlias]
  names : o.Names t st

theorem conditions_eq_ok [KeptByPaths P] (hv : v.WellFormed) {ys : List Condition}
    (h : o.conditions depth v = .ok (ys, t)) : ∃ w xs, (Reached v w ∧ P v w) ∧
      w.ResolvesAll rootId o.filter.criteria xs ∧ w.settleRoot xs = .ok (ys, t) := by
  obtain ⟨xs, w, ⟨hw, hP, hxs⟩, h⟩ :=
    (Filter.expands_resolve (P := P) depth rootId o.filter v hv hv.nonempty).run_bind h
  exact ⟨w, xs, ⟨hw, hP⟩, hxs, h⟩

theorem leads_rootSource [KeptByPaths P] : Leads P rootSource t fun source u =>
    u = t ∧ source = .table (t.table rootId).name rootAlias := by
  refine leads_rootTable.bind fun _ _ _ h => ?_
  obtain ⟨rfl, rfl⟩ := h
  exact leads_pure ⟨rfl, rfl⟩

theorem leads_assignment [KeptByPaths P] (target : String × Value) :
    Leads P (assignment target) t fun x u => u = t ∧ x.1 =
      .root ((t.table rootId).columnOf (String.ofList (Text.trim target.1.toList))) := by
  refine (leads_rootColumn .set target.1).bind fun _ _ _ h => ?_
  obtain ⟨rfl, rfl⟩ := h
  exact leads_pure ⟨rfl, rfl⟩

theorem leads_fieldItems [KeptByPaths P] (hP : ¬ o.Bare → KeptByColumns P) (ht : t.WellFormed) :
    Leads P o.fieldItems t fun items u => ∀ item ∈ items, ∃ c label, item = .column c (some label) ∧
      ((∃ path ∈ o.fields, ∃ id name, u.Reads path id name c) ∨
        (c.tableAlias = rootAlias ∧ c.column ∈ (u.table rootId).columns.map Prod.snd)) := by
  refine leads_ite (fun _ => ?_) fun _ => leads_ite (fun _ => ?_) fun _ => leads_pure (by simp)
  · refine (leads_mapM (S := fun path item u => ∃ id name c label, item = .column c (some label) ∧
      u.Reads path id name c) ?_ o.fields fun path hpath u hu => ?_).mono fun items u _ hitems => ?_
    · rintro path item u v hv ⟨id, name, c, label, rfl, hreads⟩
      exact ⟨id, name, c, label, rfl, hreads.later hv⟩
    · have := hP fun hbare => by simp [hbare.fields] at hpath
      exact leads_selectedField (hu.grown.wellFormed ht) path
    · intro item hitem
      obtain ⟨path, hpath, id, name, c, label, rfl, hreads⟩ := hitems item hitem
      exact ⟨c, label, rfl, .inl ⟨path, hpath, id, name, hreads⟩⟩
  · refine leads_rootTable.bind fun _ _ _ h => ?_
    obtain ⟨rfl, rfl⟩ := h
    refine leads_pure fun item hitem => ?_
    obtain ⟨⟨name, column⟩, hcolumn, rfl⟩ := List.mem_map.1 hitem
    exact ⟨.root column, name, rfl, .inr ⟨rfl, List.mem_map_of_mem hcolumn⟩⟩

section Kinds

variable [KeptByPaths P] (hP : ¬ o.Bare → KeptByClauses P) (ht : t.WellFormed)

include hP ht

theorem leads_eager : Leads P (o.eager.mapM eagerPath) t fun lists u => ∀ items ∈ lists,
    ∃ path ∈ o.eager, ∀ item ∈ items, ∃ id c label, item = .column c (some label) ∧
      u.Loads path id c := by
  refine leads_mapM ?_ o.eager fun path hpath u hu => ?_
  · intro path items u v hv hitems item hitem
    obtain ⟨id, c, label, rfl, hloads⟩ := hitems item hitem
    exact ⟨id, c, label, rfl, hloads.later hv⟩
  · have := hP fun hbare => by simp [hbare.eager] at hpath
    exact leads_eagerPath (hu.grown.wellFormed ht) path

theorem leads_groups : Leads P (o.groupBy.mapM grouping) t fun groups u => ∀ p ∈ groups,
    ∃ path ∈ o.groupBy, ∃ id name label, p.2 = .column p.1 (some label) ∧
      u.Reads path id name p.1 := by
  refine leads_mapM ?_ o.groupBy fun path hpath u hu => ?_
  · rintro path p u v hv ⟨id, name, label, hp, hreads⟩
    exact ⟨id, name, label, hp, hreads.later hv⟩
  · have := hP fun hbare => by simp [hbare.groupBy] at hpath
    exact leads_grouping (hu.grown.wellFormed ht) path

theorem leads_aggregates : Leads P (o.aggregates.mapM aggregate) t fun aggregates u =>
    ∀ g ∈ aggregates, ∃ a ∈ o.aggregates, ∀ c, g.column = some c →
      ∃ path id name, a.path = some path ∧ u.Reads path id name c := by
  refine leads_mapM ?_ o.aggregates fun a ha u hu => ?_
  · intro a g u v hv hg c hc
    obtain ⟨path, id, name, hpath, hreads⟩ := hg c hc
    exact ⟨path, id, name, hpath, hreads.later hv⟩
  · have := hP fun hbare => by simp [hbare.aggregates] at ha
    exact leads_aggregate (hu.grown.wellFormed ht) a

theorem leads_orderings : Leads P (o.orderBy.mapM ordering) t fun orderBy u => ∀ x ∈ orderBy,
    ∃ spec ∈ o.orderBy, ∃ path id name, readOrder spec = .ok (path, x.descending) ∧
      u.Reads path id name x.column := by
  refine leads_mapM ?_ o.orderBy fun spec hspec u hu => ?_
  · rintro spec x u v hv ⟨path, id, name, hpath, hreads⟩
    exact ⟨path, id, name, hpath, hreads.later hv⟩
  · have := hP fun hbare => by simp [hbare.orderBy] at hspec
    exact leads_ordering (hu.grown.wellFormed ht) spec

omit hP in
theorem leads_assignments : Leads P (o.assignments.mapM assignment) t fun xs u => ∀ x ∈ xs,
    ∃ target ∈ o.assignments, rootId < u.size ∧ x.1 =
      .root ((u.table rootId).columnOf (String.ofList (Text.trim target.1.toList))) := by
  refine leads_mapM ?_ o.assignments fun target _ u hu => ?_
  · rintro target x u v hv ⟨hroot, hx⟩
    exact ⟨hv.lt_size hroot, by rw [hv.table_eq hroot, hx]⟩
  · refine (leads_assignment target).mono fun x v _ hx => ?_
    obtain ⟨rfl, hx⟩ := hx
    exact ⟨hu.lt_size ht.nonempty, hx⟩

end Kinds

/-- The steps of a SELECT that builds, in their order, and the statement that they make. -/
theorem select_eq_ok (h : o.select depth start = .ok (st, u)) :
    ∃ fields t₁ eager t₂ groups t₃ aggregates t₄ orderBy t₅ limit offset conditions,
      o.fieldItems start = .ok (fields, t₁) ∧ o.eager.mapM eagerPath t₁ = .ok (eager, t₂) ∧
      o.groupBy.mapM grouping t₂ = .ok (groups, t₃) ∧
      o.aggregates.mapM aggregate t₃ = .ok (aggregates, t₄) ∧
      o.orderBy.mapM ordering t₄ = .ok (orderBy, t₅) ∧
      o.conditions depth t₅ = .ok (conditions, u) ∧
      st = {
        kind := .select
        distinct := o.distinct
        source := some (.table (start.table rootId).name rootAlias)
        columns := fields ++ eager.flatten ++
          if o.fields.isEmpty && !o.aggregates.isEmpty then groups.map (·.2) else []
        aggregates
        joins := u.statementJoins
        groupBy := groups.map (·.1)
        orderBy, limit, offset, conditions } := by
  obtain ⟨source, t₀, hsource, h⟩ := exists_of_bind h
  obtain ⟨rfl, rfl⟩ := Prod.mk.inj (Except.ok.inj hsource)
  obtain ⟨fields, t₁, hfields, h⟩ := exists_of_bind h
  rcases run_ite (run_get h) with ⟨-, h⟩ | ⟨-, h⟩
  · obtain ⟨_, _, -, h⟩ := exists_of_bind h
    cases h
  obtain ⟨eager, t₂, heager, h⟩ := exists_of_bind h
  obtain ⟨groups, t₃, hgroups, h⟩ := exists_of_bind h
  obtain ⟨aggregates, t₄, haggregates, h⟩ := exists_of_bind h
  obtain ⟨orderBy, t₅, horder, h⟩ := exists_of_bind h
  obtain ⟨limit, t₆, hlimit, h⟩ := exists_of_bind h
  obtain ⟨offset, t₇, hoffset, h⟩ := exists_of_bind h
  obtain ⟨conditions, t₈, hconditions, h⟩ := exists_of_bind h
  obtain ⟨rfl, rfl⟩ := Prod.mk.inj (Except.ok.inj h)
  have hcount := leads_ofExcept (P := fun _ _ => True) _ limit t₆ hlimit
  have hskip := leads_ofExcept (P := fun _ _ => True) _ offset t₇ hoffset
  obtain rfl : t₆ = t₅ := hcount.2.2.2
  obtain rfl : t₇ = t₆ := hskip.2.2.2
  exact ⟨fields, t₁, eager, t₂, groups, t₃, aggregates, t₄, orderBy, t₇, limit, offset, conditions,
    hfields, heager, hgroups, haggregates, horder, hconditions, rfl⟩

theorem yields_select [KeptByPaths P] (hP : ¬ o.Bare → KeptByClauses P) (ht : start.WellFormed)
    (h : o.select depth start = .ok (st, u)) : ∃ v xs, o.Yields P start v u xs st := by
  obtain ⟨fields, t₁, eager, t₂, groups, t₃, aggregates, t₄, orderBy, t₅, limit, offset,
    ys, hfields, heager, hgroups, haggregates, horder, hys, rfl⟩ := select_eq_ok h
  obtain ⟨h₁, p₁, hfields⟩ :=
    leads_fieldItems (fun hbare => (hP hbare).toKeptByColumns) ht _ _ hfields
  have w₁ := h₁.grown.wellFormed ht
  obtain ⟨h₂, p₂, heager⟩ := leads_eager hP w₁ _ _ heager
  have w₂ := h₂.grown.wellFormed w₁
  obtain ⟨h₃, p₃, hgroups⟩ := leads_groups hP w₂ _ _ hgroups
  have w₃ := h₃.grown.wellFormed w₂
  obtain ⟨h₄, p₄, haggregates⟩ := leads_aggregates hP w₃ _ _ haggregates
  have w₄ := h₄.grown.wellFormed w₃
  obtain ⟨h₅, p₅, horder⟩ := leads_orderings hP w₄ _ _ horder
  have w₅ := h₅.grown.wellFormed w₄
  obtain ⟨v, xs, ⟨hv, pv⟩, hxs, hsettled⟩ := conditions_eq_ok (P := P) w₅ hys
  have r₅ := hv.trans (reached_settleRoot hsettled)
  have r₄ := h₅.trans r₅
  have r₃ := h₄.trans r₄
  have r₂ := h₃.trans r₃
  have r₁ := h₂.trans r₂
  refine ⟨v, xs, {
    reached := ((((h₁.trans h₂).trans h₃).trans h₄).trans h₅).trans hv
    kept := KeptByPaths.trans (KeptByPaths.trans (KeptByPaths.trans (KeptByPaths.trans
      (KeptByPaths.trans p₁ p₂) p₃) p₄) p₅) pv
    resolved := hxs
    settled := hsettled
    joins := rfl
    sources := ?_
    names := { columns := ?_, aggregates := ?_, groupBy := ?_, orderBy := ?_, assignments := ?_ } }⟩
  · have hroot : rootId < start.size := ht.nonempty
    rw [(h₁.trans r₁).table_eq hroot]
    rfl
  · intro item hitem
    rcases List.mem_append.1 hitem with hitem | hitem
    · rcases List.mem_append.1 hitem with hitem | hitem
      · obtain ⟨c, label, rfl, ⟨path, hpath, id, name, hreads⟩ | hroot⟩ := hfields item hitem
        · exact ⟨c, label, rfl,
            .inl ⟨path, List.mem_append_left _ hpath, id, name, hreads.later r₁⟩⟩
        · rw [← r₁.table_eq (show rootId < t₁.size from w₁.nonempty)] at hroot
          exact ⟨c, label, rfl, .inr (.inr hroot)⟩
      · obtain ⟨items, hitems, hitem⟩ := List.mem_flatten.1 hitem
        obtain ⟨path, hpath, hloads⟩ := heager items hitems
        obtain ⟨id, c, label, rfl, hloads⟩ := hloads item hitem
        exact ⟨c, label, rfl, .inr (.inl ⟨path, hpath, id, hloads.later r₂⟩)⟩
    · split at hitem
      · obtain ⟨p, hp, rfl⟩ := List.mem_map.1 hitem
        obtain ⟨path, hpath, id, name, label, hp, hreads⟩ := hgroups p hp
        exact ⟨p.1, label, hp,
          .inl ⟨path, List.mem_append_right _ hpath, id, name, hreads.later r₃⟩⟩
      · cases hitem
  · intro g hg c hc
    obtain ⟨a, ha, hcolumn⟩ := haggregates g hg
    obtain ⟨path, id, name, hpath, hreads⟩ := hcolumn c hc
    exact ⟨a, ha, path, id, name, hpath, hreads.later r₄⟩
  · intro c hc
    obtain ⟨p, hp, rfl⟩ := List.mem_map.1 hc
    obtain ⟨path, hpath, id, name, label, -, hreads⟩ := hgroups p hp
    exact ⟨path, hpath, id, name, hreads.later r₃⟩
  · intro x hx
    obtain ⟨spec, hspec, path, id, name, hpath, hreads⟩ := horder x hx
    exact ⟨spec, hspec, path, id, name, hpath, hreads.later r₅⟩
  · simp

theorem yields_update [KeptByPaths P] (ht : start.WellFormed)
    (h : o.update depth start = .ok (st, u)) : ∃ v xs, o.Yields P start v u xs st := by
  rcases run_ite h with ⟨-, h⟩ | ⟨-, h⟩
  · cases h
  obtain ⟨source, t₁, ⟨h₁, p₁, rfl, rfl⟩, h⟩ := (leads_rootSource (P := P)).run_bind h
  obtain ⟨assignments, t₂, ⟨h₂, p₂, hassignments⟩, h⟩ := (leads_assignments (P := P) ht).run_bind h
  obtain ⟨⟨ys, w⟩, hys, h⟩ := bind_eq_ok_iff.1 h
  obtain ⟨v, xs, ⟨hv, pv⟩, hxs, hsettled⟩ :=
    conditions_eq_ok (P := P) (h₂.grown.wellFormed ht) hys
  obtain ⟨rfl, rfl⟩ := Prod.mk.inj (Except.ok.inj h)
  have hlast := hv.trans (reached_settleRoot hsettled)
  refine ⟨v, xs, {
    reached := (h₁.trans h₂).trans hv
    kept := KeptByPaths.trans (KeptByPaths.trans p₁ p₂) pv
    resolved := hxs
    settled := hsettled
    joins := rfl
    sources := ?_
    names := { columns := ?_, aggregates := ?_, groupBy := ?_, orderBy := ?_, assignments := ?_ } }⟩
  · have hroot : rootId < t₁.size := ht.nonempty
    rw [(h₂.trans hlast).table_eq hroot]
    rfl
  · simp
  · simp
  · simp
  · simp
  · intro x hx
    obtain ⟨target, htarget, hroot, hx⟩ := hassignments x hx
    exact ⟨target, htarget, by rw [hlast.table_eq hroot, hx]⟩

theorem yields_delete [KeptByPaths P] (ht : start.WellFormed)
    (h : o.delete depth start = .ok (st, u)) : ∃ v xs, o.Yields P start v u xs st := by
  obtain ⟨source, t₁, ⟨h₁, p₁, rfl, rfl⟩, h⟩ := (leads_rootSource (P := P)).run_bind h
  obtain ⟨⟨ys, w⟩, hys, h⟩ := bind_eq_ok_iff.1 h
  obtain ⟨v, xs, ⟨hv, pv⟩, hxs, hsettled⟩ := conditions_eq_ok (P := P) ht hys
  have hlast := hv.trans (reached_settleRoot hsettled)
  have hroot : rootId < t₁.size := ht.nonempty
  obtain ⟨rfl, rfl⟩ := Prod.mk.inj (Except.ok.inj h)
  refine ⟨v, xs, ?_⟩
  split
  · exact {
      reached := h₁.trans hv
      kept := KeptByPaths.trans p₁ pv
      resolved := hxs
      settled := hsettled
      joins := rfl
      sources := by rw [hlast.table_eq hroot]; rfl
      names := ⟨by simp, by simp, by simp, by simp, by simp⟩ }
  · exact {
      reached := h₁.trans hv
      kept := KeptByPaths.trans p₁ pv
      resolved := hxs
      settled := hsettled
      joins := rfl
      sources := by rw [hlast.table_eq hroot]; rfl
      names := ⟨by simp, by simp, by simp, by simp, by simp⟩ }

theorem insert_eq_ok (h : o.insert start = .ok (st, u)) : ∃ into insertColumns rows,
    st = { kind := .insert, into := some into, insertColumns, rows } := by
  rcases run_ite h with ⟨-, h⟩ | ⟨-, h⟩
  · cases h
  rcases run_ite h with ⟨-, h⟩ | ⟨-, h⟩
  · cases h
  obtain ⟨⟨columns, t₁⟩, -, h⟩ := bind_eq_ok_iff.1 h
  obtain ⟨⟨_, t₂⟩, -, h⟩ := bind_eq_ok_iff.1 h
  obtain ⟨rfl, -⟩ := Prod.mk.inj (Except.ok.inj h)
  exact ⟨_, _, _, rfl⟩

theorem criteria_of_insert (h : o.insert start = .ok (st, u)) : o.filter.criteria = [] := by
  rcases run_ite h with ⟨-, h⟩ | ⟨hempty, -⟩
  · cases h
  · simpa [Filter.isEmpty] using hempty

theorem yields_statement [KeptByPaths P] (hP : ¬ o.Bare → KeptByClauses P) (ht : start.WellFormed)
    {kind : StatementKind} (hkind : kind ≠ .insert)
    (h : o.statement depth kind start = .ok (st, u)) : ∃ v xs, o.Yields P start v u xs st := by
  cases kind with
  | select => exact yields_select hP ht h
  | insert => exact absurd rfl hkind
  | update => exact yields_update ht h
  | delete => exact yields_delete ht h

theorem exists_settleRoot (ht : t.WellFormed) (hxs : ComparesValues xs) :
    ∃ ys u, t.settleRoot xs = .ok (ys, u) := by
  obtain ⟨r, hr⟩ := (ht.of_sameShape (sameShape_requireAll t (t.requiredBy xs))).exists_settle
    rootId xs hxs
  exact ⟨_, _, bind_eq_ok_iff.2 ⟨r, hr, rfl⟩⟩

theorem exists_conditions (ht : t.WellFormed) (hxs : ComparesValues xs)
    (h : o.filter.resolve depth rootId t = .ok (xs, u)) :
    ∃ ys v, o.conditions depth t = .ok (ys, v) := by
  obtain ⟨hu, -, -⟩ := Filter.expands_resolve (P := fun _ _ => True) depth rootId o.filter t ht
    ht.nonempty xs u h
  obtain ⟨ys, v, hsettled⟩ := exists_settleRoot (hu.grown.wellFormed ht) hxs
  exact ⟨ys, v, bind_eq_ok_iff.2 ⟨(xs, u), h, hsettled⟩⟩

/-- Whatever its filter resolves to, a DELETE builds if it compares no two columns. -/
theorem exists_delete (ht : t.WellFormed) (hxs : ComparesValues xs)
    (h : o.filter.resolve depth rootId t = .ok (xs, u)) :
    ∃ st v, o.delete depth t = .ok (st, v) := by
  obtain ⟨ys, v, hys⟩ := exists_conditions ht hxs h
  have hroot : rootSource t = .ok (.table (t.table rootId).name rootAlias, t) := rfl
  exact ⟨_, _, by rw [delete, bind_run hroot, bind_run hys]; rfl⟩

theorem select_bare (hbare : o.Bare) {limit offset : Option Nat}
    (hlimit : readCount .limit o.limit = .ok limit)
    (hoffset : readCount .offset o.offset = .ok offset)
    {ys : List Condition} (h : o.conditions depth t = .ok (ys, u)) :
    o.select depth t = .ok ({
      kind := .select
      distinct := o.distinct
      source := some (.table (t.table rootId).name rootAlias)
      columns :=
        (t.table rootId).columns.map fun (name, column) => .column (.root column) (some name)
      joins := u.statementJoins
      limit, offset
      conditions := ys }, u) := by
  have hcount : ofExcept (readCount .limit o.limit) t = .ok (limit, t) := by
    rw [hlimit]
    rfl
  have hskip : ofExcept (readCount .offset o.offset) t = .ok (offset, t) := by
    rw [hoffset]
    rfl
  have hroot : rootSource t = .ok (.table (t.table rootId).name rootAlias, t) := rfl
  have hget : (get : Building JoinTree) t = .ok (t, t) := rfl
  have hfields : o.fieldItems t = .ok ((t.table rootId).columns.map fun (name, column) =>
      .column (.root column) (some name), t) := by
    rw [fieldItems, hbare.fields, hbare.aggregates]
    rfl
  rw [select, bind_run hroot, bind_run hfields, bind_run hget]
  simp only [hbare.fields, hbare.eager, hbare.groupBy, hbare.aggregates, hbare.orderBy,
    List.mapM_nil, List.isEmpty_nil, Bool.not_true, Bool.false_and, Bool.and_false,
    Bool.false_eq_true, if_false, pure_bind]
  rw [bind_run hcount, bind_run hskip, bind_run h]
  simp
  rfl

def opening (depth : Nat) (o : Options) : Building (List Condition) := do
  let _ ← o.fieldItems
  if !o.eager.isEmpty && !(← get).hasModel then
    fail (.malformed .eager (.eagerOnBareTable (← rootTable).name))
  let _ ← o.eager.mapM eagerPath
  let _ ← o.groupBy.mapM grouping
  let _ ← o.aggregates.mapM aggregate
  let _ ← o.orderBy.mapM ordering
  let _ ← ofExcept (readCount .limit o.limit)
  let _ ← ofExcept (readCount .offset o.offset)
  o.filter.resolve depth rootId

theorem exists_select (ht : t.WellFormed) (hxs : ComparesValues xs)
    (h : o.opening depth t = .ok (xs, u)) : ∃ st v, o.select depth t = .ok (st, v) := by
  have hroot : rootSource t = .ok (.table (t.table rootId).name rootAlias, t) := rfl
  have hall : ¬ o.Bare → KeptByClauses fun _ _ => True := fun _ => inferInstance
  obtain ⟨fields, t₁, hfields, h⟩ := exists_of_bind h
  rcases run_ite (run_get h) with ⟨-, h⟩ | ⟨hmodel, h⟩
  · obtain ⟨_, _, -, h⟩ := exists_of_bind h
    cases h
  obtain ⟨eager, t₂, heager, h⟩ := exists_of_bind h
  obtain ⟨groups, t₃, hgroups, h⟩ := exists_of_bind h
  obtain ⟨aggregates, t₄, haggregates, h⟩ := exists_of_bind h
  obtain ⟨orderBy, t₅, horder, h⟩ := exists_of_bind h
  obtain ⟨limit, t₆, hlimit, h⟩ := exists_of_bind h
  obtain ⟨offset, t₇, hoffset, h⟩ := exists_of_bind h
  have w₁ := (leads_fieldItems (fun hbare => (hall hbare).toKeptByColumns) ht _ _
    hfields).1.grown.wellFormed ht
  have w₂ := (leads_eager hall w₁ _ _ heager).1.grown.wellFormed w₁
  have w₃ := (leads_groups hall w₂ _ _ hgroups).1.grown.wellFormed w₂
  have w₄ := (leads_aggregates hall w₃ _ _ haggregates).1.grown.wellFormed w₃
  have w₅ := (leads_orderings hall w₄ _ _ horder).1.grown.wellFormed w₄
  have w₆ := (leads_ofExcept (P := fun _ _ => True) _ _ _ hlimit).1.grown.wellFormed w₅
  have w₇ := (leads_ofExcept (P := fun _ _ => True) _ _ _ hoffset).1.grown.wellFormed w₆
  obtain ⟨ys, v, hys⟩ := exists_conditions w₇ hxs h
  suffices h : ∃ p, o.select depth t = .ok p by
    obtain ⟨⟨st, v⟩, h⟩ := h
    exact ⟨st, v, h⟩
  rw [select, bind_run hroot, bind_run hfields]
  have hget : (get : Building JoinTree) t₁ = .ok (t₁, t₁) := rfl
  rw [bind_run hget]
  simp only [hmodel, Bool.false_eq_true, if_false]
  exact ⟨_, by
    rw [bind_run heager, bind_run hgroups, bind_run haggregates, bind_run horder,
      bind_run hlimit, bind_run hoffset, bind_run hys]
    rfl⟩

end Options

namespace Request

open JoinTree

variable {s : Schema} {name : String} {r : Request} {depth : Nat} {st : Statement}

theorem exists_run (h : r.build depth = .ok st) :
    ∃ start t, r.joinTree = .ok start ∧
      r.options.statement depth r.kind start = .ok (st, t) := by
  obtain ⟨start, hstart, h⟩ := bind_eq_ok_iff.1 h
  obtain ⟨⟨_, t⟩, ht, rfl⟩ := map_eq_ok_iff.1 h
  refine ⟨start, t, ?_, ht⟩
  cases hm : r.joinTree with
  | error e => simp [hm, Except.mapError] at hstart
  | ok t => simpa [hm, Except.mapError] using hstart

theorem ofModel_of_joinTree (htarget : r.target = .model s name) {start : JoinTree}
    (h : r.joinTree = .ok start) : JoinTree.ofModel s name = .ok start := by
  rwa [joinTree, htarget] at h

theorem run_of_build (htarget : r.target = .model s name) (h : r.build depth = .ok st) :
    ∃ start t, JoinTree.ofModel s name = .ok start ∧
      r.options.statement depth r.kind start = .ok (st, t) := by
  obtain ⟨start, t, hstart, hrun⟩ := exists_run h
  exact ⟨start, t, ofModel_of_joinTree htarget hstart, hrun⟩

theorem wellFormed_joinTree {start : JoinTree} (h : r.joinTree = .ok start) :
    start.WellFormed := by
  cases htarget : r.target with
  | model s name => exact wellFormed_ofModel (ofModel_of_joinTree htarget h)
  | table table =>
    rw [joinTree, htarget] at h
    obtain rfl := Except.ok.inj h
    exact wellFormed_ofTable table

/-- Every statement holds the settled conditions of its filter. -/
theorem settled_of_build (h : r.build depth = .ok st) :
    ∃ start t u xs, r.joinTree = .ok start ∧ Reached start t ∧
      t.ResolvesAll rootId r.options.filter.criteria xs ∧
        t.settleRoot xs = .ok (st.conditions, u) := by
  obtain ⟨start, u, hstart, hrun⟩ := exists_run h
  by_cases hkind : r.kind = .insert
  · rw [hkind] at hrun
    obtain ⟨into, columns, rows, rfl⟩ := Options.insert_eq_ok hrun
    have hsettle : start.settle rootId [] = .ok ⟨[], []⟩ := by
      rw [settle_eq]
      rfl
    refine ⟨start, start, start, [], hstart, .start, ?_, ?_⟩
    · rw [Options.criteria_of_insert hrun]
      exact .nil
    · exact bind_eq_ok_iff.2 ⟨_, hsettle, rfl⟩
  · obtain ⟨v, xs, hyields⟩ := Options.yields_statement (P := fun _ _ => True)
      (fun _ => inferInstance) (wellFormed_joinTree hstart) hkind hrun
    exact ⟨start, v, u, xs, hstart, hyields.reached, hyields.resolved, hyields.settled⟩

/-- Every statement that is built about the rows of a model comes of the options of its request. -/
theorem yields_of_build {P : JoinTree → JoinTree → Prop} [KeptByPaths P]
    (hP : ¬ r.options.Bare → KeptByClauses P) (htarget : r.target = .model s name)
    (hkind : r.kind ≠ .insert) (h : r.build depth = .ok st) :
    ∃ start v t xs, JoinTree.ofModel s name = .ok start ∧
      r.options.Yields P start v t xs st := by
  obtain ⟨start, t, hstart, hrun⟩ := run_of_build htarget h
  obtain ⟨v, xs, hyields⟩ := Options.yields_statement hP (wellFormed_ofModel hstart) hkind hrun
  exact ⟨start, v, t, xs, hstart, hyields⟩

theorem build_of_settled {start t : JoinTree} {xs ys : List Condition} {needed : List Nat}
    {limit offset : Option Nat} (hstart : r.joinTree = .ok start) (hkind : r.kind = .select)
    (hbare : r.options.Bare) (hlimit : Options.readCount .limit r.options.limit = .ok limit)
    (hoffset : Options.readCount .offset r.options.offset = .ok offset)
    (hresolves : r.options.filter.resolve depth rootId start = .ok (xs, t))
    (hsettle : (t.requireAll (t.requiredBy xs)).settle rootId xs = .ok ⟨ys, needed⟩) :
    r.build depth = .ok {
      kind := .select
      distinct := r.options.distinct
      source := some (.table (start.table rootId).name rootAlias)
      columns := (start.table rootId).columns.map fun (name, column) =>
        .column (.root column) (some name)
      joins := ((t.requireAll (t.requiredBy xs)).joinAll needed).statementJoins
      limit, offset
      conditions := ys } := by
  have hconditions : r.options.conditions depth start =
      .ok (ys, (t.requireAll (t.requiredBy xs)).joinAll needed) := by
    rw [Options.conditions, Building.bind_run hresolves]
    exact bind_eq_ok_iff.2 ⟨_, hsettle, rfl⟩
  have hselect := Options.select_bare hbare hlimit hoffset hconditions
  rw [build, hstart, hkind]
  exact map_eq_ok_iff.2 ⟨_, hselect, rfl⟩

theorem build_of_rooted {start t : JoinTree} {xs ys : List Condition} {needed : List Nat}
    {limit offset : Option Nat} (htarget : r.target = .model s name)
    (hstart : JoinTree.ofModel s name = .ok start) (hkind : r.kind = .select)
    (hbare : r.options.Bare) (hlimit : Options.readCount .limit r.options.limit = .ok limit)
    (hoffset : Options.readCount .offset r.options.offset = .ok offset) (hshape : SameShape start t)
    (hresolves : r.options.filter.resolve depth rootId start = .ok (xs, t))
    (hsettle : (t.requireAll (t.requiredBy xs)).settle rootId xs = .ok ⟨ys, needed⟩) :
    r.build depth = .ok {
      kind := .select
      distinct := r.options.distinct
      source := some (.table (start.table rootId).name rootAlias)
      columns := (start.table rootId).columns.map fun (name, column) =>
        .column (.root column) (some name)
      limit, offset
      conditions := ys } := by
  have htree : r.joinTree = .ok start := by
    rw [joinTree, htarget]
    exact hstart
  have hbuild := build_of_settled htree hkind hbare hlimit hoffset hresolves hsettle
  have hend := (hshape.trans (sameShape_requireAll t (t.requiredBy xs))).trans
    (sameShape_joinAll _ needed)
  have hsize := hend.size.trans (size_ofModel hstart)
  rwa [((wellFormed_ofModel hstart).of_sameShape hend).statementJoins_of_size hsize] at hbuild

/-- A condition on the model's own rows needs no joins. -/
theorem build_of_rooted_leaf {start t : JoinTree} {x : Condition} {needed : List Nat}
    (htarget : r.target = .model s name) (hstart : JoinTree.ofModel s name = .ok start)
    (hkind : r.kind = .select) (hbare : r.options.Bare) (hlimit : r.options.limit = none)
    (hoffset : r.options.offset = none) (hshape : SameShape start t)
    (hresolves : r.options.filter.resolve depth rootId start = .ok ([x], t))
    (hleaf : members? x = none) (howner : t.owner? x = some rootId)
    (hright : (t.requireAll (t.requiredBy [x])).rightSide rootId none x = .ok needed) :
    r.build depth = .ok {
      kind := .select
      distinct := r.options.distinct
      source := some (.table (start.table rootId).name rootAlias)
      columns := (start.table rootId).columns.map fun (name, column) =>
        .column (.root column) (some name)
      conditions := [x] } := by
  have hrequired := sameShape_requireAll t (t.requiredBy [x])
  exact build_of_rooted htarget hstart hkind hbare (by rw [hlimit]; rfl) (by rw [hoffset]; rfl)
    hshape hresolves
    (settle_singleton hleaf ((hrequired.owner? x).trans howner) (anchor?_self _ rootId) hright)

def opens (depth : Nat) (r : Request) : Bool :=
  r.joinTree.toOption.any fun t =>
    let opened : Except Failure (List Condition × JoinTree) := match r.kind with
      | .select => r.options.opening depth t
      | .delete => r.options.filter.resolve depth rootId t
      | _ => .error .endless
    opened.toOption.any fun p => decide (ComparesValues p.1)

theorem toOption_any {ε α : Type} {x : Except ε α} {p : α → Bool}
    (h : x.toOption.any p = true) : ∃ a, x = .ok a ∧ p a = true := by
  cases x with
  | error e => cases h
  | ok a => exact ⟨a, rfl, h⟩

/-- Settling is all that is left to do then, and it does not fail. -/
theorem exists_build (htarget : r.target = .model s name) (h : r.opens depth = true) :
    ∃ st, r.build depth = .ok st := by
  obtain ⟨start, hstart, h⟩ := toOption_any h
  obtain ⟨⟨xs, u⟩, hopened, hxs⟩ := toOption_any h
  have hvalues : ComparesValues xs := of_decide_eq_true hxs
  have hmodel : JoinTree.ofModel s name = .ok start := by rwa [joinTree, htarget] at hstart
  have hwell := wellFormed_ofModel hmodel
  suffices hrun : ∃ st v, r.options.statement depth r.kind start = .ok (st, v) by
    obtain ⟨st, v, hrun⟩ := hrun
    refine ⟨st, bind_eq_ok_iff.2 ⟨start, by rw [hstart]; rfl, ?_⟩⟩
    exact map_eq_ok_iff.2 ⟨(st, v), hrun, rfl⟩
  cases hkind : r.kind with
  | select =>
    rw [hkind] at hopened
    exact Options.exists_select hwell hvalues hopened
  | delete =>
    rw [hkind] at hopened
    exact Options.exists_delete hwell hvalues hopened
  | insert =>
    rw [hkind] at hopened
    cases hopened
  | update =>
    rw [hkind] at hopened
    cases hopened

end Request

end PathQuery
