import PathQuery.Proofs.JoinTree.Leads
import PathQuery.Proofs.JoinTree.Walks

/-!
The columns that the clauses of a statement speak of, read off the finished tree: each is a column
of the node that its path resolves to, and that node is joined.
-/

set_option autoImplicit false

namespace PathQuery

namespace JoinTree

variable {t u : JoinTree} {path : String} {c : ColumnRef}

structure Reads (t : JoinTree) (path : String) (id : Nat) (name : String) (c : ColumnRef) :
    Prop where
  resolved : t.resolve path = (.ok (id, name), t)
  lt : id < t.size
  joined : (t.node id).joined = true
  column : c = ⟨(t.node id).tableAlias, (t.table id).columnOf name⟩

theorem Reads.later {id : Nat} {name : String} (h : t.Reads path id name c) (hu : Reached t u) :
    u.Reads path id name c where
  resolved := resolveFrom_again h.resolved hu
  lt := hu.lt_size h.lt
  joined := (hu.lasts h.lt).joined h.joined
  column := by rw [hu.tableAlias_eq h.lt, hu.table_eq h.lt, h.column]

theorem Reached.pathBetween? (h : Reached t u) {scope id : Nat} (hid : id < t.size) :
    u.pathBetween? scope id = t.pathBetween? scope id := by
  induction id using Nat.strongRecOn with
  | ind id ih =>
    rw [JoinTree.pathBetween?, JoinTree.pathBetween?, (h.lasts hid).parent]
    cases (t.node id).parent with
    | none => rfl
    | some p =>
      by_cases hp : p < id
      · simp only [hp, if_true, ih p hp (Nat.lt_trans hp hid)]
      · simp only [hp, if_false]

structure Loads (t : JoinTree) (path : String) (id : Nat) (c : ColumnRef) : Prop where
  onPath : ∃ last way, t.resolveRelations rootId path = (.ok last, t) ∧ last < t.size ∧
    t.pathBetween? rootId last = some way ∧ id ∈ way
  lt : id < t.size
  joined : (t.node id).joined = true
  tableAlias : c.tableAlias = (t.node id).tableAlias
  column : c.column ∈ (t.table id).columns.map Prod.snd

theorem Loads.later {id : Nat} (h : t.Loads path id c) (hu : Reached t u) : u.Loads path id c where
  onPath := by
    obtain ⟨last, way, hlast, hlt, hway, hmem⟩ := h.onPath
    exact ⟨last, way, resolveRelations_again hlast hu, hu.lt_size hlt,
      by rw [hu.pathBetween? hlt, hway], hmem⟩
  lt := hu.lt_size h.lt
  joined := (hu.lasts h.lt).joined h.joined
  tableAlias := by rw [hu.tableAlias_eq h.lt, h.tableAlias]
  column := by
    rw [hu.table_eq h.lt]
    exact h.column

end JoinTree

namespace Building

open JoinTree

variable {P : JoinTree → JoinTree → Prop} {t : JoinTree}

section Root

variable [KeptByPaths P]

theorem leads_rootTable : Leads P rootTable t fun table u => u = t ∧ table = t.table rootId :=
  leads_get (leads_pure ⟨rfl, rfl⟩)

theorem leads_rootColumn (clause : Clause) (name : String) :
    Leads P (rootColumn clause name) t fun column u => u = t ∧
      column = (t.table rootId).columnOf (String.ofList (Text.trim name.toList)) := by
  refine leads_rootTable.bind fun table _ _ htable => leads_ite (fun _ => leads_throw _) fun _ => ?_
  obtain ⟨rfl, rfl⟩ := htable
  refine (leads_discard _).bind fun _ _ _ hu => ?_
  obtain rfl := hu
  exact leads_pure ⟨rfl, rfl⟩

theorem leads_labelOf (id : Nat) (name : String) :
    Leads P (labelOf id name) t fun _ u => u = t := by
  refine leads_ite (fun _ => leads_pure rfl) fun _ => ?_
  refine (leads_aliasOf id).bind fun _ _ _ ha => ?_
  obtain ⟨rfl, -⟩ := ha
  exact leads_pure rfl

end Root

section Columns

variable [KeptByColumns P] (ht : t.WellFormed)

include ht

theorem leads_columnAt (clause : Clause) (path : String) :
    Leads P (columnAt clause path) t fun p u => u.Reads path p.1 p.2.2 p.2.1 := by
  refine Leads.bind (Q := fun p u => p.1 < u.size ∧ u.resolve path = (.ok p, u))
    (leads_step fun p u h => ?_) fun p u hu hp => leads_get ?_
  · rcases hr : t.resolve path with ⟨e | found, v⟩
    · simp [hr] at h
    · obtain ⟨rfl, rfl⟩ : found = p ∧ v = u := by simpa [hr] using h
      exact leads_resolveFrom (P := P) ht ht.nonempty path found v (step_eq_ok hr)
  refine (leads_discard _).bind fun _ _ _ hsame => ?_
  obtain rfl := hsame
  refine (leads_modify (.joinPath p.1) (KeptByColumns.joinPath _ p.1)).bind fun _ w hw heq => ?_
  obtain rfl := heq
  refine (leads_aliasOf p.1).bind fun a _ _ ha => ?_
  obtain ⟨rfl, rfl⟩ := ha
  exact leads_pure {
    resolved := resolveFrom_again hp.2 hw
    lt := hw.lt_size hp.1
    joined := joined_joinPath hp.1
    column := by rw [hw.table_eq hp.1] }

theorem leads_selectedField (path : String) : Leads P (selectedField path) t fun item u =>
    ∃ id name c label, item = .column c (some label) ∧ u.Reads path id name c := by
  refine (leads_columnAt ht .fields path).bind fun p u _ hp => ?_
  refine (leads_labelOf p.1 p.2.2).bind fun label _ _ hu => ?_
  obtain rfl := hu
  exact leads_pure ⟨p.1, p.2.2, p.2.1, label, rfl, hp⟩

theorem leads_grouping (path : String) : Leads P (grouping path) t fun p u =>
    ∃ id name label, p.2 = .column p.1 (some label) ∧ u.Reads path id name p.1 := by
  refine (leads_columnAt ht .groupBy path).bind fun p u _ hp => ?_
  refine (leads_labelOf p.1 p.2.2).bind fun label _ _ hu => ?_
  obtain rfl := hu
  exact leads_pure ⟨p.1, p.2.2, label, rfl, hp⟩

theorem leads_aggregate (a : AggregateRequest) : Leads P (aggregate a) t fun g u =>
    ∀ c, g.column = some c → ∃ path id name, a.path = some path ∧ u.Reads path id name c := by
  unfold aggregate
  cases a.path with
  | none => exact leads_pure (by simp)
  | some path =>
    refine (leads_columnAt ht .aggregates path).bind fun p u _ hp => leads_pure fun c hc => ?_
    obtain rfl := Option.some.inj hc
    exact ⟨path, p.1, p.2.2, rfl, hp⟩

theorem leads_ordering (spec : String) : Leads P (ordering spec) t fun o u =>
    ∃ path id name, Options.readOrder spec = .ok (path, o.descending) ∧
      u.Reads path id name o.column := by
  refine (leads_ofExcept _).bind fun p _ _ hp => ?_
  obtain ⟨hp, rfl⟩ := hp
  refine (leads_columnAt ht .orderBy p.1).bind fun q u _ hq => ?_
  exact leads_pure ⟨p.1, q.1, q.2.2, hp, hq⟩

end Columns

theorem leads_eagerPath [KeptByClauses P] (ht : t.WellFormed) (path : String) :
    Leads P (eagerPath path) t fun items u =>
    ∀ item ∈ items, ∃ id c label, item = .column c (some label) ∧ u.Loads path id c := by
  refine (leads_resolveRelations ht ht.nonempty path).bind fun last u hu hlast => leads_get ?_
  obtain ⟨hlt, hlast⟩ := hlast
  have hu := hu.grown.wellFormed ht
  obtain ⟨way, hway⟩ := hu.exists_path hlt
  rw [hway]
  refine Leads.bind (leads_mapM (S := fun _ items u => ∀ item ∈ items, ∃ id c label,
    item = .column c (some label) ∧ u.Loads path id c) ?_ way fun id hid v hv => ?_) ?_
  · intro _ items v w hw hitems item hitem
    obtain ⟨id, c, label, rfl, hloads⟩ := hitems item hitem
    exact ⟨id, c, label, rfl, hloads.later hw⟩
  · refine leads_get (leads_ite (fun _ => leads_pure (by simp)) fun _ => ?_)
    have hlt' : id < v.size := by
      have := ((u.pathBetween?_bounds rootId last way hway).2 id hid).2
      exact hv.lt_size (Nat.lt_of_le_of_lt this hlt)
    refine (leads_modify (.select id) (KeptByClauses.select v id)).bind fun _ w hw heq => ?_
    obtain rfl := heq
    refine (leads_aliasOf id).bind fun a _ _ ha => leads_get ?_
    obtain ⟨rfl, rfl⟩ := ha
    refine leads_pure fun item hitem => ?_
    obtain ⟨⟨name, column⟩, hcolumn, rfl⟩ := List.mem_map.1 hitem
    refine ⟨id, ⟨_, column⟩, _, rfl, ?_⟩
    have hwell := hv.trans hw
    exact {
      onPath := ⟨last, way, resolveRelations_again hlast hwell, hwell.lt_size hlt,
        by rw [hwell.pathBetween? hlt, hway], hid⟩
      lt := hw.lt_size hlt'
      joined := joined_select hlt'
      tableAlias := rfl
      column := List.mem_map_of_mem hcolumn }
  · intro lists v _ hlists
    refine leads_pure fun item hitem => ?_
    obtain ⟨items, hitems, hitem⟩ := List.mem_flatten.1 hitem
    obtain ⟨-, -, h⟩ := hlists items hitems
    exact h item hitem

end Building

end PathQuery
