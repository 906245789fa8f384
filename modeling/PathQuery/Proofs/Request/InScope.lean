import PathQuery.Proofs.JoinTree.InScope
import PathQuery.Proofs.JoinTree.Meaning
import PathQuery.Proofs.Request.Built
import PathQuery.Sql.Render

/-!
Aliases of a statement. Each is brought in once, and wherever one is used the innermost rows under
it are those of the node that its path led to. Where aliases are not written all columns are the
root's.
-/

set_option autoImplicit false

namespace PathQuery

open JoinTree

/-- Every alias of a statement means what it was resolved to; it is the root's where aliases are not
written. -/
structure Statement.InScope (st : Statement) (t : JoinTree) (given : List Condition) : Prop where
  frame : t.FrameScoped [] st.toFrame
  conditions : ∀ x ∈ st.conditions, t.Scoped given st.sources x
  root : (Sql.Aliasing.of st).tables = false → st.joins = [] ∧
    (∀ c ∈ st.columnRefs, c.tableAlias = rootAlias) ∧
    Condition.anySubquery st.conditions = false ∧
    EachLeafOf (fun x => ∀ a ∈ x.aliases, a = rootAlias) st.conditions

namespace Options

variable {P : JoinTree → JoinTree → Prop} {o : Options} {s : Schema} {start v t : JoinTree}
  {xs : List Condition} {st : Statement}

theorem Names.of_mem_columnRefs (h : o.Names t st) (ht : t.WellFormed) {c : ColumnRef}
    (hc : c ∈ st.columnRefs) : ∃ id, id < t.size ∧ (id = rootId ∨ (t.node id).joined = true) ∧
      c.tableAlias = (t.node id).tableAlias := by
  have hreads : ∀ {path id name}, t.Reads path id name c → ∃ id, id < t.size ∧
      (id = rootId ∨ (t.node id).joined = true) ∧ c.tableAlias = (t.node id).tableAlias :=
    fun h => ⟨_, h.lt, .inr h.joined, by rw [h.column]⟩
  have hroot : c.tableAlias = rootAlias → ∃ id, id < t.size ∧
      (id = rootId ∨ (t.node id).joined = true) ∧ c.tableAlias = (t.node id).tableAlias :=
    fun h => ⟨rootId, ht.nonempty, .inl rfl, h.trans ht.rootAliased.symm⟩
  simp only [Frame.columnRefs, List.mem_append] at hc
  rcases hc with (((hc | hc) | hc) | hc) | hc
  · obtain ⟨item, hitem, hc⟩ := List.mem_filterMap.1 hc
    obtain ⟨c', label, rfl, hcolumn⟩ := h.columns item hitem
    obtain rfl : c' = c := Option.some.inj hc
    rcases hcolumn with ⟨path, -, id, name, hc⟩ | ⟨path, -, id, hc⟩ | ⟨hc, -⟩
    · exact hreads hc
    · exact ⟨id, hc.lt, .inr hc.joined, hc.tableAlias⟩
    · exact hroot hc
  · obtain ⟨g, hg, hc⟩ := List.mem_filterMap.1 hc
    obtain ⟨a, -, path, id, name, -, hc⟩ := h.aggregates g hg c hc
    exact hreads hc
  · obtain ⟨path, -, id, name, hc⟩ := h.groupBy c hc
    exact hreads hc
  · obtain ⟨x, hx, rfl⟩ := List.mem_map.1 hc
    obtain ⟨spec, -, path, id, name, -, hc⟩ := h.orderBy x hx
    exact hreads hc
  · obtain ⟨x, hx, rfl⟩ := List.mem_map.1 hc
    obtain ⟨target, -, hc⟩ := h.assignments x hx
    exact hroot (by rw [hc]; rfl)

namespace Yields

variable (h : o.Yields P start v t xs st) (g : t.Plain s)

include h

theorem opening_eq (ht : t.WellFormed) : st.opening = [t.rowsOf rootId] := by
  rw [Frame.opening, h.sources, rowsOf, ht.rootAliased]

theorem sources_eq (ht : t.WellFormed) :
    st.sources = [t.rowsOf rootId] ++ t.statementJoins.map Join.source := by
  rw [Frame.sources, h.opening_eq ht, h.joins]

include g

theorem once : (st.sources.map Source.tableAlias).Nodup := by
  have hjoined : ∀ id ∈ t.joinedNodes, id < t.size ∧ id ≠ rootId := fun id hid => by
    obtain ⟨hlt, hne, -⟩ := g.wellFormed.mem_joinedNodes.1 hid
    exact ⟨hlt, hne⟩
  rw [h.sources_eq g.wellFormed, statementJoins_eq]
  refine g.once_joins (fun id hid => ⟨Nat.pos_of_ne_zero (hjoined id hid).2, (hjoined id hid).1⟩) _
    ((g.wellFormed.nodup_preorder rootId).filter _) g.wellFormed.nonempty
    (fun hroot => (hjoined rootId hroot).2 rfl) (List.nodup_singleton _) ?_
  exact List.forall_mem_singleton.2 (.inl rfl)

theorem sees {id : Nat} (hid : id < t.size) (hjoined : id = rootId ∨ (t.node id).joined = true) :
    t.Sees st.sources id := by
  have hmem : t.rowsOf id ∈ st.sources := by
    rw [h.sources_eq g.wellFormed]
    by_cases hroot : id = rootId
    · rw [hroot]
      exact List.mem_append_left _ (List.mem_singleton.2 rfl)
    · obtain ⟨j, hj, hrows⟩ := List.mem_map.1
        (g.rowsOf_mem_joinsFor (Nat.pos_of_ne_zero hroot) hid (t.joinKind id))
      refine List.mem_append_right _ (List.mem_map.2 ⟨j, ?_, hrows⟩)
      exact g.wellFormed.mem_statementJoins.2
        ⟨id, ⟨hid, hroot, hjoined.resolve_left hroot⟩, hj⟩
  have hseen : (t.rowsOf id).SeenIn (st.sources ++ []) := Source.seenIn_of_mem (h.once g) hmem
  rw [List.append_nil] at hseen
  exact ⟨hid, hseen⟩

theorem frameScoped (hup : MarkedUp Node.joined t) : t.FrameScoped [] st.toFrame where
  opening s hs := by
    rw [h.opening_eq g.wellFormed] at hs
    obtain rfl := List.mem_singleton.1 hs
    exact .rows g.wellFormed.nonempty
  once := h.once g
  joins := by
    rw [h.opening_eq g.wellFormed, h.joins, statementJoins_eq]
    refine g.inOrder_joins (fun id hid => ?_) _ (g.wellFormed.parentsFirst_joinedNodes hup)
      (by simp)
    obtain ⟨hlt, hne, -⟩ := g.wellFormed.mem_joinedNodes.1 hid
    exact ⟨Nat.pos_of_ne_zero hne, hlt⟩
  columns c hc := by
    obtain ⟨id, hid, hjoined, halias⟩ := h.names.of_mem_columnRefs g.wellFormed hc
    rw [List.append_nil]
    exact ⟨id, h.sees g hid hjoined, halias⟩

theorem conditions_scoped (hv : v.WellFormed) : ∀ x ∈ st.conditions, t.Scoped xs st.sources x := by
  obtain ⟨r, hr, hconditions, ht⟩ := settleRoot_eq_ok h.settled
  have hmarked := sameShape_requireAll v (v.requiredBy xs)
  have hjoins := sameShape_joinAll (v.requireAll (v.requiredBy xs)) r.needed
  have hneeded := needed_joined hr
  have hjoined := fun id hid =>
    (joined_joinAll_iff r.needed (hneeded id hid).1).2 (.inr ⟨id, hid, mem_lineage_self _ id⟩)
  rw [← ht] at hjoins hjoined
  have g' : (v.requireAll (v.requiredBy xs)).Plain s :=
    ⟨hv.of_sameShape hmarked, by rw [← hjoins.schema, g.schema], g.names, g.closed⟩
  have hleaves := h.resolved.leaves hv hv.nonempty
  have hgiven : EachLeafOf (fun x => (v.requireAll (v.requiredBy xs)).GivenLeaf xs x ∧
      (v.requireAll (v.requiredBy xs)).OwnedBelow rootId x) xs := by
    refine eachLeafOf_inside fun x hx hsingle => ⟨⟨⟨x, x.connective, hx, hsingle, by simp⟩, ?_⟩, ?_⟩
    · intro a ha
      rw [hmarked.size]
      simp only [hmarked.tableAlias]
      exact named_of_leaf ((eachLeaf_iff hsingle).1 (hleaves.of_inside hx)) a ha
    · intro id hid
      obtain ⟨path, hpath⟩ := g'.wellFormed.exists_path (owner?_lt hid)
      simp [hpath]
  rw [hconditions]
  intro x hx
  refine (g'.scoped_settle rootId xs hgiven r hr st.sources (fun id hid => ?_) x hx).of_sameShape
    hjoins
  have hlt : id < t.size := by
    rw [hjoins.size]
    exact (hneeded id hid).1
  exact (h.sees g hlt (.inr (hjoined id hid))).of_sameShape hjoins.symm

theorem inScope (hv : v.WellFormed) (hup : MarkedUp Node.joined t) : st.InScope t xs where
  frame := h.frameScoped g hup
  conditions := h.conditions_scoped g hv
  root hoff := by
    obtain ⟨hsingle, hnone⟩ : st.hasSeveralTables = false ∧
        Condition.anySubquery st.conditions = false := by
      simpa [Sql.Aliasing.of, Statement.needsAliases] using hoff
    have hjoins : st.joins = [] := by
      simp only [Statement.hasSeveralTables, Bool.or_eq_false_iff] at hsingle
      simpa using hsingle.1
    have hroot : ∀ s ∈ st.sources, s.tableAlias = rootAlias := by
      rw [h.sources_eq g.wellFormed, ← h.joins, hjoins]
      exact List.forall_mem_singleton.2 g.wellFormed.rootAliased
    refine ⟨hjoins, fun c hc => ?_, hnone, eachLeafOf_iff.2 fun x hx => ?_⟩
    · obtain ⟨id, hid, halias⟩ := (h.frameScoped g hup).columns c hc
      rw [List.append_nil] at hid
      rw [halias]
      exact hroot _ (Source.of_under? hid.rows).1
    · have hx' : x.hasSubquery = false := Bool.eq_false_iff.2 fun hsub => by
        rw [Condition.anySubquery_iff.2 ⟨x, hx, hsub⟩] at hnone
        cases hnone
      refine EachLeaf.imp (fun y hy a ha => ?_) x ((h.conditions_scoped g hv x hx).leaves hx')
      obtain ⟨s, hs, rfl⟩ := hy a ha
      exact hroot s hs

end Yields

end Options

namespace Request

variable {settings : Settings} {decls : List ModelDecl} {s : Schema} {name : String} {r : Request}
  {depth : Nat} {st : Statement}

/-- Over a schema with plain names, aliases tell the nodes of a statement apart; the statement and
each SELECT made for its conditions bring in an alias once, and every alias that is used means the
rows of the node that its path led to. -/
theorem aliases_in_scope (hresolve : Schema.resolve settings decls = .ok s)
    (hnames : s.PlainNames) (htarget : r.target = .model s name) (h : r.build depth = .ok st) :
    ∃ start t xs, JoinTree.ofModel s name = .ok start ∧ Reached start t ∧
      t.ResolvesAll rootId r.options.filter.criteria xs ∧ r.options.Names t st ∧
      (∀ m n, m < t.size → n < t.size → (t.node m).tableAlias = (t.node n).tableAlias → m = n) ∧
      st.InScope t xs := by
  have hclosed := Schema.closed_of_resolve hresolve
  have hplain : ∀ {start t}, JoinTree.ofModel s name = .ok start → Reached start t → t.Plain s :=
    fun hstart ht => ⟨ht.wellFormed hstart, ht.schema hstart, hnames, hclosed⟩
  by_cases hkind : r.kind = .insert
  · obtain ⟨start, t, hstart, hrun⟩ := run_of_build htarget h
    rw [hkind] at hrun
    have g := hplain hstart .start
    obtain ⟨into, columns, rows, rfl⟩ := Options.insert_eq_ok hrun
    refine ⟨start, start, [], hstart, .start, ?_, ⟨by simp, by simp, by simp, by simp, by simp⟩,
      fun m n hm hn heq => g.alias_injective hm hn heq, ⟨⟨?_, ?_, .nil, ?_⟩, by simp, fun _ => ?_⟩⟩
    · rw [Options.criteria_of_insert hrun]
      exact .nil
    · simp [Frame.opening]
    · exact List.nodup_nil
    · simp [Frame.columnRefs]
    · exact ⟨rfl, by simp [Frame.columnRefs], rfl, trivial⟩
  · obtain ⟨start, v, t, xs, hstart, hyields⟩ :=
      yields_of_build (P := fun _ _ => True) (fun _ => inferInstance) htarget hkind h
    have hlast := reached_settleRoot hyields.settled
    have hv := hyields.reached.wellFormed hstart
    have ht := hyields.reached.trans hlast
    have g := hplain hstart ht
    have hup := (ht.markedUp (wellFormed_ofModel hstart) (markedUp_ofModel _ hstart)
      (markedUp_ofModel _ hstart)).1
    exact ⟨start, t, xs, hstart, ht, hyields.resolved.later hlast hv hv.nonempty, hyields.names,
      fun m n hm hn heq => g.alias_injective hm hn heq, hyields.inScope g hv hup⟩

/-- Articles of authors who have an article titled B, listed with the names of their authors. -/
theorem aliases_in_scope_of_articles :
    let r : Request := {
      target := .model Blog.schema "Article"
      kind := .select
      options := {
        filter := Filter.empty.eq "author/articles/title" (.text "B")
        fields := ["title", "author/name"]
        orderBy := ["-author/name"] } }
    Schema.resolve {} Blog.decls = .ok Blog.schema ∧ Blog.schema.PlainNames ∧
      ∃ st, r.build 1 = .ok st ∧ ∃ start t xs, JoinTree.ofModel Blog.schema "Article" = .ok start ∧
        Reached start t ∧ t.ResolvesAll rootId r.options.filter.criteria xs ∧
        r.options.Names t st ∧
        (∀ m n, m < t.size → n < t.size →
          (t.node m).tableAlias = (t.node n).tableAlias → m = n) ∧ st.InScope t xs := by
  intro r
  have hresolve : Schema.resolve {} Blog.decls = .ok Blog.schema := by with_unfolding_all rfl
  have hopens : r.opens 1 = true := by decide +kernel
  obtain ⟨st, hst⟩ := exists_build rfl hopens
  exact ⟨hresolve, Blog.plainNames, st, hst,
    aliases_in_scope hresolve Blog.plainNames rfl hst⟩

end Request

end PathQuery
