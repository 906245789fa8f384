import PathQuery.Proofs.Filter.Twins
import PathQuery.Proofs.JoinTree.Meaning
import PathQuery.Proofs.Request.Built
import PathQuery.Query

/-!
Statements on the same rows. What a request asks for besides its conditions adds nodes to the tree
and joins some of them, but changes neither the conditions nor the joins that they need, so a
SELECT, an UPDATE and a DELETE with one filter, and the count of the rows that it selects, are about
the same rows.
-/

set_option autoImplicit false

namespace PathQuery

open Condition JoinTree

namespace JoinTree

variable {s : Schema} {start t u : JoinTree}

theorem kin_of_reached {name : String} (hstart : ofModel s name = .ok start)
    (hnames : s.UndottedNames) (h : Reached start t) (h' : Reached start u) : Kin s t u where
  left := h.wellFormed hstart
  right := h'.wellFormed hstart
  schemaLeft := h.schema hstart
  schemaRight := h'.schema hstart
  names := hnames
  rootModel := by
    have hroot : rootId < start.size := (wellFormed_ofModel hstart).nonempty
    rw [(h.lasts hroot).model, (h'.lasts hroot).model]
  rootTable := by rw [h.rootTable, h'.rootTable]

/-- Two trees when their statements are finished: no clause has required a node, and the conditions
of both have been settled. -/
structure Finished (s : Schema) (xs : List Condition) (needed needed' : List Nat)
    (t u t' u' : JoinTree) : Prop where
  kin : Kin s t u
  shared : EachLeafOf (Shared t u) xs
  twins : List.Forall₂ (Twin t u) needed needed'
  left : t' = (t.requireAll (t.requiredBy xs)).joinAll needed
  right : u' = (u.requireAll (u.requiredBy xs)).joinAll needed'
  plainLeft : Unmarked Node.required t
  plainRight : Unmarked Node.required u

theorem Kin.exists_on_way (k : Kin s t u) {targets targets' : List Nat}
    (htargets : ∀ i ∈ targets, ∃ j ∈ targets', Twin t u i j) {id : Nat}
    (h : ∃ i ∈ targets, id ∈ t.lineage i) :
    ∃ id', Twin t u id id' ∧ ∃ j ∈ targets', id' ∈ u.lineage j := by
  obtain ⟨i, hi, hid⟩ := h
  obtain ⟨j, hj, htwin⟩ := htargets i hi
  obtain ⟨id', hid', htwin'⟩ := exists_of_mem_left (k.lineage htwin) hid
  exact ⟨id', htwin', j, hj, hid'⟩

namespace Finished

variable {xs : List Condition} {needed needed' : List Nat} {t' u' : JoinTree} {id id' : Nat}
  (f : Finished s xs needed needed' t u t' u')

include f

theorem symm : Finished s xs needed' needed u t u' t' where
  kin := f.kin.symm
  shared := EachLeafOf.imp (fun _ h => h.symm) xs f.shared
  twins := f.twins.flip.imp fun _ _ h => h.symm
  left := f.right
  right := f.left
  plainLeft := f.plainRight
  plainRight := f.plainLeft

theorem shapeLeft : SameShape t t' :=
  f.left ▸ (sameShape_requireAll t _).trans (sameShape_joinAll _ _)

theorem shapeRight : SameShape u u' :=
  f.right ▸ (sameShape_requireAll u _).trans (sameShape_joinAll _ _)

theorem required_iff (hid : id < t'.size) (hne : id ≠ rootId) :
    (t'.node id).required = true ↔ ∃ i ∈ t.requiredBy xs, id ∈ t.lineage i := by
  rw [f.shapeLeft.size] at hid
  rw [f.left, required_settled_iff xs needed hid, or_iff_right fun h => hne (f.plainLeft id hid h)]

theorem exists_required (hid : id < t'.size) (hne : id ≠ rootId)
    (h : (t'.node id).required = true) :
    ∃ id', Twin t u id id' ∧ (u'.node id').required = true := by
  obtain ⟨id', htwin, hway⟩ := f.kin.exists_on_way (fun i hi => f.kin.exists_requiredBy f.shared hi)
    ((f.required_iff hid hne).1 h)
  refine ⟨id', htwin, (f.symm.required_iff ?_ ?_).2 hway⟩
  · rw [f.shapeRight.size]
    exact htwin.right
  · exact fun heq => hne ((f.kin.eq_iff htwin f.kin.root).2 heq)

theorem joined_iff (hid : id < t'.size) :
    (t'.node id).joined = true ↔ (t.node id).joined = true ∨
      ∃ i, (i ∈ t.requiredBy xs ∨ i ∈ needed) ∧ id ∈ t.lineage i := by
  rw [f.shapeLeft.size] at hid
  rw [f.left, joined_settled_iff xs needed hid]

theorem exists_joined (hplain : Unmarked Node.joined t) (hid : id < t'.size) (hne : id ≠ rootId)
    (h : (t'.node id).joined = true) : ∃ id', Twin t u id id' ∧ (u'.node id').joined = true := by
  have hway := (f.joined_iff hid).1 h
  rw [f.shapeLeft.size] at hid
  rw [or_iff_right fun h => hne (hplain id hid h)] at hway
  simp only [← List.mem_append] at hway
  have htargets : ∀ i ∈ t.requiredBy xs ++ needed, ∃ j ∈ u.requiredBy xs ++ needed',
      Twin t u i j := by
    intro i hi
    rcases List.mem_append.1 hi with hi | hi
    · obtain ⟨j, hj, hij⟩ := f.kin.exists_requiredBy f.shared hi
      exact ⟨j, List.mem_append_left _ hj, hij⟩
    · obtain ⟨j, hj, hij⟩ := exists_of_mem_left f.twins hi
      exact ⟨j, List.mem_append_right _ hj, hij⟩
  obtain ⟨id', htwin, hway'⟩ := f.kin.exists_on_way htargets hway
  refine ⟨id', htwin, (f.symm.joined_iff ?_).2 (.inr ?_)⟩
  · rw [f.shapeRight.size]
    exact htwin.right
  · simpa only [List.mem_append] using hway'

theorem required_eq (h : Twin t u id id') (hne : id ≠ rootId) :
    (t'.node id).required = (u'.node id').required := by
  have hne' : id' ≠ rootId := fun heq => hne ((f.kin.eq_iff h f.kin.root).2 heq)
  have hid : id < t'.size := f.shapeLeft.size ▸ h.left
  have hid' : id' < u'.size := f.shapeRight.size ▸ h.right
  rw [Bool.eq_iff_iff]
  constructor
  · intro hrequired
    obtain ⟨id'', htwin, hrequired'⟩ := f.exists_required hid hne hrequired
    rwa [f.kin.right_unique h htwin]
  · intro hrequired
    obtain ⟨id'', htwin, hrequired'⟩ := f.symm.exists_required hid' hne' hrequired
    rwa [f.kin.left_unique h htwin.symm]

theorem joinsFor_eq (h : Twin t u id id') (hne : id ≠ rootId) :
    t'.joinsFor id (t'.joinKind id) = u'.joinsFor id' (u'.joinKind id') := by
  have htwin : Twin t' u' id id' := (twin_of_sameShape f.shapeLeft f.shapeRight).2 h
  rw [joinKind, joinKind, f.required_eq h hne]
  exact (f.kin.of_sameShape f.shapeLeft f.shapeRight).joinsFor_eq htwin _

theorem mem_joins (h : Twin t u id id') (hne : id ≠ rootId) (hjoined : (u'.node id').joined = true)
    {j : Join} (hj : j ∈ t'.joinsFor id (t'.joinKind id)) : j ∈ u'.statementJoins := by
  have hwell := f.kin.right.of_sameShape f.shapeRight
  refine hwell.mem_statementJoins.2 ⟨id', ⟨f.shapeRight.size ▸ h.right, ?_, hjoined⟩, ?_⟩
  · exact fun heq => hne ((f.kin.eq_iff h f.kin.root).2 heq)
  · rwa [← f.joinsFor_eq h hne]

/-- Where clauses have joined no node, all joins are needed by the conditions, so they are in the
other statement as well. -/
theorem joins_subset (hplain : Unmarked Node.joined t) :
    ∀ j ∈ t'.statementJoins, j ∈ u'.statementJoins := by
  intro j hj
  have hwell := f.kin.left.of_sameShape f.shapeLeft
  obtain ⟨id, ⟨hid, hne, hjoined⟩, hj⟩ := hwell.mem_statementJoins.1 hj
  obtain ⟨id', htwin, hjoined'⟩ := f.exists_joined hplain hid hne hjoined
  exact f.mem_joins htwin hne hjoined' hj

theorem further_joins : ∀ j ∈ u'.statementJoins, j ∉ t'.statementJoins → j.kind = .left := by
  intro j hj hnot
  have hwell := f.kin.right.of_sameShape f.shapeRight
  obtain ⟨id', ⟨hid', hne', hjoined'⟩, hj⟩ := hwell.mem_statementJoins.1 hj
  by_contra hkind
  have hrequired : (u'.node id').required = true := by
    by_contra hopen
    rw [joinKind, if_neg hopen] at hj
    exact hkind (of_mem_joinsFor hj).1
  obtain ⟨id, htwin, hrequired'⟩ := f.symm.exists_required hid' hne' hrequired
  have hid : id < t'.size := f.shapeLeft.size ▸ htwin.right
  have hne : id ≠ rootId := fun heq => hne' ((f.kin.eq_iff htwin.symm f.kin.root).1 heq)
  obtain ⟨i, hi, hway⟩ := (f.required_iff hid hne).1 hrequired'
  have hjoined : (t'.node id).joined = true := (f.joined_iff hid).2 (.inr ⟨i, .inl hi, hway⟩)
  exact hnot (f.symm.mem_joins htwin hne' hjoined hj)

end Finished

end JoinTree

/-- The same conditions, up to the order of sibling joins inside subqueries. Where the first
statement has its conditions alone, all its joins are in the second one, and further joins there
leave out no row. -/
structure Statement.SharesRows (alone : Prop) (st st' : Statement) : Prop where
  conditions : AllRearranged st.conditions st'.conditions
  joins : alone → ∀ j ∈ st.joins, j ∈ st'.joins
  further : alone → ∀ j ∈ st'.joins, j ∉ st.joins → j.kind = .left

namespace Options

variable {P P' : JoinTree → JoinTree → Prop} {o o' : Options} {start v t v' t' : JoinTree}
  {xs xs' : List Condition} {st st' : Statement} {s : Schema} {name : String}

theorem Yields.finished (h : o.Yields P start v t xs st) (h' : o'.Yields P' start v' t' xs' st')
    (hstart : JoinTree.ofModel s name = .ok start) (hnames : s.UndottedNames)
    (hfilter : o'.filter.criteria = o.filter.criteria)
    (hrequired : NotMarked Node.required start v) (hrequired' : NotMarked Node.required start v') :
    AllRearranged st.conditions st'.conditions ∧
      ∃ needed needed', Finished s xs needed needed' v v' t t' := by
  have k := kin_of_reached hstart hnames h.reached h'.reached
  have hresolved := h'.resolved
  rw [hfilter] at hresolved
  obtain ⟨rfl, hshared⟩ := k.resolvesAll k.root h.resolved hresolved
  obtain ⟨hsame, needed, needed', htwins, ht, ht'⟩ := k.settleRoot hshared h.settled h'.settled
  exact ⟨hsame, needed, needed', k, hshared, htwins, ht, ht',
    unmarked_of_notMarked hstart hrequired, unmarked_of_notMarked hstart hrequired'⟩

end Options

namespace Query

theorem target_counting (q : Query) : q.counting.request.target = q.request.target :=
  rfl

theorem kind_counting (q : Query) : q.counting.request.kind = q.request.kind :=
  rfl

theorem filter_counting (q : Query) :
    q.counting.request.options.filter = q.request.options.filter :=
  rfl

theorem assemble_counting (q : Query) (depth : Nat) :
    (q.counting.assemble depth).1 = q.counting.request.build depth := by
  have hfresh : q.counting.restart = q.counting := rfl
  have hnone : q.counting.statement? = none := rfl
  simp only [assemble, hfresh, hnone]
  split
  · next s hs => exact hs.symm
  · next e he => exact he.symm

end Query

namespace Request

variable {s : Schema} {name : String} {r r' : Request} {depth depth' : Nat} {st st' : Statement}

theorem sharesRows_of_build (hnames : s.UndottedNames) (htarget : r.target = .model s name)
    (htarget' : r'.target = .model s name) (hkind : r.kind ≠ .insert) (hkind' : r'.kind ≠ .insert)
    (hfilter : r'.options.filter.criteria = r.options.filter.criteria)
    (h : r.build depth = .ok st) (h' : r'.build depth' = .ok st') :
    st.SharesRows r.options.Bare st' := by
  have hall : ∀ o : Options, ¬ o.Bare → KeptByClauses (NotMarked Node.required) :=
    fun _ _ => inferInstance
  obtain ⟨start', v', t', xs', hstart', hyields'⟩ := yields_of_build (hall _) htarget' hkind' h'
  have halone : r.options.Bare →
      (∀ j ∈ st.joins, j ∈ st'.joins) ∧ ∀ j ∈ st'.joins, j ∉ st.joins → j.kind = .left := by
    intro hbare
    obtain ⟨start, v, t, xs, hstart, hyields⟩ := yields_of_build
      (P := fun t u => NotMarked Node.required t u ∧ NotMarked Node.joined t u)
      (fun hbare' => absurd hbare hbare') htarget hkind h
    obtain rfl : start = start' := Except.ok.inj (hstart.symm.trans hstart')
    obtain ⟨-, needed, needed', f⟩ := hyields.finished hyields' hstart hnames hfilter
      hyields.kept.1 hyields'.kept
    rw [hyields.joins, hyields'.joins]
    exact ⟨f.joins_subset (unmarked_of_notMarked hstart hyields.kept.2), f.further_joins⟩
  obtain ⟨start, v, t, xs, hstart, hyields⟩ := yields_of_build (hall _) htarget hkind h
  obtain rfl : start = start' := Except.ok.inj (hstart.symm.trans hstart')
  obtain ⟨hsame, -⟩ := hyields.finished hyields' hstart hnames hfilter hyields.kept hyields'.kept
  exact ⟨hsame, fun hbare => (halone hbare).1, fun hbare => (halone hbare).2⟩

/-- Whatever else is asked for, statements with one filter have the same conditions, and so has the
statement that counts the rows of a query. -/
theorem conditions_independent_of_options (hnames : s.UndottedNames)
    (htarget : r.target = .model s name) (htarget' : r'.target = .model s name)
    (hkind : r.kind ≠ .insert) (hkind' : r'.kind ≠ .insert)
    (hfilter : r'.options.filter.criteria = r.options.filter.criteria)
    (h : r.build depth = .ok st) (h' : r'.build depth' = .ok st') :
    st.SharesRows r.options.Bare st' ∧
      ∀ (q : Query) depth'' count, q.request = r' → (q.counting.assemble depth'').1 = .ok count →
        st.SharesRows r.options.Bare count := by
  refine ⟨sharesRows_of_build hnames htarget htarget' hkind hkind' hfilter h h', ?_⟩
  rintro q depth'' count rfl hcount
  rw [← q.target_counting] at htarget'
  rw [← q.kind_counting] at hkind'
  rw [← q.filter_counting] at hfilter
  rw [q.assemble_counting] at hcount
  exact sharesRows_of_build hnames htarget htarget' hkind hkind' hfilter h hcount

/-- Articles of authors named A who have an article titled B: deleted, listed, and counted. -/
theorem conditions_independent_of_options_of_articles :
    let filter := (Filter.empty.eq "author/name" (.text "A")).eq "author/articles/title" (.text "B")
    let deleted : Request :=
      { target := .model Blog.schema "Article", kind := .delete, options := { filter } }
    let listed : Request := {
      target := .model Blog.schema "Article"
      kind := .select
      options :=
        { filter, fields := ["title", "author/name"], orderBy := ["-author/articles/id"] } }
    let q : Query := { request := listed }
    Blog.schema.UndottedNames ∧ deleted.kind ≠ .insert ∧ listed.kind ≠ .insert ∧
      listed.options.filter.criteria = deleted.options.filter.criteria ∧ deleted.options.Bare ∧
      ∃ st st' count, deleted.build 1 = .ok st ∧ listed.build 1 = .ok st' ∧
        (q.counting.assemble 1).1 = .ok count ∧ st.SharesRows deleted.options.Bare st' ∧
        st.SharesRows deleted.options.Bare count := by
  intro filter deleted listed q
  have hnames : Blog.schema.UndottedNames := Blog.plainNames.undotted
  have hkind : deleted.kind ≠ .insert := by decide
  have hkind' : listed.kind ≠ .insert := by decide
  have hdeleted : deleted.opens 1 = true := by decide +kernel
  have hlisted : listed.opens 1 = true := by decide +kernel
  have hcounted : q.counting.request.opens 1 = true := by decide +kernel
  obtain ⟨st, hst⟩ := exists_build rfl hdeleted
  obtain ⟨st', hst'⟩ := exists_build rfl hlisted
  obtain ⟨count, hcount⟩ := exists_build (q.target_counting.trans rfl) hcounted
  rw [← q.assemble_counting] at hcount
  obtain ⟨hrows, hcounting⟩ :=
    conditions_independent_of_options hnames rfl rfl hkind hkind' rfl hst hst'
  exact ⟨hnames, hkind, hkind', rfl, ⟨rfl, rfl, rfl, rfl, rfl⟩, st, st', count, hst, hst', hcount,
    hrows, hcounting q 1 count rfl hcount⟩

end Request

end PathQuery
