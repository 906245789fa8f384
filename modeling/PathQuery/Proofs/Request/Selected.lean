import PathQuery.Proofs.JoinTree.Laws
import PathQuery.Proofs.JoinTree.Renumbering
import PathQuery.Proofs.Request.InnerJoins
import PathQuery.Proofs.Request.SameRows
import PathQuery.Proofs.Request.ToOneJoins

/-!
The rows that a statement selects. A statement that is asked for nothing but conditions shows a row
of its table, beside the rows joined to it, if the conditions hold of the row as they are read in
the tree of their paths. Which tree is the same to them, so the conditions of several statements can
be read in one.
-/

set_option autoImplicit false

namespace PathQuery

open JoinTree

variable {E : Engine} {db : Database E} {scalar : Database.Scalar E}

theorem Relation.joins_outer (r : Relation) (parentAlias tableAlias : String) (kind : JoinKind)
    (link : Bool) : (r.joins parentAlias tableAlias kind link).map Join.outer =
      r.joins parentAlias tableAlias .left link := by
  unfold Relation.joins
  split
  · cases link <;> rfl
  · rfl

namespace JoinTree

variable {t : JoinTree} {s : Schema}

/-- The nodes that a statement joins hang together below the root, by relations to one row. -/
structure JoinsSingly (t : JoinTree) : Prop where
  up : MarkedUp Node.joined t
  one : ∀ id, id < t.size → (t.node id).joined = true → (t.node id).isToMany = false

theorem WellFormed.joinedFrom_of_joined (ht : t.WellFormed) (hjoins : t.JoinsSingly) {id : Nat}
    (hid : id < t.size) (hjoined : (t.node id).joined = true) :
    ∃ path, t.JoinedFrom rootId id path := by
  induction id using Nat.strongRecOn with
  | ind id ih =>
    by_cases hroot : id = rootId
    · exact ⟨[], hroot ▸ JoinedFrom.self t rootId⟩
    · obtain ⟨p, r, e⟩ := ht.edge id (Nat.pos_of_ne_zero hroot) hid
      obtain ⟨path, hpath⟩ := ih p e.lt (Nat.lt_trans e.lt hid) (hjoins.up id p e.parent hjoined)
      refine ⟨path ++ [id], ?_, fun n hn => ?_⟩
      · rw [pathBetween?_of_parent hroot e.parent e.lt, hpath.down, Option.map_some]
      · rcases List.mem_append.1 hn with hn | hn
        · exact hpath.one n hn
        · rw [List.mem_singleton.1 hn]
          exact hjoins.one id hid hjoined

theorem joinsFor_outer (t : JoinTree) (id : Nat) (kind : JoinKind) :
    (t.joinsFor id kind).map Join.outer = t.joinsFor id .left := by
  unfold joinsFor
  split
  · exact Relation.joins_outer _ _ _ _ _
  · rfl

theorem statementJoins_outer (t : JoinTree) :
    t.statementJoins.map Join.outer = t.joinedNodes.flatMap fun id => t.joinsFor id .left := by
  simp only [statementJoins_eq, List.map_flatMap, joinsFor_outer]

theorem WellFormed.aliases_statementJoins (ht : t.WellFormed) (hjoins : t.JoinsSingly) :
    t.statementJoins.map Join.tableAlias = t.joinedNodes.map fun id => (t.node id).tableAlias := by
  have hone : ∀ id ∈ t.joinedNodes, (t.joinsFor id (t.joinKind id)).map Join.tableAlias =
      [(t.node id).tableAlias] := by
    intro id hid
    obtain ⟨hlt, hne, hjoined⟩ := ht.mem_joinedNodes.1 hid
    obtain ⟨p, r, e⟩ := ht.edge id (Nat.pos_of_ne_zero hne) hlt
    have hsingle := hjoins.one id hlt hjoined
    rw [isToMany_of_edge e] at hsingle
    rw [joinsFor_one e hsingle]
    rfl
  rw [statementJoins_eq, List.map_flatMap, List.flatMap_congr hone, ← List.map_eq_flatMap]

theorem Grounded.nodup_statementJoins (g : t.Grounded s db) (hjoins : t.JoinsSingly) :
    (rootAlias :: t.statementJoins.map Join.tableAlias).Nodup := by
  have hlt : ∀ id ∈ t.joinedNodes, id < t.size :=
    fun id hid => (g.wellFormed.mem_joinedNodes.1 hid).1
  rw [g.wellFormed.aliases_statementJoins hjoins, List.nodup_cons]
  refine ⟨fun hroot => ?_, ?_⟩
  · obtain ⟨id, hid, halias⟩ := List.mem_map.1 hroot
    obtain ⟨hsize, hne, -⟩ := g.wellFormed.mem_joinedNodes.1 hid
    exact g.wellFormed.alias_ne_root g.schema g.names.undotted (Nat.pos_of_ne_zero hne) hsize halias
  · have hnodup : t.joinedNodes.Nodup := (g.wellFormed.nodup_preorder rootId).filter _
    exact hnodup.map_on fun m hm n hn heq => g.alias_injective (hlt m hm) (hlt n hn) heq

/-- The outer joins of a statement show under the alias of each node the row that its relation to
one row leads to. -/
theorem Grounded.shows_statementJoins (g : t.Grounded s db) (hjoins : t.JoinsSingly) {x : Tuple E}
    (hx : x ∈ db (t.table rootId).name) {scene : Scene E}
    (h : scene ∈ db.joins (rootScene x) (t.statementJoins.map Join.outer)) :
    t.Shows scene (t.extend db (fun _ => nullRow) rootId x) (rootId :: t.joinedNodes) := by
  have hroot : rootScene x (t.node rootId).tableAlias = x := by
    rw [g.wellFormed.rootAliased, rootScene, Scene.put_same]
  have hids : ∀ id ∈ t.joinedNodes, 0 < id ∧ id < t.size ∧ (t.node id).isToMany = false := by
    intro id hid
    obtain ⟨hlt, hne, hjoined⟩ := g.wellFormed.mem_joinedNodes.1 hid
    exact ⟨Nat.pos_of_ne_zero hne, hlt, hjoins.one id hlt hjoined⟩
  have hrows : ∀ id ∈ t.joinedNodes, ∀ p r, t.Edge p id r →
      t.extend db (fun _ => nullRow) rootId x id =
        r.follow db (t.extend db (fun _ => nullRow) rootId x p) := by
    intro id hid p r e
    obtain ⟨hlt, hne, hjoined⟩ := g.wellFormed.mem_joinedNodes.1 hid
    obtain ⟨path, hpath⟩ := g.wellFormed.joinedFrom_of_joined hjoins hlt hjoined
    exact extend_child hpath hne e
  have hknown : ∀ id ∈ [rootId], id < t.size ∧
      t.HasRow db id (t.extend db (fun _ => nullRow) rootId x id) := by
    intro id hid
    rw [List.mem_singleton.1 hid, extend_self]
    exact ⟨g.wellFormed.nonempty, .inl hx⟩
  rw [statementJoins_outer] at h
  refine (g.shows_joins _ (g.wellFormed.parentsFirst_joinedNodes hjoins.up) hids hrows
    hknown ?_ h).1
  intro id hid
  rw [List.mem_singleton.1 hid, extend_self, hroot]

theorem SameShape.extend {u : JoinTree} (h : SameShape t u) (rows : Nat → Tuple E) (scope : Nat)
    (y : Tuple E) (id : Nat) : u.extend db rows scope y id = t.extend db rows scope y id := by
  have hfollow : u.followAt db = t.followAt db := by
    funext x n
    rw [followAt, followAt, h.relation]
  simp only [JoinTree.extend, pathBetween?_congr h.parent, h.isToMany, hfollow]

theorem WellFormed.joinsSingly {v : JoinTree} (hv : v.WellFormed) (hplain : Unmarked Node.joined v)
    (hup : MarkedUp Node.joined t) {xs ys : List Condition} (h : v.settleRoot xs = .ok (ys, t)) :
    t.JoinsSingly where
  up := hup
  one _ hid hjoined := hv.isToMany_of_joined hplain h hid hjoined

end JoinTree

/-- The statement shows the row of its table. -/
def Statement.Selects (st : Statement) (db : Database E) (scalar : Database.Scalar E)
    (x : Tuple E) : Prop :=
  ∃ scene, scene ∈ db.answers scalar (rootScene x) st.joins st.conditions

/-- No condition on an inner join counts as needing a row and holds without one. -/
def Statement.LosesNoRow (st : Statement) (E : Engine) : Prop :=
  ∀ y ∈ st.conditions, y.needsRow = true → y.LetsMissing E → ∀ j ∈ st.joins,
    j.kind = .inner → y.tableAlias? ≠ some j.tableAlias

/-- A SELECT, an UPDATE or a DELETE on the rows of a model that is asked for nothing but criteria
and assignments. -/
inductive BuiltOf (s : Schema) (name : String) (criteria : List Criterion) : Statement → Prop
  | intro {r : Request} {depth : Nat} {st : Statement} (target : r.target = .model s name)
    (kind : r.kind ≠ .insert) (bare : r.options.Bare)
    (filter : r.options.filter.criteria = criteria) (build : r.build depth = .ok st) :
    BuiltOf s name criteria st

theorem BuiltOf.of_select {s : Schema} {name : String} {f : Filter} {depth : Nat} {st : Statement}
    (h : Request.build depth
      { target := .model s name, kind := .select, options := { filter := f } } = .ok st) :
    BuiltOf s name f.criteria st :=
  .intro rfl (by simp) ⟨rfl, rfl, rfl, rfl, rfl⟩ rfl h

/-- The schema resolves with plain names, and the tables are as it says. -/
structure Schema.Governs (s : Schema) (db : Database E) : Prop where
  resolves : ∃ settings decls, Schema.resolve settings decls = .ok s
  plain : s.PlainNames
  hooks : s.HooksAvoidSelects
  describes : s.Describes db

theorem Schema.hooksAvoidSelects_of_nil {s : Schema} (h : ∀ m ∈ s.models, m.hooks = []) :
    s.HooksAvoidSelects := by
  intro m hm name hook op v f hhook
  simp [Model.hook?, h m hm] at hhook

theorem Schema.Governs.grounded {s : Schema} (g : s.Governs db) {name : String}
    {start t : JoinTree} (hstart : JoinTree.ofModel s name = .ok start) (ht : Reached start t) :
    t.Grounded s db := by
  obtain ⟨settings, decls, hs⟩ := g.resolves
  have hclosed := Schema.closed_of_resolve hs
  exact ⟨⟨ht.wellFormed hstart, ht.schema hstart, g.plain, hclosed⟩, g.describes⟩

namespace Options

variable {o : Options} {start v t u : JoinTree} {xs ys : List Condition} {st : Statement}
  {s : Schema} {name : String} {x : Tuple E}

abbrev Fresh (t u : JoinTree) : Prop :=
  NotMarked Node.required t u ∧ NotMarked Node.joined t u

theorem Yields.joinsSingly (h : o.Yields Fresh start v t xs st)
    (hstart : JoinTree.ofModel s name = .ok start) : t.JoinsSingly := by
  have hwell := wellFormed_ofModel hstart
  have hreached := h.reached.trans (reached_settleRoot h.settled)
  have hv := h.reached.grown.wellFormed hwell
  refine hv.joinsSingly (unmarked_of_notMarked hstart h.kept.2) ?_ h.settled
  exact (hreached.markedUp hwell (markedUp_ofModel _ hstart) (markedUp_ofModel _ hstart)).1

theorem Yields.letsAll_iff (h : o.Yields Fresh start v t xs st) (g : s.Governs db)
    (hstart : JoinTree.ofModel s name = .ok start) (havoids : o.filter.avoidsSelects)
    (hx : x ∈ db (start.table rootId).name) {scene : Scene E}
    (hscene : scene ∈ db.joins (rootScene x) (st.joins.map Join.outer)) :
    db.LetsAll scalar scene st.conditions ↔
      (v.requireAll (v.requiredBy xs)).Holds db scalar rootId
        ((v.requireAll (v.requiredBy xs)).extend db (fun _ => nullRow) rootId x) xs := by
  have hroot : rootId < start.size := (wellFormed_ofModel hstart).nonempty
  have ht := h.reached.trans (reached_settleRoot h.settled)
  obtain ⟨r, hr, hconditions, hsettled⟩ := settleRoot_eq_ok h.settled
  have hrequired := reached_requireAll v (v.requiredBy xs)
  have gv := g.grounded hstart h.reached
  have gw := g.grounded hstart (h.reached.trans hrequired)
  have hshape : SameShape (v.requireAll (v.requiredBy xs)) t := hsettled ▸ sameShape_joinAll _ _
  have hnormal :=
    h.resolved.areNormal gv.schema g.hooks gv.wellFormed gv.wellFormed.nonempty havoids
  rw [h.joins] at hscene
  rw [← ht.table_eq hroot] at hx
  have hshows := (g.grounded hstart ht).shows_statementJoins (h.joinsSingly hstart) hx hscene
  obtain ⟨hneeded, hholds⟩ := gw.settle_holds scalar rootId xs (hrequired.areNormal xs hnormal) r hr
  rw [hconditions]
  refine hholds scene _ fun id hid => ?_
  rw [← hshape.tableAlias, ← hshape.extend]
  refine hshows id (List.mem_cons.2 (or_iff_not_imp_left.2 fun hne => ?_))
  have hlt := (hneeded id hid).1
  rw [(sameShape_requireAll v _).size] at hlt
  refine (g.grounded hstart ht).wellFormed.mem_joinedNodes.2 ⟨?_, hne, ?_⟩
  · rw [hshape.size]
    exact (hneeded id hid).1
  · rw [hsettled, joined_settled_iff xs r.needed hlt]
    exact .inr ⟨id, .inr hid, mem_lineage_self v id⟩

/-- A row is selected where the conditions hold of it, read in any tree in which they resolve. -/
theorem Yields.selects_iff (h : o.Yields Fresh start v t xs st) (g : s.Governs db)
    (hstart : JoinTree.ofModel s name = .ok start) (havoids : o.filter.avoidsSelects)
    (hkept : st.LosesNoRow E) (hx : x ∈ db (start.table rootId).name) (hu : Reached start u)
    (hys : u.ResolvesAll rootId o.filter.criteria ys) :
    st.Selects db scalar x ↔
      u.Holds db scalar rootId (u.extend db (fun _ => nullRow) rootId x) ys := by
  have ht := h.reached.trans (reached_settleRoot h.settled)
  have hrequired := reached_requireAll v (v.requiredBy xs)
  have gv := g.grounded hstart h.reached
  have gu := g.grounded hstart hu
  have hplain : o.Yields (NotMarked Node.required) start v t xs st := { h with kept := h.kept.1 }
  have hdistinct := (g.grounded hstart ht).nodup_statementJoins (h.joinsSingly hstart)
  rw [← h.joins] at hdistinct
  have houter : db.answers scalar (rootScene x) st.joins st.conditions =
      db.answers scalar (rootScene x) (st.joins.map Join.outer) st.conditions :=
    Database.answers_outer st.joins _ (List.nodup_cons.1 hdistinct).2 fun scene hanswer =>
      hplain.shows_joined hstart hdistinct hkept hanswer
  have hsome : db.joins (rootScene x) (st.joins.map Join.outer) ≠ [] := by
    refine Database.joins_ne_nil db (fun j hj => ?_) _
    obtain ⟨k, -, rfl⟩ := List.mem_map.1 hj
    rfl
  have k := kin_of_reached hstart g.plain.undotted (h.reached.trans hrequired) hu
  have hnormal :=
    h.resolved.areNormal gv.schema g.hooks gv.wellFormed gv.wellFormed.nonempty havoids
  have hnormal' := hys.areNormal gu.schema g.hooks gu.wellFormed gu.wellFormed.nonempty havoids
  obtain ⟨rfl, -⟩ := k.resolvesAll k.root
    (h.resolved.later hrequired gv.wellFormed gv.wellFormed.nonempty) hys
  rw [← k.holds_iff_of_root x (hrequired.areNormal xs hnormal) hnormal', Statement.Selects, houter]
  constructor
  · rintro ⟨scene, hanswer⟩
    obtain ⟨hscene, hlets⟩ := Database.mem_answers.1 hanswer
    exact (h.letsAll_iff g hstart havoids hx hscene).1 hlets
  · intro hholds
    obtain ⟨scene, hscene⟩ := List.exists_mem_of_ne_nil _ hsome
    exact ⟨scene, Database.mem_answers.2
      ⟨hscene, (h.letsAll_iff g hstart havoids hx hscene).2 hholds⟩⟩

end Options

namespace BuiltOf

variable {s : Schema} {name : String} {criteria : List Criterion} {st : Statement}
  {start u : JoinTree} {ys : List Condition}

theorem exists_yields (h : BuiltOf s name criteria st) :
    ∃ (o : Options) (start v t : JoinTree) (xs : List Condition),
      o.filter.criteria = criteria ∧ JoinTree.ofModel s name = .ok start ∧
        o.Yields Options.Fresh start v t xs st := by
  obtain ⟨target, kind, bare, filter, build⟩ := h
  obtain ⟨start, v, t, xs, hstart, hyields⟩ := Request.yields_of_build (P := Options.Fresh)
    (fun hbare => absurd bare hbare) target kind build
  exact ⟨_, start, v, t, xs, filter, hstart, hyields⟩

theorem exists_tree (h : BuiltOf s name criteria st) :
    ∃ start u ys, JoinTree.ofModel s name = .ok start ∧ Reached start u ∧
      u.ResolvesAll rootId criteria ys := by
  obtain ⟨o, start, v, t, xs, rfl, hstart, hyields⟩ := h.exists_yields
  exact ⟨start, v, xs, hstart, hyields.reached, hyields.resolved⟩

theorem selects_iff (h : BuiltOf s name criteria st) (g : s.Governs db)
    (havoids : Criterion.avoidSelects criteria) (hkept : st.LosesNoRow E)
    (hstart : JoinTree.ofModel s name = .ok start) {x : Tuple E}
    (hx : x ∈ db (start.table rootId).name) (hu : Reached start u)
    (hys : u.ResolvesAll rootId criteria ys) :
    st.Selects db scalar x ↔
      u.Holds db scalar rootId (u.extend db (fun _ => nullRow) rootId x) ys := by
  obtain ⟨o, start', v, t, xs, rfl, hstart', hyields⟩ := h.exists_yields
  obtain rfl : start' = start := Except.ok.inj (hstart'.symm.trans hstart)
  exact hyields.selects_iff g hstart havoids hkept hx hu hys

theorem losesNoRow (h : BuiltOf s name criteria st) (hnames : s.UndottedNames)
    (hstart : JoinTree.ofModel s name = .ok start) (hu : Reached start u)
    (hys : u.ResolvesAll rootId criteria ys) (hkept : ∀ y ∈ ys, ¬ y.LetsMissing E) :
    st.LosesNoRow E := by
  obtain ⟨o, start', v, t, xs, rfl, hstart', hyields⟩ := h.exists_yields
  obtain rfl : start' = start := Except.ok.inj (hstart'.symm.trans hstart)
  have k := kin_of_reached hstart hnames hyields.reached hu
  obtain ⟨rfl, -⟩ := k.resolvesAll k.root hyields.resolved hys
  obtain ⟨r, hr, hconditions, -⟩ := settleRoot_eq_ok hyields.settled
  have hw := (hyields.reached.trans (reached_requireAll v (v.requiredBy xs))).wellFormed hstart
  intro y hy _ hmissing j _ _ halias
  refine hkept y (hw.mem_of_settle hr (hconditions ▸ hy) ?_) hmissing
  simp [halias]

end BuiltOf

end PathQuery
