import PathQuery.Proofs.JoinTree.Ancestors
import PathQuery.Proofs.JoinTree.Scopes

/-!
The joins that trees emit. Whatever calls a tree went through, a statement joins exactly the joined
nodes, and a test on the rows of a node those on the way to its targets. Each is joined once, behind
its parent, so that no alias is brought in twice and no join speaks of one that is still to come.
-/

set_option autoImplicit false

namespace PathQuery

/-- Each join compares columns under its own alias and under those known when it stands. -/
def Join.KnownFrom (known : List String) : List Join → Prop
  | [] => True
  | j :: rest =>
    (∀ test ∈ j.on, test.left.tableAlias ∈ j.tableAlias :: known ∧
      test.right.tableAlias ∈ j.tableAlias :: known) ∧
      KnownFrom (j.tableAlias :: known) rest

namespace JoinTree

variable {s : Schema} {start t : JoinTree}

theorem WellFormed.mem_path_iff (ht : t.WellFormed) {scope id target : Nat} :
    (∃ path, t.pathBetween? scope target = some path ∧ id ∈ path) ↔
      Relation.TransGen t.ParentOf scope id ∧ Relation.ReflTransGen t.ParentOf id target := by
  constructor
  · rintro ⟨path, hpath, hid⟩
    obtain ⟨above, below, rfl⟩ := List.append_of_mem hid
    obtain ⟨p, hp, -, habove, hbelow⟩ := pathBetween?_cut hpath
    exact ⟨.tail' (ht.exists_path_iff.1 ⟨above, habove⟩) hp, ht.exists_path_iff.1 ⟨below, hbelow⟩⟩
  · rintro ⟨hid, htarget⟩
    induction htarget with
    | refl =>
      obtain ⟨p, hscope, hp⟩ := Relation.TransGen.tail'_iff.1 hid
      obtain ⟨q, hq⟩ := ht.exists_path_iff.2 hscope
      have hlt := (ht.parent_lt hp).1
      have hle := (t.pathBetween?_bounds scope p q hq).1
      refine ⟨q ++ [id], ?_, by simp⟩
      rw [pathBetween?_of_parent (by omega) hp hlt, hq, Option.map_some]
    | @tail p target _ hp ih =>
      obtain ⟨q, hq, hmem⟩ := ih
      have hlt := (ht.parent_lt hp).1
      have hle := (t.pathBetween?_bounds scope p q hq).1
      refine ⟨q ++ [target], ?_, List.mem_append_left _ hmem⟩
      rw [pathBetween?_of_parent (by omega) hp hlt, hq, Option.map_some]

theorem WellFormed.knownFrom_joins (ht : t.WellFormed) {ids known : List Nat} {names : List String}
    (hfirst : t.ParentsFirst known ids) (hids : ∀ id ∈ ids, 0 < id ∧ id < t.size)
    (kind : Nat → JoinKind) (hknown : ∀ n ∈ known, (t.node n).tableAlias ∈ names) :
    Join.KnownFrom names (ids.flatMap fun id => t.joinsFor id (kind id)) := by
  induction ids generalizing known names with
  | nil => trivial
  | cons id rest ih =>
    rw [List.forall_mem_cons] at hids
    obtain ⟨⟨hpos, hlt⟩, hids⟩ := hids
    obtain ⟨⟨p, hp, hparent⟩, hrest⟩ := hfirst
    obtain ⟨p', r, e⟩ := ht.edge id hpos hlt
    obtain rfl : p' = p := by simpa [e.parent] using hparent
    have habove := hknown p' hp
    have hgoes : ∀ names', (∀ a ∈ names, a ∈ names') → (t.node id).tableAlias ∈ names' →
        Join.KnownFrom names' (rest.flatMap fun id => t.joinsFor id (kind id)) := by
      intro names' hsub hown
      exact ih hrest hids (List.forall_mem_cons.2 ⟨hown, fun n hn => hsub _ (hknown n hn)⟩)
    rw [List.flatMap_cons]
    by_cases hmany : ∃ through, r.kind = .manyMany through
    · obtain ⟨through, hmany⟩ := hmany
      rw [joinsFor_many e hmany]
      refine ⟨?_, ?_, hgoes _ (fun a ha => by simp [ha, Relation.linkedJoin]) ?_⟩
      · simp [JoinTest.equal, habove]
      · simp [JoinTest.equal, Relation.linkedJoin]
      · simp [Relation.linkedJoin]
    · rw [joinsFor_direct e (not_exists.1 hmany)]
      refine ⟨?_, hgoes _ (fun a ha => by simp [ha]) (by simp)⟩
      simp [JoinTest.equal, habove]

/-- Joins of these nodes behind a row under an alias. -/
structure Emits (t : JoinTree) (a : String) (ids : List Nat) (kind : Nat → JoinKind)
    (js : List Join) : Prop where
  once : ids.Nodup
  joins : js = ids.flatMap fun id => t.joinsFor id (kind id)
  relation : ∀ id ∈ ids, ∃ p r, (t.node id).parent = some p ∧ (t.node id).relation = some r ∧
    t.joinsFor id (kind id) =
      r.joins (t.node p).tableAlias (t.node id).tableAlias (kind id) true
  distinct : (a :: js.map Join.tableAlias).Nodup
  known : Join.KnownFrom [a] js

theorem Planted.emits (h : Planted s start) (ht : Reached start t) (hnames : s.JoinNames)
    {scope : Nat} (hscope : scope < t.size) {ids : List Nat} (hnodup : ids.Nodup)
    (hids : ∀ id ∈ ids, scope < id ∧ id < t.size) (hfirst : t.ParentsFirst [scope] ids)
    (kind : Nat → JoinKind) :
    t.Emits (t.node scope).tableAlias ids kind (ids.flatMap fun id => t.joinsFor id (kind id)) := by
  have hwell := ht.grown.wellFormed h.wellFormed
  have hbelow : ∀ id ∈ ids, 0 < id ∧ id < t.size :=
    fun id hid => ⟨Nat.zero_lt_of_lt (hids id hid).1, (hids id hid).2⟩
  have hedge : ∀ id ∈ ids, ∃ p r, t.Edge p id r :=
    fun id hid => hwell.edge id (hbelow id hid).1 (hbelow id hid).2
  refine ⟨hnodup, rfl, fun id hid => ?_, ?_, ?_⟩
  · obtain ⟨p, r, e⟩ := hedge id hid
    exact ⟨p, r, e.parent, e.relation, joinsFor_of_edge e (kind id) ▸ rfl⟩
  · cases hcons : ids with
    | nil => simp
    | cons first rest =>
      -- A tree with a node below its root is one over the schema.
      obtain ⟨p, r, e⟩ := hedge first (hcons ▸ List.mem_cons_self)
      have hs := h.schema_of_edge ht e
      rw [← hcons, List.nodup_cons]
      refine ⟨fun hmem => ?_, hwell.nodup_joins hs hnames hbelow kind hnodup⟩
      obtain ⟨j, hj, heq⟩ := List.mem_map.1 hmem
      obtain ⟨id, hid, hj⟩ := List.mem_flatMap.1 hj
      have hsame := hwell.isAliasOf_injective hs hnames hscope (hids id hid).2 (.inl heq)
        (isAliasOf_of_mem_joinsFor hj)
      exact absurd hsame (Nat.ne_of_lt (hids id hid).1)
  · exact hwell.knownFrom_joins hfirst hbelow kind (by simp)

theorem Planted.emits_statementJoins (h : Planted s start) (ht : Reached start t)
    (hnames : s.JoinNames) :
    t.Emits rootAlias t.joinedNodes t.joinKind t.statementJoins := by
  have hwell := ht.grown.wellFormed h.wellFormed
  obtain ⟨hup, -⟩ :=
    ht.markedUp h.wellFormed (h.markedUp Node.joined) (h.markedUp Node.required)
  have hids : ∀ id ∈ t.joinedNodes, rootId < id ∧ id < t.size := by
    intro id hid
    obtain ⟨hlt, hne, -⟩ := hwell.mem_joinedNodes.1 hid
    exact ⟨Nat.pos_of_ne_zero hne, hlt⟩
  rw [← hwell.rootAliased, statementJoins_eq]
  exact h.emits ht hnames hwell.nonempty ((hwell.nodup_preorder rootId).filter _) hids
    (hwell.parentsFirst_joinedNodes hup) t.joinKind

theorem WellFormed.mem_wanted (hwell : t.WellFormed) {scope id : Nat} {targets : List Nat} :
    id ∈ (t.preorder scope).filter (t.isWanted scope targets) ↔
      Relation.TransGen t.ParentOf scope id ∧
        ∃ target ∈ targets, Relation.ReflTransGen t.ParentOf id target := by
  rw [List.mem_filter, isWanted_iff]
  constructor
  · rintro ⟨-, -, target, htarget, hpath⟩
    obtain ⟨habove, hbelow⟩ := hwell.mem_path_iff.1 hpath
    exact ⟨habove, target, htarget, hbelow⟩
  · rintro ⟨habove, target, htarget, hbelow⟩
    obtain ⟨p, -, hp⟩ := Relation.TransGen.tail'_iff.1 habove
    obtain ⟨path, hpath⟩ := hwell.exists_path_iff.2 habove.to_reflTransGen
    obtain ⟨path', hpath', hid⟩ := hwell.mem_path_iff.2 ⟨habove, hbelow⟩
    have hlt := (t.pathBetween?_bounds scope target path' hpath').2 id hid
    exact ⟨hwell.mem_preorder (hwell.parent_lt hp).2 hpath, Nat.ne_of_gt hlt.1, target, htarget,
      path', hpath', hid⟩

/-- A test on the rows of a node joins what is on the way from it to its targets, and no more. -/
theorem Planted.emits_joinsWithin (h : Planted s start) (ht : Reached start t)
    (hnames : s.JoinNames) {scope : Nat} (hscope : scope < t.size) (targets : List Nat) :
    t.Emits (t.node scope).tableAlias ((t.preorder scope).filter (t.isWanted scope targets))
      (fun _ => .left) (t.joinsWithin scope targets) := by
  have hwell := ht.grown.wellFormed h.wellFormed
  refine h.emits ht hnames hscope ((hwell.nodup_preorder scope).filter _) (fun id hid => ?_)
    (hwell.parentsFirst_wanted scope targets) _
  obtain ⟨hbelow, hwanted⟩ := List.mem_filter.1 hid
  exact (mem_preorder_bounds hbelow).resolve_left (isWanted_iff.1 hwanted).1

/-- A statement joins the joined nodes below the root, inner where they are required; a test on the
rows of a node joins those between it and its targets. -/
structure JoinsMatch (t : JoinTree) : Prop where
  statement : ∃ ids, (∀ id, id ∈ ids ↔ id < t.size ∧ id ≠ rootId ∧ (t.node id).joined = true) ∧
    t.Emits rootAlias ids (fun id => if (t.node id).required then .inner else .left)
      t.statementJoins
  within : ∀ scope < t.size, ∀ targets : List Nat,
    ∃ ids, (∀ id, id ∈ ids ↔ Relation.TransGen t.ParentOf scope id ∧
        ∃ target ∈ targets, Relation.ReflTransGen t.ParentOf id target) ∧
      t.Emits (t.node scope).tableAlias ids (fun _ => .left) (t.joinsWithin scope targets)

/-- After any calls, failing ones among them, the joins that the tree emits match its marks. -/
theorem Planted.joinsMatch_after (h : Planted s start) (hnames : s.JoinNames) (calls : List Call) :
    (start.after calls).JoinsMatch := by
  have ht := reached_after start calls
  have hwell := ht.grown.wellFormed h.wellFormed
  exact {
    statement := ⟨_, fun _ => hwell.mem_joinedNodes, h.emits_statementJoins ht hnames⟩
    within := fun scope hscope targets =>
      ⟨_, fun _ => hwell.mem_wanted, h.emits_joinsWithin ht hnames hscope targets⟩ }

/-- The article is joined once and its tags through the table between them. -/
theorem joinsMatch_after_failed_path :
    Schema.resolve {} Tagged.decls = .ok Tagged.schema ∧
      ofModel Tagged.schema "Author" = .ok taggedStart ∧ Tagged.schema.JoinNames ∧
      (taggedStart.after taggedCalls).statementJoins.length = 3 ∧
      (taggedStart.after taggedCalls).JoinsMatch := by
  have hresolve : Schema.resolve {} Tagged.decls = .ok Tagged.schema := by with_unfolding_all rfl
  have hopened : ofModel Tagged.schema "Author" = .ok taggedStart := by with_unfolding_all rfl
  have hnames : Tagged.schema.JoinNames := by
    simp only [Schema.JoinNames, Tagged.schema, List.forall_mem_cons, List.not_mem_nil,
      false_implies, implies_true, and_true]
    exact ⟨⟨⟨by decide, by decide⟩, by decide⟩, ⟨⟨by decide, by decide⟩, by decide⟩,
      ⟨⟨by decide, by decide⟩, by decide⟩, ⟨by decide, by decide⟩, by decide⟩
  exact ⟨hresolve, hopened, hnames, by decide +kernel,
    Planted.joinsMatch_after (.model hopened) hnames taggedCalls⟩

end JoinTree

end PathQuery
