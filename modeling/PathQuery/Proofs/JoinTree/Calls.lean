import PathQuery.Proofs.JoinTree.Joined
import PathQuery.Proofs.JoinTree.Marks

/-!
Trees under calls. A tree starts as the root of a model or of a bare table, and any calls may
follow, with any arguments and in any order; one that fails keeps the nodes that it made before.
Whatever the calls are, the tree is one: each node hangs below an earlier one by a relation of that
node's model, and no call moves a node that is there.
-/

set_option autoImplicit false

namespace PathQuery.JoinTree

inductive Call where
  | child (parent : Nat) (name : String)
  | resolve (path : String)
  | resolveFrom (start : Nat) (path : String)
  | resolveRelations (start : Nat) (path : String)
  | attach (id : Nat) (leaf : Condition)
  | select (id : Nat)
  | require (id : Nat)
  | joinPath (id : Nat)

/-- The tree that a call leaves behind, whether it fails or not. -/
def Call.run (t : JoinTree) : Call → JoinTree
  | child parent name => (t.child parent name).2
  | resolve path => (t.resolve path).2
  | resolveFrom start path => (t.resolveFrom start path).2
  | resolveRelations start path => (t.resolveRelations start path).2
  | attach id leaf => t.attach id leaf
  | select id => t.select id
  | require id => t.require id
  | joinPath id => t.joinPath id

def after (t : JoinTree) (calls : List Call) : JoinTree :=
  calls.foldl Call.run t

/-- A tree of one node: the root of a model of the schema, or that of a bare table. -/
inductive Planted (s : Schema) : JoinTree → Prop
  | model {name : String} {t : JoinTree} (opened : ofModel s name = .ok t) : Planted s t
  | table (table : Table) : Planted s (ofTable table)

/-- A node below the root, in its place: below which node it hangs, and by which relation. -/
structure Hangs (s : Schema) (t : JoinTree) (id p : Nat) (r : Relation) : Prop where
  parent : (t.node id).parent = some p
  lt : p < id
  depth : (t.node id).depth = (t.node p).depth + 1
  listed : (r.name, id) ∈ (t.node p).children
  once : ((t.node p).children.map Prod.snd).count id = 1
  relation : (t.node id).relation = some r
  registered : ∃ owner, (t.node p).model = some owner ∧ s.relation owner r.name = .ok r
  table : ∃ m, (t.node id).model = some r.linked.model ∧ s.model r.linked.model = .ok m ∧
    t.table id = m.table ∧ m.table.name = r.linked.table

/-- The form of a tree: its nodes, and how their marks hang together. -/
structure Formed (s : Schema) (t : JoinTree) : Prop where
  root : ∀ id, id < t.size → ((t.node id).parent = none ↔ id = rootId)
  nonempty : rootId < t.size
  hangs : ∀ id, id < t.size → id ≠ rootId → ∃ p r, t.Hangs s id p r
  names : ∀ id, ((t.node id).children.map Prod.fst).Nodup
  required : ∀ id, (t.node id).required = true → (t.node id).joined = true
  selected : ∀ id, (t.node id).selected = true → (t.node id).joined = true
  joinedUp : MarkedUp Node.joined t
  requiredUp : MarkedUp Node.required t

/-- The nodes of the first tree stand in the second where they stood. -/
structure StaysIn (t u : JoinTree) : Prop where
  size : t.size ≤ u.size
  relation : ∀ id < t.size, (u.node id).relation = (t.node id).relation
  tableAlias : ∀ id < t.size, (u.node id).tableAlias = (t.node id).tableAlias
  depth : ∀ id < t.size, (u.node id).depth = (t.node id).depth
  parent : ∀ id < t.size, (u.node id).parent = (t.node id).parent

variable {s : Schema} {start t u : JoinTree}

theorem Call.reached (t : JoinTree) (call : Call) : Reached t (call.run t) := by
  cases call with
  | child p name => exact reached_child t p name
  | resolve path => exact reached_resolveFrom t rootId path
  | resolveFrom start path => exact reached_resolveFrom t start path
  | resolveRelations start path => exact reached_descendPath t path start (segments path)
  | attach id leaf => exact .step .start (.attach id leaf)
  | select id => exact .step .start (.select id)
  | require id => exact .step .start (.require id)
  | joinPath id => exact .step .start (.joinPath id)

theorem reached_after (t : JoinTree) (calls : List Call) : Reached t (t.after calls) := by
  induction calls generalizing t with
  | nil => exact .start
  | cons call rest ih => exact (call.reached t).trans (ih (call.run t))

theorem StaysIn.refl (t : JoinTree) : StaysIn t t :=
  ⟨Nat.le_refl _, fun _ _ => rfl, fun _ _ => rfl, fun _ _ => rfl, fun _ _ => rfl⟩

theorem StaysIn.trans {v : JoinTree} (h : StaysIn t u) (h' : StaysIn u v) : StaysIn t v where
  size := Nat.le_trans h.size h'.size
  relation id hid := (h'.relation id (Nat.lt_of_lt_of_le hid h.size)).trans (h.relation id hid)
  tableAlias id hid :=
    (h'.tableAlias id (Nat.lt_of_lt_of_le hid h.size)).trans (h.tableAlias id hid)
  depth id hid := (h'.depth id (Nat.lt_of_lt_of_le hid h.size)).trans (h.depth id hid)
  parent id hid := (h'.parent id (Nat.lt_of_lt_of_le hid h.size)).trans (h.parent id hid)

theorem SameShape.staysIn (h : SameShape t u) : StaysIn t u where
  size := Nat.le_of_eq h.size.symm
  relation id _ := h.relation id
  tableAlias id _ := h.tableAlias id
  depth id _ := h.depth id
  parent id _ := h.parent id

theorem staysIn_grow (t : JoinTree) (p : Nat) (name : String) (r : Relation) :
    StaysIn t (t.grow p name r) where
  size := by
    rw [size_grow]
    exact Nat.le_succ _
  relation id hid := by rw [node_grow_ne_size t p name r (Nat.ne_of_lt hid)]
  tableAlias id hid := by rw [node_grow_ne_size t p name r (Nat.ne_of_lt hid)]
  depth id hid := by rw [node_grow_ne_size t p name r (Nat.ne_of_lt hid)]
  parent id hid := by rw [node_grow_ne_size t p name r (Nat.ne_of_lt hid)]

theorem Step.staysIn (h : Step t u) : StaysIn t u := by
  cases h with
  | child p name =>
    rcases child_cases t p name with hsame | ⟨r, -, hgrow⟩
    · rw [hsame]
      exact .refl t
    · rw [hgrow]
      exact staysIn_grow t p name r
  | attach id leaf => exact (sameShape_attach t id leaf).staysIn
  | joinPath id => exact (sameShape_joinPath t id).staysIn
  | select id => exact (sameShape_select t id).staysIn
  | require id => exact (sameShape_require t id).staysIn

theorem Reached.staysIn (h : Reached t u) : StaysIn t u := by
  induction h with
  | start => exact .refl t
  | step _ hstep ih => exact ih.trans hstep.staysIn

theorem WellFormed.parent_eq_none_iff (h : t.WellFormed) {id : Nat} (hid : id < t.size) :
    (t.node id).parent = none ↔ id = rootId := by
  constructor
  · intro hnone
    by_contra hne
    obtain ⟨p, r, e⟩ := h.edge id (Nat.pos_of_ne_zero hne) hid
    rw [e.parent] at hnone
    cases hnone
  · rintro rfl
    exact h.rootParent

theorem WellFormed.count_children (h : t.WellFormed) {p id : Nat} {r : Relation}
    (e : t.Edge p id r) : ((t.node p).children.map Prod.snd).count id = 1 := by
  refine List.count_eq_one_of_mem ?_ (List.mem_map.2 ⟨_, e.listed, rfl⟩)
  refine List.Nodup.map_on ?_ (List.Nodup.of_map _ (h.distinct p))
  intro a ha b hb hab
  obtain ⟨-, -, -, hname⟩ := h.child p a.1 a.2 ha
  obtain ⟨-, -, -, hname'⟩ := h.child p b.1 b.2 hb
  rw [hab, hname'] at hname
  exact Prod.ext (Option.some.inj hname).symm hab

theorem Edge.hangs {p id : Nat} {r : Relation} (e : t.Edge p id r) (h : t.WellFormed)
    (hs : t.schema = some s) (hclosed : s.Closed) : t.Hangs s id p r where
  parent := e.parent
  lt := e.lt
  depth := e.depth
  listed := e.listed
  once := h.count_children e
  relation := e.relation
  registered := by
    obtain ⟨m, hm, hr⟩ := Option.bind_eq_some_iff.1 e.registered
    have hfind : ((t.node p).model).bind s.model? = some m := by simpa [model?, hs] using hm
    obtain ⟨owner, howner, hfound⟩ := Option.bind_eq_some_iff.1 hfind
    exact ⟨owner, howner, Schema.relation_of_model? hfound hr⟩
  table := by
    obtain ⟨m, hm, hr, -⟩ := e.registered_in hs
    obtain ⟨m', hm', htable⟩ := hclosed.linked m hm r hr
    refine ⟨m', e.model, ?_, e.table_eq hs hm', htable.symm⟩
    rw [Schema.model, hm']

structure Node.Joining (n : Node) : Prop where
  required : n.required = true → n.joined = true
  selected : n.selected = true → n.joined = true

theorem Node.joining_of_joined {n : Node} (h : n.joined = true) : Node.Joining n :=
  ⟨fun _ => h, fun _ => h⟩

theorem joining_modifyAll {ids : List Nat} {f : Node → Node} (hf : ∀ n, (f n).joined = true)
    {id : Nat} (h : Node.Joining (t.node id)) : Node.Joining ((t.modifyAll ids f).node id) := by
  rw [node_modifyAll]
  split
  · exact Node.joining_of_joined (hf _)
  · exact h

theorem Step.joining (h : Step t u) (ht : ∀ id, Node.Joining (t.node id)) (id : Nat) :
    Node.Joining (u.node id) := by
  cases h with
  | child p name =>
    rcases child_cases t p name with hsame | ⟨r, -, hgrow⟩
    · rw [hsame]
      exact ht id
    · rw [hgrow]
      by_cases hid : id = t.size
      · rw [hid, node_grow_size]
        exact ⟨fun h => h, fun h => h⟩
      · rw [node_grow_ne_size t p name r hid]
        exact ⟨(ht id).required, (ht id).selected⟩
  | attach i leaf =>
    rw [JoinTree.attach, node_modifyNode]
    split
    · exact ⟨(ht id).required, (ht id).selected⟩
    · exact ht id
  | joinPath i => exact joining_modifyAll (fun _ => rfl) (ht id)
  | require i => exact joining_modifyAll (fun _ => rfl) (ht id)
  | select i =>
    -- The node itself is joined with those above it, so its mark does not stand alone.
    by_cases hid : id = i ∧ i < t.size
    · obtain ⟨rfl, hlt⟩ := hid
      refine Node.joining_of_joined (joined_joinPath_iff (by rwa [size_modifyNode]) |>.2 (.inr ?_))
      exact mem_lineage_self _ _
    · refine joining_modifyAll (fun _ => rfl) ?_
      rw [node_modifyNode, if_neg hid]
      exact ht id

theorem Reached.joining (h : Reached t u) (ht : ∀ id, Node.Joining (t.node id)) (id : Nat) :
    Node.Joining (u.node id) := by
  induction h generalizing id with
  | start => exact ht id
  | step _ hstep ih => exact hstep.joining ih id

theorem Planted.single (h : Planted s t) : ∃ model, t.nodes = [Node.root model] := by
  cases h with
  | model opened =>
    obtain ⟨m, -, rfl⟩ := ofModel_eq_ok opened
    exact ⟨_, rfl⟩
  | table table => exact ⟨_, rfl⟩

theorem Planted.wellFormed (h : Planted s t) : t.WellFormed := by
  obtain ⟨model, hmodel⟩ := h.single
  exact wellFormed_single hmodel

/-- Below a bare table no relation leads anywhere. -/
theorem Planted.schema_of_edge (h : Planted s start) (ht : Reached start t) {p id : Nat}
    {r : Relation} (e : t.Edge p id r) : t.schema = some s := by
  cases h with
  | model opened => exact ht.schema opened
  | table table =>
    obtain ⟨m, hm, -⟩ := Option.bind_eq_some_iff.1 e.registered
    have hnone : t.schema = none := ht.grown.schema
    simp [model?, hnone] at hm

theorem Planted.node (h : Planted s t) (id : Nat) : ∃ model, t.node id = Node.root model := by
  obtain ⟨model, hmodel⟩ := h.single
  rw [node_eq, hmodel]
  cases id with
  | zero => exact ⟨model, rfl⟩
  | succ id => exact ⟨none, rfl⟩

theorem Planted.joining (h : Planted s t) (id : Nat) : Node.Joining (t.node id) := by
  obtain ⟨model, hmodel⟩ := h.node id
  rw [hmodel]
  exact Node.joining_of_joined rfl

theorem Planted.markedUp (h : Planted s t) (mark : Node → Bool) : MarkedUp mark t := by
  obtain ⟨model, hmodel⟩ := h.single
  exact h.wellFormed.markedUp_of_size (by rw [size, hmodel, List.length_singleton]) mark

theorem WellFormed.exists_model? (h : t.WellFormed) (hs : t.schema = some s) (hclosed : s.Closed)
    {m : Model} (hroot : t.model? rootId = some m) {id : Nat} (hid : id < t.size) :
    ∃ m', t.model? id = some m' := by
  by_cases hne : id = rootId
  · exact ⟨m, hne ▸ hroot⟩
  · obtain ⟨p, r, e⟩ := h.edge id (Nat.pos_of_ne_zero hne) hid
    obtain ⟨m', hm', hr, -⟩ := e.registered_in hs
    obtain ⟨m'', hm'', -⟩ := hclosed.linked m' hm' r hr
    exact ⟨m'', by simp [model?, hs, e.model, hm'']⟩

theorem Planted.formed (h : Planted s start) (hclosed : s.Closed) (ht : Reached start t) :
    t.Formed s := by
  have hwell := ht.grown.wellFormed h.wellFormed
  obtain ⟨hjoined, hrequired⟩ :=
    ht.markedUp h.wellFormed (h.markedUp Node.joined) (h.markedUp Node.required)
  exact {
    root := fun id hid => hwell.parent_eq_none_iff hid
    nonempty := hwell.nonempty
    hangs := fun id hid hne => by
      obtain ⟨p, r, e⟩ := hwell.edge id (Nat.pos_of_ne_zero hne) hid
      exact ⟨p, r, e.hangs hwell (h.schema_of_edge ht e) hclosed⟩
    names := hwell.distinct
    required := fun id => (ht.joining h.joining id).required
    selected := fun id => (ht.joining h.joining id).selected
    joinedUp := hjoined
    requiredUp := hrequired }

/-- After any calls the tree has its form, and no further call, failing or not, moves a node. -/
theorem Planted.formed_after {settings : Settings} {decls : List ModelDecl}
    (hs : Schema.resolve settings decls = .ok s) (h : Planted s start) (calls : List Call) :
    (start.after calls).Formed s ∧
      ∀ call : Call, StaysIn (start.after calls) (call.run (start.after calls)) :=
  ⟨h.formed (Schema.closed_of_resolve hs) (reached_after start calls),
    fun call => (call.reached _).staysIn⟩

def taggedStart : JoinTree :=
  ⟨some Tagged.schema, (Table.named "authors").withColumns ["id"], [Node.root (some "Author")]⟩

/-- A path that fails behind the tags, one that takes its nodes again, and marks on them. -/
def taggedCalls : List Call :=
  [.resolve "articles/tags/nowhere/id", .resolve "articles/tags/id", .select 1, .require 2]

theorem formed_after_failed_path :
    (taggedStart.after taggedCalls).size = 3 ∧
      (taggedStart.after taggedCalls).Formed Tagged.schema ∧
      ∀ call : Call, StaysIn (taggedStart.after taggedCalls)
        (call.run (taggedStart.after taggedCalls)) := by
  have hresolve : Schema.resolve {} Tagged.decls = .ok Tagged.schema := by with_unfolding_all rfl
  have hopened : ofModel Tagged.schema "Author" = .ok taggedStart := by with_unfolding_all rfl
  exact ⟨by decide +kernel, Planted.formed_after hresolve (.model hopened) taggedCalls⟩

end PathQuery.JoinTree
