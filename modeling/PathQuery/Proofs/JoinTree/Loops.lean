import PathQuery.Proofs.JoinTree.Ancestors

/-!
Walks as loops that have no bound of their own: up from a node to its parent and on, or down with
the nodes that are still to be visited on a stack. Nothing in such a loop keeps it from going round
for ever or from looking for a node that is not there. In a tree that was made step by step it does
neither, because parents have smaller numbers and no node is listed twice: as many rounds as there
are nodes, and one more, are enough for what the recursive walks find.
-/

set_option autoImplicit false

namespace PathQuery.JoinTree

variable {t : JoinTree} {s n : Nat}

/-- Goes through a number of rounds of a loop. A round ends the loop with a result, leaves a state
to the next round, or fails; a loop that fails or needs more rounds has no result. -/
def runLoop {σ ρ : Type} (round : σ → Option (σ ⊕ ρ)) : Nat → σ → Option ρ
  | 0, _ => none
  | rounds + 1, state =>
    match round state with
    | none => none
    | some (.inl next) => runLoop round rounds next
    | some (.inr result) => some result

/-- A round on the way up to `scope`, with the node that it has come to and the nodes behind it. -/
def climb (t : JoinTree) (scope : Nat) :
    Nat × List Nat → Option ((Nat × List Nat) ⊕ Option (List Nat))
  | (current, path) =>
    if current = scope then some (.inr (some path))
    else do
      let node ← t.nodes[current]?
      match node.parent with
      | some p => some (.inl (p, current :: path))
      | none => some (.inr none)

def markUp (mark : Node → Node) :
    JoinTree × Option Nat → Option ((JoinTree × Option Nat) ⊕ JoinTree)
  | (t, none) => some (.inr t)
  | (t, some id) => do
    let u := t.modifyNode id mark
    let node ← u.nodes[id]?
    some (.inl (u, node.parent))

/-- A round of the walk down: it visits the node on top of the stack and puts its children there,
the last one first. -/
def visit (t : JoinTree) : List Nat × List Nat → Option ((List Nat × List Nat) ⊕ List Nat)
  | ([], visited) => some (.inr visited)
  | (id :: stack, visited) => do
    let node ← t.nodes[id]?
    some (.inl (node.children.reverse.foldl (fun stack c => c.2 :: stack) stack, visited ++ [id]))

theorem getElem?_nodes (h : n < t.size) : t.nodes[n]? = some (t.node n) := by
  have hlt : n < t.nodes.length := h
  rw [node_eq, List.getElem?_eq_getElem hlt, Option.getD_some]

theorem pathBetween?_of_no_parent (hne : n ≠ s) (hp : (t.node n).parent = none) :
    t.pathBetween? s n = none := by
  rw [pathBetween?, if_neg hne, hp]

/-- Each round goes to a smaller number, so the number of a node bounds the rounds from there. -/
theorem WellFormed.runLoop_climb (h : t.WellFormed) (hn : n < t.size) {rounds : Nat}
    (hrounds : n < rounds) (path : List Nat) :
    runLoop (t.climb s) rounds (n, path) = some ((t.pathBetween? s n).map (· ++ path)) := by
  induction n using Nat.strongRecOn generalizing rounds path with
  | ind n ih =>
    obtain ⟨rounds, rfl⟩ := Nat.exists_eq_succ_of_ne_zero (Nat.ne_zero_of_lt hrounds)
    by_cases hscope : n = s
    · simp [runLoop, climb, hscope, pathBetween?_self]
    · cases hp : (t.node n).parent with
      | none =>
        simp [runLoop, climb, hscope, getElem?_nodes hn, hp, pathBetween?_of_no_parent hscope hp]
      | some p =>
        have hlt := (h.parent_lt hp).1
        have hless : p < rounds := by omega
        have hnext := ih p hlt (Nat.lt_trans hlt hn) hless (n :: path)
        have hround : t.climb s (n, path) = some (.inl (p, n :: path)) := by
          simp [climb, hscope, getElem?_nodes hn, hp]
        rw [runLoop, hround, pathBetween?_of_parent hscope hp hlt, Option.map_map]
        simpa [Function.comp_def] using hnext

theorem eq_of_node_eq {u : JoinTree} (hschema : u.schema = t.schema)
    (htable : u.rootTable = t.rootTable) (hsize : u.size = t.size)
    (hnode : ∀ id, u.node id = t.node id) : u = t := by
  obtain ⟨schema, rootTable, nodes⟩ := u
  obtain rfl : schema = t.schema := hschema
  obtain rfl : rootTable = t.rootTable := htable
  have hnodes : nodes = t.nodes := by
    refine List.ext_getElem hsize fun id hid hid' => ?_
    simpa [node_eq, hid, hid'] using hnode id
  rw [hnodes]

theorem modifyAll_nil (t : JoinTree) (mark : Node → Node) : t.modifyAll [] mark = t :=
  eq_of_node_eq rfl rfl (size_modifyAll t [] mark) fun id => by simp [node_modifyAll]

theorem modifyAll_cons {ids : List Nat} (hn : n ∉ ids) (mark : Node → Node) :
    t.modifyAll (n :: ids) mark = (t.modifyNode n mark).modifyAll ids mark := by
  refine eq_of_node_eq rfl rfl (by simp) fun id => ?_
  rw [node_modifyAll, node_modifyAll, node_modifyNode, size_modifyNode]
  by_cases hid : id = n
  · subst hid
    simp [hn]
  · simp [hid]

theorem WellFormed.runLoop_markUp (h : t.WellFormed) (hn : n < t.size) (mark : Node → Node)
    (hmark : ∀ node, (mark node).bare = node.bare) {rounds : Nat} (hrounds : n + 1 < rounds) :
    runLoop (markUp mark) rounds (t, some n) = some (t.modifyAll (t.lineage n) mark) := by
  induction n using Nat.strongRecOn generalizing t rounds with
  | ind n ih =>
    obtain ⟨rounds, rfl⟩ := Nat.exists_eq_succ_of_ne_zero (Nat.ne_zero_of_lt hrounds)
    have hshape : SameShape t (t.modifyNode n mark) := sameShape_modifyNode t n hmark
    have hround : markUp mark (t, some n) =
        some (.inl (t.modifyNode n mark, (t.node n).parent)) := by
      have hn' : n < (t.modifyNode n mark).size := by rwa [hshape.size]
      simp [markUp, getElem?_nodes hn', hshape.parent]
    rw [runLoop, hround]
    cases hp : (t.node n).parent with
    | none =>
      obtain ⟨rounds, rfl⟩ : ∃ k, rounds = k + 1 := ⟨rounds - 1, by omega⟩
      have hlineage : t.lineage n = [n] := by rw [lineage, hp]
      rw [hlineage, modifyAll_cons (List.not_mem_nil), modifyAll_nil]
      rfl
    | some p =>
      have hlt := (h.parent_lt hp).1
      have hfresh : n ∉ t.lineage p := fun hmem =>
        Nat.not_le.2 hlt (h.le_of_reflTransGen (h.mem_lineage_iff.1 hmem))
      have hp' : p < (t.modifyNode n mark).size := by
        rw [hshape.size]
        exact Nat.lt_trans hlt hn
      rw [lineage_of_parent hp hlt, modifyAll_cons hfresh,
        ← lineage_congr hshape.parent p]
      exact ih p hlt (h.of_sameShape hshape) hp' (by omega)

theorem WellFormed.length_preorder_le (h : t.WellFormed) (hs : s < t.size) :
    (t.preorder s).length ≤ t.size := by
  have hsubset : t.preorder s ⊆ List.range t.size := by
    intro id hid
    rw [List.mem_range]
    rcases mem_preorder_bounds hid with rfl | ⟨-, hlt⟩
    · exact hs
    · exact hlt
  simpa using (List.subperm_of_subset (h.nodup_preorder s) hsubset).length_le

/-- A loop with nodes on the stack lists what is below them, one node a round. -/
theorem WellFormed.runLoop_visit (h : t.WellFormed) {rounds : Nat} {stack : List Nat}
    (hstack : ∀ id ∈ stack, id < t.size) (hrounds : (stack.flatMap t.preorder).length < rounds)
    (visited : List Nat) :
    runLoop t.visit rounds (stack, visited) = some (visited ++ stack.flatMap t.preorder) := by
  induction rounds generalizing stack visited with
  | zero => exact absurd hrounds (Nat.not_lt_zero _)
  | succ rounds ih =>
    cases stack with
    | nil => simp [runLoop, visit]
    | cons id stack =>
      rw [List.forall_mem_cons] at hstack
      have hround : t.visit (id :: stack, visited) =
          some (.inl (t.childIds id ++ stack, visited ++ [id])) := by
        simp [visit, getElem?_nodes hstack.1, childIds]
      have hpushed : ∀ c ∈ t.childIds id ++ stack, c < t.size := by
        intro c hc
        rcases List.mem_append.1 hc with hc | hc
        · exact (h.parent_lt (h.mem_childIds.1 hc)).2
        · exact hstack.2 c hc
      rw [List.flatMap_cons, h.preorder_eq_flatMap, List.cons_append,
        ← List.flatMap_append] at hrounds ⊢
      rw [List.length_cons, Nat.add_lt_add_iff_right] at hrounds
      rw [runLoop, hround]
      simpa using ih hpushed hrounds (visited ++ [id])

/-- What walks between two nodes come to. Given more rounds than there are nodes each loop ends,
with the result of the recursive walk. -/
structure WalksExact (t : JoinTree) (s n : Nat) : Prop where
  found : (t.pathBetween? s n).isSome ↔ Relation.ReflTransGen t.ParentOf s n
  way : ∀ path, t.pathBetween? s n = some path → t.IsWay s n path
  anchor : ∀ a, t.anchor? s n = some a ↔
    ∃ before behind, t.pathBetween? s n = some (before ++ a :: behind) ∧
      (t.node a).isToMany = true ∧ ∀ m ∈ before, (t.node m).isToMany = false
  joined : MarkedFrom n (fun node => { node with joined := true }) t (t.joinPath n)
  required : MarkedFrom n (fun node => { node with joined := true, required := true }) t
    (t.require n)
  subtree : t.ListsSubtree s (t.preorder s)
  climbEnds : ∀ rounds, t.size < rounds →
    runLoop (t.climb s) rounds (n, []) = some (t.pathBetween? s n)
  joinEnds : ∀ rounds, t.size < rounds →
    runLoop (markUp fun node => { node with joined := true }) rounds (t, some n) =
      some (t.joinPath n)
  requireEnds : ∀ rounds, t.size < rounds →
    runLoop (markUp fun node => { node with joined := true, required := true }) rounds
      (t, some n) = some (t.require n)
  visitEnds : ∀ rounds, t.size < rounds → runLoop t.visit rounds ([s], []) = some (t.preorder s)

/-- Whatever steps have made a tree, walks from any of its nodes end and find what there is. -/
theorem Planted.walks_exact {schema : Schema} {start : JoinTree} (hstart : Planted schema start)
    (ht : Reached start t) (hs : s < t.size) (hn : n < t.size) : t.WalksExact s n := by
  have h := ht.grown.wellFormed hstart.wellFormed
  have hstack : ∀ id ∈ [s], id < t.size := by simpa using hs
  have hvisit : ([s].flatMap t.preorder).length ≤ t.size := by
    simpa using h.length_preorder_le hs
  exact {
    found := Option.isSome_iff_exists.trans h.exists_path_iff
    way := fun path => isWay_of_path
    anchor := fun a => anchor?_eq_some_iff
    joined := h.markedFrom hn _
    required := h.markedFrom hn _
    subtree := h.listsSubtree (ht.childrenInOrder hstart.wellFormed hstart.childrenInOrder) hs
    climbEnds := fun rounds hrounds => by
      simpa using h.runLoop_climb hn (s := s) (Nat.lt_trans hn hrounds) []
    joinEnds := fun rounds hrounds => h.runLoop_markUp hn
      (fun node => { node with joined := true }) (fun _ => rfl) (by omega)
    requireEnds := fun rounds hrounds => h.runLoop_markUp hn
      (fun node => { node with joined := true, required := true }) (fun _ => rfl) (by omega)
    visitEnds := fun rounds hrounds => by
      simpa using h.runLoop_visit hstack (Nat.lt_of_le_of_lt hvisit hrounds) [] }

def forkedCalls : List Call :=
  [.resolve "articles/tags/id", .resolve "articles/author/id", .select 2]

theorem walks_exact_of_forked :
    ofModel Tagged.schema "Author" = .ok taggedStart ∧
      1 < (taggedStart.after forkedCalls).size ∧ 3 < (taggedStart.after forkedCalls).size ∧
      (taggedStart.after forkedCalls).WalksExact 1 3 := by
  have hopened : ofModel Tagged.schema "Author" = .ok taggedStart := by with_unfolding_all rfl
  have hsize : (taggedStart.after forkedCalls).size = 4 := by decide +kernel
  refine ⟨hopened, by omega, by omega, ?_⟩
  exact Planted.walks_exact (.model hopened) (reached_after taggedStart forkedCalls) (by omega)
    (by omega)

end PathQuery.JoinTree
