import PathQuery.JoinTree.SemiJoins
import PathQuery.Proofs.JoinTree.Kept
import PathQuery.Proofs.JoinTree.Walks

/-!
The marks of nodes. A mark is set on a node together with all nodes above it, so the nodes that a
statement joins hang together below the root, and so do those that it requires. Settling marks the
nodes that the conditions need and, where all of them must hold, requires those that they cannot do
without.
-/

set_option autoImplicit false

namespace PathQuery.JoinTree

variable {t u : JoinTree}

theorem mem_lineage_self (t : JoinTree) (id : Nat) : id ∈ t.lineage id := by
  rw [lineage]
  exact List.mem_cons_self

theorem lineage_of_parent {id p : Nat} (hp : (t.node id).parent = some p) (hlt : p < id) :
    t.lineage id = id :: t.lineage p := by
  rw [lineage, hp]
  simp only [hlt, if_true]

theorem WellFormed.parent_mem_lineage (h : t.WellFormed) {i id p : Nat} (hid : id ∈ t.lineage i)
    (hp : (t.node id).parent = some p) : p ∈ t.lineage i := by
  induction i using Nat.strongRecOn with
  | ind i ih =>
    rw [lineage, List.mem_cons] at hid
    rcases hid with rfl | hid
    · rw [lineage_of_parent hp (h.parent_lt hp).1]
      exact List.mem_cons_of_mem _ (mem_lineage_self t p)
    · cases hq : (t.node i).parent with
      | none => simp [hq] at hid
      | some q =>
        have hlt := (h.parent_lt hq).1
        rw [lineage_of_parent hq hlt]
        refine List.mem_cons_of_mem _ (ih q hlt ?_)
        simpa [hq, hlt] using hid

theorem mem_path_of_mem_lineage {i n : Nat} {path : List Nat}
    (hpath : t.pathBetween? rootId i = some path) (hn : n ∈ t.lineage i) :
    n = rootId ∨ n ∈ path := by
  induction i using Nat.strongRecOn generalizing path with
  | ind i ih =>
    rcases pathBetween?_eq_some hpath with ⟨rfl, -⟩ | ⟨p, q, hp, hlt, -, hq, rfl⟩
    · rw [lineage, List.mem_cons] at hn
      rcases hn with rfl | hn
      · exact .inl rfl
      · split at hn
        · simp [rootId] at hn
        · cases hn
    · rw [lineage_of_parent hp hlt, List.mem_cons] at hn
      rcases hn with rfl | hn
      · exact .inr (by simp)
      · rcases ih p hlt hq hn with hroot | hmem
        · exact .inl hroot
        · exact .inr (List.mem_append_left _ hmem)

theorem eq_root_of_mem_lineage {n : Nat} (h : n ∈ t.lineage rootId) : n = rootId := by
  rcases mem_path_of_mem_lineage (pathBetween?_self t rootId) h with hroot | hnone
  · exact hroot
  · cases hnone

theorem SameShape.isToMany (h : SameShape t u) (id : Nat) :
    (u.node id).isToMany = (t.node id).isToMany := by
  rw [Node.isToMany, Node.isToMany, h.relation]

theorem SameShape.anchor? (h : SameShape t u) (scope id : Nat) :
    u.anchor? scope id = t.anchor? scope id := by
  rw [JoinTree.anchor?, JoinTree.anchor?, pathBetween?_congr h.parent]
  simp only [h.isToMany]

theorem SameShape.aliases (h : SameShape t u) :
    u.nodes.map Node.tableAlias = t.nodes.map Node.tableAlias := by
  refine List.ext_getElem (by simpa [JoinTree.size] using h.size) fun i hi hi' => ?_
  rw [List.length_map] at hi hi'
  simpa [node_eq, hi, hi'] using h.tableAlias i

theorem SameShape.idOfAlias? (h : SameShape t u) (a : String) :
    u.idOfAlias? a = t.idOfAlias? a := by
  have hfind : ∀ t : JoinTree,
      t.idOfAlias? a = (t.nodes.map Node.tableAlias).findIdx? (· == a) := by
    intro t
    rw [List.findIdx?_map]
    rfl
  rw [hfind, hfind, h.aliases]

theorem SameShape.owner? (h : SameShape t u) (x : Condition) : u.owner? x = t.owner? x := by
  rw [JoinTree.owner?, JoinTree.owner?]
  exact congrArg _ (funext h.idOfAlias?)

theorem SameShape.right? (h : SameShape t u) (x : Condition) : u.right? x = t.right? x := by
  cases x with
  | columns c left op right => exact h.idOfAlias? right.tableAlias
  | _ => rfl

def requireAll (t : JoinTree) (ids : List Nat) : JoinTree :=
  ids.foldl require t

def joinAll (t : JoinTree) (ids : List Nat) : JoinTree :=
  ids.foldl joinPath t

theorem reached_requireAll (t : JoinTree) (ids : List Nat) : Reached t (t.requireAll ids) :=
  reached_foldl (fun _ id => .require id) ids t

theorem reached_joinAll (t : JoinTree) (ids : List Nat) : Reached t (t.joinAll ids) :=
  reached_foldl (fun _ id => .joinPath id) ids t

theorem sameShape_foldl {f : JoinTree → Nat → JoinTree} (h : ∀ t i, SameShape t (f t i))
    (ids : List Nat) (t : JoinTree) : SameShape t (ids.foldl f t) := by
  induction ids generalizing t with
  | nil => exact ⟨rfl, rfl, rfl, fun _ => rfl⟩
  | cons i ids ih => exact (h t i).trans (ih (f t i))

theorem sameShape_requireAll (t : JoinTree) (ids : List Nat) : SameShape t (t.requireAll ids) :=
  sameShape_foldl sameShape_require ids t

theorem sameShape_joinAll (t : JoinTree) (ids : List Nat) : SameShape t (t.joinAll ids) :=
  sameShape_foldl sameShape_joinPath ids t

/-- A fold that marks the lineage of each node in a list marks no other node. -/
theorem marked_foldl {mark : Node → Bool} {f : JoinTree → Nat → JoinTree}
    (hshape : ∀ t i, SameShape t (f t i))
    (hmark : ∀ t i id, id < t.size →
      (mark ((f t i).node id) = true ↔ mark (t.node id) = true ∨ id ∈ t.lineage i))
    (ids : List Nat) (t : JoinTree) {id : Nat} (hid : id < t.size) :
    mark ((ids.foldl f t).node id) = true ↔
      mark (t.node id) = true ∨ ∃ i ∈ ids, id ∈ t.lineage i := by
  induction ids generalizing t with
  | nil => simp
  | cons i ids ih =>
    have hlineage := lineage_congr (hshape t i).parent
    rw [List.foldl_cons, ih (f t i) (by rwa [(hshape t i).size]), hmark t i id hid]
    simp only [hlineage, List.exists_mem_cons_iff, or_assoc]

theorem marked_modifyAll_iff {mark : Node → Bool} {f : Node → Node} (hf : ∀ n, mark (f n) = true)
    {ids : List Nat} {id : Nat} (hid : id < t.size) :
    mark ((t.modifyAll ids f).node id) = true ↔ mark (t.node id) = true ∨ id ∈ ids := by
  rw [node_modifyAll]
  by_cases hmem : id ∈ ids
  · simp [hmem, hid, hf]
  · simp [hmem]

theorem joined_joinPath_iff {i id : Nat} (hid : id < t.size) :
    ((t.joinPath i).node id).joined = true ↔ (t.node id).joined = true ∨ id ∈ t.lineage i :=
  marked_modifyAll_iff (fun _ => rfl) hid

theorem joined_require_iff {i id : Nat} (hid : id < t.size) :
    ((t.require i).node id).joined = true ↔ (t.node id).joined = true ∨ id ∈ t.lineage i :=
  marked_modifyAll_iff (fun _ => rfl) hid

theorem required_require_iff {i id : Nat} (hid : id < t.size) :
    ((t.require i).node id).required = true ↔ (t.node id).required = true ∨ id ∈ t.lineage i :=
  marked_modifyAll_iff (fun _ => rfl) hid

theorem required_joinPath (t : JoinTree) (i id : Nat) :
    ((t.joinPath i).node id).required = (t.node id).required := by
  rw [joinPath, node_modifyAll]
  split <;> rfl

theorem joined_joinAll_iff (ids : List Nat) {id : Nat} (hid : id < t.size) :
    ((t.joinAll ids).node id).joined = true ↔
      (t.node id).joined = true ∨ ∃ i ∈ ids, id ∈ t.lineage i :=
  marked_foldl sameShape_joinPath (fun _ _ _ => joined_joinPath_iff) ids t hid

theorem joined_requireAll_iff (ids : List Nat) {id : Nat} (hid : id < t.size) :
    ((t.requireAll ids).node id).joined = true ↔
      (t.node id).joined = true ∨ ∃ i ∈ ids, id ∈ t.lineage i :=
  marked_foldl sameShape_require (fun _ _ _ => joined_require_iff) ids t hid

theorem required_requireAll_iff (ids : List Nat) {id : Nat} (hid : id < t.size) :
    ((t.requireAll ids).node id).required = true ↔
      (t.node id).required = true ∨ ∃ i ∈ ids, id ∈ t.lineage i :=
  marked_foldl sameShape_require (fun _ _ _ => required_require_iff) ids t hid

theorem required_joinAll (t : JoinTree) (ids : List Nat) (id : Nat) :
    ((t.joinAll ids).node id).required = (t.node id).required := by
  rw [joinAll]
  induction ids generalizing t with
  | nil => rfl
  | cons i ids ih => rw [List.foldl_cons, ih (t.joinPath i), required_joinPath]

/-- What relations to one row lead to hangs below the root by relations to one row only. -/
theorem WellFormed.isToMany_of_mem_lineage (h : t.WellFormed) {i id : Nat} (hi : i < t.size)
    (hone : t.anchor? rootId i = none) (hid : id ∈ t.lineage i) : (t.node id).isToMany = false := by
  obtain ⟨path, hpath⟩ := h.exists_path hi
  rcases mem_path_of_mem_lineage hpath hid with rfl | hmem
  · rw [Node.isToMany, h.rootRelation, Option.any_none]
  · exact (joinedFrom_of_anchor? hpath hone).one id hmem

theorem SameShape.joinsFor (h : SameShape t u) (id : Nat) (kind : JoinKind) :
    u.joinsFor id kind = t.joinsFor id kind := by
  simp only [JoinTree.joinsFor, h.relation, h.parent, h.tableAlias]

theorem joinsFor_of_edge {p id : Nat} {r : Relation} (e : t.Edge p id r) (kind : JoinKind) :
    t.joinsFor id kind = r.joins (t.node p).tableAlias (t.node id).tableAlias kind true := by
  simp [joinsFor, e.relation, e.parent]

theorem of_mem_joinsFor {id : Nat} {kind : JoinKind} {j : Join} (h : j ∈ t.joinsFor id kind) :
    j.kind = kind ∧ (j.tableAlias = (t.node id).tableAlias ∨
      j.tableAlias = Relation.joinTableAlias (t.node id).tableAlias) := by
  unfold joinsFor at h
  split at h
  · unfold Relation.joins at h
    split at h
    · rcases List.mem_cons.1 h with rfl | h
      · exact ⟨rfl, .inr rfl⟩
      · obtain rfl := List.mem_singleton.1 h
        exact ⟨rfl, .inl rfl⟩
    · obtain rfl := List.mem_singleton.1 h
      exact ⟨rfl, .inl rfl⟩
  · cases h

/-- The nodes whose rows the conditions of a statement cannot do without. -/
def requiredBy (t : JoinTree) (xs : List Condition) : List Nat :=
  xs.filterMap fun x =>
    if (xs.drop 1).all (·.connective == .and) && x.needsRow then
      (t.owner? x).filter fun id => (t.anchor? rootId id).isNone
    else none

theorem mem_requiredBy {xs : List Condition} {id : Nat} :
    id ∈ t.requiredBy xs ↔ (∀ x ∈ xs.drop 1, x.connective = .and) ∧
      ∃ x ∈ xs, x.needsRow = true ∧ t.owner? x = some id ∧ t.anchor? rootId id = none := by
  rw [requiredBy, List.mem_filterMap]
  constructor
  · rintro ⟨x, hx, h⟩
    split at h
    · next hc =>
      simp only [Bool.and_eq_true, List.all_eq_true, beq_iff_eq] at hc
      obtain ⟨howner, hnone⟩ := Option.filter_eq_some_iff.1 h
      exact ⟨hc.1, x, hx, hc.2, howner, by simpa using hnone⟩
    · cases h
  · rintro ⟨hc, x, hx, hneeds, howner, hnone⟩
    refine ⟨x, hx, ?_⟩
    rw [if_pos (by simpa [hneeds] using hc)]
    exact Option.filter_eq_some_iff.2 ⟨howner, by simp [hnone]⟩

theorem settleRoot_eq_ok {xs ys : List Condition} (h : t.settleRoot xs = .ok (ys, u)) :
    ∃ r, (t.requireAll (t.requiredBy xs)).settle rootId xs = .ok r ∧ ys = r.conditions ∧
      u = (t.requireAll (t.requiredBy xs)).joinAll r.needed := by
  obtain ⟨r, hr, h⟩ := bind_eq_ok_iff.1 h
  obtain ⟨rfl, rfl⟩ := Prod.mk.inj (Except.ok.inj h)
  exact ⟨r, hr, rfl, rfl⟩

/-- A statement joins what was joined before, and the ways to what its conditions require or need.
-/
theorem joined_settled_iff (xs : List Condition) (needed : List Nat) {id : Nat}
    (hid : id < t.size) :
    (((t.requireAll (t.requiredBy xs)).joinAll needed).node id).joined = true ↔
      (t.node id).joined = true ∨
        ∃ i, (i ∈ t.requiredBy xs ∨ i ∈ needed) ∧ id ∈ t.lineage i := by
  have hshape := sameShape_requireAll t (t.requiredBy xs)
  rw [joined_joinAll_iff needed (by rwa [hshape.size]), joined_requireAll_iff _ hid]
  simp only [lineage_congr hshape.parent, or_assoc, or_and_right, exists_or]

theorem required_settled_iff (xs : List Condition) (needed : List Nat) {id : Nat}
    (hid : id < t.size) :
    (((t.requireAll (t.requiredBy xs)).joinAll needed).node id).required = true ↔
      (t.node id).required = true ∨ ∃ i ∈ t.requiredBy xs, id ∈ t.lineage i := by
  rw [required_joinAll, required_requireAll_iff _ hid]

theorem sameShape_settleRoot {xs ys : List Condition} (h : t.settleRoot xs = .ok (ys, u)) :
    SameShape t u := by
  obtain ⟨r, -, -, rfl⟩ := settleRoot_eq_ok h
  exact (sameShape_requireAll t _).trans (sameShape_joinAll _ _)

theorem reached_settleRoot {xs ys : List Condition} (h : t.settleRoot xs = .ok (ys, u)) :
    Reached t u := by
  obtain ⟨r, -, -, rfl⟩ := settleRoot_eq_ok h
  exact (reached_requireAll t _).trans (reached_joinAll _ _)

/-- The nodes above a node with a mark have it too. -/
def MarkedUp (mark : Node → Bool) (t : JoinTree) : Prop :=
  ∀ id p, (t.node id).parent = some p → mark (t.node id) = true → mark (t.node p) = true

section MarkedUp

variable {mark : Node → Bool}

theorem MarkedUp.of_sameShape (h : MarkedUp mark t) (hs : SameShape t u)
    (hmark : ∀ id, mark (u.node id) = mark (t.node id)) : MarkedUp mark u := by
  intro id p hp hm
  rw [hs.parent] at hp
  rw [hmark] at hm ⊢
  exact h id p hp hm

theorem MarkedUp.of_lineage (h : MarkedUp mark t) (ht : t.WellFormed) {i : Nat}
    (hs : SameShape t u)
    (hmark : ∀ id, id < t.size →
      (mark (u.node id) = true ↔ mark (t.node id) = true ∨ id ∈ t.lineage i)) :
    MarkedUp mark u := by
  intro id p hp hm
  rw [hs.parent] at hp
  obtain ⟨hlt, hid⟩ := ht.parent_lt hp
  rw [hmark p (Nat.lt_trans hlt hid)]
  rcases (hmark id hid).1 hm with hm | hmem
  · exact .inl (h id p hp hm)
  · exact .inr (ht.parent_mem_lineage hmem hp)

theorem MarkedUp.child (h : MarkedUp mark t) (ht : t.WellFormed)
    (hmark : ∀ (n : Node) children, mark { n with children } = mark n)
    (hnew : ∀ (t : JoinTree) p name r, mark (t.sprout p name r) = false) (p : Nat)
    (name : String) : MarkedUp mark (t.child p name).2 := by
  rcases child_cases t p name with hsame | ⟨r, -, hgrow⟩
  · rw [hsame]
    exact h
  · rw [hgrow]
    intro id q hq hm
    have hne : id ≠ t.size := by
      rintro rfl
      rw [node_grow_size, hnew] at hm
      cases hm
    rw [node_grow_ne_size t p name r hne] at hq hm
    have hlt := ht.parent_lt hq
    rw [node_grow_ne_size t p name r (by omega), hmark]
    rw [hmark] at hm
    exact h id q hq hm

end MarkedUp

def joinedNodes (t : JoinTree) : List Nat :=
  (t.preorder rootId).filter fun id => id != rootId && (t.node id).joined

def joinKind (t : JoinTree) (id : Nat) : JoinKind :=
  if (t.node id).required then .inner else .left

theorem statementJoins_eq (t : JoinTree) :
    t.statementJoins = t.joinedNodes.flatMap fun id => t.joinsFor id (t.joinKind id) :=
  rfl

theorem WellFormed.mem_joinedNodes (ht : t.WellFormed) {id : Nat} :
    id ∈ t.joinedNodes ↔ id < t.size ∧ id ≠ rootId ∧ (t.node id).joined = true := by
  rw [joinedNodes, List.mem_filter, Bool.and_eq_true, bne_iff_ne]
  refine ⟨fun ⟨hid, hne, hjoined⟩ => ?_, fun ⟨hid, hne, hjoined⟩ => ?_⟩
  · exact ⟨((mem_preorder_bounds hid).resolve_left hne).2, hne, hjoined⟩
  · obtain ⟨path, hpath⟩ := ht.exists_path hid
    exact ⟨ht.mem_preorder hid hpath, hne, hjoined⟩

theorem WellFormed.mem_statementJoins (ht : t.WellFormed) {j : Join} :
    j ∈ t.statementJoins ↔ ∃ id, (id < t.size ∧ id ≠ rootId ∧ (t.node id).joined = true) ∧
      j ∈ t.joinsFor id (t.joinKind id) := by
  simp only [statementJoins_eq, List.mem_flatMap, ht.mem_joinedNodes]

theorem WellFormed.parentsFirst_joinedNodes (ht : t.WellFormed) (hup : MarkedUp Node.joined t) :
    t.ParentsFirst [rootId] t.joinedNodes := by
  rw [joinedNodes, preorder_eq, List.filter_cons_of_neg (by simp)]
  refine (ht.parentsFirst_offspring rootId).filter rootId (fun id _ p hid hp => ?_) [rootId]
    List.mem_cons_self fun _ hn _ => hn
  simp only [Bool.and_eq_true, bne_iff_ne] at hid ⊢
  by_cases hroot : p = rootId
  · exact .inl hroot
  · exact .inr ⟨hroot, hup id p hp hid.2⟩

theorem exists_joinsFor {p id : Nat} {r : Relation} (e : t.Edge p id r) (kind : JoinKind) :
    ∃ j ∈ t.joinsFor id kind, j.tableAlias = (t.node id).tableAlias := by
  rw [joinsFor_of_edge e, Relation.joins]
  split
  · exact ⟨_, List.mem_cons_of_mem _ List.mem_cons_self, rfl⟩
  · exact ⟨_, List.mem_cons_self, rfl⟩

theorem ofModel_eq_ok {s : Schema} {name : String} (h : ofModel s name = .ok t) :
    ∃ m, s.model name = .ok m ∧ t = ⟨some s, m.table, [Node.root (some m.name)]⟩ := by
  obtain ⟨m, hm, rfl⟩ := map_eq_ok_iff.1 h
  exact ⟨m, hm, rfl⟩

theorem root_of_ofModel {s : Schema} {name : String} {m : Model} (hm : s.model? name = some m)
    {start : JoinTree} (h : ofModel s name = .ok start) :
    start.model? rootId = some m ∧ start.table rootId = m.table := by
  have hname : m.name = name := by simpa using List.find?_some hm
  have hmodel : s.model name = .ok m := by rw [Schema.model, hm]
  rw [ofModel, hmodel] at h
  obtain rfl := Except.ok.inj h
  have hroot : JoinTree.model? ⟨some s, m.table, [Node.root (some m.name)]⟩ rootId = some m := by
    change s.model? m.name = some m
    rw [hname, hm]
  exact ⟨hroot, by rw [table, hroot]; rfl⟩

theorem size_ofModel {s : Schema} {name : String} (h : ofModel s name = .ok t) : t.size = 1 := by
  obtain ⟨m, -, rfl⟩ := ofModel_eq_ok h
  rfl

theorem WellFormed.markedUp_of_size (ht : t.WellFormed) (hsize : t.size = 1) (mark : Node → Bool) :
    MarkedUp mark t := by
  intro id p hp
  have hlt := ht.parent_lt hp
  omega

theorem WellFormed.statementJoins_of_size (ht : t.WellFormed) (hsize : t.size = 1) :
    t.statementJoins = [] := by
  refine List.eq_nil_iff_forall_not_mem.2 fun j hj => ?_
  obtain ⟨id, ⟨hlt, hne, -⟩, -⟩ := ht.mem_statementJoins.1 hj
  rw [rootId] at hne
  omega

theorem markedUp_ofModel {s : Schema} {name : String} (mark : Node → Bool)
    (h : ofModel s name = .ok t) : MarkedUp mark t :=
  (wellFormed_ofModel h).markedUp_of_size (size_ofModel h) mark

theorem Reached.markedUp {start : JoinTree} (h : Reached start t) (hwell : start.WellFormed)
    (hjoined : MarkedUp Node.joined start) (hrequired : MarkedUp Node.required start) :
    MarkedUp Node.joined t ∧ MarkedUp Node.required t := by
  induction h with
  | start => exact ⟨hjoined, hrequired⟩
  | @step v w hreached hstep ih =>
    obtain ⟨hj, hr⟩ := ih
    have hv := hreached.grown.wellFormed hwell
    cases hstep with
    | child p name =>
      exact ⟨hj.child hv (fun _ _ => rfl) (fun _ _ _ _ => rfl) p name,
        hr.child hv (fun _ _ => rfl) (fun _ _ _ _ => rfl) p name⟩
    | attach i leaf =>
      refine ⟨hj.of_sameShape (sameShape_attach v i leaf) fun id => ?_,
        hr.of_sameShape (sameShape_attach v i leaf) fun id => ?_⟩
      all_goals
        rw [attach, node_modifyNode]
        split <;> rfl
    | joinPath i =>
      exact ⟨hj.of_lineage hv (sameShape_joinPath v i) fun _ => joined_joinPath_iff,
        hr.of_sameShape (sameShape_joinPath v i) (required_joinPath v i)⟩
    | select i =>
      have hselect := sameShape_modifyNode v i (f := fun n => { n with selected := true })
        fun _ => rfl
      have hmark : ∀ (mark : Node → Bool), (∀ n : Node, mark { n with selected := true } = mark n) →
          ∀ id, mark ((v.modifyNode i fun n => { n with selected := true }).node id) =
            mark (v.node id) := by
        intro mark hsame id
        rw [node_modifyNode]
        split
        · exact hsame _
        · rfl
      have hj' := hj.of_sameShape hselect (hmark Node.joined fun _ => rfl)
      have hr' := hr.of_sameShape hselect (hmark Node.required fun _ => rfl)
      exact ⟨hj'.of_lineage (hv.of_sameShape hselect) (sameShape_joinPath _ i)
          fun _ => joined_joinPath_iff,
        hr'.of_sameShape (sameShape_joinPath _ i) (required_joinPath _ i)⟩
    | require i =>
      exact ⟨hj.of_lineage hv (sameShape_require v i) fun _ => joined_require_iff,
        hr.of_lineage hv (sameShape_require v i) fun _ => required_require_iff⟩

end PathQuery.JoinTree
