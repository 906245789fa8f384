import PathQuery.Proofs.JoinTree.Leaves
import PathQuery.Proofs.JoinTree.Reached

/-!
What the steps of building a statement keep. Nodes stay where they are, under their aliases and with
the marks that they have, so what a path or a condition speaks of is still there later.
-/

set_option autoImplicit false

namespace PathQuery

/-- What is left of a node after a step: its place, its children in their order, and its marks. -/
structure Node.Lasts (n n' : Node) : Prop where
  relation : n'.relation = n.relation
  model : n'.model = n.model
  tableAlias : n'.tableAlias = n.tableAlias
  parent : n'.parent = n.parent
  children : n.children <+: n'.children
  joined : n.joined = true → n'.joined = true
  required : n.required = true → n'.required = true

theorem Node.Lasts.refl (n : Node) : n.Lasts n :=
  ⟨rfl, rfl, rfl, rfl, List.prefix_refl _, id, id⟩

theorem Node.Lasts.trans {n n' n'' : Node} (h : n.Lasts n') (h' : n'.Lasts n'') : n.Lasts n'' where
  relation := h'.relation.trans h.relation
  model := h'.model.trans h.model
  tableAlias := h'.tableAlias.trans h.tableAlias
  parent := h'.parent.trans h.parent
  children := h.children.trans h'.children
  joined := h'.joined ∘ h.joined
  required := h'.required ∘ h.required

theorem Node.lasts_of_bare (n : Node) {n' : Node} (h : n'.bare = n.bare)
    (hjoined : n.joined = true → n'.joined = true)
    (hrequired : n.required = true → n'.required = true) : n.Lasts n' where
  relation := (congrArg Node.relation h :)
  model := (congrArg Node.model h :)
  tableAlias := (congrArg Node.tableAlias h :)
  parent := (congrArg Node.parent h :)
  children := by
    have hsame : n'.children = n.children := (congrArg Node.children h :)
    exact hsame ▸ List.prefix_refl n.children
  joined := hjoined
  required := hrequired

namespace JoinTree

variable {t u : JoinTree}

theorem lasts_modifyNode (t : JoinTree) (id : Nat) (f : Node → Node)
    (hf : ∀ n : Node, n.Lasts (f n))
    (j : Nat) : (t.node j).Lasts ((t.modifyNode id f).node j) := by
  rw [node_modifyNode]
  split
  · exact hf _
  · exact .refl _

theorem lasts_modifyAll (t : JoinTree) (ids : List Nat) (f : Node → Node)
    (hf : ∀ n : Node, n.Lasts (f n)) (j : Nat) : (t.node j).Lasts ((t.modifyAll ids f).node j) := by
  rw [node_modifyAll]
  split
  · exact hf _
  · exact .refl _

theorem lasts_attach (t : JoinTree) (i : Nat) (leaf : Condition) (j : Nat) :
    (t.node j).Lasts ((t.attach i leaf).node j) := by
  refine lasts_modifyNode t i _ (fun n => ?_) j
  exact n.lasts_of_bare rfl (fun h => h) fun h => h

theorem lasts_joinPath (t : JoinTree) (i j : Nat) : (t.node j).Lasts ((t.joinPath i).node j) := by
  refine lasts_modifyAll t _ _ (fun n => ?_) j
  exact n.lasts_of_bare rfl (fun _ => rfl) fun h => h

theorem lasts_select (t : JoinTree) (i j : Nat) : (t.node j).Lasts ((t.select i).node j) := by
  refine Node.Lasts.trans ?_ (lasts_joinPath _ i j)
  refine lasts_modifyNode t i _ (fun n => ?_) j
  exact n.lasts_of_bare rfl (fun h => h) fun h => h

theorem lasts_require (t : JoinTree) (i j : Nat) : (t.node j).Lasts ((t.require i).node j) := by
  refine lasts_modifyAll t _ _ (fun n => ?_) j
  exact n.lasts_of_bare rfl (fun _ => rfl) fun _ => rfl

theorem child_cases (t : JoinTree) (p : Nat) (name : String) :
    (t.child p name).2 = t ∨ ∃ r, (t.model? p).bind (·.relation? name) = some r ∧
      (t.child p name).2 = t.grow p name r := by
  rcases hc : t.child p name with ⟨e | id, v⟩
  · have hfirst : (t.child p name).1 = .error e := by rw [hc]
    have hv := child_error hfirst
    rw [hc] at hv
    exact .inl hv
  · rcases child_eq_ok hc with ⟨rfl, -⟩ | ⟨r, hr, -, -, rfl⟩
    · exact .inl rfl
    · exact .inr ⟨r, hr, rfl⟩

theorem Step.lasts (h : Step t u) {id : Nat} (hid : id < t.size) :
    (t.node id).Lasts (u.node id) := by
  cases h with
  | child p name =>
    rcases child_cases t p name with hsame | ⟨r, -, hgrow⟩
    · rw [hsame]
      exact .refl _
    · rw [hgrow, node_grow_ne_size t p name r (Nat.ne_of_lt hid)]
      exact ⟨rfl, rfl, rfl, rfl, List.prefix_append _ _, fun h => h, fun h => h⟩
  | attach i leaf => exact lasts_attach t i leaf id
  | joinPath i => exact lasts_joinPath t i id
  | select i => exact lasts_select t i id
  | require i => exact lasts_require t i id

theorem Reached.lasts (h : Reached t u) {id : Nat} (hid : id < t.size) :
    (t.node id).Lasts (u.node id) := by
  induction h with
  | start => exact .refl _
  | step hreached hstep ih =>
    exact ih.trans (hstep.lasts (Nat.lt_of_lt_of_le hid hreached.grown.size_le))

theorem Reached.lt_size (h : Reached t u) {id : Nat} (hid : id < t.size) : id < u.size :=
  Nat.lt_of_lt_of_le hid h.grown.size_le

theorem Reached.tableAlias_eq (h : Reached t u) {id : Nat} (hid : id < t.size) :
    (u.node id).tableAlias = (t.node id).tableAlias :=
  (h.lasts hid).tableAlias

theorem Step.rootTable (h : Step t u) : u.rootTable = t.rootTable := by
  cases h with
  | child p name =>
    rcases child_cases t p name with hsame | ⟨r, -, hgrow⟩
    · rw [hsame]
    · rw [hgrow]
      rfl
  | attach i leaf => rfl
  | joinPath i => rfl
  | select i => rfl
  | require i => rfl

theorem Reached.rootTable (h : Reached t u) : u.rootTable = t.rootTable := by
  induction h with
  | start => rfl
  | step _ hstep ih => exact hstep.rootTable.trans ih

theorem Reached.table_eq (h : Reached t u) {id : Nat} (hid : id < t.size) :
    u.table id = t.table id := by
  rw [table, table, h.grown.model? id hid, h.rootTable]

theorem Reached.edge (h : Reached t u) (hu : u.WellFormed) {p id : Nat} {r : Relation}
    (e : t.Edge p id r) (hid : id < t.size) : u.Edge p id r := by
  have hlast := h.lasts hid
  obtain ⟨p', r', e'⟩ := hu.edge id (Nat.zero_lt_of_lt e.lt) (h.lt_size hid)
  have hp : some p' = some p := by rw [← e'.parent, hlast.parent, e.parent]
  have hr : some r' = some r := by rw [← e'.relation, hlast.relation, e.relation]
  obtain rfl := Option.some.inj hp
  obtain rfl := Option.some.inj hr
  exact e'

theorem reached_foldl {α : Type} {f : JoinTree → α → JoinTree} (h : ∀ t a, Step t (f t a))
    (as : List α) (t : JoinTree) : Reached t (as.foldl f t) := by
  induction as generalizing t with
  | nil => exact .start
  | cons a as ih => exact Reached.trans (.step .start (h t a)) (ih (f t a))

theorem idOfAlias?_ne_none {a : String} :
    t.idOfAlias? a ≠ none ↔ ∃ id, id < t.size ∧ (t.node id).tableAlias = a := by
  constructor
  · intro h
    obtain ⟨id, hid⟩ := Option.ne_none_iff_exists'.1 h
    exact ⟨id, idOfAlias?_lt hid, (alias_of_idOfAlias? hid).2⟩
  · rintro ⟨id, hid, rfl⟩ hnone
    have hlt : id < t.nodes.length := hid
    have hne := List.findIdx?_eq_none_iff.1 hnone _ (List.getElem_mem hlt)
    simp [node_eq, hlt] at hne

theorem Reached.idOfAlias?_ne_none (h : Reached t u) {a : String} (ha : t.idOfAlias? a ≠ none) :
    u.idOfAlias? a ≠ none := by
  obtain ⟨id, hid, rfl⟩ := JoinTree.idOfAlias?_ne_none.1 ha
  exact JoinTree.idOfAlias?_ne_none.2 ⟨id, h.lt_size hid, h.tableAlias_eq hid⟩

mutual

theorem Reached.isNormal (h : Reached t u) (x : Condition) (hx : t.IsNormal x) : u.IsNormal x := by
  cases x with
  | compare c a names op v => exact h.idOfAlias?_ne_none hx
  | group c members => exact h.areNormal members hx
  | existence c negated f inner => exact hx.elim
  | membership c column values negated => exact h.idOfAlias?_ne_none hx
  | columns c left op right => exact ⟨h.idOfAlias?_ne_none hx.1, h.idOfAlias?_ne_none hx.2⟩
  | subquery c f inner op v => exact hx.elim
termination_by structural x

theorem Reached.areNormal (h : Reached t u) (xs : List Condition) (hxs : t.AreNormal xs) :
    u.AreNormal xs := by
  cases xs with
  | nil => trivial
  | cons x rest => exact ⟨h.isNormal x hxs.1, h.areNormal rest hxs.2⟩
termination_by structural xs

end

/-- Where relations lead from a node, if all nodes on the way are there. -/
def walk? (t : JoinTree) (start : Nat) : List String → Option Nat
  | [] => some start
  | name :: rest => ((t.node start).children.lookup name).bind fun id => t.walk? id rest

theorem child_of_lookup {p id : Nat} {name : String}
    (h : (t.node p).children.lookup name = some id) : t.child p name = (.ok id, t) := by
  simp [child, h]

theorem lookup_of_child {p id : Nat} {name : String} (h : t.child p name = (.ok id, u)) :
    (u.node p).children.lookup name = some id := by
  cases hl : (t.node p).children.lookup name with
  | some c =>
    obtain ⟨hid, rfl⟩ : c = id ∧ t = u := by simpa [child_of_lookup hl] using h
    rw [hl, hid]
  | none =>
    rcases child_eq_ok h with ⟨rfl, hmem⟩ | ⟨r, hr, -, rfl, rfl⟩
    · exact absurd (List.lookup_eq_none_iff.1 hl _ hmem) (by simp)
    · rw [node_grow_of_lt t p name r (lt_size_of_registered hr)]
      simp [List.lookup_append, hl]

theorem Reached.lookup (h : Reached t u) {p id : Nat} {name : String}
    (hl : (t.node p).children.lookup name = some id) :
    (u.node p).children.lookup name = some id := by
  have hp : p < t.size := by
    by_contra hge
    rw [node_of_size_le (Nat.le_of_not_lt hge)] at hl
    simp [Node.root] at hl
  obtain ⟨more, hmore⟩ := (h.lasts hp).children
  rw [← hmore, List.lookup_append, hl, Option.some_or]

theorem Reached.walk? (h : Reached t u) {start id : Nat} {names : List String}
    (hw : t.walk? start names = some id) : u.walk? start names = some id := by
  induction names generalizing start with
  | nil => exact hw
  | cons name rest ih =>
    obtain ⟨c, hc, hw⟩ := Option.bind_eq_some_iff.1 hw
    exact Option.bind_eq_some_iff.2 ⟨c, h.lookup hc, ih hw⟩

theorem descend_of_walk? {start id : Nat} {names : List String}
    (hw : t.walk? start names = some id) : t.descend start names = (.ok id, t) := by
  induction names generalizing start with
  | nil =>
    obtain rfl := Option.some.inj hw
    rfl
  | cons name rest ih =>
    obtain ⟨c, hc, hw⟩ := Option.bind_eq_some_iff.1 hw
    simp only [descend, child_of_lookup hc, ih hw]

theorem descend_eq_ok_cons {start id : Nat} {name : String} {rest : List String}
    (h : t.descend start (name :: rest) = (.ok id, u)) :
    ∃ c v, t.child start name = (.ok c, v) ∧ v.descend c rest = (.ok id, u) := by
  rcases hc : t.child start name with ⟨e | c, v⟩
  · simp [descend, hc] at h
  · exact ⟨c, v, rfl, by simpa only [descend, hc] using h⟩

theorem walk?_of_descend {start id : Nat} {names : List String}
    (h : t.descend start names = (.ok id, u)) : u.walk? start names = some id := by
  induction names generalizing t start with
  | nil =>
    obtain ⟨rfl, rfl⟩ : start = id ∧ t = u := by simpa [descend] using h
    rfl
  | cons name rest ih =>
    obtain ⟨c, v, hc, hrest⟩ := descend_eq_ok_cons h
    have hreached := reached_descend v c rest
    rw [hrest] at hreached
    exact Option.bind_eq_some_iff.2 ⟨c, hreached.lookup (lookup_of_child hc), ih hrest⟩

theorem descendPath_of_walk? {path : String} {start id : Nat} {names : List String}
    (hnames : ∀ name ∈ names, name ≠ "") (hw : t.walk? start names = some id) :
    t.descendPath path start names = (.ok id, t) := by
  induction names generalizing start with
  | nil =>
    obtain rfl := Option.some.inj hw
    rfl
  | cons name rest ih =>
    obtain ⟨c, hc, hw⟩ := Option.bind_eq_some_iff.1 hw
    rw [List.forall_mem_cons] at hnames
    simp only [descendPath, hnames.1, if_false, child_of_lookup hc, ih hnames.2 hw]

theorem walk?_of_descendPath {path : String} {start id : Nat} {names : List String}
    (h : t.descendPath path start names = (.ok id, u)) :
    (∀ name ∈ names, name ≠ "") ∧ u.walk? start names = some id := by
  induction names generalizing t start with
  | nil =>
    obtain ⟨rfl, rfl⟩ : start = id ∧ t = u := by simpa [descendPath] using h
    exact ⟨by simp, rfl⟩
  | cons name rest ih =>
    by_cases hname : name = ""
    · simp [descendPath, hname] at h
    · rcases hc : t.child start name with ⟨e | c, v⟩
      · simp [descendPath, hname, hc] at h
      · simp only [descendPath, hname, if_false, hc] at h
        have hreached := reached_descendPath v path c rest
        rw [h] at hreached
        obtain ⟨hnames, hw⟩ := ih h
        exact ⟨List.forall_mem_cons.2 ⟨hname, hnames⟩,
          Option.bind_eq_some_iff.2 ⟨c, hreached.lookup (lookup_of_child hc), hw⟩⟩

/-- A path that was resolved leads to the same node and attribute ever after, and adds nothing. -/
theorem resolveFrom_again {v : JoinTree} {start : Nat} {path : String} {found : Nat × String}
    (h : t.resolveFrom start path = (.ok found, u)) (hv : Reached u v) :
    v.resolveFrom start path = (.ok found, v) := by
  obtain ⟨id, name⟩ := found
  obtain ⟨hdescend, rfl⟩ := resolveFrom_eq_ok h
  have hempty := segments_of_resolveFrom h
  unfold resolveFrom
  simp [hempty, descend_of_walk? (hv.walk? (walk?_of_descend hdescend))]

theorem resolveRelations_again {v : JoinTree} {start id : Nat} {path : String}
    (h : t.resolveRelations start path = (.ok id, u)) (hv : Reached u v) :
    v.resolveRelations start path = (.ok id, v) := by
  obtain ⟨hnames, hw⟩ := walk?_of_descendPath h
  exact descendPath_of_walk? hnames (hv.walk? hw)

theorem WellFormed.lt_size_of_child (h : t.WellFormed) {p id : Nat} {name : String}
    (hc : t.child p name = (.ok id, u)) : id < u.size := by
  rcases child_eq_ok hc with ⟨rfl, hmem⟩ | ⟨r, -, -, rfl, rfl⟩
  · exact (h.child p name id hmem).2.1
  · simp

theorem WellFormed.lt_size_of_descend (h : t.WellFormed) {start id : Nat} {names : List String}
    (hstart : start < t.size) (hd : t.descend start names = (.ok id, u)) : id < u.size := by
  induction names generalizing t start with
  | nil =>
    obtain ⟨rfl, rfl⟩ : start = id ∧ t = u := by simpa [descend] using hd
    exact hstart
  | cons name rest ih =>
    obtain ⟨c, v, hc, hrest⟩ := descend_eq_ok_cons hd
    exact ih ((grown_child hc).wellFormed h) (h.lt_size_of_child hc) hrest

theorem WellFormed.lt_size_of_walk? (h : t.WellFormed) {start id : Nat} {names : List String}
    (hstart : start < t.size) (hw : t.walk? start names = some id) : id < t.size :=
  h.lt_size_of_descend hstart (descend_of_walk? hw)

end JoinTree

end PathQuery
