import Mathlib.Data.List.Nodup
import PathQuery.JoinTree
import PathQuery.Proofs.Outcome

/-!
The shape of a join tree: who is whose parent, through which relation and under which alias.
Growing adds one node below another and leaves all others in their places; marks and conditions
kept at nodes do not touch the shape.
-/

set_option autoImplicit false

namespace PathQuery

/-- A node without the conditions kept at it and without its marks. -/
def Node.bare (n : Node) : Node :=
  { n with leaves := [], selected := false, joined := false, required := false }

namespace JoinTree

theorem node_eq (t : JoinTree) (id : Nat) : t.node id = (t.nodes[id]?).getD (Node.root none) := by
  simp [node]

theorem node_of_size_le {t : JoinTree} {id : Nat} (h : t.size ≤ id) :
    t.node id = Node.root none := by
  rw [node_eq, List.getElem?_eq_none h]
  rfl

@[simp] theorem size_modifyNode (t : JoinTree) (id : Nat) (f : Node → Node) :
    (t.modifyNode id f).size = t.size := by
  simp [modifyNode, size]

@[simp] theorem size_modifyAll (t : JoinTree) (ids : List Nat) (f : Node → Node) :
    (t.modifyAll ids f).size = t.size := by
  simp [modifyAll, size]

theorem node_modifyNode (t : JoinTree) (id : Nat) (f : Node → Node) (j : Nat) :
    (t.modifyNode id f).node j = if j = id ∧ id < t.size then f (t.node j) else t.node j := by
  rw [node_eq, node_eq]
  by_cases hj : j = id
  · subst hj
    by_cases hlt : j < t.nodes.length
    · simp [modifyNode, size, hlt]
    · simp [modifyNode, size, hlt]
  · simp [modifyNode, hj, Ne.symm hj]

theorem node_modifyAll (t : JoinTree) (ids : List Nat) (f : Node → Node) (j : Nat) :
    (t.modifyAll ids f).node j = if j ∈ ids ∧ j < t.size then f (t.node j) else t.node j := by
  rw [node_eq, node_eq]
  by_cases hlt : j < t.nodes.length
  · by_cases hmem : j ∈ ids
    · simp [modifyAll, size, hlt, hmem]
    · simp [modifyAll, hlt, hmem]
  · simp [modifyAll, size, hlt]

@[simp] theorem size_grow (t : JoinTree) (p : Nat) (name : String) (r : Relation) :
    (t.grow p name r).size = t.size + 1 := by
  simp [grow, modifyNode, size]

def sprout (t : JoinTree) (p : Nat) (name : String) (r : Relation) : Node :=
  { relation := some r, model := some r.linked.model, tableAlias := t.childAlias p name
    depth := (t.node p).depth + 1, parent := some p, children := [], leaves := []
    selected := false, joined := false, required := false }

theorem node_grow_size (t : JoinTree) (p : Nat) (name : String) (r : Relation) :
    (t.grow p name r).node t.size = t.sprout p name r := by
  rw [node_eq]
  simp [grow, modifyNode, size, sprout]

theorem node_grow_of_lt (t : JoinTree) (p : Nat) (name : String) (r : Relation) {j : Nat}
    (hj : j < t.size) : (t.grow p name r).node j =
      if j = p then { t.node j with children := (t.node j).children ++ [(name, t.size)] }
      else t.node j := by
  have hlt : j < t.nodes.length := hj
  rw [node_eq, node_eq]
  by_cases hp : j = p
  · subst hp
    simp [grow, modifyNode, size, List.getElem?_append_left, hlt]
  · simp [grow, modifyNode, size, List.getElem?_append_left, hlt, hp, Ne.symm hp]

theorem node_grow_ne_size (t : JoinTree) (p : Nat) (name : String) (r : Relation) {j : Nat}
    (hj : j ≠ t.size) : (t.grow p name r).node j =
      { t.node j with
        children :=
          (t.node j).children ++ if j = p ∧ p < t.size then [(name, t.size)] else [] } := by
  by_cases hlt : j < t.size
  · rw [node_grow_of_lt t p name r hlt]
    by_cases hp : j = p
    · simp [hp, hp ▸ hlt]
    · simp [hp]
  · rw [node_of_size_le (t := t) (by omega),
      node_of_size_le (by rw [size_grow]; omega)]
    have hno : ¬ (j = p ∧ p < t.size) := by omega
    simp [hno]

theorem lt_size_of_model? {t : JoinTree} {id : Nat} {m : Model} (h : t.model? id = some m) :
    id < t.size := by
  by_contra hge
  rw [model?, node_of_size_le (by omega)] at h
  cases hs : t.schema with
  | none => simp [hs] at h
  | some s => simp [hs, Node.root] at h

theorem model?_of_model_eq {t t' : JoinTree} {id : Nat} (hs : t'.schema = t.schema)
    (hm : (t'.node id).model = (t.node id).model) : t'.model? id = t.model? id := by
  rw [model?, model?, hs, hm]

/-- Two trees with the same nodes but for conditions kept at them and marks. -/
structure SameShape (t t' : JoinTree) : Prop where
  schema : t'.schema = t.schema
  rootTable : t'.rootTable = t.rootTable
  size : t'.size = t.size
  bare : ∀ id, (t'.node id).bare = (t.node id).bare

namespace SameShape

variable {t t' : JoinTree} (h : SameShape t t')

include h

theorem relation (id : Nat) : (t'.node id).relation = (t.node id).relation :=
  (congrArg Node.relation (h.bare id) :)

theorem model (id : Nat) : (t'.node id).model = (t.node id).model :=
  (congrArg Node.model (h.bare id) :)

theorem tableAlias (id : Nat) : (t'.node id).tableAlias = (t.node id).tableAlias :=
  (congrArg Node.tableAlias (h.bare id) :)

theorem depth (id : Nat) : (t'.node id).depth = (t.node id).depth :=
  (congrArg Node.depth (h.bare id) :)

theorem parent (id : Nat) : (t'.node id).parent = (t.node id).parent :=
  (congrArg Node.parent (h.bare id) :)

theorem children (id : Nat) : (t'.node id).children = (t.node id).children :=
  (congrArg Node.children (h.bare id) :)

theorem model? (id : Nat) : t'.model? id = t.model? id :=
  model?_of_model_eq h.schema (h.model id)

theorem childAlias (p : Nat) (name : String) : t'.childAlias p name = t.childAlias p name := by
  rw [JoinTree.childAlias, JoinTree.childAlias, h.tableAlias]

end SameShape

theorem sameShape_modifyNode (t : JoinTree) (id : Nat) {f : Node → Node}
    (hf : ∀ n, (f n).bare = n.bare) : SameShape t (t.modifyNode id f) where
  schema := rfl
  rootTable := rfl
  size := size_modifyNode t id f
  bare j := by
    rw [node_modifyNode]
    split
    · exact hf _
    · rfl

theorem sameShape_modifyAll (t : JoinTree) (ids : List Nat) {f : Node → Node}
    (hf : ∀ n, (f n).bare = n.bare) : SameShape t (t.modifyAll ids f) where
  schema := rfl
  rootTable := rfl
  size := size_modifyAll t ids f
  bare j := by
    rw [node_modifyAll]
    split
    · exact hf _
    · rfl

theorem SameShape.trans {t u v : JoinTree} (h : SameShape t u) (h' : SameShape u v) :
    SameShape t v where
  schema := h'.schema.trans h.schema
  rootTable := h'.rootTable.trans h.rootTable
  size := h'.size.trans h.size
  bare id := (h'.bare id).trans (h.bare id)

theorem SameShape.symm {t u : JoinTree} (h : SameShape t u) : SameShape u t where
  schema := h.schema.symm
  rootTable := h.rootTable.symm
  size := h.size.symm
  bare id := (h.bare id).symm

theorem sameShape_attach (t : JoinTree) (id : Nat) (leaf : Condition) :
    SameShape t (t.attach id leaf) :=
  sameShape_modifyNode t id fun _ => rfl

theorem sameShape_joinPath (t : JoinTree) (id : Nat) : SameShape t (t.joinPath id) :=
  sameShape_modifyAll t _ fun _ => rfl

theorem sameShape_require (t : JoinTree) (id : Nat) : SameShape t (t.require id) :=
  sameShape_modifyAll t _ fun _ => rfl

theorem sameShape_select (t : JoinTree) (id : Nat) : SameShape t (t.select id) := by
  have h := sameShape_modifyNode t id (f := fun n => { n with selected := true }) fun _ => rfl
  exact h.trans (sameShape_joinPath _ id)

/-- The relation `r` leads from the node `p` to the node `id`. -/
structure Edge (t : JoinTree) (p id : Nat) (r : Relation) : Prop where
  lt : p < id
  parent : (t.node id).parent = some p
  relation : (t.node id).relation = some r
  registered : (t.model? p).bind (·.relation? r.name) = some r
  model : (t.node id).model = some r.linked.model
  tableAlias : (t.node id).tableAlias = t.childAlias p r.name
  depth : (t.node id).depth = (t.node p).depth + 1
  listed : (r.name, id) ∈ (t.node p).children

/-- Node 0 is the only root, and every other node hangs below one with a smaller number, by a
relation of that node's model. -/
structure WellFormed (t : JoinTree) : Prop where
  nonempty : 0 < t.size
  rootRelation : (t.node rootId).relation = none
  rootParent : (t.node rootId).parent = none
  rootAliased : (t.node rootId).tableAlias = rootAlias
  edge : ∀ id, 0 < id → id < t.size → ∃ p r, t.Edge p id r
  child : ∀ p name c, (name, c) ∈ (t.node p).children →
    0 < c ∧ c < t.size ∧ (t.node c).parent = some p ∧
      (t.node c).relation.map Relation.name = some name
  distinct : ∀ p, ((t.node p).children.map Prod.fst).Nodup

theorem SameShape.edge {t t' : JoinTree} (h : SameShape t t') {p id : Nat} {r : Relation}
    (e : t.Edge p id r) : t'.Edge p id r where
  lt := e.lt
  parent := (h.parent _).trans e.parent
  relation := (h.relation _).trans e.relation
  registered := by
    rw [h.model?]
    exact e.registered
  model := (h.model _).trans e.model
  tableAlias := by
    rw [h.tableAlias, h.childAlias]
    exact e.tableAlias
  depth := by
    rw [h.depth, h.depth]
    exact e.depth
  listed := by
    rw [h.children]
    exact e.listed

theorem WellFormed.of_sameShape {t t' : JoinTree} (hs : SameShape t t') (h : t.WellFormed) :
    t'.WellFormed where
  nonempty := by
    rw [hs.size]
    exact h.nonempty
  rootRelation := (hs.relation _).trans h.rootRelation
  rootParent := (hs.parent _).trans h.rootParent
  rootAliased := (hs.tableAlias _).trans h.rootAliased
  edge id hpos hlt := by
    rw [hs.size] at hlt
    obtain ⟨p, r, e⟩ := h.edge id hpos hlt
    exact ⟨p, r, hs.edge e⟩
  child p name c hc := by
    rw [hs.children] at hc
    rw [hs.size, hs.parent, hs.relation]
    exact h.child p name c hc
  distinct p := by
    rw [hs.children]
    exact h.distinct p

theorem wellFormed_single {t : JoinTree} {model : Option String}
    (h : t.nodes = [Node.root model]) : t.WellFormed := by
  have hroot : t.node rootId = Node.root model := by simp [node_eq, h, rootId]
  have hsize : t.size = 1 := by simp [size, h]
  have hchildren : ∀ p, (t.node p).children = [] := by
    intro p
    by_cases hp : p < 1
    · obtain rfl : p = 0 := by omega
      exact congrArg Node.children hroot
    · rw [node_of_size_le (by omega)]
      rfl
  exact {
    nonempty := by omega
    rootRelation := by rw [hroot, Node.root]
    rootParent := by rw [hroot, Node.root]
    rootAliased := by rw [hroot, Node.root]
    edge := fun id hpos hlt => by omega
    child := fun p name c hc => by simp [hchildren] at hc
    distinct := fun p => by simp [hchildren] }

theorem wellFormed_ofTable (table : Table) : (ofTable table).WellFormed :=
  wellFormed_single rfl

theorem wellFormed_ofModel {s : Schema} {name : String} {t : JoinTree}
    (h : ofModel s name = .ok t) : t.WellFormed := by
  obtain ⟨m, _, rfl⟩ := map_eq_ok_iff.1 h
  exact wellFormed_single rfl

theorem name_of_relation? {m : Model} {name : String} {r : Relation}
    (h : m.relation? name = some r) : r.name = name := by
  have := List.find?_some h
  simpa using this

theorem model?_grow_of_lt (t : JoinTree) (p : Nat) (name : String) (r : Relation) {id : Nat}
    (hid : id < t.size) : (t.grow p name r).model? id = t.model? id := by
  refine model?_of_model_eq (t := t) rfl ?_
  rw [node_grow_ne_size t p name r (by omega)]

theorem childAlias_grow_of_lt (t : JoinTree) (p : Nat) (name : String) (r : Relation) {id : Nat}
    (hid : id < t.size) (name' : String) :
    (t.grow p name r).childAlias id name' = t.childAlias id name' := by
  rw [childAlias, childAlias, node_grow_ne_size t p name r (by omega)]

section Grow

variable {t : JoinTree} {p : Nat} {name : String} {r : Relation} (h : t.WellFormed)
  (hr : (t.model? p).bind (·.relation? name) = some r)

include hr

theorem lt_size_of_registered : p < t.size := by
  obtain ⟨m, hm, _⟩ := Option.bind_eq_some_iff.1 hr
  exact lt_size_of_model? hm

theorem edge_grow_size : (t.grow p name r).Edge p t.size r := by
  have hp := lt_size_of_registered hr
  obtain ⟨m, hm, hrel⟩ := Option.bind_eq_some_iff.1 hr
  obtain rfl := name_of_relation? hrel
  have hnew := node_grow_size t p r.name r
  have hold := node_grow_of_lt t p r.name r hp
  exact {
    lt := hp
    parent := by rw [hnew, sprout]
    relation := by rw [hnew, sprout]
    registered := by rw [model?_grow_of_lt t p _ r hp, hr]
    model := by rw [hnew, sprout]
    tableAlias := by rw [hnew, sprout, childAlias_grow_of_lt t p _ r hp]
    depth := by
      rw [hnew, hold]
      simp [sprout]
    listed := by
      rw [hold]
      simp }

omit hr in
theorem Edge.grow {p' id : Nat} {r' : Relation} (e : t.Edge p' id r') (hid : id < t.size) :
    (t.grow p name r).Edge p' id r' := by
  have hp' : p' < t.size := Nat.lt_trans e.lt hid
  have hnode := node_grow_ne_size t p name r (j := id) (by omega)
  have hparent := node_grow_ne_size t p name r (j := p') (by omega)
  exact {
    lt := e.lt
    parent := by rw [hnode, e.parent]
    relation := by rw [hnode, e.relation]
    registered := by rw [model?_grow_of_lt t p name r hp', e.registered]
    model := by rw [hnode, e.model]
    tableAlias := by rw [hnode, childAlias_grow_of_lt t p name r hp', e.tableAlias]
    depth := by rw [hnode, hparent, e.depth]
    listed := by
      rw [hparent]
      exact List.mem_append_left _ e.listed }

include h

theorem WellFormed.grow (hfree : ∀ c, (name, c) ∉ (t.node p).children) :
    (t.grow p name r).WellFormed := by
  have hp := lt_size_of_registered hr
  obtain ⟨m, hm, hrel⟩ := Option.bind_eq_some_iff.1 hr
  have hname := name_of_relation? hrel
  have hroot := node_grow_ne_size t p name r (j := rootId)
    (by have := h.nonempty; simp only [rootId]; omega)
  have hold : ∀ q, q ≠ t.size → (((t.grow p name r).node q).children =
      (t.node q).children ++ if q = p ∧ p < t.size then [(name, t.size)] else []) := by
    intro q hq
    rw [node_grow_ne_size t p name r hq]
  have hlast : ((t.grow p name r).node t.size).children = [] := by
    rw [node_grow_size, sprout]
  refine {
    nonempty := by simp
    rootRelation := by rw [hroot, h.rootRelation]
    rootParent := by rw [hroot, h.rootParent]
    rootAliased := by rw [hroot, h.rootAliased]
    edge := ?edge
    child := ?child
    distinct := ?distinct }
  case edge =>
    intro id hpos hlt
    rw [size_grow] at hlt
    by_cases hid : id = t.size
    · subst hid
      exact ⟨p, r, edge_grow_size hr⟩
    · obtain ⟨p', r', e⟩ := h.edge id hpos (by omega)
      exact ⟨p', r', e.grow (by omega)⟩
  case child =>
    intro q name' c hc
    by_cases hq : q = t.size
    · rw [hq, hlast] at hc
      simp at hc
    · rw [hold q hq, List.mem_append] at hc
      rcases hc with hc | hc
      · obtain ⟨hpos, hlt, hparent, hrelation⟩ := h.child q name' c hc
        rw [size_grow, node_grow_ne_size t p name r (by omega)]
        exact ⟨hpos, by omega, hparent, hrelation⟩
      · by_cases hqp : q = p
        · obtain ⟨rfl, rfl⟩ : name' = name ∧ c = t.size := by simpa [hqp, hp] using hc
          rw [size_grow, node_grow_size]
          exact ⟨by omega, by omega, by rw [hqp, sprout], by simp [sprout, hname]⟩
        · simp [hqp] at hc
  case distinct =>
    intro q
    by_cases hq : q = t.size
    · rw [hq, hlast]
      simp
    · rw [hold q hq, List.map_append, List.nodup_append]
      refine ⟨h.distinct q, by split <;> simp, ?_⟩
      intro a ha b hb hab
      by_cases hqp : q = p
      · obtain rfl : b = name := by simpa [hqp, hp] using hb
        obtain ⟨⟨_, c⟩, hc, rfl⟩ := List.mem_map.1 ha
        simp only at hab
        exact hfree c (by rw [← hqp, ← hab]; exact hc)
      · simp [hqp] at hb

end Grow

theorem child_eq_ok {t t' : JoinTree} {p id : Nat} {name : String}
    (h : t.child p name = (.ok id, t')) :
    (t' = t ∧ (name, id) ∈ (t.node p).children) ∨
      ∃ r, (t.model? p).bind (·.relation? name) = some r ∧
        (∀ c, (name, c) ∉ (t.node p).children) ∧ id = t.size ∧ t' = t.grow p name r := by
  cases hl : (t.node p).children.lookup name with
  | some c =>
    simp [child, hl] at h
    obtain ⟨rfl, rfl⟩ := h
    exact .inl ⟨rfl, List.lookup_eq_some_iff.1 hl |>.elim fun l₁ ⟨l₂, he, _⟩ => by simp [he]⟩
  | none =>
    cases hm : t.model? p with
    | none => simp [child, hl, hm] at h
    | some m =>
      cases hr : m.relation? name with
      | none => simp [child, hl, hm, hr] at h
      | some r =>
        simp [child, hl, hm, hr] at h
        obtain ⟨rfl, rfl⟩ := h
        refine .inr ⟨r, by simpa using hr, fun c hc => ?_, rfl, rfl⟩
        have hne := List.lookup_eq_none_iff.1 hl (name, c) hc
        simp at hne

theorem WellFormed.edge_of_child {t : JoinTree} {p c : Nat} {name : String} (h : t.WellFormed)
    (hc : (name, c) ∈ (t.node p).children) : ∃ r, t.Edge p c r ∧ r.name = name := by
  obtain ⟨hpos, hlt, hparent, hname⟩ := h.child p name c hc
  obtain ⟨p', r, e⟩ := h.edge c hpos hlt
  obtain rfl : p' = p := by simpa [e.parent] using hparent
  exact ⟨r, e, by simpa [e.relation] using hname⟩

/-- A tree that grew out of another one, or only got marks and conditions. -/
structure Grown (t u : JoinTree) : Prop where
  wellFormed : t.WellFormed → u.WellFormed
  schema : u.schema = t.schema
  size_le : t.size ≤ u.size
  model? : ∀ id, id < t.size → u.model? id = t.model? id

theorem Grown.refl (t : JoinTree) : Grown t t where
  wellFormed := id
  schema := rfl
  size_le := Nat.le_refl _
  model? _ _ := rfl

theorem Grown.trans {t u v : JoinTree} (h : Grown t u) (h' : Grown u v) : Grown t v where
  wellFormed := h'.wellFormed ∘ h.wellFormed
  schema := h'.schema.trans h.schema
  size_le := Nat.le_trans h.size_le h'.size_le
  model? id hid := (h'.model? id (Nat.lt_of_lt_of_le hid h.size_le)).trans (h.model? id hid)

theorem SameShape.grown {t u : JoinTree} (h : SameShape t u) : Grown t u where
  wellFormed := WellFormed.of_sameShape h
  schema := h.schema
  size_le := Nat.le_of_eq h.size.symm
  model? id _ := h.model? id

theorem grown_child {t u : JoinTree} {p id : Nat} {name : String}
    (h : t.child p name = (.ok id, u)) : Grown t u := by
  rcases child_eq_ok h with ⟨rfl, _⟩ | ⟨r, hr, hfree, rfl, rfl⟩
  · exact .refl _
  · exact {
      wellFormed := fun ht => ht.grow hr hfree
      schema := rfl
      size_le := by simp
      model? := fun j hj => model?_grow_of_lt t p name r hj }

theorem child_error {t : JoinTree} {p : Nat} {name : String} {e : Error}
    (h : (t.child p name).1 = .error e) : (t.child p name).2 = t := by
  unfold child at h ⊢
  split
  · rfl
  · next hl =>
    simp only [hl] at h
    split
    · rfl
    · next m hm =>
      simp only [hm] at h
      split
      · rfl
      · next r hr => simp [hr] at h

theorem grown_of_child (t : JoinTree) (p : Nat) (name : String) : Grown t (t.child p name).2 := by
  rcases hc : t.child p name with ⟨e | id, v⟩
  · have hfirst : (t.child p name).1 = .error e := by rw [hc]
    have hv := child_error hfirst
    rw [hc] at hv
    rw [show v = t from hv]
    exact .refl t
  · exact grown_child hc

section Paths

variable {P : JoinTree → JoinTree → Prop} (refl : ∀ t, P t t)
  (trans : ∀ {t u v}, P t u → P u v → P t v) (child : ∀ t p name, P t (t.child p name).2)

include refl trans child

/-- A path is found child by child, also where it ends in a failure. -/
theorem descend_of_child (t : JoinTree) (start : Nat) (names : List String) :
    P t (t.descend start names).2 := by
  induction names generalizing t start with
  | nil => exact refl t
  | cons name rest ih =>
    have hchild := child t start name
    rcases hc : t.child start name with ⟨e | id, v⟩
    · rw [hc] at hchild
      simpa [descend, hc] using hchild
    · rw [hc] at hchild
      simpa [descend, hc] using trans hchild (ih v id)

theorem descendPath_of_child (t : JoinTree) (path : String) (start : Nat) (names : List String) :
    P t (t.descendPath path start names).2 := by
  induction names generalizing t start with
  | nil => exact refl t
  | cons name rest ih =>
    by_cases hname : name = ""
    · simpa [descendPath, hname] using refl t
    · have hchild := child t start name
      rcases hc : t.child start name with ⟨e | id, v⟩
      · rw [hc] at hchild
        simpa [descendPath, hname, hc] using hchild
      · rw [hc] at hchild
        simpa [descendPath, hname, hc] using trans hchild (ih v id)

end Paths

theorem grown_descend {t u : JoinTree} {start id : Nat} {names : List String}
    (h : t.descend start names = (.ok id, u)) : Grown t u := by
  have hgrown := descend_of_child .refl .trans grown_of_child t start names
  rwa [h] at hgrown

theorem grown_descendPath {t u : JoinTree} {path : String} {start id : Nat} {names : List String}
    (h : t.descendPath path start names = (.ok id, u)) : Grown t u := by
  have hgrown := descendPath_of_child .refl .trans grown_of_child t path start names
  rwa [h] at hgrown

theorem resolveFrom_eq_ok {t u : JoinTree} {start id : Nat} {path name : String}
    (h : t.resolveFrom start path = (.ok (id, name), u)) :
    t.descend start (segments path).dropLast = (.ok id, u) ∧
      name = (segments path).getLastD "" := by
  unfold resolveFrom at h
  simp only at h
  split at h
  · simp at h
  · rcases hd : t.descend start (segments path).dropLast with ⟨e | c, v⟩
    · simp [hd] at h
    · simp only [hd, Prod.mk.injEq, Except.ok.injEq] at h
      obtain ⟨⟨rfl, rfl⟩, rfl⟩ := h
      exact ⟨rfl, rfl⟩

theorem segments_of_resolveFrom {t u : JoinTree} {start : Nat} {path : String} {p : Nat × String}
    (h : t.resolveFrom start path = (.ok p, u)) : (segments path).any (· == "") = false := by
  unfold resolveFrom at h
  dsimp only at h
  split at h
  · simp at h
  · next hany => exact Bool.eq_false_iff.2 hany

end JoinTree

def Schema.follow (s : Schema) (m : Model) (name : String) : Option Model :=
  (m.relation? name).bind fun r => s.model? r.linked.model

namespace JoinTree

theorem Edge.model?_eq {t : JoinTree} {p id : Nat} {r : Relation} (e : t.Edge p id r) {s : Schema}
    (hs : t.schema = some s) : t.model? id = (t.model? p).bind (s.follow · r.name) := by
  obtain ⟨m, hm, hr⟩ := Option.bind_eq_some_iff.1 e.registered
  rw [hm]
  simp [model?, hs, e.model, Schema.follow, hr]

theorem model?_child {t u : JoinTree} {p id : Nat} {name : String} {s : Schema}
    (ht : t.WellFormed) (hs : t.schema = some s) (h : t.child p name = (.ok id, u)) :
    u.model? id = (t.model? p).bind (s.follow · name) := by
  rcases child_eq_ok h with ⟨rfl, hc⟩ | ⟨r, hr, hfree, rfl, rfl⟩
  · obtain ⟨r, e, rfl⟩ := ht.edge_of_child hc
    exact e.model?_eq hs
  · obtain ⟨m, _, hrel⟩ := Option.bind_eq_some_iff.1 hr
    have hp := lt_size_of_registered hr
    obtain rfl := name_of_relation? hrel
    rw [(edge_grow_size hr).model?_eq hs, model?_grow_of_lt t p r.name r hp]

theorem model?_descend {t u : JoinTree} {start id : Nat} {names : List String} {s : Schema}
    (ht : t.WellFormed) (hs : t.schema = some s) (h : t.descend start names = (.ok id, u)) :
    u.model? id = (t.model? start).bind fun m => names.foldlM s.follow m := by
  induction names generalizing t start with
  | nil =>
    obtain ⟨rfl, rfl⟩ : start = id ∧ t = u := by simpa [descend] using h
    simp
  | cons name rest ih =>
    rcases hc : t.child start name with ⟨e | c, v⟩
    · simp [descend, hc] at h
    · simp only [descend, hc] at h
      have hv := grown_child hc
      rw [ih (hv.wellFormed ht) (hv.schema.trans hs) h, model?_child ht hs hc, Option.bind_assoc]
      rfl

end JoinTree

end PathQuery
