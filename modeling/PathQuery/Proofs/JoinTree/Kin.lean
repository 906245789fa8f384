import PathQuery.Proofs.JoinTree.Marks

/-!
Two trees of one model. Nodes are numbered in the order in which paths find them, so two statements
about one model may number them differently; a node is known in the other tree by its alias. What
hangs on the way to a node does not depend on the tree: its relation, its model, its table, and the
first relation to many.
-/

set_option autoImplicit false

namespace PathQuery.JoinTree

variable {s : Schema} {t u : JoinTree} {i j a b : Nat}

/-- Trees below the same root in the same schema. -/
structure Kin (s : Schema) (t u : JoinTree) : Prop where
  left : t.WellFormed
  right : u.WellFormed
  schemaLeft : t.schema = some s
  schemaRight : u.schema = some s
  names : s.UndottedNames
  rootModel : (t.node rootId).model = (u.node rootId).model
  rootTable : t.rootTable = u.rootTable

structure Twin (t u : JoinTree) (i j : Nat) : Prop where
  left : i < t.size
  right : j < u.size
  tableAlias : (t.node i).tableAlias = (u.node j).tableAlias

theorem Twin.symm (h : Twin t u i j) : Twin u t j i :=
  ⟨h.right, h.left, h.tableAlias.symm⟩

theorem twin_of_idOfAlias? {c : String} (h : t.idOfAlias? c = some i)
    (h' : u.idOfAlias? c = some j) : Twin t u i j where
  left := idOfAlias?_lt h
  right := idOfAlias?_lt h'
  tableAlias := (alias_of_idOfAlias? h).2.trans (alias_of_idOfAlias? h').2.symm

theorem rel_bind {α β γ δ : Type} {R : α → β → Prop} {S : γ → δ → Prop} {x : Option α}
    {y : Option β} {f : α → Option γ} {g : β → Option δ} (h : Option.Rel R x y)
    (hfg : ∀ a b, R a b → Option.Rel S (f a) (g b)) : Option.Rel S (x.bind f) (y.bind g) := by
  cases h with
  | none => exact .none
  | some hab => exact hfg _ _ hab

theorem rel_find? {α β : Type} {R : α → β → Prop} {f : α → Bool} {g : β → Bool} {xs : List α}
    {ys : List β} (h : List.Forall₂ R xs ys) (hfg : ∀ a b, R a b → f a = g b) :
    Option.Rel R (xs.find? f) (ys.find? g) := by
  induction h with
  | nil => exact .none
  | cons hab _ ih =>
    rw [List.find?_cons, List.find?_cons, hfg _ _ hab]
    split
    · exact .some hab
    · exact ih

namespace Kin

variable (k : Kin s t u)

include k

theorem symm : Kin s u t :=
  ⟨k.right, k.left, k.schemaRight, k.schemaLeft, k.names, k.rootModel.symm, k.rootTable.symm⟩

theorem root : Twin t u rootId rootId :=
  ⟨k.left.nonempty, k.right.nonempty, k.left.rootAliased.trans k.right.rootAliased.symm⟩

theorem right_unique (h : Twin t u i j) (h' : Twin t u i b) : j = b :=
  k.right.alias_injective k.schemaRight k.names h.right h'.right
    (h.tableAlias.symm.trans h'.tableAlias)

theorem left_unique (h : Twin t u i j) (h' : Twin t u a j) : i = a :=
  k.symm.right_unique h.symm h'.symm

theorem eq_iff (h : Twin t u i j) (h' : Twin t u a b) : i = a ↔ j = b := by
  constructor
  · rintro rfl
    exact k.right_unique h h'
  · rintro rfl
    exact k.left_unique h h'

/-- The parents of twins are twins as well, and the relations have one name. -/
theorem exists_parents (h : Twin t u i j) (hi : i ≠ rootId) :
    ∃ p q r r', t.Edge p i r ∧ u.Edge q j r' ∧ r.name = r'.name ∧ Twin t u p q := by
  have hj : j ≠ rootId := fun hj => hi ((k.eq_iff h k.root).2 hj)
  obtain ⟨p, r, e⟩ := k.left.edge i (Nat.pos_of_ne_zero hi) h.left
  obtain ⟨q, r', e'⟩ := k.right.edge j (Nat.pos_of_ne_zero hj) h.right
  obtain ⟨hname, hparents⟩ := e.eq_of_alias e' (e.undottedName k.schemaLeft k.names)
    (e'.undottedName k.schemaRight k.names) h.tableAlias
  refine ⟨p, q, r, r', e, e', hname, Nat.lt_trans e.lt h.left, Nat.lt_trans e'.lt h.right, ?_⟩
  rcases hparents with ⟨hp, hq⟩ | ⟨-, -, halias⟩
  · rw [hp, hq]
    exact k.root.tableAlias
  · exact halias

theorem model?_of_model (h : (t.node i).model = (u.node j).model) : t.model? i = u.model? j := by
  simp only [model?, k.schemaLeft, k.schemaRight, h]

theorem model_eq (h : Twin t u i j) : (t.node i).model = (u.node j).model := by
  induction i using Nat.strongRecOn generalizing j with
  | ind i ih =>
    by_cases hi : i = rootId
    · rw [hi, (k.eq_iff h k.root).1 hi]
      exact k.rootModel
    · obtain ⟨p, q, r, r', e, e', hname, hparents⟩ := k.exists_parents h hi
      have hregistered := e.registered
      rw [k.model?_of_model (ih p e.lt hparents), hname, e'.registered] at hregistered
      obtain rfl := Option.some.inj hregistered
      rw [e.model, e'.model]

theorem model?_eq (h : Twin t u i j) : t.model? i = u.model? j :=
  k.model?_of_model (k.model_eq h)

theorem table_eq (h : Twin t u i j) : t.table i = u.table j := by
  rw [table, table, k.model?_eq h, k.rootTable]

theorem edges (h : Twin t u i j) (hi : i ≠ rootId) :
    ∃ p q r, t.Edge p i r ∧ u.Edge q j r ∧ Twin t u p q := by
  obtain ⟨p, q, r, r', e, e', hname, hparents⟩ := k.exists_parents h hi
  have hregistered := e.registered
  rw [k.model?_eq hparents, hname, e'.registered] at hregistered
  obtain rfl := Option.some.inj hregistered
  exact ⟨p, q, r', e, e', hparents⟩

theorem relation_eq (h : Twin t u i j) : (t.node i).relation = (u.node j).relation := by
  by_cases hi : i = rootId
  · rw [hi, (k.eq_iff h k.root).1 hi, k.left.rootRelation, k.right.rootRelation]
  · obtain ⟨p, q, r, e, e', -⟩ := k.edges h hi
    rw [e.relation, e'.relation]

theorem isToMany_eq (h : Twin t u i j) : (t.node i).isToMany = (u.node j).isToMany := by
  rw [Node.isToMany, Node.isToMany, k.relation_eq h]

theorem joinsFor_eq (h : Twin t u i j) (kind : JoinKind) :
    t.joinsFor i kind = u.joinsFor j kind := by
  by_cases hi : i = rootId
  · rw [joinsFor, joinsFor, hi, (k.eq_iff h k.root).1 hi, k.left.rootRelation,
      k.right.rootRelation]
  · obtain ⟨p, q, r, e, e', hparents⟩ := k.edges h hi
    rw [joinsFor_of_edge e, joinsFor_of_edge e', hparents.tableAlias, h.tableAlias]

theorem twin_of_edges {p q : Nat} {r r' : Relation} (h : Twin t u p q) (e : t.Edge p i r)
    (e' : u.Edge q j r') (hi : i < t.size) (hj : j < u.size) (hname : r.name = r'.name) :
    Twin t u i j where
  left := hi
  right := hj
  tableAlias := by
    rw [e.alias_eq, e'.alias_eq, hname, h.tableAlias]
    simp only [k.eq_iff h k.root]

theorem child (h : Twin t u i j) {name : String}
    (ha : (t.node i).children.lookup name = some a)
    (hb : (u.node j).children.lookup name = some b) : Twin t u a b := by
  have hmem : ∀ {entries : List (String × Nat)} {c : Nat}, entries.lookup name = some c →
      (name, c) ∈ entries := by
    intro entries c hc
    obtain ⟨before, after, rfl, -⟩ := List.lookup_eq_some_iff.1 hc
    simp
  obtain ⟨r, e, hr⟩ := k.left.edge_of_child (hmem ha)
  obtain ⟨r', e', hr'⟩ := k.right.edge_of_child (hmem hb)
  exact k.twin_of_edges h e e' (k.left.child _ _ _ (hmem ha)).2.1
    (k.right.child _ _ _ (hmem hb)).2.1 (hr.trans hr'.symm)

theorem walk? (h : Twin t u i j) {names : List String} (ha : t.walk? i names = some a)
    (hb : u.walk? j names = some b) : Twin t u a b := by
  induction names generalizing i j with
  | nil =>
    obtain rfl := Option.some.inj ha
    obtain rfl := Option.some.inj hb
    exact h
  | cons name rest ih =>
    obtain ⟨c, hc, ha⟩ := Option.bind_eq_some_iff.1 ha
    obtain ⟨d, hd, hb⟩ := Option.bind_eq_some_iff.1 hb
    exact ih (k.child h hc hd) ha hb

theorem resolveFrom (h : Twin t u i j) {path : String} {p q : Nat × String}
    (hp : t.resolveFrom i path = (.ok p, t)) (hq : u.resolveFrom j path = (.ok q, u)) :
    Twin t u p.1 q.1 ∧ p.2 = q.2 := by
  obtain ⟨hp, hpname⟩ := resolveFrom_eq_ok hp
  obtain ⟨hq, hqname⟩ := resolveFrom_eq_ok hq
  exact ⟨k.walk? h (walk?_of_descend hp) (walk?_of_descend hq), hpname.trans hqname.symm⟩

theorem lineage (h : Twin t u i j) : List.Forall₂ (Twin t u) (t.lineage i) (u.lineage j) := by
  induction i using Nat.strongRecOn generalizing j with
  | ind i ih =>
    by_cases hi : i = rootId
    · have hj := (k.eq_iff h k.root).1 hi
      rw [JoinTree.lineage, JoinTree.lineage, hi, hj, k.left.rootParent, k.right.rootParent]
      exact .cons k.root .nil
    · obtain ⟨p, q, r, e, e', hparents⟩ := k.edges h hi
      rw [lineage_of_parent e.parent e.lt, lineage_of_parent e'.parent e'.lt]
      exact .cons h (ih p e.lt hparents)

/-- From twins to twins the ways go through twins, if one is above the other at all. -/
theorem pathBetween? (h : Twin t u i j) (h' : Twin t u a b) :
    Option.Rel (List.Forall₂ (Twin t u)) (t.pathBetween? i a) (u.pathBetween? j b) := by
  induction a using Nat.strongRecOn generalizing b with
  | ind a ih =>
    by_cases hai : a = i
    · rw [hai, (k.eq_iff h' h).1 hai, pathBetween?_self, pathBetween?_self]
      exact .some .nil
    · have hbj : b ≠ j := fun hbj => hai ((k.eq_iff h' h).2 hbj)
      by_cases ha : a = rootId
      · rw [JoinTree.pathBetween?, JoinTree.pathBetween?, if_neg hai, if_neg hbj, ha,
          (k.eq_iff h' k.root).1 ha, k.left.rootParent, k.right.rootParent]
        exact .none
      · obtain ⟨p, q, r, e, e', hparents⟩ := k.edges h' ha
        rw [pathBetween?_of_parent hai e.parent e.lt, pathBetween?_of_parent hbj e'.parent e'.lt]
        rw [Option.map_eq_bind, Option.map_eq_bind]
        exact rel_bind (ih p e.lt hparents) fun way way' hway =>
          .some (List.rel_append hway (.cons h' .nil))

theorem anchor? (h : Twin t u i j) (h' : Twin t u a b) :
    Option.Rel (Twin t u) (t.anchor? i a) (u.anchor? j b) :=
  rel_bind (k.pathBetween? h h') fun _ _ hway => rel_find? hway fun _ _ hnode => k.isToMany_eq hnode

end Kin

theorem Kin.of_sameShape {t' u' : JoinTree} (k : Kin s t u) (h : SameShape t t')
    (h' : SameShape u u') : Kin s t' u' where
  left := k.left.of_sameShape h
  right := k.right.of_sameShape h'
  schemaLeft := h.schema.trans k.schemaLeft
  schemaRight := h'.schema.trans k.schemaRight
  names := k.names
  rootModel := by rw [h.model, h'.model, k.rootModel]
  rootTable := by rw [h.rootTable, h'.rootTable, k.rootTable]

theorem twin_of_sameShape {t' u' : JoinTree} (h : SameShape t t') (h' : SameShape u u') :
    Twin t' u' i j ↔ Twin t u i j := by
  constructor
  · rintro ⟨hi, hj, halias⟩
    rw [h.size] at hi
    rw [h'.size] at hj
    rw [h.tableAlias, h'.tableAlias] at halias
    exact ⟨hi, hj, halias⟩
  · rintro ⟨hi, hj, halias⟩
    exact ⟨by rwa [h.size], by rwa [h'.size], by rwa [h.tableAlias, h'.tableAlias]⟩

end PathQuery.JoinTree
