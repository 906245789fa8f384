import PathQuery.Proofs.JoinTree.Scoped

/-!
Settled conditions are in scope. The statement around a list joins all nodes that its conditions
need; what lies elsewhere in the tree is needed only where a comparison mentions it, and the
statement further out has joined it.
-/

set_option autoImplicit false

namespace PathQuery.JoinTree

open PathQuery.Relation

variable {t : JoinTree} {s : Schema} {given xs : List Condition} {scope : List Source}

/-- One of the given conditions, but for its connective, on columns of nodes. -/
structure GivenLeaf (t : JoinTree) (given : List Condition) (x : Condition) : Prop where
  inside : ∃ y c, Condition.Inside given y ∧ members? y = none ∧ x = y.withConnective c
  named : ∀ a ∈ x.aliases, ∃ id, id < t.size ∧ a = (t.node id).tableAlias

theorem GivenLeaf.withConnective {x : Condition} (h : t.GivenLeaf given x) (c : Connective) :
    t.GivenLeaf given (x.withConnective c) where
  inside := by
    obtain ⟨y, d, hinside, hsingle, rfl⟩ := h.inside
    exact ⟨y, c, hinside, hsingle, Condition.withConnective_withConnective d c y⟩
  named a ha := h.named a (by simpa using ha)

theorem named_of_leaf {x : Condition} (h : x.hasSubquery = true ∨ t.IsNormal x) :
    ∀ a ∈ x.aliases, ∃ id, id < t.size ∧ a = (t.node id).tableAlias := by
  have hnode : ∀ {a}, t.idOfAlias? a ≠ none → ∃ id, id < t.size ∧ a = (t.node id).tableAlias := by
    intro a ha
    obtain ⟨id, hid, rfl⟩ := idOfAlias?_ne_none.1 ha
    exact ⟨id, hid, rfl⟩
  cases x with
  | compare c a names op v =>
    exact List.forall_mem_singleton.2 (hnode (h.resolve_left (by simp [Condition.hasSubquery])))
  | membership c column values negated =>
    exact List.forall_mem_singleton.2 (hnode (h.resolve_left (by simp [Condition.hasSubquery])))
  | columns c left op right =>
    obtain ⟨hleft, hright⟩ := h.resolve_left (by simp [Condition.hasSubquery])
    exact List.forall_mem_cons.2 ⟨hnode hleft, List.forall_mem_singleton.2 (hnode hright)⟩
  | _ => simp [Condition.aliases]

theorem Plain.exists_idOfAlias? (g : t.Plain s) {x : Condition} (h : t.GivenLeaf given x)
    {a : String} (ha : a ∈ x.aliases) :
    ∃ id, t.idOfAlias? a = some id ∧ a = (t.node id).tableAlias := by
  obtain ⟨id, hid, rfl⟩ := h.named a ha
  exact ⟨id, g.wellFormed.idOfAlias?_alias g.schema g.names.undotted hid, rfl⟩

theorem Plain.scoped_leaf (g : t.Plain s) {x : Condition} (h : t.GivenLeaf given x)
    (howner : ∀ id, t.owner? x = some id → t.Sees scope id)
    (hright : t.owner? x ≠ none → ∀ id, t.right? x = some id → t.Sees scope id) :
    t.Scoped given scope x := by
  have hnames := fun a => g.exists_idOfAlias? h (a := a)
  obtain ⟨y, c, hinside, hsingle, rfl⟩ := h.inside
  rw [owner?_withConnective] at howner hright
  rw [right?_withConnective] at hright
  simp only [Condition.aliases_withConnective] at hnames
  cases y with
  | group d members => simp [members?] at hsingle
  | existence d negated frame inner => exact .select c hinside hsingle rfl
  | subquery d frame inner op v => exact .select c hinside hsingle rfl
  | compare d a names op v =>
    obtain ⟨id, hid, ha⟩ := hnames a List.mem_cons_self
    refine .leaf c hinside (List.cons_ne_nil _ _) fun b hb => ?_
    obtain rfl := List.mem_singleton.1 hb
    exact ⟨id, howner id hid, ha⟩
  | membership d column values negated =>
    obtain ⟨id, hid, ha⟩ := hnames column.tableAlias List.mem_cons_self
    refine .leaf c hinside (List.cons_ne_nil _ _) fun b hb => ?_
    obtain rfl := List.mem_singleton.1 hb
    exact ⟨id, howner id hid, ha⟩
  | columns d left op right =>
    obtain ⟨id, hid, ha⟩ := hnames left.tableAlias List.mem_cons_self
    obtain ⟨id', hid', ha'⟩ := hnames right.tableAlias (List.mem_cons_of_mem _ List.mem_cons_self)
    have howned : t.owner? (.columns d left op right) = some id := hid
    refine .leaf c hinside (List.cons_ne_nil _ _) fun b hb => ?_
    rcases List.mem_cons.1 hb with rfl | hb
    · exact ⟨id, howner id howned, ha⟩
    · obtain rfl := List.mem_singleton.1 hb
      exact ⟨id', hright (by simp [howned]) id' hid', ha'⟩

mutual

theorem scoped_redirect {G : Condition → Prop} {a key : String} {target : ColumnRef}
    (h : ∀ x, members? x = none → G x → x.usesOnlyKey a key = true →
      t.Scoped given scope (x.redirect a target)) (x : Condition)
    (honly : x.usesOnlyKey a key = true) (hx : EachLeaf G x) :
    t.Scoped given scope (x.redirect a target) := by
  cases x with
  | group c members => exact .group (scoped_redirectAll h members honly hx)
  | _ => exact h _ rfl hx honly
termination_by structural x

theorem scoped_redirectAll {G : Condition → Prop} {a key : String} {target : ColumnRef}
    (h : ∀ x, members? x = none → G x → x.usesOnlyKey a key = true →
      t.Scoped given scope (x.redirect a target)) (xs : List Condition)
    (honly : Condition.useOnlyKey a key xs = true) (hxs : EachLeafOf G xs) :
    ∀ x ∈ Condition.redirectAll a target xs, t.Scoped given scope x := by
  cases xs with
  | nil => simp [Condition.redirectAll]
  | cons x rest =>
    rw [Condition.useOnlyKey, Bool.and_eq_true] at honly
    rw [Condition.redirectAll, List.forall_mem_cons]
    exact ⟨scoped_redirect h x honly.1 hxs.1, scoped_redirectAll h rest honly.2 hxs.2⟩
termination_by structural xs

end

/-- A condition on the key of a node between many and many may be moved; a comparison with another
column is none. -/
theorem Plain.scoped_keyed (g : t.Plain s) {p a : Nat} {r : Relation} (e : t.Edge p a r)
    (ha : a < t.size) {through : JoinTable} (hmany : r.kind = .manyMany through)
    (hseen : (t.rowsBetween through a).SeenIn scope) {x : Condition} (h : t.GivenLeaf given x)
    (howner : ∀ id, t.owner? x = some id → id = a)
    (honly : x.usesOnlyKey (t.node a).tableAlias r.linked.column = true) :
    t.Scoped given scope (x.redirect (t.node a).tableAlias
      ⟨joinTableAlias (t.node a).tableAlias, through.toColumn⟩) := by
  have hnames := fun b => g.exists_idOfAlias? h (a := b)
  obtain ⟨y, c, hinside, hsingle, rfl⟩ := h.inside
  rw [owner?_withConnective] at howner
  rw [Condition.usesOnlyKey_withConnective] at honly
  simp only [Condition.aliases_withConnective] at hnames
  suffices hone : y.aliases = [(t.node a).tableAlias] from
    .keyed c hinside e ha hmany hone honly hseen
  cases y with
  | group d members => simp [members?] at hsingle
  | existence d negated frame inner => cases honly
  | subquery d frame inner op v => cases honly
  | compare d b names op v =>
    obtain ⟨id, hid, hb⟩ := hnames b List.mem_cons_self
    obtain rfl := howner id hid
    exact congrArg (fun b => [b]) hb
  | membership d column values negated =>
    obtain ⟨id, hid, hb⟩ := hnames column.tableAlias List.mem_cons_self
    obtain rfl := howner id hid
    exact congrArg (fun b => [b]) hb
  | columns d left op right =>
    obtain ⟨id, hid, hb⟩ := hnames left.tableAlias List.mem_cons_self
    obtain rfl := howner id hid
    simp [Condition.usesOnlyKey, hb] at honly

/-- Settled conditions are in scope where the nodes that they need are seen. -/
theorem Plain.scoped_settle (g : t.Plain s) (node : Nat) (xs : List Condition) :
    EachLeafOf (fun x => t.GivenLeaf given x ∧ t.OwnedBelow node x) xs →
      ∀ r, t.settle node xs = .ok r → ∀ scope, (∀ id ∈ r.needed, t.Sees scope id) →
        ∀ y ∈ r.conditions, t.Scoped given scope y := by
  have hclosed : ∀ node c x, t.GivenLeaf given x ∧ t.OwnedBelow node x →
      t.GivenLeaf given (x.withConnective c) ∧ t.OwnedBelow node (x.withConnective c) :=
    fun node c x hx => ⟨hx.1.withConnective c, by simpa [OwnedBelow] using hx.2⟩
  induction node, xs using settle_induction t with
  | h node xs ihgroup ihbelow =>
    intro hxs r h scope hseen y hy
    have hleaves := eachLeafOf_iff.1 (eachLeafOf_regroup (hclosed node) t node hxs)
    cases g.wellFormed.settledFrom h hy with
    | kept mem leaf joined owner right =>
      have hleaf := (eachLeaf_iff leaf).1 (hleaves y mem)
      exact g.scoped_leaf hleaf.1 (fun id hid => hseen id (owner id hid))
        fun howned id hid => hseen id (right howned id hid)
    | @group c members inner mem settled needed =>
      exact .group (ihgroup members (weight_members_regroup rfl mem) (hleaves _ mem) inner settled
        scope fun id hid => hseen id (needed id hid))
    | @test a p rel leaves inner strategy c below edge many lt leaves_eq settled parent right =>
      have hcollected : ∀ x ∈ leaves,
          members? x = none ∧ t.GivenLeaf given x ∧ t.OwnedBelow a x := by
        intro x hx
        obtain ⟨hx, hanchor⟩ := List.mem_filter.1 (leaves_eq ▸ hx)
        have hanchor := of_decide_eq_true hanchor
        have hsingle := members?_of_anchorAt? hanchor
        exact ⟨hsingle, ((eachLeaf_iff hsingle).1 (hleaves x hx)).1,
          ownedBelow_of_anchorAt? hanchor⟩
      have hgiven := eachLeafOf_resetFirst (hclosed a) (eachLeafOf_iff.2 fun x hx =>
        (eachLeaf_iff (hcollected x hx).1).2 (hcollected x hx).2)
      refine g.scoped_semiJoin edge lt (needed_joined settled)
        (ihbelow a below lt (resetFirst leaves) hgiven inner settled) ?_ (hseen p parent)
          ?_ strategy c
      · intro through hmany hempty honly scope' hbetween
        refine scoped_redirectAll (fun x hsingle hx honly => ?_) _ honly
          (g.wellFormed.leaves_settle (hclosed a) hgiven settled)
        have hnone := Condition.hasSubquery_of_usesOnlyKey x honly
        obtain ⟨⟨hx, hbelow⟩, hneeded⟩ := hx.resolve_left (by simp [hnone])
        refine g.scoped_keyed edge lt hmany hbetween hx (fun id hid => ?_) honly
        by_contra hne
        have hmem := g.rowsOf_mem_joinsWithin (needed_joined settled) (hneeded id hid) hne
          (hbelow id hid)
        simp [hempty] at hmem
      · refine needed_elsewhere
          (eachLeafOf_resetFirst (fun d x hx => by simpa [OwnedBelow] using hx)
          (eachLeafOf_iff.2 fun x hx => (eachLeaf_iff (hcollected x hx).1).2
            ⟨(hcollected x hx).2.2, fun id hid helse => ?_⟩)) settled
        exact hseen id (right x hx id hid helse)

section SameShape

variable {u : JoinTree} (h : SameShape t u)

include h

theorem SameShape.rowsOf (id : Nat) : u.rowsOf id = t.rowsOf id := by
  rw [JoinTree.rowsOf, JoinTree.rowsOf, h.tableAlias, table, table, h.model?, h.rootTable]

theorem SameShape.rowsBetween (through : JoinTable) (id : Nat) :
    u.rowsBetween through id = t.rowsBetween through id := by
  rw [JoinTree.rowsBetween, JoinTree.rowsBetween, h.tableAlias]

theorem Sees.of_sameShape {id : Nat} (hid : t.Sees scope id) : u.Sees scope id where
  lt := by
    rw [h.size]
    exact hid.lt
  rows := by
    rw [h.rowsOf]
    exact hid.rows

theorem Opens.of_sameShape {s : Source} (hs : t.Opens s) : u.Opens s := by
  cases hs with
  | rows lt =>
    rw [← h.rowsOf]
    exact .rows (by rwa [h.size])
  | between edge lt many =>
    rw [← h.rowsBetween]
    exact .between (h.edge edge) (by rwa [h.size]) many
  | series lt =>
    rw [← h.tableAlias]
    exact .series (by rwa [h.size])

theorem Along.of_sameShape {j : Join} (hj : t.Along scope j) : u.Along scope j := by
  have hrows : ∀ id, (t.table id).name = (u.table id).name := fun id => by
    rw [table, table, h.model?, h.rootTable]
  cases hj with
  | direct edge lt single behind =>
    rw [hrows, ← h.tableAlias, ← h.tableAlias]
    exact .direct (h.edge edge) (by rwa [h.size]) single (by rwa [h.rowsOf])
  | between edge lt many behind =>
    rw [← h.tableAlias, ← h.tableAlias]
    exact .between (h.edge edge) (by rwa [h.size]) many (by rwa [h.rowsOf])
  | linked edge lt many behind =>
    rw [hrows, ← h.tableAlias]
    exact .linked (h.edge edge) (by rwa [h.size]) many (by rwa [h.rowsBetween])

theorem InOrder.of_sameShape {js : List Join} (hjs : t.InOrder scope js) : u.InOrder scope js := by
  induction hjs with
  | nil => exact .nil
  | cons along tail ih => exact .cons (along.of_sameShape h) ih

theorem FrameScoped.of_sameShape {f : Frame} (hf : t.FrameScoped scope f) :
    u.FrameScoped scope f where
  opening s hs := (hf.opening s hs).of_sameShape h
  once := hf.once
  joins := hf.joins.of_sameShape h
  columns c hc := by
    obtain ⟨id, hid, heq⟩ := hf.columns c hc
    exact ⟨id, hid.of_sameShape h, by rw [h.tableAlias, heq]⟩

theorem Scoped.of_sameShape {x : Condition} (hx : t.Scoped given scope x) :
    u.Scoped given scope x := by
  induction hx with
  | leaf c inside speaks seen =>
    refine .leaf c inside speaks fun a ha => ?_
    obtain ⟨id, hid, heq⟩ := seen a ha
    exact ⟨id, hid.of_sameShape h, by rw [h.tableAlias, heq]⟩
  | keyed c inside edge lt many owner key seen =>
    rw [← h.tableAlias] at owner key ⊢
    exact .keyed c inside (h.edge edge) (by rwa [h.size]) many owner key (by rwa [h.rowsBetween])
  | select c inside single select => exact .select c inside single select
  | group inner ih => exact .group ih
  | tie edge lt linked seen outside =>
    rw [← h.tableAlias]
    refine .tie (h.edge edge) (by rwa [h.size]) ?_ seen (outside.of_sameShape h)
    simpa only [h.rowsOf, h.rowsBetween] using linked
  | number seen =>
    rw [← h.tableAlias] at seen ⊢
    exact .number seen
  | test within inner ih => exact .test (within.of_sameShape h) ih

end SameShape

theorem Scoped.leaves {x : Condition} (hx : t.Scoped given scope x)
    (hnone : x.hasSubquery = false) :
    EachLeaf (fun y => ∀ a ∈ y.aliases, ∃ s ∈ scope, s.tableAlias = a) x := by
  have hfound : ∀ {s : Source} {scope : List Source}, s.SeenIn scope →
      ∃ s' ∈ scope, s'.tableAlias = s.tableAlias := fun h => ⟨_, Source.of_under? h⟩
  induction hx with
  | @leaf scope x c inside speaks seen =>
    have hsingle : members? x = none := by
      cases x with
      | group d members => exact absurd rfl speaks
      | _ => rfl
    refine (eachLeaf_iff (by rwa [members?_withConnective])).2 fun a ha => ?_
    obtain ⟨id, hid, rfl⟩ := seen a (by simpa using ha)
    exact hfound hid.rows
  | @keyed scope p id r through x c inside edge lt many owner key seen =>
    have hone : ∀ a ∈ [joinTableAlias (t.node id).tableAlias], ∃ s ∈ scope, s.tableAlias = a :=
      List.forall_mem_singleton.2 (hfound seen)
    cases x with
    | compare d b names op v =>
      obtain rfl : b = (t.node id).tableAlias := List.singleton_inj.1 owner
      rw [Condition.withConnective, Condition.redirect, if_pos rfl]
      exact hone
    | membership d column values negated =>
      have hcolumn : column.tableAlias = (t.node id).tableAlias := List.singleton_inj.1 owner
      rw [Condition.withConnective, Condition.redirect, if_pos hcolumn]
      exact hone
    | columns d left op right => simp [Condition.aliases] at owner
    | group d members => cases owner
    | existence d negated frame inner => cases owner
    | subquery d frame inner op v => cases owner
  | select c inside single select => simp [select] at hnone
  | @group scope c members inner ih =>
    refine eachLeafOf_iff.2 fun y hy => ih y hy (Bool.eq_false_iff.2 fun hy' => ?_)
    have hany : (Condition.group c members).hasSubquery = true :=
      Condition.anySubquery_iff.2 ⟨y, hy, hy'⟩
    simp [hany] at hnone
  | tie edge lt linked seen outside =>
    intro a ha
    rcases List.mem_cons.1 ha with rfl | ha
    · exact hfound seen
    · obtain rfl := List.mem_singleton.1 ha
      exact hfound outside.rows
  | number seen =>
    intro a ha
    obtain rfl := List.mem_singleton.1 ha
    exact hfound seen
  | test within inner ih => cases hnone

end PathQuery.JoinTree
