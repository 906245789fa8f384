import PathQuery.Proofs.JoinTree.Parts
import PathQuery.Proofs.JoinTree.Settled
import PathQuery.Proofs.Relation.Tested

/-!
Settled conditions stand for the parts of the list that they were settled from: comparisons that
stay for themselves, semi-joins for the conditions collected in them, down to the last relation to
many.
-/

set_option autoImplicit false

namespace PathQuery.JoinTree

variable {E : Engine} {t : JoinTree} {s : Schema} {db : Database E} {scalar : Database.Scalar E}

/-- A condition lets through the scenes that show rows of which `m` holds. -/
def Stands (t : JoinTree) (db : Database E) (scalar : Database.Scalar E) (needed : List Nat)
    (x : Condition) (m : (Nat → Tuple E) → Prop) : Prop :=
  ∀ scene rows, t.Shows scene rows needed → (db.Lets scalar scene x ↔ m rows)

structure LeafBelow (t : JoinTree) (anchor : Nat) (x : Condition) : Prop where
  leaf : members? x = none
  normal : t.IsNormal x
  below : ∃ id path, t.owner? x = some id ∧ t.pathBetween? anchor id = some path

/-- A scene shows the row outside a semi-join and those that the conditions inside compare with. -/
structure ShowsAround (t : JoinTree) (anchor : Nat) (leaves : List Condition) (scene : Scene E)
    (rows : Nat → Tuple E) : Prop where
  parent : ∀ p, (t.node anchor).parent = some p → scene (t.node p).tableAlias = rows p
  right : ∀ x ∈ leaves, ∀ id, t.right? x = some id → t.pathBetween? anchor id = none →
    scene (t.node id).tableAlias = rows id

/-- The semi-join made of conditions that are collected at a node says what they come to. -/
def TestStands (t : JoinTree) (db : Database E) (scalar : Database.Scalar E) (anchor : Nat) :
    Prop :=
  (t.node anchor).isToMany = true → ∀ c leaves inner test, leaves ≠ [] →
    (∀ x ∈ leaves, t.LeafBelow anchor x) → (∀ x ∈ leaves.drop 1, x.connective = c) →
    t.settle anchor (resetFirst leaves) = .ok inner → t.semiJoinAt anchor leaves inner = .ok test →
    ∀ scene rows, t.ShowsAround anchor leaves scene rows →
      (db.Lets scalar scene test ↔
        t.Taken db scalar c anchor (leaves.map (·.withConnective .and)) rows)

theorem LeafBelow.ownedBelow {a : Nat} {x : Condition} (h : t.LeafBelow a x) :
    t.OwnedBelow a x := by
  intro id hid
  obtain ⟨owner, path, howner, hpath⟩ := h.below
  obtain rfl : owner = id := by simpa [howner] using hid
  simp [hpath]

theorem leafBelow_of_anchorAt? {scope a : Nat} {x : Condition} (hx : t.IsNormal x)
    (ha : t.anchorAt? scope x = some a) : t.LeafBelow a x := by
  obtain ⟨id, hid, hanchor⟩ := Option.bind_eq_some_iff.1 ha
  obtain ⟨p, above, below, -, -, -, -, hbelow⟩ := anchor?_eq_some hanchor
  exact ⟨members?_of_anchorAt? ha, hx, id, below, hid, hbelow⟩

theorem isToMany_of_anchorAt? {scope a : Nat} {x : Condition} (ha : t.anchorAt? scope x = some a) :
    (t.node a).isToMany = true := by
  obtain ⟨id, -, hanchor⟩ := Option.bind_eq_some_iff.1 ha
  obtain ⟨p, above, below, -, -, hmany, -, -⟩ := anchor?_eq_some hanchor
  exact hmany

theorem mem_drop_of_filter {p : Condition → Bool} {xs : List Condition} {x : Condition}
    (h : x ∈ (xs.filter p).drop 1) : x ∈ xs.drop 1 := by
  cases xs with
  | nil => simp at h
  | cons y ys =>
    rw [List.filter_cons] at h
    split at h
    · exact (List.mem_filter.1 h).1
    · exact (List.mem_filter.1 (List.mem_of_mem_drop h)).1

def GroupsStand (t : JoinTree) (db : Database E) (scalar : Database.Scalar E) (scope : Nat)
    (ys : List Condition) (inner : List Condition → (Nat → Tuple E) → Prop) : Prop :=
  ∀ d members, .group d members ∈ ys → ∀ r, t.settle scope members = .ok r →
    ∀ scene rows, t.Shows scene rows r.needed →
      (db.LetsAll scalar scene r.conditions ↔ inner members rows)

structure Filled (t : JoinTree) (scope : Nat) (ys : List Condition) (slots : List (Slot t scope))
    (r : Settled) : Prop where
  normal : ∀ x ∈ ys, t.IsNormal x
  found : List.Forall₂ (fun x slot => t.slotIn scope x = .ok slot) ys slots
  placed : Places (fun a leaves => t.settle a.val leaves) [] slots r

namespace Filled

variable {scope : Nat} {ys : List Condition} {slots : List (Slot t scope)} {r : Settled}
  {c : Connective} {inner : List Condition → (Nat → Tuple E) → Prop}

variable (f : t.Filled scope ys slots r)

include f

theorem collectedAt_eq (a : Nat) :
    collectedAt a slots = ys.filter fun x => t.anchorAt? scope x = some a :=
  collectedAt_slots f.found a

theorem map_collectedAt (a : Nat) :
    (collectedAt a slots).map (·.withConnective .and) = t.leavesAt scope a ys := by
  rw [f.collectedAt_eq]
  rfl

theorem mem_collectedAt {a : Nat} {x : Condition} (hx : x ∈ collectedAt a slots) :
    x ∈ ys ∧ t.anchorAt? scope x = some a := by
  rw [f.collectedAt_eq] at hx
  simpa using hx

theorem test_stands (hc : ∀ x ∈ ys.drop 1, x.connective = c)
    (htests : ∀ a, scope < a → t.TestStands db scalar a) {a : Below t scope}
    (hne : collectedAt a.val slots ≠ []) {settled : Settled} {test : Condition}
    (hsettled : t.settle a.val (resetFirst (collectedAt a.val slots)) = .ok settled)
    (htest : t.semiJoinAt a.val (collectedAt a.val slots) settled = .ok test) :
    t.Stands db scalar r.needed test (t.Taken db scalar c a.val (t.leavesAt scope a.val ys)) := by
  intro scene rows hshows
  obtain ⟨-, -, -, -, -, hparent⟩ := f.placed.tested_mem (by simp) hne
  obtain ⟨x, hx⟩ := List.exists_mem_of_ne_nil _ hne
  have hmany := isToMany_of_anchorAt? (f.mem_collectedAt hx).2
  have hleaves : ∀ x ∈ collectedAt a.val slots, t.LeafBelow a.val x := fun x hx =>
    leafBelow_of_anchorAt? (f.normal x (f.mem_collectedAt hx).1) (f.mem_collectedAt hx).2
  have hdrop : ∀ x ∈ (collectedAt a.val slots).drop 1, x.connective = c := by
    rw [f.collectedAt_eq]
    exact fun x hx => hc x (mem_drop_of_filter hx)
  rw [← f.map_collectedAt]
  refine htests a.val a.property.1 hmany c _ settled test hne hleaves hdrop hsettled htest scene
    rows ⟨fun p hp => hshows p (hparent p hp), fun x hx id hid hbelow => hshows id ?_⟩
  exact right_mem_needed f.found f.placed (f.mem_collectedAt hx).1 (f.mem_collectedAt hx).2 hid
    hbelow

theorem near_stands {x : Condition} (hx : x ∈ ys) (hleaf : members? x = none)
    (hnone : t.anchorAt? scope x = none) :
    x ∈ r.conditions ∧
      t.Stands db scalar r.needed x fun rows => t.LeafHolds db scalar rows x := by
  obtain ⟨slot, hslot, hslotx⟩ := exists_of_mem_left f.found hx
  obtain ⟨id, needed, hid, -, hright, ⟨-, rfl⟩ | ⟨a, ha, -⟩⟩ :=
    slotIn_leaf (f.normal x hx) hleaf hslotx
  · refine ⟨f.placed.kept_mem hslot, fun scene rows hshows => ?_⟩
    refine lets_leaf (f.normal x hx) hleaf fun id' hid' => hshows id' ?_
    refine f.placed.needed_mem hslot id' ?_
    rcases hid' with hid' | hid'
    · obtain rfl : id = id' := by simpa [hid] using hid'
      simp [Slot.needed]
    · rcases (rightSide_eq_ok hright).2 id' hid' with hmem | ⟨a, ha, -⟩
      · exact List.mem_append_left _ hmem
      · simp [hnone] at ha
  · simp [hnone] at ha

theorem group_stands (hinner : t.GroupsStand db scalar scope ys inner) {d : Connective}
    {members : List Condition} (hx : .group d members ∈ ys) {slot : Slot t scope}
    (hslot : slot ∈ slots) (hslotx : t.slotIn scope (.group d members) = .ok slot) :
    ∃ y needed, slot = .kept y needed ∧ t.Stands db scalar r.needed y (inner members) := by
  have hneeded := f.placed.needed_mem hslot
  obtain ⟨r', hr', rfl⟩ := slotIn_eq_ok_group hslotx
  refine ⟨_, _, rfl, fun scene rows hshows => ?_⟩
  rw [Database.lets_group]
  exact hinner d members hx r' hr' scene rows fun id hid => hshows id (hneeded id hid)

theorem exists_part (hc : ∀ x ∈ ys.drop 1, x.connective = c)
    (htests : ∀ a, scope < a → t.TestStands db scalar a)
    (hinner : t.GroupsStand db scalar scope ys inner) {x : Condition} (hx : x ∈ r.conditions) :
    ∃ m, t.Part db scalar inner c scope ys m ∧ t.Stands db scalar r.needed x m := by
  rcases f.placed.source hx with ⟨needed, hkept⟩ | ⟨a, -, hne, settled, hsettled, htest⟩
  · obtain ⟨y, hy, hslot⟩ := exists_of_mem_right f.found hkept
    cases hm : members? y with
    | none =>
      obtain ⟨_, _, -, -, -, hplace⟩ := slotIn_leaf (f.normal y hy) hm hslot
      rcases hplace with ⟨hnone, heq⟩ | ⟨a, -, heq⟩
      · obtain ⟨rfl, -⟩ := Slot.kept.inj heq
        exact ⟨_, .near hy hm hnone, (f.near_stands hy hm hnone).2⟩
      · cases heq
    | some members =>
      obtain ⟨d, rfl⟩ := exists_members hm
      obtain ⟨z, needed', heq, hstands⟩ := f.group_stands hinner hy hkept hslot
      obtain ⟨rfl, -⟩ := Slot.kept.inj heq
      exact ⟨_, .group hy, hstands⟩
  · refine ⟨_, .far ?_, f.test_stands hc htests hne hsettled htest⟩
    rw [← f.map_collectedAt]
    simpa using hne

theorem exists_condition (hc : ∀ x ∈ ys.drop 1, x.connective = c)
    (htests : ∀ a, scope < a → t.TestStands db scalar a)
    (hinner : t.GroupsStand db scalar scope ys inner) {m : (Nat → Tuple E) → Prop}
    (hm : t.Part db scalar inner c scope ys m) :
    ∃ x ∈ r.conditions, t.Stands db scalar r.needed x m := by
  cases hm with
  | @near x hx hleaf hjoined =>
    obtain ⟨hmem, hstands⟩ := f.near_stands hx hleaf hjoined
    exact ⟨x, hmem, hstands⟩
  | @group d members hx =>
    obtain ⟨slot, hslot, hslotx⟩ := exists_of_mem_left f.found hx
    obtain ⟨y, needed, rfl, hstands⟩ := f.group_stands hinner hx hslot hslotx
    exact ⟨y, f.placed.kept_mem hslot, hstands⟩
  | @far a hsome =>
    obtain ⟨x, hx, ha⟩ := exists_anchorAt?_of_leavesAt hsome
    have hne : collectedAt a slots ≠ [] := by
      rw [← f.map_collectedAt] at hsome
      simpa using hsome
    obtain ⟨settled, test, hsettled, htest, hmem, -⟩ :=
      f.placed.tested_mem (a := ⟨a, bounds_of_anchorAt? ha⟩) (by simp) hne
    exact ⟨test, hmem, f.test_stands hc htests hne hsettled htest⟩

end Filled

theorem WellFormed.exists_edge_of_isToMany (h : t.WellFormed) {id : Nat}
    (hmany : (t.node id).isToMany = true) :
    id < t.size ∧ ∃ p r, t.Edge p id r ∧ r.isToMany = true := by
  have hlt : id < t.size := by
    by_contra hge
    rw [node_of_size_le (Nat.le_of_not_lt hge)] at hmany
    simp [Node.isToMany, Node.root] at hmany
  have hpos : 0 < id := by
    refine Nat.pos_of_ne_zero fun hzero => ?_
    rw [hzero] at hmany
    simp [Node.isToMany, show (t.node 0).relation = none from h.rootRelation] at hmany
  obtain ⟨p, r, e⟩ := h.edge id hpos hlt
  exact ⟨hlt, p, r, e, by rw [← isToMany_of_edge e, hmany]⟩

theorem Grounded.shows_scene (g : t.Grounded s db) {rows : Nat → Tuple E} {ids : List Nat}
    (hids : ∀ id ∈ ids, id < t.size) : t.Shows (t.scene rows) rows ids := by
  intro id hid
  simp [JoinTree.scene, g.wellFormed.idOfAlias?_alias g.schema g.names.undotted (hids id hid)]

theorem Grounded.mem_joinsWithin (g : t.Grounded s db) {scope : Nat} {targets : List Nat}
    (htargets : ∀ id ∈ targets, id < t.size ∧ t.anchor? scope id = none) {j : Join}
    (hj : j ∈ t.joinsWithin scope targets) :
    j.kind = .left ∧ ∃ id, scope < id ∧ id < t.size ∧ j.tableAlias = (t.node id).tableAlias := by
  rw [joinsWithin_eq] at hj
  obtain ⟨id, hid, hj⟩ := List.mem_flatMap.1 hj
  obtain ⟨hlt, hsize, hmany, -⟩ := joinedFrom_of_isWanted htargets (List.mem_filter.1 hid).2
  obtain ⟨p, r, e⟩ := g.wellFormed.edge id (Nat.zero_lt_of_lt hlt) hsize
  rw [joinsFor_one e (by rw [← isToMany_of_edge e, hmany])] at hj
  obtain rfl := List.mem_singleton.1 hj
  exact ⟨rfl, id, hlt, hsize, rfl⟩

theorem Grounded.clear (g : t.Grounded s db) {p a : Nat} {r : Relation} (e : t.Edge p a r)
    (ha : a < t.size) {targets : List Nat}
    (htargets : ∀ id ∈ targets, id < t.size ∧ t.anchor? a id = none) :
    Relation.Clear (t.node p).tableAlias (t.node a).tableAlias (t.joinsWithin a targets) := by
  have hp : p < t.size := Nat.lt_trans e.lt ha
  have hne : ∀ {m n : Nat}, m < t.size → n < t.size → m ≠ n →
      (t.node m).tableAlias ≠ (t.node n).tableAlias :=
    fun hm hn hmn heq => hmn (g.alias_injective hm hn heq)
  have hbetween : ∀ {n : Nat}, n < t.size →
      (t.node n).tableAlias ≠ Relation.joinTableAlias (t.node a).tableAlias :=
    fun hn => g.wellFormed.alias_ne_joinTableAlias g.schema g.names.forJoins hn _
  have hseries : ∀ {n : Nat}, n < t.size →
      (t.node n).tableAlias ≠ Relation.seriesAlias (t.node a).tableAlias :=
    fun hn => g.wellFormed.alias_ne_seriesAlias g.schema g.names hn _
  refine {
    parent := hne hp ha (Nat.ne_of_lt e.lt)
    parentBetween := hbetween hp
    parentSeries := hseries hp
    outer := fun j hj => (g.mem_joinsWithin htargets hj).1
    table := fun j hj => ?_
    between := fun j hj => ?_
    series := fun j hj => ?_
    outside := fun j hj => ?_ }
  all_goals
    obtain ⟨-, id, hlt, hid, halias⟩ := g.mem_joinsWithin htargets hj
    rw [halias]
  · exact hne ha hid (Nat.ne_of_lt hlt)
  · exact (hbetween hid).symm
  · exact (hseries hid).symm
  · exact hne hp hid (Nat.ne_of_lt (Nat.lt_trans e.lt hlt))

end PathQuery.JoinTree
