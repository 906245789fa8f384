import PathQuery.Proofs.JoinTree.Tests

/-!
Every semi-join says what the conditions collected in it come to. The proof goes from the bottom of
the tree upwards: inside a semi-join conditions are settled at a node further down.
-/

set_option autoImplicit false

namespace PathQuery.JoinTree

variable {E : Engine} {t : JoinTree} {s : Schema} {db : Database E} {scalar : Database.Scalar E}

theorem map_resetFirst (leaves : List Condition) :
    (resetFirst leaves).map (·.withConnective .and) = leaves.map (·.withConnective .and) := by
  cases leaves <;> simp [resetFirst]

theorem drop_resetFirst (leaves : List Condition) : (resetFirst leaves).drop 1 = leaves.drop 1 := by
  cases leaves <;> rfl

theorem resetFirst_ne_nil {leaves : List Condition} (h : leaves ≠ []) : resetFirst leaves ≠ [] := by
  cases leaves with
  | nil => exact absurd rfl h
  | cons x rest => simp [resetFirst]

theorem LeafBelow.resetFirst {a : Nat} {leaves : List Condition}
    (h : ∀ x ∈ leaves, t.LeafBelow a x) : ∀ x ∈ resetFirst leaves, t.LeafBelow a x := by
  cases leaves with
  | nil => exact h
  | cons x rest =>
    rw [List.forall_mem_cons] at h
    refine List.forall_mem_cons.2 ⟨⟨?_, ?_, ?_⟩, h.2⟩
    · rw [members?_withConnective, h.1.leaf]
    · rw [isNormal_withConnective]
      exact h.1.normal
    · rw [owner?_withConnective]
      exact h.1.below

theorem filled_of_settle {scope : Nat} {xs : List Condition} {c : Connective} {r : Settled}
    (hxs : ∀ x ∈ xs, t.IsNormal x) (hc : ∀ x ∈ xs.drop 1, x.connective = c)
    (h : t.settle scope xs = .ok r) : ∃ slots, t.Filled scope xs slots r := by
  obtain ⟨slots, hslots, hplaces⟩ := settle_eq_ok h
  rw [regroup_of_connective hc] at hslots
  exact ⟨slots, hxs, hslots, hplaces⟩

theorem Filled.conditions_ne_nil {scope : Nat} {xs : List Condition}
    {slots : List (Slot t scope)} {r : Settled} (f : t.Filled scope xs slots r) (hne : xs ≠ []) :
    r.conditions ≠ [] := by
  refine f.placed.conditions_ne_nil fun hnil => hne ?_
  have hfound := f.found
  rw [hnil] at hfound
  cases hfound
  rfl

theorem Filled.read_or {scope : Nat} {xs : List Condition} {slots : List (Slot t scope)}
    {r : Settled} (f : t.Filled scope xs slots r) (hne : xs ≠ [])
    (hor : ∀ x ∈ xs.drop 1, x.connective = .or) (P : Condition → Prop) :
    Connective.read (r.conditions.map fun x => (x.connective, P x)) ↔
      ∃ x ∈ r.conditions, P x := by
  rw [Connective.read_or (by simpa using f.conditions_ne_nil hne)]
  · simp
  · rw [← List.map_drop, List.forall_mem_map]
    exact connective_drop_of_slots f.found f.placed hor

section Inside

variable {p a : Nat} {r : Relation} {leaves : List Condition} {slots : List (Slot t a)}
  {inner : Settled} {rows : Nat → Tuple E} {scene : Scene E}

theorem right_of_needed (hleaves : ∀ x ∈ leaves, t.LeafBelow a x)
    (hsettle : t.settle a (resetFirst leaves) = .ok inner) {id : Nat} (hid : id ∈ inner.needed)
    (helse : t.pathBetween? a id = none) : ∃ x ∈ leaves, t.right? x = some id := by
  refine needed_elsewhere (Q := fun id => ∃ x ∈ leaves, t.right? x = some id)
    (eachLeafOf_resetFirst (fun c x hx => by simpa [OwnedBelow] using hx) ?_) hsettle id hid helse
  refine eachLeafOf_iff.2 fun x hx => (eachLeaf_iff (hleaves x hx).leaf).2 ⟨?_, ?_⟩
  · exact (hleaves x hx).ownedBelow
  · exact fun id hright _ => ⟨x, hx, hright⟩

/-- The scenes inside a semi-join show the linked row, and what relations to one row join to it. -/
theorem Grounded.shows_inside (g : t.Grounded s db) (ha : a < t.size)
    (hsettle : t.settle a (resetFirst leaves) = .ok inner) (hleaves : ∀ x ∈ leaves, t.LeafBelow a x)
    (hscene : t.ShowsAround a leaves scene rows) {y : Tuple E} (hy : t.HasRow db a y)
    {base scene' : Scene E} (hbase : base (t.node a).tableAlias = y)
    (hrest : ∀ b, b ≠ (t.node a).tableAlias → b ≠ Relation.joinTableAlias (t.node a).tableAlias →
      b ≠ Relation.seriesAlias (t.node a).tableAlias → base b = scene b)
    (h : scene' ∈ db.joins base (t.joinsWithin a inner.needed)) :
    t.Shows scene' (t.extend db rows a y) inner.needed := by
  have hneeded := needed_joined hsettle
  obtain ⟨hbelow, hother⟩ := g.shows_joinsWithin rows ha hy hneeded hbase h
  intro id hid
  by_cases hpath : t.pathBetween? a id = none
  · have hid' := (hneeded id hid).1
    have hne : id ≠ a := by
      rintro rfl
      simp [pathBetween?_self] at hpath
    have hright : scene (t.node id).tableAlias = rows id := by
      obtain ⟨x, hx, hright⟩ := right_of_needed hleaves hsettle hid hpath
      exact hscene.right x hx id hright hpath
    rw [extend_of_not_below hpath, hother, hrest, hright]
    · exact fun heq => hne (g.alias_injective hid' ha heq)
    · exact g.wellFormed.alias_ne_joinTableAlias g.schema g.names.forJoins hid' _
    · exact g.wellFormed.alias_ne_seriesAlias g.schema g.names hid' _
    · intro id' path hpath' hlt _ heq
      obtain rfl := g.alias_injective hid' hlt heq
      simp [hpath] at hpath'
  · exact hbelow id hid hpath

theorem rowsAt_eq (e : t.Edge p a r) : t.rowsAt db rows a = r.linkedRows db (rows p) := by
  simp [rowsAt, e.relation, e.parent]

def IsAny (leaves : List Condition) : Prop :=
  1 < leaves.length ∧ ∀ x ∈ leaves.drop 1, x.connective = .or

theorem IsAny.eq_or {c : Connective} (h : IsAny leaves)
    (hc : ∀ x ∈ leaves.drop 1, x.connective = c) : c = .or := by
  have hpos : 0 < (leaves.drop 1).length := by
    have := h.1
    simp
    omega
  obtain ⟨x, hx⟩ := List.exists_mem_of_length_pos hpos
  exact (hc x hx).symm.trans (h.2 x hx)

theorem and_or_single {c : Connective} (hne : leaves ≠ []) (h : ¬ IsAny leaves)
    (hc : ∀ x ∈ leaves.drop 1, x.connective = c) : c = .and ∨ ∃ x, leaves = [x] := by
  cases c with
  | and => exact .inl rfl
  | or =>
    have hpos := List.length_pos_of_ne_nil hne
    have hle : ¬ 1 < leaves.length := fun hlt => h ⟨hlt, hc⟩
    exact .inr (List.length_eq_one_iff.1 (by omega))

/-- A semi-join asks for a linked row for each settled condition, or under OR for one for some. -/
theorem Grounded.lets_semiJoinAt (g : t.Grounded s db) (e : t.Edge p a r) (ha : a < t.size)
    (hmany : r.isToMany = true) (f : t.Filled a (resetFirst leaves) slots inner)
    (hsettle : t.settle a (resetFirst leaves) = .ok inner) (hne : leaves ≠ [])
    (hleaves : ∀ x ∈ leaves, t.LeafBelow a x)
    (hstands : ∀ x ∈ inner.conditions, ∃ m, t.Stands db scalar inner.needed x m)
    (hscene : t.ShowsAround a leaves scene rows) {test : Condition}
    (htest : t.semiJoinAt a leaves inner = .ok test) :
    (IsAny leaves → (db.Lets scalar scene test ↔ ∃ y ∈ t.rowsAt db rows a,
      Connective.read (inner.conditions.map fun x =>
        (x.connective, db.Lets scalar (t.scene (t.extend db rows a y)) x)))) ∧
    (¬ IsAny leaves → (db.Lets scalar scene test ↔ ∀ x ∈ inner.conditions,
      ∃ y ∈ t.rowsAt db rows a, db.Lets scalar (t.scene (t.extend db rows a y)) x)) := by
  have hneeded := needed_joined hsettle
  have hparent : scene (t.node p).tableAlias = rows p := hscene.parent p e.parent
  have hrows : t.rowsAt db rows a = r.linkedRows db (scene (t.node p).tableAlias) := by
    rw [rowsAt_eq e, hparent]
  have hlets : ∀ strategy c, db.Lets scalar scene (r.semiJoin (t.node p).tableAlias
      (t.node a).tableAlias (t.joinsWithin a inner.needed) inner.conditions strategy c) ↔
      if strategy = .division ∧ 2 ≤ inner.conditions.length then
        ∀ x ∈ inner.conditions, ∃ y ∈ t.rowsAt db rows a,
          db.Lets scalar (t.scene (t.extend db rows a y)) x
      else ∃ y ∈ t.rowsAt db rows a, Connective.read (inner.conditions.map fun x =>
        (x.connective, db.Lets scalar (t.scene (t.extend db rows a y)) x)) := by
    intro strategy c
    rw [hrows]
    refine Relation.lets_semiJoin (g.clear e ha hneeded) (g.points e) ?_
    intro y hy base hbase hrest scene' hscene' x hx
    obtain ⟨m, hm⟩ := hstands x hx
    have hrow : t.HasRow db a y := by
      rw [HasRow, ← g.linked_table e]
      exact .inl (List.mem_filter.1 hy).1
    have hshows := g.shows_inside ha hsettle hleaves hscene hrow hbase hrest hscene'
    rw [hm _ _ hshows, hm _ _ (g.shows_scene fun id hid => (hneeded id hid).1)]
  unfold semiJoinAt at htest
  dsimp only at htest
  rw [e.relation, e.parent] at htest
  obtain rfl := Except.ok.inj htest
  rw [hlets]
  have hany : IsAny leaves ↔
      (decide (1 < leaves.length) && (leaves.drop 1).all (·.connective == .or)) = true := by
    simp [IsAny]
  constructor
  · intro h
    rw [if_pos (hany.1 h), Relation.strategy, if_pos hmany, if_neg (by simp)]
  · intro h
    rw [if_neg (mt hany.2 h), Relation.strategy, if_pos hmany]
    have hconditions := f.conditions_ne_nil (resetFirst_ne_nil hne)
    by_cases hlength : 2 ≤ inner.conditions.length
    · simp [hlength]
    · obtain ⟨x, hx⟩ : ∃ x, inner.conditions = [x] := by
        have hpos := List.length_pos_of_ne_nil hconditions
        exact List.length_eq_one_iff.1 (by omega)
      simp [hx, Connective.read, Connective.readFrom]

end Inside

theorem Filled.forall_conditions {scope : Nat} {ys : List Condition} {slots : List (Slot t scope)}
    {r : Settled} {c : Connective} {inner : List Condition → (Nat → Tuple E) → Prop}
    (f : t.Filled scope ys slots r) (hc : ∀ x ∈ ys.drop 1, x.connective = c)
    (htests : ∀ a, scope < a → t.TestStands db scalar a)
    (hinner : t.GroupsStand db scalar scope ys inner) {P : Condition → Prop}
    {Q : ((Nat → Tuple E) → Prop) → Prop}
    (hPQ : ∀ x m, t.Stands db scalar r.needed x m → (P x ↔ Q m)) :
    ((∀ x ∈ r.conditions, P x) ↔ ∀ m, t.Part db scalar inner c scope ys m → Q m) ∧
      ((∃ x ∈ r.conditions, P x) ↔ ∃ m, t.Part db scalar inner c scope ys m ∧ Q m) := by
  refine ⟨⟨fun h m hm => ?_, fun h x hx => ?_⟩, ⟨?_, ?_⟩⟩
  · obtain ⟨x, hx, hstands⟩ := f.exists_condition hc htests hinner hm
    exact (hPQ x m hstands).1 (h x hx)
  · obtain ⟨m, hm, hstands⟩ := f.exists_part hc htests hinner hx
    exact (hPQ x m hstands).2 (h m hm)
  · rintro ⟨x, hx, hp⟩
    obtain ⟨m, hm, hstands⟩ := f.exists_part hc htests hinner hx
    exact ⟨m, hm, (hPQ x m hstands).1 hp⟩
  · rintro ⟨m, hm, hq⟩
    obtain ⟨x, hx, hstands⟩ := f.exists_condition hc htests hinner hm
    exact ⟨x, hx, (hPQ x m hstands).2 hq⟩

theorem groupsStand_of_leaves {scope : Nat} {ys : List Condition}
    (h : ∀ x ∈ ys, members? x = none) (inner : List Condition → (Nat → Tuple E) → Prop) :
    t.GroupsStand db scalar scope ys inner :=
  fun _ _ hx => absurd (h _ hx) (by simp [members?])

theorem taken_single {c : Connective} {a : Nat} {x : Condition} {rows : Nat → Tuple E} :
    t.Taken db scalar c a [x] rows ↔ t.LinkedHold db scalar a [x] rows := by
  cases c <;> simp [Taken]

theorem taken_or_iff_parts {a : Nat} {leaves : List Condition} {rows : Nat → Tuple E}
    (hleaves : ∀ x ∈ leaves, members? x = none)
    (inner : List Condition → (Nat → Tuple E) → Prop) :
    t.Taken db scalar .or a leaves rows ↔ ∃ m, t.Part db scalar inner .or a leaves m ∧
      ∃ y ∈ t.rowsAt db rows a, m (t.extend db rows a y) := by
  rw [exists_part_or]
  · refine exists_congr fun x => and_congr_right fun hx => linkedHold_iff_parts inner ?_
    simpa using hleaves x hx
  · intro xs M
    constructor
    · rintro ⟨y, hy, x, hx, hm⟩
      exact ⟨x, hx, y, hy, hm⟩
    · rintro ⟨x, hx, y, hy, hm⟩
      exact ⟨y, hy, x, hx, hm⟩

section Asked

variable {a : Nat} {leaves : List Condition} {slots : List (Slot t a)} {inner : Settled}
  {c : Connective}

variable (f : t.Filled a (resetFirst leaves) slots inner)
  (hleaves : ∀ x ∈ leaves, t.LeafBelow a x)
  (hdrop : ∀ x ∈ (resetFirst leaves).drop 1, x.connective = c)
  (htests : ∀ b, a < b → t.TestStands db scalar b)

include f hleaves hdrop htests

theorem Filled.exists_stands :
    ∀ x ∈ inner.conditions, ∃ m, t.Stands db scalar inner.needed x m := by
  intro x hx
  have hgroups : t.GroupsStand db scalar a (resetFirst leaves) fun _ _ => True :=
    groupsStand_of_leaves (fun x hx => (LeafBelow.resetFirst hleaves x hx).leaf) _
  obtain ⟨m, -, hm⟩ := f.exists_part hdrop htests hgroups hx
  exact ⟨m, hm⟩

/-- Inside a semi-join, what is asked of settled conditions is asked of the parts of the list. -/
theorem Filled.asked_iff (g : t.Grounded s db)
    (hneeded : ∀ id ∈ inner.needed, id < t.size ∧ t.anchor? a id = none) (rows : Nat → Tuple E) :
    ((∀ x ∈ inner.conditions, ∃ y ∈ t.rowsAt db rows a,
        db.Lets scalar (t.scene (t.extend db rows a y)) x) ↔
      ∀ m, t.Part db scalar (fun _ _ => True) c a (leaves.map (·.withConnective .and)) m →
        ∃ y ∈ t.rowsAt db rows a, m (t.extend db rows a y)) ∧
    ((∃ x ∈ inner.conditions, ∃ y ∈ t.rowsAt db rows a,
        db.Lets scalar (t.scene (t.extend db rows a y)) x) ↔
      ∃ m, t.Part db scalar (fun _ _ => True) c a (leaves.map (·.withConnective .and)) m ∧
        ∃ y ∈ t.rowsAt db rows a, m (t.extend db rows a y)) := by
  have hgroups : t.GroupsStand db scalar a (resetFirst leaves) fun _ _ => True :=
    groupsStand_of_leaves (fun x hx => (LeafBelow.resetFirst hleaves x hx).leaf) _
  have hask : ∀ x m, t.Stands db scalar inner.needed x m →
      ((∃ y ∈ t.rowsAt db rows a, db.Lets scalar (t.scene (t.extend db rows a y)) x) ↔
        ∃ y ∈ t.rowsAt db rows a, m (t.extend db rows a y)) := by
    refine fun x m hm => exists_congr fun y => and_congr_right fun _ => ?_
    exact hm _ _ (g.shows_scene fun id hid => (hneeded id hid).1)
  have hsame : (leaves.map (·.withConnective .and)).map (·.withConnective .and) =
      (resetFirst leaves).map (·.withConnective .and) := by
    simp [map_resetFirst]
  simp only [part_congr hsame]
  exact f.forall_conditions hdrop htests hgroups hask

end Asked

theorem Grounded.testStands (g : t.Grounded s db) (scalar : Database.Scalar E) (a : Nat) :
    t.TestStands db scalar a := by
  induction hn : t.size - a using Nat.strongRecOn generalizing a with
  | ind n ih =>
    intro hmany c leaves inner test hne hleaves hc hsettle htest scene rows hscene
    obtain ⟨ha, p, r, e, hmany⟩ := g.wellFormed.exists_edge_of_isToMany hmany
    have htests : ∀ b, a < b → t.TestStands db scalar b :=
      fun b hb => ih (t.size - b) (by omega) b rfl
    have hdrop : ∀ x ∈ (resetFirst leaves).drop 1, x.connective = c := by rwa [drop_resetFirst]
    obtain ⟨slots, f⟩ := filled_of_settle
      (fun x hx => (LeafBelow.resetFirst hleaves x hx).normal) hdrop hsettle
    have hstands := f.exists_stands hleaves hdrop htests
    have hneeded := needed_joined hsettle
    obtain ⟨hany, hall⟩ := g.lets_semiJoinAt e ha hmany f hsettle hne hleaves hstands hscene htest
    have hleaf : ∀ x ∈ leaves.map (·.withConnective .and), members? x = none := by
      simpa using fun x hx => (hleaves x hx).leaf
    by_cases hor : IsAny leaves
    · obtain rfl : c = .or := hor.eq_or hc
      rw [hany hor, taken_or_iff_parts hleaf fun _ _ => True,
        ← (f.asked_iff hleaves hdrop htests g hneeded rows).2]
      have hread : ∀ y, Connective.read (inner.conditions.map fun x =>
          (x.connective, db.Lets scalar (t.scene (t.extend db rows a y)) x)) ↔
          ∃ x ∈ inner.conditions, db.Lets scalar (t.scene (t.extend db rows a y)) x :=
        fun y => f.read_or (resetFirst_ne_nil hne) hdrop _
      simp only [hread]
      exact ⟨fun ⟨y, hy, x, hx, h⟩ => ⟨x, hx, y, hy, h⟩, fun ⟨x, hx, y, hy, h⟩ => ⟨y, hy, x, hx, h⟩⟩
    · rcases and_or_single hne hor hc with rfl | ⟨x, rfl⟩
      · rw [hall hor, (f.asked_iff hleaves hdrop htests g hneeded rows).1]
        exact (linkedHold_iff_parts (fun _ _ => True) hleaf).symm
      · have hand : ∀ z ∈ (resetFirst [x]).drop 1, z.connective = .and := by simp [resetFirst]
        rw [hall hor, (f.asked_iff hleaves hand htests g hneeded rows).1]
        exact (linkedHold_iff_parts (fun _ _ => True) hleaf).symm.trans taken_single.symm

end PathQuery.JoinTree
