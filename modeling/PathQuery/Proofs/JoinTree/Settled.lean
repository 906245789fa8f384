import PathQuery.Proofs.JoinTree.Joined
import PathQuery.Proofs.JoinTree.Leaves
import PathQuery.Proofs.JoinTree.Runs

/-!
What settling makes of a list, said once for all conditions, a SELECT of the caller among them:
where each settled condition comes from, and why each node is needed.
-/

set_option autoImplicit false

namespace PathQuery

inductive Condition.Inside : List Condition → Condition → Prop
  | here {xs : List Condition} {x : Condition} (mem : x ∈ xs) : Inside xs x
  | within {xs members : List Condition} {c : Connective} {x : Condition}
    (mem : .group c members ∈ xs) (inner : Inside members x) : Inside xs x

theorem Condition.Inside.member {given members : List Condition} {c : Connective} {x : Condition}
    (h : Condition.Inside given (.group c members)) (hx : x ∈ members) :
    Condition.Inside given x := by
  generalize hy : Condition.group c members = y at h
  induction h with
  | here mem => exact .within (hy ▸ mem) (.here hx)
  | within mem _ ih => exact .within mem (ih hy)

namespace JoinTree

variable {t : JoinTree} {scope : Nat} {xs : List Condition} {r : Settled}

section Leaves

variable (G : Condition → Prop)

mutual

/-- `G` of every condition that is no group, those inside groups included. -/
def EachLeaf : Condition → Prop
  | .group _ members => EachLeafOf members
  | .compare c a names op v => G (.compare c a names op v)
  | .existence c negated frame inner => G (.existence c negated frame inner)
  | .membership c column values negated => G (.membership c column values negated)
  | .columns c left op right => G (.columns c left op right)
  | .subquery c frame inner op v => G (.subquery c frame inner op v)
termination_by structural x => x

def EachLeafOf : List Condition → Prop
  | [] => True
  | x :: rest => EachLeaf x ∧ EachLeafOf rest
termination_by structural xs => xs

end

variable {G}

theorem eachLeafOf_iff : EachLeafOf G xs ↔ ∀ x ∈ xs, EachLeaf G x := by
  induction xs with
  | nil => simp [EachLeafOf]
  | cons x xs ih => rw [EachLeafOf, ih, List.forall_mem_cons]

theorem eachLeaf_iff {x : Condition} (hleaf : members? x = none) : EachLeaf G x ↔ G x := by
  cases x with
  | group c members => simp [members?] at hleaf
  | _ => rfl

mutual

theorem EachLeaf.imp {H : Condition → Prop} (himp : ∀ x, G x → H x) (x : Condition)
    (h : EachLeaf G x) : EachLeaf H x := by
  cases x with
  | group c members => exact EachLeafOf.imp himp members h
  | _ => exact himp _ h
termination_by structural x

theorem EachLeafOf.imp {H : Condition → Prop} (himp : ∀ x, G x → H x) (xs : List Condition)
    (h : EachLeafOf G xs) : EachLeafOf H xs := by
  cases xs with
  | nil => trivial
  | cons x rest => exact ⟨EachLeaf.imp himp x h.1, EachLeafOf.imp himp rest h.2⟩
termination_by structural xs

end

mutual

theorem eachLeaf_inside {given : List Condition}
    (h : ∀ x, Condition.Inside given x → members? x = none → G x) (x : Condition)
    (hx : Condition.Inside given x) : EachLeaf G x := by
  cases x with
  | group c members => exact eachLeafOf_insideOf h members fun y hy => hx.member hy
  | _ => exact h _ hx rfl
termination_by structural x

theorem eachLeafOf_insideOf {given : List Condition}
    (h : ∀ x, Condition.Inside given x → members? x = none → G x) (xs : List Condition)
    (hxs : ∀ x ∈ xs, Condition.Inside given x) : EachLeafOf G xs := by
  cases xs with
  | nil => trivial
  | cons x rest =>
    rw [List.forall_mem_cons] at hxs
    exact ⟨eachLeaf_inside h x hxs.1, eachLeafOf_insideOf h rest hxs.2⟩
termination_by structural xs

end

theorem eachLeafOf_inside {given : List Condition}
    (h : ∀ x, Condition.Inside given x → members? x = none → G x) : EachLeafOf G given :=
  eachLeafOf_insideOf h given fun _ hx => .here hx

theorem EachLeafOf.of_inside {given : List Condition} {x : Condition} (h : EachLeafOf G given)
    (hx : Condition.Inside given x) : EachLeaf G x := by
  induction hx with
  | here mem => exact eachLeafOf_iff.1 h _ mem
  | within mem _ ih => exact ih (eachLeafOf_iff.1 h _ mem)

theorem isNormal_of_inside {x : Condition} (hx : Condition.Inside xs x) (h : t.AreNormal xs) :
    t.IsNormal x := by
  induction hx with
  | here mem => exact areNormal_iff.1 h _ mem
  | within mem _ ih => exact ih (areNormal_iff.1 h _ mem)

theorem eachLeaf_of_isNormal {x : Condition} (h : t.IsNormal x) : EachLeaf t.IsNormal x := by
  have hall : t.AreNormal [x] := ⟨h, trivial⟩
  exact eachLeaf_inside (fun y hy _ => isNormal_of_inside hy hall) x (.here List.mem_cons_self)

mutual

theorem isNormal_of_eachLeaf {x : Condition} (h : EachLeaf t.IsNormal x) : t.IsNormal x := by
  cases x with
  | group c members => exact areNormal_of_eachLeafOf h
  | _ => exact h
termination_by structural x

theorem areNormal_of_eachLeafOf {xs : List Condition} (h : EachLeafOf t.IsNormal xs) :
    t.AreNormal xs := by
  cases xs with
  | nil => trivial
  | cons x rest => exact ⟨isNormal_of_eachLeaf h.1, areNormal_of_eachLeafOf h.2⟩
termination_by structural xs

end

variable (hG : ∀ c x, G x → G (x.withConnective c))

include hG

theorem eachLeaf_withConnective {c : Connective} {x : Condition} (hx : EachLeaf G x) :
    EachLeaf G (x.withConnective c) := by
  cases x with
  | group d members => exact hx
  | _ => exact hG c _ hx

theorem eachLeafOf_resetFirst (hxs : EachLeafOf G xs) : EachLeafOf G (resetFirst xs) := by
  cases xs with
  | nil => trivial
  | cons x rest => exact ⟨eachLeaf_withConnective hG hxs.1, hxs.2⟩

theorem eachLeafOf_regroup (t : JoinTree) (scope : Nat) (hxs : EachLeafOf G xs) :
    EachLeafOf G (t.regroup scope xs) := by
  rw [eachLeafOf_iff] at hxs ⊢
  intro y hy
  rcases regroup_cases hy with hy | ⟨x, rest, hmembers, rfl⟩
  · exact hxs y hy
  · have hrun : ∀ z ∈ x :: rest, EachLeaf G z := fun z hz => hxs z (hmembers z hz)
    rw [List.forall_mem_cons] at hrun
    exact ⟨eachLeaf_withConnective hG hrun.1, eachLeafOf_iff.2 hrun.2⟩

end Leaves

mutual

instance decidableEachLeaf {G : Condition → Prop} [DecidablePred G] :
    (x : Condition) → Decidable (EachLeaf G x)
  | .group _ members => decidableEachLeafOf members
  | .compare _ _ _ _ _ => inferInstanceAs (Decidable (G _))
  | .existence _ _ _ _ => inferInstanceAs (Decidable (G _))
  | .membership _ _ _ _ => inferInstanceAs (Decidable (G _))
  | .columns _ _ _ _ => inferInstanceAs (Decidable (G _))
  | .subquery _ _ _ _ _ => inferInstanceAs (Decidable (G _))
termination_by structural x => x

instance decidableEachLeafOf {G : Condition → Prop} [DecidablePred G] :
    (xs : List Condition) → Decidable (EachLeafOf G xs)
  | [] => .isTrue trivial
  | x :: rest =>
    have := decidableEachLeaf (G := G) x
    have := decidableEachLeafOf (G := G) rest
    inferInstanceAs (Decidable (EachLeaf G x ∧ EachLeafOf G rest))
termination_by structural xs => xs

end

/-- A settled condition stayed, is a group that was settled where it stood, or is the test of the
conditions collected at a node. The statement around it must join the nodes that it speaks of. -/
inductive SettledFrom (t : JoinTree) (scope : Nat) (xs : List Condition) (r : Settled) :
    Condition → Prop
  | kept {x : Condition} (mem : x ∈ t.regroup scope xs) (leaf : members? x = none)
    (joined : t.anchorAt? scope x = none)
    (owner : ∀ id, t.owner? x = some id → id ∈ r.needed)
    (right : t.owner? x ≠ none → ∀ id, t.right? x = some id → id ∈ r.needed) :
    SettledFrom t scope xs r x
  | group {c : Connective} {members : List Condition} {inner : Settled}
    (mem : .group c members ∈ t.regroup scope xs) (settled : t.settle scope members = .ok inner)
    (needed : ∀ id ∈ inner.needed, id ∈ r.needed) :
    SettledFrom t scope xs r (.group c inner.conditions)
  | test {a p : Nat} {rel : Relation} {leaves : List Condition} {inner : Settled}
    {strategy : Strategy} {c : Connective}
    (below : scope < a) (edge : t.Edge p a rel) (many : rel.isToMany = true) (lt : a < t.size)
    (leaves_eq : leaves = (t.regroup scope xs).filter fun x => t.anchorAt? scope x = some a)
    (settled : t.settle a (resetFirst leaves) = .ok inner) (parent : p ∈ r.needed)
    (right : ∀ x ∈ leaves, ∀ id, t.right? x = some id → t.pathBetween? a id = none →
      id ∈ r.needed) :
    SettledFrom t scope xs r
      (rel.semiJoin (t.node p).tableAlias (t.node a).tableAlias (t.joinsWithin a inner.needed)
        inner.conditions strategy c)

theorem members?_of_anchorAt? {a : Nat} {x : Condition} (h : t.anchorAt? scope x = some a) :
    members? x = none := by
  cases hm : members? x with
  | none => rfl
  | some members =>
    obtain ⟨c, rfl⟩ := exists_members hm
    simp at h

theorem semiJoinAt_eq_ok {a p : Nat} {rel : Relation} (e : t.Edge p a rel)
    {leaves : List Condition} {inner : Settled} {test : Condition}
    (h : t.semiJoinAt a leaves inner = .ok test) : ∃ strategy c,
      test = rel.semiJoin (t.node p).tableAlias (t.node a).tableAlias
        (t.joinsWithin a inner.needed) inner.conditions strategy c := by
  unfold semiJoinAt at h
  simp only [e.relation, e.parent] at h
  exact ⟨_, _, (Except.ok.inj h).symm⟩

/-- What a collected condition compares with is inside its semi-join, or needed outside. -/
theorem right_mem_needed {a : Nat} {x : Condition} {slots : List (Slot t scope)}
    {ys : List Condition}
    (found : List.Forall₂ (fun x slot => t.slotIn scope x = .ok slot) ys slots)
    (placed : Places (fun a leaves => t.settle a.val leaves) [] slots r) (hx : x ∈ ys)
    (ha : t.anchorAt? scope x = some a) {id : Nat} (hid : t.right? x = some id)
    (hbelow : t.pathBetween? a id = none) : id ∈ r.needed := by
  obtain ⟨slot, hslot, hslotx⟩ := exists_of_mem_left found hx
  rcases slotIn_single (members?_of_anchorAt? ha) hslotx with
    ⟨hnone, -⟩ | ⟨-, needed, -, -, hneeded, ⟨hnone, -⟩ | ⟨b, hb, rfl⟩⟩
  · simp [anchorAt?, hnone] at ha
  · simp [hnone] at ha
  · rcases (rightSide_eq_ok hneeded).2 id hid with hmem | ⟨b', hb', hanchor⟩
    · exact placed.needed_mem hslot id hmem
    · obtain rfl : a = b' := by simpa [ha] using hb'
      obtain ⟨p, above, below, -, -, -, -, hpath⟩ := anchor?_eq_some hanchor
      simp [hbelow] at hpath

theorem WellFormed.settledFrom (ht : t.WellFormed) (h : t.settle scope xs = .ok r) {y : Condition}
    (hy : y ∈ r.conditions) : t.SettledFrom scope xs r y := by
  obtain ⟨slots, hslots, hplaces⟩ := settle_eq_ok h
  rcases hplaces.source hy with ⟨needed, hkept⟩ | ⟨a, -, hne, inner, hinner, htest⟩
  · obtain ⟨x, hx, hslot⟩ := exists_of_mem_right hslots hkept
    have hneeded := hplaces.needed_mem hkept
    cases hm : members? x with
    | none =>
      rcases slotIn_single hm hslot with ⟨hnone, heq⟩ | ⟨id, right, hid, -, hright, hplace⟩
      · obtain ⟨rfl, rfl⟩ := Slot.kept.inj heq
        refine .kept hx hm (by simp [anchorAt?, hnone]) ?_ fun hne => absurd hnone hne
        simp [hnone]
      · rcases hplace with ⟨hanchor, heq⟩ | ⟨a, -, heq⟩
        · obtain ⟨rfl, rfl⟩ := Slot.kept.inj heq
          refine .kept hx hm hanchor ?_ fun _ id' hid' => hneeded id' (List.mem_append_left _ ?_)
          · rintro id' hid'
            obtain rfl : id = id' := by simpa [hid] using hid'
            exact hneeded id (by simp [Slot.needed])
          · rcases (rightSide_eq_ok hright).2 id' hid' with hmem | ⟨a, ha, -⟩
            · exact hmem
            · simp [hanchor] at ha
        · cases heq
    | some members =>
      obtain ⟨c, rfl⟩ := exists_members hm
      obtain ⟨inner, hinner, heq⟩ := slotIn_eq_ok_group hslot
      obtain ⟨rfl, rfl⟩ := Slot.kept.inj heq
      exact .group hx hinner hneeded
  · obtain ⟨x, hx⟩ := List.exists_mem_of_ne_nil _ hne
    have hcollected := collectedAt_slots hslots a.val
    rw [hcollected] at hinner htest hx
    obtain ⟨-, hx⟩ := List.mem_filter.1 hx
    obtain ⟨id, -, hanchor⟩ := Option.bind_eq_some_iff.1 (of_decide_eq_true hx)
    obtain ⟨p, above, below, hp, -, hmany, -, -⟩ := anchor?_eq_some hanchor
    obtain ⟨p', rel, e⟩ := ht.edge a.val (Nat.zero_lt_of_lt a.property.1) a.property.2
    obtain rfl : p' = p := by simpa [e.parent] using hp
    obtain ⟨strategy, c, rfl⟩ := semiJoinAt_eq_ok e htest
    obtain ⟨-, -, -, -, -, hparent⟩ := hplaces.tested_mem (by simp) hne
    refine .test a.property.1 e (by rw [← isToMany_of_edge e, hmany]) a.property.2 rfl hinner
      (hparent p' hp) fun y hy id hid hbelow => ?_
    obtain ⟨hy, ha⟩ := List.mem_filter.1 hy
    exact right_mem_needed hslots hplaces hy (of_decide_eq_true ha) hid hbelow

theorem connective_drop_of_slots {slots : List (Slot t scope)} {ys : List Condition}
    (found : List.Forall₂ (fun x slot => t.slotIn scope x = .ok slot) ys slots)
    (placed : Places (fun a leaves => t.settle a.val leaves) [] slots r) {c : Connective}
    (hc : ∀ x ∈ ys.drop 1, x.connective = c) : ∀ x ∈ r.conditions.drop 1, x.connective = c := by
  refine placed.connective_drop fun slot hslot => ?_
  obtain ⟨x, hx, hslotx⟩ := exists_of_mem_right (List.forall₂_drop 1 found) hslot
  rw [connective_slotIn hslotx, hc x hx]

theorem connective_drop_of_settle (h : t.settle scope xs = .ok r) {c : Connective}
    (hc : ∀ x ∈ xs.drop 1, x.connective = c) : ∀ x ∈ r.conditions.drop 1, x.connective = c := by
  obtain ⟨slots, hslots, hplaces⟩ := settle_eq_ok h
  rw [regroup_of_connective hc] at hslots
  exact connective_drop_of_slots hslots hplaces hc

theorem mem_conditions_of_joined (h : t.settle scope xs = .ok r) {c : Connective}
    (hc : ∀ x ∈ xs.drop 1, x.connective = c) {x : Condition} (hx : x ∈ xs)
    (hleaf : members? x = none) (hjoined : t.anchorAt? scope x = none) : x ∈ r.conditions := by
  obtain ⟨slots, hslots, hplaces⟩ := settle_eq_ok h
  rw [regroup_of_connective hc] at hslots
  obtain ⟨slot, hslot, hslotx⟩ := exists_of_mem_left hslots hx
  rcases slotIn_single hleaf hslotx with
    ⟨-, rfl⟩ | ⟨id, needed, -, -, -, ⟨-, rfl⟩ | ⟨a, ha, -⟩⟩
  · exact hplaces.kept_mem hslot
  · exact hplaces.kept_mem hslot
  · simp [hjoined] at ha

/-- A settled condition that is no group and no SELECT was there before. -/
theorem WellFormed.mem_of_settle (ht : t.WellFormed) (h : t.settle scope xs = .ok r)
    {y : Condition} (hy : y ∈ r.conditions) (hleaf : y.tableAlias? ≠ none) : y ∈ xs := by
  cases ht.settledFrom h hy with
  | kept mem =>
    rcases regroup_cases mem with hmem | ⟨x, rest, -, rfl⟩
    · exact hmem
    · exact absurd rfl hleaf
  | group => exact absurd rfl hleaf
  | test =>
    rw [Relation.semiJoin_eq] at hleaf
    split at hleaf
    · exact absurd rfl hleaf
    · exact absurd rfl hleaf

/-- Why the statement around a list must join a node: a condition is about it or compares with it, a
group needs it, or a test hangs on it. -/
inductive NeededFrom (t : JoinTree) (scope : Nat) (xs : List Condition) (id : Nat) : Prop
  | owner {x : Condition} (mem : x ∈ t.regroup scope xs) (owner : t.owner? x = some id)
    (joined : t.anchor? scope id = none)
  | right {x : Condition} (mem : x ∈ t.regroup scope xs) (leaf : members? x = none)
    (right : t.right? x = some id) (lt : id < t.size) (joined : t.anchor? scope id = none)
  | group {c : Connective} {members : List Condition} {inner : Settled}
    (mem : .group c members ∈ t.regroup scope xs) (settled : t.settle scope members = .ok inner)
    (needed : id ∈ inner.needed)
  | parent {above : List Nat} (lt : id < t.size) (joined : t.JoinedFrom scope id above)

theorem neededFrom (h : t.settle scope xs = .ok r) {id : Nat} (hid : id ∈ r.needed) :
    t.NeededFrom scope xs id := by
  obtain ⟨slots, hslots, hplaces⟩ := settle_eq_ok h
  rcases hplaces.needed_source hid with ⟨slot, hslot, hid⟩ | ⟨a, x, needed, hslot, hparent⟩
  · obtain ⟨y, hy, hsloty⟩ := exists_of_mem_right hslots hslot
    cases hm : members? y with
    | none =>
      rcases slotIn_single hm hsloty with ⟨-, rfl⟩ | ⟨owner, needed, howner, -, hright, hplace⟩
      · cases hid
      · have hneeded : id ∈ needed → t.NeededFrom scope xs id := fun hid => by
          obtain ⟨hr, hlt, hnone⟩ := (rightSide_eq_ok hright).1 id hid
          exact .right hy hm hr hlt hnone
        rcases hplace with ⟨hnone, rfl⟩ | ⟨a, -, rfl⟩
        · rcases List.mem_append.1 hid with hid | hid
          · exact hneeded hid
          · obtain rfl := List.mem_singleton.1 hid
            exact .owner hy howner (by simpa [anchorAt?, howner] using hnone)
        · exact hneeded hid
    | some members =>
      obtain ⟨d, rfl⟩ := exists_members hm
      obtain ⟨inner, hinner, rfl⟩ := slotIn_eq_ok_group hsloty
      exact .group hy hinner hid
  · have hx : x ∈ collectedAt a.val slots := List.mem_filterMap.2 ⟨_, hslot, by simp⟩
    rw [collectedAt_slots hslots] at hx
    obtain ⟨-, ha⟩ := List.mem_filter.1 hx
    obtain ⟨owner, -, hanchor⟩ := Option.bind_eq_some_iff.1 (of_decide_eq_true ha)
    obtain ⟨p, above, below, hp, hlt, -, habove, -⟩ := anchor?_eq_some hanchor
    obtain rfl : p = id := by simpa [hp] using hparent
    exact .parent (Nat.lt_trans hlt a.property.2) habove

theorem settle_singleton {id : Nat} {x : Condition} {needed : List Nat} (hleaf : members? x = none)
    (hid : t.owner? x = some id) (ha : t.anchor? scope id = none)
    (hright : t.rightSide scope none x = .ok needed) :
    t.settle scope [x] = .ok ⟨[x], needed ++ [id]⟩ := by
  rw [settle_eq, regroup_of_connective (c := x.connective) (by simp)]
  simp [slotIn_of_joined hleaf hid ha hright, place]

theorem place_kept (settleAt : Below t scope → List Condition → Except Failure Settled)
    (seen : List Nat) (id : Nat) (xs : List Condition) :
    t.place settleAt seen (xs.map fun x => .kept x [id]) = .ok ⟨xs, xs.map fun _ => id⟩ := by
  induction xs with
  | nil => rfl
  | cons x xs ih =>
    rw [List.map_cons, place, ih]
    rfl

theorem settle_joined {id : Nat} {c : Connective} (hc : ∀ x ∈ xs.drop 1, x.connective = c)
    (ha : t.anchor? scope id = none)
    (hxs : ∀ x ∈ xs, members? x = none ∧ t.owner? x = some id ∧ t.rightSide scope none x = .ok []) :
    t.settle scope xs = .ok ⟨xs, xs.map fun _ => id⟩ := by
  have hslots : xs.mapM (t.slotIn scope) = .ok (xs.map fun x => .kept x [id]) := by
    refine mapM_eq_ok_iff.2 (List.forall₂_map_right_iff.2 (List.forall₂_same.2 fun x hx => ?_))
    obtain ⟨hleaf, howner, hright⟩ := hxs x hx
    exact slotIn_of_joined hleaf howner ha hright
  rw [settle_eq, regroup_of_connective hc, hslots]
  exact place_kept _ [] id xs

theorem settle_ownerless {x : Condition} (hleaf : members? x = none) (hnone : t.owner? x = none) :
    t.settle scope [x] = .ok ⟨[x], []⟩ := by
  rw [settle_eq, regroup_of_connective (c := x.connective) (by simp)]
  simp [slotIn_of_single scope hleaf, slotOf_of_none scope hnone, place]

theorem settle_group {c : Connective} {members : List Condition}
    (h : t.settle scope members = .ok r) :
    t.settle scope [.group c members] = .ok ⟨[.group c r.conditions], r.needed⟩ := by
  rw [settle_eq, regroup_of_connective (c := c) (by simp)]
  simp [slotIn_group, h, place]

theorem needed_joined (h : t.settle scope xs = .ok r) :
    ∀ id ∈ r.needed, id < t.size ∧ t.anchor? scope id = none := by
  induction scope, xs using settle_induction t generalizing r with
  | h scope xs ihgroup ihbelow =>
    intro id hid
    cases neededFrom h hid with
    | owner mem owner joined => exact ⟨owner?_lt owner, joined⟩
    | right mem leaf right lt joined => exact ⟨lt, joined⟩
    | group mem settled needed =>
      exact ihgroup _ (weight_members_regroup rfl mem) settled id needed
    | parent lt joined => exact ⟨lt, joined.anchor?_eq⟩

def OwnedBelow (t : JoinTree) (scope : Nat) (x : Condition) : Prop :=
  ∀ id, t.owner? x = some id → t.pathBetween? scope id ≠ none

theorem ownedBelow_of_anchorAt? {a : Nat} {x : Condition} (h : t.anchorAt? scope x = some a) :
    t.OwnedBelow a x := by
  intro id hid
  obtain ⟨owner, howner, hanchor⟩ := Option.bind_eq_some_iff.1 h
  obtain rfl : owner = id := by simpa [howner] using hid
  obtain ⟨p, above, below, -, -, -, -, hbelow⟩ := anchor?_eq_some hanchor
  simp [hbelow]

/-- A node elsewhere is needed only by conditions that compare with it. -/
theorem needed_elsewhere {Q : Nat → Prop} (hxs : EachLeafOf (fun x => t.OwnedBelow scope x ∧
    ∀ id, t.right? x = some id → t.pathBetween? scope id = none → Q id) xs)
    (h : t.settle scope xs = .ok r) :
    ∀ id ∈ r.needed, t.pathBetween? scope id = none → Q id := by
  induction scope, xs using settle_induction t generalizing r with
  | h scope xs ihgroup ihbelow =>
    intro id hid helse
    have hleaves := eachLeafOf_iff.1 (eachLeafOf_regroup
      (fun c x hx => by simpa [OwnedBelow] using hx) t scope hxs)
    cases neededFrom h hid with
    | owner mem owner joined =>
      have hleaf := (eachLeaf_iff (members?_of_owner? owner)).1 (hleaves _ mem)
      exact absurd helse (hleaf.1 id owner)
    | right mem leaf right lt joined =>
      exact ((eachLeaf_iff leaf).1 (hleaves _ mem)).2 id right helse
    | group mem settled needed =>
      exact ihgroup _ (weight_members_regroup rfl mem) (hleaves _ mem) settled id needed helse
    | parent lt joined => simp [joined.down] at helse

/-- A settled condition holds a SELECT, or was there before and the node it is about is needed. -/
theorem WellFormed.leaves_settle (ht : t.WellFormed) {G : Condition → Prop}
    (hG : ∀ c x, G x → G (x.withConnective c)) (hxs : EachLeafOf G xs)
    (h : t.settle scope xs = .ok r) : EachLeafOf (fun y => y.hasSubquery = true ∨
      G y ∧ ∀ id, t.owner? y = some id → id ∈ r.needed) r.conditions := by
  induction scope, xs using settle_induction t generalizing r with
  | h scope xs ihgroup ihbelow =>
    have hleaves := eachLeafOf_iff.1 (eachLeafOf_regroup hG t scope hxs)
    refine eachLeafOf_iff.2 fun y hy => ?_
    cases ht.settledFrom h hy with
    | kept mem leaf joined owner right =>
      exact (eachLeaf_iff leaf).2 (.inr ⟨(eachLeaf_iff leaf).1 (hleaves y mem), owner⟩)
    | group mem settled needed =>
      refine EachLeafOf.imp (fun z hz => ?_) _
        (ihgroup _ (weight_members_regroup rfl mem) (hleaves _ mem) settled)
      exact hz.imp_right fun hz => ⟨hz.1, fun id hid => needed id (hz.2 id hid)⟩
    | test below edge many lt leaves_eq settled parent right =>
      rw [Relation.semiJoin_eq]
      split
      · exact .inl rfl
      · exact .inl rfl

def comparesColumns : Condition → Bool
  | .columns _ _ _ _ => true
  | _ => false

abbrev ComparesValues (xs : List Condition) : Prop :=
  EachLeafOf (fun x => comparesColumns x = false) xs

theorem comparesColumns_withConnective (c : Connective) (x : Condition)
    (h : comparesColumns x = false) : comparesColumns (x.withConnective c) = false := by
  cases x with
  | columns d left op right => cases h
  | _ => rfl

theorem exists_semiJoinAt (ht : t.WellFormed) (a : Below t scope) (leaves : List Condition)
    (inner : Settled) : ∃ test, t.semiJoinAt a.val leaves inner = .ok test := by
  obtain ⟨p, rel, e⟩ := ht.edge a.val (Nat.zero_lt_of_lt a.property.1) a.property.2
  unfold semiJoinAt
  simp only [e.relation, e.parent]
  exact ⟨_, rfl⟩

theorem exists_place (ht : t.WellFormed)
    {settleAt : Below t scope → List Condition → Except Failure Settled}
    (hsettle : ∀ a leaves, ComparesValues leaves → ∃ inner, settleAt a leaves = .ok inner)
    (slots : List (Slot t scope)) (seen : List Nat)
    (hslots : ∀ a, ∀ x ∈ collectedAt a slots, comparesColumns x = false ∧ members? x = none) :
    ∃ r, t.place settleAt seen slots = .ok r := by
  induction slots generalizing seen with
  | nil => exact ⟨_, rfl⟩
  | cons slot rest ih =>
    cases slot with
    | kept x needed =>
      obtain ⟨r, hr⟩ := ih seen hslots
      exact ⟨_, by rw [place, hr]; rfl⟩
    | collected b x needed =>
      have hrest :
          ∀ a, ∀ y ∈ collectedAt a rest, comparesColumns y = false ∧ members? y = none := by
        intro a y hy
        refine hslots a y ?_
        by_cases hab : b.val = a
        · subst hab
          rw [collectedAt_same]
          exact List.mem_cons_of_mem _ hy
        · rwa [collectedAt_other hab]
      rw [place]
      split
      · obtain ⟨r, hr⟩ := ih seen hrest
        exact ⟨_, by rw [hr]; rfl⟩
      · have hleaves : ComparesValues (resetFirst (x :: collectedAt b.val rest)) := by
          refine eachLeafOf_resetFirst comparesColumns_withConnective (eachLeafOf_iff.2 ?_)
          intro y hy
          rw [← collectedAt_same b x needed] at hy
          obtain ⟨hvalue, hleaf⟩ := hslots b.val y hy
          exact (eachLeaf_iff hleaf).2 hvalue
        obtain ⟨inner, hinner⟩ := hsettle b _ hleaves
        obtain ⟨test, htest⟩ := exists_semiJoinAt ht b (x :: collectedAt b.val rest) inner
        obtain ⟨r, hr⟩ := ih (b.val :: seen) hrest
        exact ⟨_, bind_eq_ok_iff.2 ⟨inner, hinner, bind_eq_ok_iff.2 ⟨test, htest,
          bind_eq_ok_iff.2 ⟨r, hr, rfl⟩⟩⟩⟩

theorem exists_forall₂ {α β : Type} {R : α → β → Prop} {as : List α} (h : ∀ a ∈ as, ∃ b, R a b) :
    ∃ bs, List.Forall₂ R as bs := by
  induction as with
  | nil => exact ⟨[], .nil⟩
  | cons a as ih =>
    rw [List.forall_mem_cons] at h
    obtain ⟨b, hb⟩ := h.1
    obtain ⟨bs, hbs⟩ := ih h.2
    exact ⟨b :: bs, .cons hb hbs⟩

theorem WellFormed.exists_settle (ht : t.WellFormed) (scope : Nat) (xs : List Condition) :
    ComparesValues xs → ∃ r, t.settle scope xs = .ok r := by
  induction scope, xs using settle_induction t with
  | h scope xs ihgroup ihbelow =>
    intro hxs
    have hleaves := eachLeafOf_iff.1
      (eachLeafOf_regroup comparesColumns_withConnective t scope hxs)
    have hslot : ∀ x ∈ t.regroup scope xs, ∃ slot, t.slotIn scope x = .ok slot := by
      intro x hx
      cases hm : members? x with
      | some members =>
        obtain ⟨c, rfl⟩ := exists_members hm
        obtain ⟨r, hr⟩ := ihgroup members (weight_members_regroup hm hx) (hleaves _ hx)
        exact ⟨_, by rw [slotIn_group, hr]; rfl⟩
      | none =>
        have hvalue := (eachLeaf_iff hm).1 (hleaves x hx)
        rw [slotIn_of_single scope hm]
        cases howner : t.owner? x with
        | none => exact ⟨_, slotOf_of_none scope howner⟩
        | some id =>
          have hright : t.rightSide scope (t.anchor? scope id) x = .ok [] := by
            cases x with
            | columns c left op right => cases hvalue
            | _ => rfl
          exact ⟨_, by rw [slotOf_of_some scope howner, slotAt, hright]; rfl⟩
    obtain ⟨slots, hslots⟩ := exists_forall₂ hslot
    have hcollected : ∀ a, ∀ x ∈ collectedAt a slots,
        comparesColumns x = false ∧ members? x = none := by
      intro a x hx
      rw [collectedAt_slots hslots] at hx
      obtain ⟨hx, ha⟩ := List.mem_filter.1 hx
      have hm := members?_of_anchorAt? (of_decide_eq_true ha)
      exact ⟨(eachLeaf_iff hm).1 (hleaves x hx), hm⟩
    obtain ⟨r, hr⟩ :=
      exists_place ht (fun a leaves => ihbelow a.val a.property.1 a.property.2 leaves)
      slots [] hcollected
    exact ⟨r, by rw [settle_eq, mapM_eq_ok_iff.2 hslots]; exact hr⟩

end JoinTree

end PathQuery
