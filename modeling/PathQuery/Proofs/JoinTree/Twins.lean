import PathQuery.Proofs.JoinTree.Settled
import PathQuery.Proofs.JoinTree.Siblings

/-!
One list of conditions settled in two trees of one model. Each step looks at aliases and at what
hangs on the way between nodes, so it does the same in both: conditions are regrouped and collected
alike, at twins, and the tests made of them differ in the order of sibling joins alone.
-/

set_option autoImplicit false

namespace PathQuery.JoinTree

open Condition Join

variable {s : Schema} {t u : JoinTree} {i j : Nat} {xs : List Condition}

structure Shared (t u : JoinTree) (x : Condition) : Prop where
  owner : Option.Rel (Twin t u) (t.owner? x) (u.owner? x)
  right : Option.Rel (Twin t u) (t.right? x) (u.right? x)

theorem Shared.withConnective {x : Condition} (h : Shared t u x) (c : Connective) :
    Shared t u (x.withConnective c) where
  owner := by simpa using h.owner
  right := by simpa using h.right

theorem rel_symm {α β : Type} {R : α → β → Prop} {S : β → α → Prop} {x : Option α} {y : Option β}
    (h : Option.Rel R x y) (hRS : ∀ a b, R a b → S b a) : Option.Rel S y x := by
  cases h with
  | none => exact .none
  | some hab => exact .some (hRS _ _ hab)

theorem Shared.symm {x : Condition} (h : Shared t u x) : Shared u t x :=
  ⟨rel_symm h.owner fun _ _ => Twin.symm, rel_symm h.right fun _ _ => Twin.symm⟩

theorem rel_idOfAlias? {a : String} (h : t.idOfAlias? a ≠ none) (h' : u.idOfAlias? a ≠ none) :
    Option.Rel (Twin t u) (t.idOfAlias? a) (u.idOfAlias? a) := by
  obtain ⟨i, hi⟩ := Option.ne_none_iff_exists'.1 h
  obtain ⟨j, hj⟩ := Option.ne_none_iff_exists'.1 h'
  rw [hi, hj]
  exact .some (twin_of_idOfAlias? hi hj)

theorem shared_of_isNormal {x : Condition} (hleaf : members? x = none) (h : t.IsNormal x)
    (h' : u.IsNormal x) : Shared t u x := by
  cases x with
  | compare c a names op v => exact ⟨rel_idOfAlias? h h', .none⟩
  | group c members => cases hleaf
  | existence c negated frame inner => exact h.elim
  | membership c column values negated => exact ⟨rel_idOfAlias? h h', .none⟩
  | columns c left op right => exact ⟨rel_idOfAlias? h.1 h'.1, rel_idOfAlias? h.2 h'.2⟩
  | subquery c frame inner op v => exact h.elim

theorem rel_of_isSome {α β : Type} {R : α → β → Prop} {x : Option α} {y : Option β}
    (h : Option.Rel R x y) : x.isSome = y.isSome := by
  cases h <;> rfl

theorem rel_some_left {α β : Type} {R : α → β → Prop} {x : Option α} {y : Option β}
    (h : Option.Rel R x y) {a : α} (ha : x = some a) : ∃ b, y = some b ∧ R a b := by
  subst ha
  cases h with
  | some hab => exact ⟨_, rfl, hab⟩

inductive SlotTwin (t u : JoinTree) {i j : Nat} : Slot t i → Slot u j → Prop
  | kept {x y : Condition} {needed needed' : List Nat} (same : Rearranged x y)
    (twins : List.Forall₂ (Twin t u) needed needed') :
    SlotTwin t u (.kept x needed) (.kept y needed')
  | collected {a : Below t i} {b : Below u j} {x : Condition} {needed needed' : List Nat}
    (twin : Twin t u a.val b.val) (shared : EachLeaf (Shared t u) x)
    (twins : List.Forall₂ (Twin t u) needed needed') :
    SlotTwin t u (.collected a x needed) (.collected b x needed')

/-- Settled lists that differ in the order of sibling joins alone. -/
structure SettledTwin (t u : JoinTree) (r r' : Settled) : Prop where
  conditions : AllRearranged r.conditions r'.conditions
  needed : List.Forall₂ (Twin t u) r.needed r'.needed

namespace Kin

variable (k : Kin s t u)

include k

theorem anchorAt? (h : Twin t u i j) {x : Condition} (hx : Shared t u x) :
    Option.Rel (Twin t u) (t.anchorAt? i x) (u.anchorAt? j x) :=
  rel_bind hx.owner fun _ _ howner => k.anchor? h howner

theorem isAnchored_eq (h : Twin t u i j) {x : Condition} (hx : EachLeaf (Shared t u) x) :
    t.isAnchored i x = u.isAnchored j x := by
  rw [isAnchored, isAnchored]
  cases hm : members? x with
  | some members => rfl
  | none =>
    exact congrArg _ (rel_of_isSome (k.anchorAt? h ((eachLeaf_iff hm).1 hx)))

theorem regroup_eq (h : Twin t u i j) (hxs : EachLeafOf (Shared t u) xs) :
    t.regroup i xs = u.regroup j xs := by
  have hany : xs.any (t.isAnchored i) = xs.any (u.isAnchored j) := by
    rw [eachLeafOf_iff] at hxs
    induction xs with
    | nil => rfl
    | cons x rest ih =>
      rw [List.forall_mem_cons] at hxs
      rw [List.any_cons, List.any_cons, k.isAnchored_eq h hxs.1, ih hxs.2]
  rw [regroup, regroup, hany]

theorem rightSide (h : Twin t u i j) {x : Condition} (hx : Shared t u x) {a b : Option Nat}
    {needed needed' : List Nat} (hn : t.rightSide i a x = .ok needed)
    (hn' : u.rightSide j b x = .ok needed') :
    List.Forall₂ (Twin t u) needed needed' := by
  rcases rightSide_cases hn with ⟨hnone, rfl⟩ | ⟨id, hid, -, hcase⟩
  · rcases rightSide_cases hn' with ⟨-, rfl⟩ | ⟨id', hid', -⟩
    · exact .nil
    · have hsome := rel_of_isSome hx.right
      simp [hnone, hid'] at hsome
  · obtain ⟨id', hid', htwin⟩ := rel_some_left hx.right hid
    have hanchor := rel_of_isSome (k.anchor? h htwin)
    obtain ⟨hnone', -⟩ | ⟨id'', hid'', -, hcase'⟩ := rightSide_cases hn'
    · simp [hid'] at hnone'
    · obtain rfl : id' = id'' := by simpa [hid'] using hid''
      rcases hcase with ⟨hnone, rfl⟩ | ⟨a, -, hsome, rfl⟩ <;>
        rcases hcase' with ⟨hnone', rfl⟩ | ⟨a', -, hsome', rfl⟩
      · exact .cons htwin .nil
      · simp [hnone, hsome'] at hanchor
      · simp [hsome, hnone'] at hanchor
      · exact .nil

theorem slotTwin_leaf (h : Twin t u i j) {x : Condition} (hleaf : members? x = none)
    (hx : Shared t u x) {slot : Slot t i} {slot' : Slot u j} (hs : t.slotIn i x = .ok slot)
    (hs' : u.slotIn j x = .ok slot') : SlotTwin t u slot slot' := by
  have hanchor := k.anchorAt? h hx
  rcases slotIn_single hleaf hs with ⟨hnone, rfl⟩ | ⟨id, needed, hid, -, hneeded, hplace⟩
  · rcases slotIn_single hleaf hs' with ⟨-, rfl⟩ | ⟨id', -, hid', -⟩
    · exact .kept (.same x) .nil
    · have hsome := rel_of_isSome hx.owner
      simp [hnone, hid'] at hsome
  · obtain ⟨id', hid', htwin⟩ := rel_some_left hx.owner hid
    rcases slotIn_single hleaf hs' with ⟨hnone', -⟩ | ⟨id'', needed', hid'', -, hneeded', hplace'⟩
    · simp [hid'] at hnone'
    · obtain rfl : id' = id'' := by simpa [hid'] using hid''
      have hneeded := k.rightSide h hx hneeded hneeded'
      rcases hplace with ⟨hnone, rfl⟩ | ⟨a, ha, rfl⟩
      · rcases hplace' with ⟨-, rfl⟩ | ⟨b, hb, -⟩
        · exact .kept (.same x) (List.rel_append hneeded (.cons htwin .nil))
        · have hsome := rel_of_isSome hanchor
          simp [hnone, hb] at hsome
      · obtain ⟨b', hb', hab⟩ := rel_some_left hanchor ha
        rcases hplace' with ⟨hnone', -⟩ | ⟨b, hb, rfl⟩
        · simp [hb'] at hnone'
        · obtain rfl : b' = b.val := by simpa [hb'] using hb
          exact .collected hab ((eachLeaf_iff hleaf).2 hx) hneeded

omit k in
theorem eachLeafOf_collectedAt {slots : List (Slot t i)} {slots' : List (Slot u j)}
    (hslots : List.Forall₂ (SlotTwin t u) slots slots') (a : Nat) :
    EachLeafOf (Shared t u) (collectedAt a slots) := by
  induction hslots with
  | nil => trivial
  | @cons slot slot' rest rest' hslot _ ih =>
    cases hslot with
    | kept same twins => exact ih
    | @collected c d x needed needed' twin shared twins =>
      by_cases hca : c.val = a
      · subst hca
        rw [collectedAt_same]
        exact ⟨shared, ih⟩
      · rwa [collectedAt_other hca]

theorem collectedAt_eq {slots : List (Slot t i)} {slots' : List (Slot u j)}
    (hslots : List.Forall₂ (SlotTwin t u) slots slots') {a b : Nat} (h : Twin t u a b) :
    collectedAt a slots = collectedAt b slots' := by
  induction hslots with
  | nil => rfl
  | @cons slot slot' rest rest' hslot _ ih =>
    cases hslot with
    | kept same twins => exact ih
    | @collected c d x needed needed' twin shared twins =>
      by_cases hca : c.val = a
      · subst hca
        obtain rfl := (k.eq_iff twin h).1 rfl
        rw [collectedAt_same, collectedAt_same, ih]
      · have hdb : d.val ≠ b := fun hdb => hca ((k.eq_iff twin h).2 hdb)
        rw [collectedAt_other hca, collectedAt_other hdb, ih]

theorem semiJoinAt {a b : Nat} (h : Twin t u a b) (ha : a ≠ rootId) {leaves : List Condition}
    {inner inner' : Settled} (hinner : SettledTwin t u inner inner')
    (hone : ∀ id ∈ inner.needed, id < t.size ∧ t.anchor? a id = none)
    (hone' : ∀ id ∈ inner'.needed, id < u.size ∧ u.anchor? b id = none) {test test' : Condition}
    (ht : t.semiJoinAt a leaves inner = .ok test) (ht' : u.semiJoinAt b leaves inner' = .ok test') :
    Rearranged test test' := by
  obtain ⟨p, q, r, e, e', hparents⟩ := k.edges h ha
  unfold JoinTree.semiJoinAt at ht ht'
  simp only [e.relation, e.parent] at ht
  simp only [e'.relation, e'.parent] at ht'
  obtain rfl := Except.ok.inj ht
  obtain rfl := Except.ok.inj ht'
  rw [hinner.conditions.length_eq, hparents.tableAlias, h.tableAlias]
  exact r.semiJoin_rearranged _ _ _ _ (k.siblings_joinsWithin h hinner.needed hone hone')
    hinner.conditions

omit k in
theorem mem_iff_of_twins {seen seen' : List Nat} (k : Kin s t u)
    (hseen : List.Forall₂ (Twin t u) seen seen') {a b : Nat} (h : Twin t u a b) :
    a ∈ seen ↔ b ∈ seen' := by
  constructor
  · intro ha
    obtain ⟨b', hb', htwin⟩ := exists_of_mem_left hseen ha
    rwa [k.right_unique h htwin]
  · intro hb
    obtain ⟨a', ha', htwin⟩ := exists_of_mem_right hseen hb
    rwa [k.left_unique h htwin]

/-- Slots that are twins come to the same conditions if the lists collected at twins do. -/
theorem places {settleAt : Below t i → List Condition → Except Failure Settled}
    {settleAt' : Below u j → List Condition → Except Failure Settled}
    (hsettle : ∀ (a : Below t i) (b : Below u j) leaves inner inner', Twin t u a.val b.val →
      EachLeafOf (Shared t u) leaves → settleAt a leaves = .ok inner →
      settleAt' b leaves = .ok inner' → SettledTwin t u inner inner' ∧
        (∀ id ∈ inner.needed, id < t.size ∧ t.anchor? a.val id = none) ∧
        ∀ id ∈ inner'.needed, id < u.size ∧ u.anchor? b.val id = none)
    {seen seen' : List Nat} (hseen : List.Forall₂ (Twin t u) seen seen')
    {slots : List (Slot t i)} {slots' : List (Slot u j)}
    (hslots : List.Forall₂ (SlotTwin t u) slots slots') {r r' : Settled}
    (h : Places settleAt seen slots r) (h' : Places settleAt' seen' slots' r') :
    SettledTwin t u r r' := by
  induction hslots generalizing seen seen' r r' with
  | nil =>
    cases h
    cases h'
    exact ⟨.nil, .nil⟩
  | @cons slot slot' rest rest' hslot hrest ih =>
    cases hslot with
    | kept same twins =>
      cases h with
      | kept tail =>
        cases h' with
        | kept tail' =>
          have hr := ih hseen tail tail'
          exact ⟨.cons same hr.conditions, List.rel_append twins hr.needed⟩
    | @collected a b x needed needed' twin shared twins =>
      have hmem := mem_iff_of_twins k hseen twin
      cases h with
      | again known tail =>
        cases h' with
        | again known' tail' =>
          have hr := ih hseen tail tail'
          exact ⟨hr.conditions, List.rel_append twins hr.needed⟩
        | first fresh' settled' tested' tail' => exact absurd (hmem.1 known) fresh'
      | first fresh settled tested tail =>
        cases h' with
        | again known' tail' => exact absurd (hmem.2 known') fresh
        | first fresh' settled' tested' tail' =>
          have hr := ih (.cons twin hseen) tail tail'
          rw [← k.collectedAt_eq hrest twin] at settled' tested'
          have hleaves : EachLeafOf (Shared t u) (x :: collectedAt a.val rest) :=
            ⟨shared, eachLeafOf_collectedAt hrest a.val⟩
          obtain ⟨hinner, hone, hone'⟩ := hsettle a b _ _ _ twin
            (eachLeafOf_resetFirst (fun c _ hx => hx.withConnective c) hleaves) settled settled'
          have hroot : a.val ≠ rootId := Nat.ne_of_gt (Nat.zero_lt_of_lt a.property.1)
          obtain ⟨p, q, rel, e, e', hparents⟩ := k.edges twin hroot
          refine ⟨.cons (k.semiJoinAt twin hroot hinner hone hone' tested tested')
            hr.conditions, ?_⟩
          rw [e.parent, e'.parent]
          exact List.rel_append (List.rel_append twins (.cons hparents .nil)) hr.needed

/-- A list settled at twins comes to the same conditions. -/
theorem settle (i : Nat) (xs : List Condition) : ∀ j r r', Twin t u i j →
    EachLeafOf (Shared t u) xs → t.settle i xs = .ok r → u.settle j xs = .ok r' →
    SettledTwin t u r r' := by
  induction i, xs using settle_induction t with
  | h i xs ihgroup ihbelow =>
    intro j r r' h hxs hr hr'
    obtain ⟨slots, hslots, hplaces⟩ := settle_eq_ok hr
    obtain ⟨slots', hslots', hplaces'⟩ := settle_eq_ok hr'
    rw [← k.regroup_eq h hxs] at hslots'
    have hleaves := eachLeafOf_iff.1
      (eachLeafOf_regroup (fun c _ hx => hx.withConnective c) t i hxs)
    have htwins : List.Forall₂ (SlotTwin t u) slots slots' := by
      refine forall₂_of_common hslots hslots' fun x hx slot slot' hslot hslot' => ?_
      cases hm : members? x with
      | none => exact k.slotTwin_leaf h hm ((eachLeaf_iff hm).1 (hleaves x hx)) hslot hslot'
      | some members =>
        obtain ⟨c, rfl⟩ := exists_members hm
        obtain ⟨inner, hinner, rfl⟩ := slotIn_eq_ok_group hslot
        obtain ⟨inner', hinner', rfl⟩ := slotIn_eq_ok_group hslot'
        have hsame := ihgroup members (weight_members_regroup hm hx) j inner inner' h
          (hleaves _ hx) hinner hinner'
        exact .kept (.group hsame.conditions) hsame.needed
    refine k.places (fun a b leaves inner inner' hab hleaves hinner hinner' => ?_) .nil htwins
      hplaces hplaces'
    exact ⟨ihbelow a.val a.property.1 a.property.2 leaves b.val inner inner' hab hleaves hinner
      hinner', needed_joined hinner, needed_joined hinner'⟩

theorem exists_requiredBy (hxs : EachLeafOf (Shared t u) xs) {id : Nat}
    (h : id ∈ t.requiredBy xs) : ∃ id' ∈ u.requiredBy xs, Twin t u id id' := by
  obtain ⟨hand, x, hx, hneeds, howner, hnone⟩ := mem_requiredBy.1 h
  have hshared := (eachLeaf_iff (members?_of_owner? howner)).1 (eachLeafOf_iff.1 hxs x hx)
  obtain ⟨id', howner', htwin⟩ := rel_some_left hshared.owner howner
  have hanchor := rel_of_isSome (k.anchor? k.root htwin)
  exact ⟨id',
    mem_requiredBy.2 ⟨hand, x, hx, hneeds, howner', by simpa [hnone] using hanchor⟩, htwin⟩

omit k in
theorem shared_of_sameShape {t' u' : JoinTree} (h : SameShape t t') (h' : SameShape u u') :
    Shared t' u' = Shared t u := by
  have htwin : Twin t' u' = Twin t u :=
    funext fun i => funext fun j => propext (twin_of_sameShape h h')
  funext x
  refine propext ⟨fun hx => ?_, fun hx => ?_⟩
  · exact ⟨by simpa only [h.owner?, h'.owner?, htwin] using hx.owner,
      by simpa only [h.right?, h'.right?, htwin] using hx.right⟩
  · exact ⟨by simpa only [h.owner?, h'.owner?, htwin] using hx.owner,
      by simpa only [h.right?, h'.right?, htwin] using hx.right⟩

theorem settleRoot (hxs : EachLeafOf (Shared t u) xs) {ys ys' : List Condition} {t' u' : JoinTree}
    (h : t.settleRoot xs = .ok (ys, t')) (h' : u.settleRoot xs = .ok (ys', u')) :
    AllRearranged ys ys' ∧ ∃ needed needed', List.Forall₂ (Twin t u) needed needed' ∧
      t' = (t.requireAll (t.requiredBy xs)).joinAll needed ∧
      u' = (u.requireAll (u.requiredBy xs)).joinAll needed' := by
  obtain ⟨r, hr, rfl, rfl⟩ := settleRoot_eq_ok h
  obtain ⟨r', hr', rfl, rfl⟩ := settleRoot_eq_ok h'
  have hshape := sameShape_requireAll t (t.requiredBy xs)
  have hshape' := sameShape_requireAll u (u.requiredBy xs)
  have k' := k.of_sameShape hshape hshape'
  rw [← shared_of_sameShape hshape hshape'] at hxs
  have hsame := k'.settle rootId xs rootId r r' k'.root hxs hr hr'
  refine ⟨hsame.conditions, r.needed, r'.needed, ?_, rfl, rfl⟩
  exact hsame.needed.imp fun _ _ htwin => (twin_of_sameShape hshape hshape').1 htwin

end Kin

end PathQuery.JoinTree
