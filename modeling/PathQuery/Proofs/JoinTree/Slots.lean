import PathQuery.JoinTree.SemiJoins

/-!
How a list of conditions is settled: each condition of the regrouped list finds its slot, and the
slots are put in place. Settling goes on in smaller lists at the same node, and at nodes below it.
-/

set_option autoImplicit false

namespace PathQuery.JoinTree

theorem anchorOf_val (t : JoinTree) (scope owner : Nat) (h : owner < t.size) :
    (t.anchorOf scope owner h).map (·.val) = t.anchor? scope owner := by
  unfold anchorOf
  split
  · next a ha => exact ha.symm
  · next ha => exact ha.symm

theorem slotOf_of_none {t : JoinTree} {x : Condition} (scope : Nat) (h : t.owner? x = none) :
    t.slotOf scope x = .ok (.kept x []) := by
  unfold slotOf
  split
  · rfl
  · simp_all

def slotAt (t : JoinTree) (scope owner : Nat) (h : owner < t.size) (x : Condition) :
    Except Failure (Slot t scope) := do
  let needed ← t.rightSide scope (t.anchor? scope owner) x
  return match t.anchorOf scope owner h with
    | none => .kept x (needed ++ [owner])
    | some a => .collected a x needed

theorem slotOf_of_some {t : JoinTree} {x : Condition} (scope : Nat) {owner : Nat}
    (h : t.owner? x = some owner) :
    t.slotOf scope x = t.slotAt scope owner (owner?_lt h) x := by
  unfold slotOf slotAt
  split
  · simp_all
  · next owner' h' =>
    obtain rfl : owner' = owner := by simpa [h] using h'.symm
    exact congrArg (fun a => t.rightSide scope a x >>= _) (t.anchorOf_val scope owner' _)

theorem exists_members {x : Condition} {members : List Condition}
    (h : members? x = some members) : ∃ c, x = .group c members := by
  cases x with
  | group c ms =>
    obtain rfl := Option.some.inj h
    exact ⟨c, rfl⟩
  | _ => simp [members?] at h

def slotIn (t : JoinTree) (scope : Nat) (x : Condition) : Except Failure (Slot t scope) :=
  match members? x with
  | some members => do
    let r ← t.settle scope members
    return .kept (.group x.connective r.conditions) r.needed
  | none => t.slotOf scope x

theorem slotIn_group (t : JoinTree) (scope : Nat) (c : Connective) (members : List Condition) :
    t.slotIn scope (.group c members) =
      t.settle scope members >>= fun r => pure (.kept (.group c r.conditions) r.needed) :=
  rfl

theorem slotIn_of_single {t : JoinTree} {x : Condition} (scope : Nat) (h : members? x = none) :
    t.slotIn scope x = t.slotOf scope x := by
  simp [slotIn, h]

theorem slotIn_of_joined {t : JoinTree} {scope id : Nat} {x : Condition} {needed : List Nat}
    (hleaf : members? x = none) (hid : t.owner? x = some id) (ha : t.anchor? scope id = none)
    (hright : t.rightSide scope none x = .ok needed) :
    t.slotIn scope x = .ok (.kept x (needed ++ [id])) := by
  have hval := t.anchorOf_val scope id (owner?_lt hid)
  rw [ha, Option.map_eq_none_iff] at hval
  rw [slotIn_of_single scope hleaf, slotOf_of_some scope hid, slotAt, ha, hright, hval]
  rfl

theorem slotIn_of_anchored {t : JoinTree} {scope id : Nat} {x : Condition} {needed : List Nat}
    (hleaf : members? x = none) (hid : t.owner? x = some id) (a : Below t scope)
    (ha : t.anchor? scope id = some a.val)
    (hright : t.rightSide scope (some a.val) x = .ok needed) :
    t.slotIn scope x = .ok (.collected a x needed) := by
  have hval := t.anchorOf_val scope id (owner?_lt hid)
  rw [ha, Option.map_eq_some_iff] at hval
  obtain ⟨b, hb, hab⟩ := hval
  obtain rfl := Subtype.ext hab
  rw [slotIn_of_single scope hleaf, slotOf_of_some scope hid, slotAt, ha, hright, hb]
  rfl

theorem settle_eq (t : JoinTree) (scope : Nat) (xs : List Condition) :
    t.settle scope xs =
      (t.regroup scope xs).mapM (t.slotIn scope) >>=
        t.place (fun a leaves => t.settle a.val leaves) [] := by
  rw [settle]
  congr 1
  conv => rhs; rw [← List.attach_map_subtype_val (t.regroup scope xs), List.mapM_map]
  congr 1
  funext ⟨x, _⟩
  simp only [Function.comp, slotIn]
  split
  · next members h => simp only [h]
  · next h => simp only [h]

/-- To prove a property of all lists at all nodes, assume it of smaller lists at the node and of
all lists at nodes below. -/
theorem settle_induction (t : JoinTree) {motive : Nat → List Condition → Prop}
    (h : ∀ scope xs, (∀ ms, weight ms < weight xs → motive scope ms) →
      (∀ a, scope < a → a < t.size → ∀ leaves, motive a leaves) → motive scope xs) :
    ∀ scope xs, motive scope xs := by
  intro scope
  induction hn : t.size - scope using Nat.strongRecOn generalizing scope with
  | ind n ihn =>
    intro xs
    induction hw : weight xs using Nat.strongRecOn generalizing xs with
    | ind w ihw =>
      refine h scope xs (fun ms hms => ihw _ (by omega) ms rfl) fun a ha hlt leaves => ?_
      exact ihn (t.size - a) (by omega) a rfl leaves

end PathQuery.JoinTree
