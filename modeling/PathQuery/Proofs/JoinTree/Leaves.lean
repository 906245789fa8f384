import PathQuery.Proofs.JoinTree.Aliases
import PathQuery.Proofs.JoinTree.Placed
import PathQuery.Proofs.JoinTree.Reading

/-!
Conditions on columns of nodes, and the slots that they find: which node each of them is about, what
else it speaks of, and where it is collected.
-/

set_option autoImplicit false

namespace PathQuery.JoinTree

variable {t : JoinTree}

section

variable (t : JoinTree)

mutual

/-- The condition compares columns of nodes of the tree. -/
def IsNormal : Condition → Prop
  | .compare _ a _ _ _ => t.idOfAlias? a ≠ none
  | .group _ members => AreNormal members
  | .existence _ _ _ _ => False
  | .membership _ column _ _ => t.idOfAlias? column.tableAlias ≠ none
  | .columns _ left _ right =>
    t.idOfAlias? left.tableAlias ≠ none ∧ t.idOfAlias? right.tableAlias ≠ none
  | .subquery _ _ _ _ _ => False
termination_by structural x => x

def AreNormal : List Condition → Prop
  | [] => True
  | x :: rest => IsNormal x ∧ AreNormal rest
termination_by structural xs => xs

end

def right? : Condition → Option Nat
  | .columns _ _ _ right => t.idOfAlias? right.tableAlias
  | _ => none

end

theorem areNormal_iff {xs : List Condition} : t.AreNormal xs ↔ ∀ x ∈ xs, t.IsNormal x := by
  induction xs with
  | nil => simp [AreNormal]
  | cons x xs ih => rw [AreNormal, ih, List.forall_mem_cons]

@[simp] theorem isNormal_withConnective {c : Connective} {x : Condition} :
    t.IsNormal (x.withConnective c) ↔ t.IsNormal x := by
  cases x <;> rfl

@[simp] theorem members?_withConnective (c : Connective) (x : Condition) :
    members? (x.withConnective c) = members? x := by
  cases x <;> rfl

@[simp] theorem owner?_withConnective (t : JoinTree) (c : Connective) (x : Condition) :
    t.owner? (x.withConnective c) = t.owner? x := by
  cases x <;> rfl

@[simp] theorem right?_withConnective (t : JoinTree) (c : Connective) (x : Condition) :
    t.right? (x.withConnective c) = t.right? x := by
  cases x <;> rfl

@[simp] theorem anchorAt?_withConnective (t : JoinTree) (scope : Nat) (c : Connective)
    (x : Condition) : t.anchorAt? scope (x.withConnective c) = t.anchorAt? scope x := by
  rw [anchorAt?, owner?_withConnective, anchorAt?]

@[simp] theorem anchorAt?_group (t : JoinTree) (scope : Nat) (c : Connective)
    (members : List Condition) : t.anchorAt? scope (.group c members) = none :=
  rfl

theorem anchorAt?_of_owner {x : Condition} {id : Nat} (h : t.owner? x = some id) (scope : Nat) :
    t.anchorAt? scope x = t.anchor? scope id := by
  rw [anchorAt?, h, Option.bind_some]

theorem exists_owner {x : Condition} (hx : t.IsNormal x) (hleaf : members? x = none) :
    ∃ id, t.owner? x = some id := by
  cases x with
  | group c members => simp [members?] at hleaf
  | existence c negated f inner => exact hx.elim
  | subquery c f inner op v => exact hx.elim
  | compare c a names op v => exact Option.ne_none_iff_exists'.1 hx
  | membership c column values negated => exact Option.ne_none_iff_exists'.1 hx
  | columns c left op right => exact Option.ne_none_iff_exists'.1 hx.1

theorem members?_of_owner? {x : Condition} {id : Nat} (h : t.owner? x = some id) :
    members? x = none := by
  cases x with
  | group c members => cases h
  | _ => rfl

section Rows

variable {E : Engine} {db : Database E} {scalar : Database.Scalar E}

theorem scene_eq {scene : Scene E} {rows : Nat → Tuple E} {a : String} {id : Nat}
    (hid : t.idOfAlias? a = some id) (h : scene (t.node id).tableAlias = rows id) :
    scene a = t.scene rows a := by
  rw [(alias_of_idOfAlias? hid).2] at h
  simp [JoinTree.scene, hid, h]

theorem lets_leaf {x : Condition} (hx : t.IsNormal x) (hleaf : members? x = none)
    {scene : Scene E} {rows : Nat → Tuple E}
    (h : ∀ id, t.owner? x = some id ∨ t.right? x = some id →
      scene (t.node id).tableAlias = rows id) :
    db.Lets scalar scene x ↔ t.LeafHolds db scalar rows x := by
  cases x with
  | group c members => simp [members?] at hleaf
  | existence c negated f inner => exact hx.elim
  | subquery c f inner op v => exact hx.elim
  | compare c a names op v =>
    obtain ⟨id, hid⟩ := Option.ne_none_iff_exists'.1 hx
    simp only [LeafHolds, Database.Lets, Database.eval, scene_eq hid (h id (.inl hid))]
  | membership c column values negated =>
    obtain ⟨id, hid⟩ := Option.ne_none_iff_exists'.1 hx
    simp only [LeafHolds, Database.Lets, Database.eval, Scene.cell, scene_eq hid (h id (.inl hid))]
  | columns c left op right =>
    obtain ⟨id, hid⟩ := Option.ne_none_iff_exists'.1 hx.1
    obtain ⟨id', hid'⟩ := Option.ne_none_iff_exists'.1 hx.2
    simp only [LeafHolds, Database.Lets, Database.eval, Scene.cell, scene_eq hid (h id (.inl hid)),
      scene_eq hid' (h id' (.inr hid'))]

@[simp] theorem leafHolds_withConnective {c : Connective} {x : Condition} {rows : Nat → Tuple E} :
    t.LeafHolds db scalar rows (x.withConnective c) ↔ t.LeafHolds db scalar rows x :=
  Database.lets_withConnective

end Rows

/-- The right side of a comparison is needed outside, or reached through the same relation to many
as the left one. -/
theorem rightSide_cases {scope : Nat} {anchor : Option Nat} {x : Condition} {needed : List Nat}
    (h : t.rightSide scope anchor x = .ok needed) : (t.right? x = none ∧ needed = []) ∨
      ∃ id, t.right? x = some id ∧ id < t.size ∧ ((t.anchor? scope id = none ∧ needed = [id]) ∨
        ∃ a, anchor = some a ∧ t.anchor? scope id = some a ∧ needed = []) := by
  cases x with
  | columns c left op right =>
    rw [rightSide] at h
    cases hid : t.idOfAlias? right.tableAlias with
    | none =>
      simp only [hid] at h
      exact .inl ⟨hid, (Except.ok.inj h).symm⟩
    | some id =>
      simp only [hid] at h
      refine .inr ⟨id, hid, idOfAlias?_lt hid, ?_⟩
      split at h
      · next hnone => exact .inl ⟨hnone, (Except.ok.inj h).symm⟩
      · simp at h
      · next a b hb =>
        split at h
        · next hab => exact .inr ⟨a, rfl, by rw [hb, hab], (Except.ok.inj h).symm⟩
        · simp at h
  | _ => exact .inl ⟨rfl, (Except.ok.inj h).symm⟩

theorem rightSide_eq_ok {scope : Nat} {anchor : Option Nat} {x : Condition} {needed : List Nat}
    (h : t.rightSide scope anchor x = .ok needed) :
    (∀ id ∈ needed, t.right? x = some id ∧ id < t.size ∧ t.anchor? scope id = none) ∧
      ∀ id, t.right? x = some id →
        id ∈ needed ∨ ∃ a, anchor = some a ∧ t.anchor? scope id = some a := by
  rcases rightSide_cases h with ⟨hnone, rfl⟩ | ⟨id, hid, hlt, ⟨hnone, rfl⟩ | ⟨a, ha, hanchor, rfl⟩⟩
  · simp [hnone]
  · simp [hid, hlt, hnone]
  · simp [hid, ha, hanchor]

/-- The slot of a condition that is no group: a SELECT stays, and so does a comparison whose node is
reached by relations to one row. -/
theorem slotIn_single {scope : Nat} {x : Condition} {slot : Slot t scope}
    (hleaf : members? x = none) (h : t.slotIn scope x = .ok slot) :
    (t.owner? x = none ∧ slot = .kept x []) ∨
      ∃ id needed, t.owner? x = some id ∧ id < t.size ∧
        t.rightSide scope (t.anchorAt? scope x) x = .ok needed ∧
        ((t.anchorAt? scope x = none ∧ slot = .kept x (needed ++ [id])) ∨
          ∃ a : Below t scope, t.anchorAt? scope x = some a.val ∧
            slot = .collected a x needed) := by
  cases hid : t.owner? x with
  | none =>
    rw [slotIn_of_single scope hleaf, slotOf_of_none scope hid] at h
    exact .inl ⟨rfl, (Except.ok.inj h).symm⟩
  | some id =>
    have hanchor := anchorAt?_of_owner hid scope
    rw [slotIn_of_single scope hleaf, slotOf_of_some scope hid, slotAt, bind_eq_ok_iff] at h
    obtain ⟨needed, hneeded, h⟩ := h
    obtain rfl := pure_eq_ok_iff.1 h
    refine .inr ⟨id, needed, rfl, owner?_lt hid, by rwa [hanchor], ?_⟩
    have hval := t.anchorOf_val scope id (owner?_lt hid)
    rw [hanchor]
    cases ha : t.anchorOf scope id (owner?_lt hid) with
    | none => exact .inl ⟨by simpa [ha] using hval.symm, rfl⟩
    | some a => exact .inr ⟨a, by simpa [ha] using hval.symm, rfl⟩

theorem slotIn_leaf {scope : Nat} {x : Condition} {slot : Slot t scope} (hx : t.IsNormal x)
    (hleaf : members? x = none) (h : t.slotIn scope x = .ok slot) :
    ∃ id needed, t.owner? x = some id ∧ id < t.size ∧
      t.rightSide scope (t.anchorAt? scope x) x = .ok needed ∧
      ((t.anchorAt? scope x = none ∧ slot = .kept x (needed ++ [id])) ∨
        ∃ a : Below t scope, t.anchorAt? scope x = some a.val ∧ slot = .collected a x needed) := by
  rcases slotIn_single hleaf h with ⟨hnone, -⟩ | hsome
  · obtain ⟨id, hid⟩ := exists_owner hx hleaf
    simp [hnone] at hid
  · exact hsome

theorem slotIn_eq_ok_group {scope : Nat} {c : Connective} {members : List Condition}
    {slot : Slot t scope} (h : t.slotIn scope (.group c members) = .ok slot) :
    ∃ r, t.settle scope members = .ok r ∧ slot = .kept (.group c r.conditions) r.needed := by
  rw [slotIn_group, bind_eq_ok_iff] at h
  obtain ⟨r, hr, h⟩ := h
  exact ⟨r, hr, (pure_eq_ok_iff.1 h).symm⟩

theorem settle_eq_ok {scope : Nat} {xs : List Condition} {r : Settled}
    (h : t.settle scope xs = .ok r) :
    ∃ slots, List.Forall₂ (fun x slot => t.slotIn scope x = .ok slot) (t.regroup scope xs) slots ∧
      Places (fun a leaves => t.settle a.val leaves) [] slots r := by
  rw [settle_eq, bind_eq_ok_iff] at h
  obtain ⟨slots, hslots, hplace⟩ := h
  exact ⟨slots, mapM_eq_ok_iff.1 hslots, places_of_place hplace⟩

theorem connective_slotIn {scope : Nat} {x : Condition} {slot : Slot t scope}
    (h : t.slotIn scope x = .ok slot) : slot.connective = x.connective := by
  cases hm : members? x with
  | none =>
    obtain ⟨-, rfl⟩ | ⟨id, needed, -, -, -, ⟨-, rfl⟩ | ⟨a, -, rfl⟩⟩ := slotIn_single hm h <;> rfl
  | some members =>
    obtain ⟨c, rfl⟩ := exists_members hm
    obtain ⟨r, -, rfl⟩ := slotIn_eq_ok_group h
    rfl

theorem collectedAt_slots {scope : Nat} {xs : List Condition} {slots : List (Slot t scope)}
    (h : List.Forall₂ (fun x slot => t.slotIn scope x = .ok slot) xs slots) (a : Nat) :
    collectedAt a slots = xs.filter fun x => t.anchorAt? scope x = some a := by
  induction h with
  | nil => rfl
  | @cons x slot xs slots hslot hrest ih =>
    cases hm : members? x with
    | none =>
      obtain ⟨hnone, rfl⟩ | ⟨id, needed, -, -, -, ⟨hnone, rfl⟩ | ⟨b, hb, rfl⟩⟩ :=
        slotIn_single hm hslot
      · rw [collectedAt_kept, ih, List.filter_cons_of_neg (by simp [anchorAt?, hnone])]
      · rw [collectedAt_kept, ih, List.filter_cons_of_neg (by simp [hnone])]
      · by_cases hba : b.val = a
        · subst hba
          rw [collectedAt_same, ih, List.filter_cons_of_pos (by simp [hb])]
        · rw [collectedAt_other hba, ih, List.filter_cons_of_neg (by simp [hb, hba])]
    | some members =>
      obtain ⟨c, rfl⟩ := exists_members hm
      obtain ⟨r, -, rfl⟩ := slotIn_eq_ok_group hslot
      rw [collectedAt_kept, ih, List.filter_cons_of_neg (by simp)]

end PathQuery.JoinTree
