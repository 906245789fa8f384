import PathQuery.Proofs.JoinTree.Meaning

/-!
Conditions joined by a connective. Under OR a row meets two conditions if it meets one of them.
Under AND it meets both, and that is all AND asks for if the ways to the two part behind the first
relation to many at the latest; where they share a second one, the rows of the first are asked for
one that has both to show.
-/

set_option autoImplicit false

namespace PathQuery.JoinTree

variable {E : Engine} {t : JoinTree} {db : Database E} {scalar : Database.Scalar E} {scope : Nat}
  {rows : Nat → Tuple E} {xs ys : List Condition} {x y : Condition}

theorem leavesAt_append (t : JoinTree) (scope a : Nat) (xs ys : List Condition) :
    t.leavesAt scope a (xs ++ ys) = t.leavesAt scope a xs ++ t.leavesAt scope a ys := by
  simp [leavesAt]

theorem leavesAt_subset (h : xs ⊆ ys) (scope a : Nat) :
    t.leavesAt scope a xs ⊆ t.leavesAt scope a ys := by
  intro x hx
  obtain ⟨y, hy, ha, rfl⟩ := mem_leavesAt.1 hx
  exact mem_leavesAt.2 ⟨y, h hy, ha, rfl⟩

theorem leavesAt_ne_nil_of_subset (h : xs ⊆ ys) {a : Nat} (hsome : t.leavesAt scope a xs ≠ []) :
    t.leavesAt scope a ys ≠ [] := by
  obtain ⟨x, hx⟩ := List.exists_mem_of_ne_nil _ hsome
  exact List.ne_nil_of_mem (leavesAt_subset h scope a hx)

theorem LinkedHold.of_subset {a : Nat} (h : t.LinkedHold db scalar a ys rows) (hsub : xs ⊆ ys) :
    t.LinkedHold db scalar a xs rows := by
  -- The nodes below a node have larger numbers, so the induction is on the distance to the last.
  induction hn : t.size - a using Nat.strongRecOn generalizing a xs ys rows with
  | ind n ih =>
    obtain ⟨hnear, hfar⟩ := linkedHold_iff.1 h
    refine linkedHold_iff.2 ⟨fun x hx hjoined => hnear x (hsub hx) hjoined, ?_⟩
    intro b hlt hsize hsome
    obtain ⟨row, hrow, hbelow⟩ := hfar b hlt hsize (leavesAt_ne_nil_of_subset hsub hsome)
    exact ⟨row, hrow, ih (t.size - b) (by omega) hbelow (leavesAt_subset hsub a b) rfl⟩

theorem RunHolds.of_subset (h : t.RunHolds db scalar scope rows ys) (hsub : xs ⊆ ys) :
    t.RunHolds db scalar scope rows xs := by
  intro m hm
  cases hm with
  | near hx hleaf hjoined => exact h _ (.near (hsub hx) hleaf hjoined)
  | group hx => exact h _ (.group (hsub hx))
  | far hsome =>
    have hall := h _ (.far (leavesAt_ne_nil_of_subset hsub hsome))
    exact LinkedHold.of_subset hall (leavesAt_subset hsub scope _)

/-- The ways to two conditions share no two relations to many, one behind the other. -/
def Parted (t : JoinTree) (scope : Nat) (x y : Condition) : Prop :=
  ∀ a b, t.anchorAt? scope x = some a → t.anchorAt? scope y = some a →
    t.anchorAt? a x = some b → t.anchorAt? a y ≠ some b

/-- Conditions that share no further relation to many are asked of linked rows apart. -/
theorem linkedHold_append {a : Nat}
    (hapart : ∀ x ∈ xs, ∀ y ∈ ys, ∀ b, t.anchorAt? a x = some b → t.anchorAt? a y ≠ some b) :
    t.LinkedHold db scalar a (xs ++ ys) rows ↔
      t.LinkedHold db scalar a xs rows ∧ t.LinkedHold db scalar a ys rows := by
  constructor
  · intro h
    exact ⟨h.of_subset (List.subset_append_left xs ys),
      h.of_subset (List.subset_append_right xs ys)⟩
  · rintro ⟨hxs, hys⟩
    obtain ⟨hnear, hfar⟩ := linkedHold_iff.1 hxs
    obtain ⟨hnear', hfar'⟩ := linkedHold_iff.1 hys
    refine linkedHold_iff.2 ⟨fun x hx hjoined => ?_, fun b hlt hsize hsome => ?_⟩
    · rcases List.mem_append.1 hx with hx | hx
      · exact hnear x hx hjoined
      · exact hnear' x hx hjoined
    · rw [leavesAt_append] at hsome ⊢
      by_cases hleft : t.leavesAt a b xs = []
      · rw [hleft, List.nil_append] at hsome ⊢
        exact hfar' b hlt hsize hsome
      · have hright : t.leavesAt a b ys = [] := by
          by_contra hright
          obtain ⟨x, hx, hb⟩ := exists_anchorAt?_of_leavesAt hleft
          obtain ⟨y, hy, hb'⟩ := exists_anchorAt?_of_leavesAt hright
          exact hapart x hx y hy b hb hb'
        rw [hright, List.append_nil] at hsome ⊢
        exact hfar b hlt hsize hsome

/-- A run asks for what its halves ask for, if the ways to them part. -/
theorem runHolds_append (hparted : ∀ x ∈ xs, ∀ y ∈ ys, t.Parted scope x y) :
    t.RunHolds db scalar scope rows (xs ++ ys) ↔
      t.RunHolds db scalar scope rows xs ∧ t.RunHolds db scalar scope rows ys := by
  constructor
  · intro h
    exact ⟨h.of_subset (List.subset_append_left xs ys),
      h.of_subset (List.subset_append_right xs ys)⟩
  · rintro ⟨hxs, hys⟩ m hm
    cases hm with
    | near hx hleaf hjoined =>
      rcases List.mem_append.1 hx with hx | hx
      · exact hxs _ (.near hx hleaf hjoined)
      · exact hys _ (.near hx hleaf hjoined)
    | group hx =>
      rcases List.mem_append.1 hx with hx | hx
      · exact hxs _ (.group hx)
      · exact hys _ (.group hx)
    | @far a hsome =>
      change t.LinkedHold db scalar a (t.leavesAt scope a (xs ++ ys)) rows
      have hall : ∀ zs, t.RunHolds db scalar scope rows zs → t.leavesAt scope a zs ≠ [] →
          t.LinkedHold db scalar a (t.leavesAt scope a zs) rows :=
        fun zs hzs hsome => hzs _ (.far hsome)
      rw [leavesAt_append] at hsome ⊢
      by_cases hleft : t.leavesAt scope a xs = []
      · rw [hleft, List.nil_append] at hsome ⊢
        exact hall ys hys hsome
      by_cases hright : t.leavesAt scope a ys = []
      · rw [hright, List.append_nil]
        exact hall xs hxs hleft
      refine (linkedHold_append fun x hx y hy b => ?_).2 ⟨hall xs hxs hleft, hall ys hys hright⟩
      obtain ⟨x', hx', ha, rfl⟩ := mem_leavesAt.1 hx
      obtain ⟨y', hy', ha', rfl⟩ := mem_leavesAt.1 hy
      rw [anchorAt?_withConnective, anchorAt?_withConnective]
      exact hparted x' hx' y' hy' a b ha ha'

theorem leafHolds_compare {a : String} {id : Nat} (h : t.idOfAlias? a = some id) {c : Connective}
    {names : List String} {op : Operator} {v : Value} :
    t.LeafHolds db scalar rows (.compare c a names op v) ↔
      E.compare op (names.map (rows id)) v = .holds := by
  simp [LeafHolds, Database.Lets, Database.eval, JoinTree.scene, h]

theorem leavesAt_of_forall {a : Nat} (ha : ∀ x ∈ xs, t.anchorAt? scope x = some a) :
    t.leavesAt scope a xs = xs.map (·.withConnective .and) := by
  rw [leavesAt, List.filter_eq_self.2 fun x hx => decide_eq_true (ha x hx)]

theorem eq_of_leavesAt_ne_nil {a b : Nat} (ha : ∀ x ∈ xs, t.anchorAt? scope x = some a)
    (hsome : t.leavesAt scope b xs ≠ []) : b = a := by
  obtain ⟨x, hx, hb⟩ := exists_anchorAt?_of_leavesAt hsome
  simpa [ha x hx] using hb.symm

theorem runHolds_far {a : Nat} (hne : xs ≠ []) (ha : ∀ x ∈ xs, t.anchorAt? scope x = some a) :
    t.RunHolds db scalar scope rows xs ↔
      t.LinkedHold db scalar a (xs.map (·.withConnective .and)) rows := by
  rw [← leavesAt_of_forall ha]
  constructor
  · intro h
    exact h _ (.far (by simpa [leavesAt_of_forall ha] using hne))
  · intro h m hm
    cases hm with
    | near hx _ hjoined => simp [ha _ hx] at hjoined
    | group hx => simpa using ha _ hx
    | far hsome =>
      obtain rfl := eq_of_leavesAt_ne_nil ha hsome
      exact h

theorem linkedHold_near {a : Nat} (hjoined : ∀ x ∈ xs, t.anchorAt? a x = none) :
    t.LinkedHold db scalar a xs rows ↔ ∀ x ∈ xs, ∃ row ∈ t.rowsAt db rows a,
      t.LeafHolds db scalar (t.extend db rows a row) x := by
  rw [linkedHold_iff]
  constructor
  · exact fun h x hx => h.1 x hx (hjoined x hx)
  · refine fun h => ⟨fun x hx _ => h x hx, fun b _ _ hsome => ?_⟩
    obtain ⟨x, hx, hb⟩ := exists_anchorAt?_of_leavesAt hsome
    simp [hjoined x hx] at hb

theorem linkedHold_far {a b : Nat} (hne : xs ≠ []) (hb : ∀ x ∈ xs, t.anchorAt? a x = some b) :
    t.LinkedHold db scalar a xs rows ↔ ∃ row ∈ t.rowsAt db rows a,
      t.LinkedHold db scalar b (xs.map (·.withConnective .and)) (t.extend db rows a row) := by
  rw [linkedHold_iff, ← leavesAt_of_forall hb]
  constructor
  · rintro ⟨-, hfar⟩
    obtain ⟨x, hx⟩ := List.exists_mem_of_ne_nil _ hne
    have hbounds := bounds_of_anchorAt? (hb x hx)
    exact hfar b hbounds.1 hbounds.2 (by simpa [leavesAt_of_forall hb] using hne)
  · refine fun h => ⟨fun x hx hnone => by simp [hb x hx] at hnone, fun c _ _ hsome => ?_⟩
    obtain rfl := eq_of_leavesAt_ne_nil hb hsome
    exact h

theorem holds_single : t.Holds db scalar scope rows [x] ↔ t.RunHolds db scalar scope rows [x] :=
  holds_of_and (by simp)

theorem holds_single_withConnective {c : Connective} :
    t.Holds db scalar scope rows [x.withConnective c] ↔ t.Holds db scalar scope rows [x] := by
  rw [holds_single, holds_single]
  exact runHolds_congr (by simp)

theorem holds_pair_of_and : t.Holds db scalar scope rows [x, y.withConnective .and] ↔
    t.RunHolds db scalar scope rows ([x] ++ [y]) := by
  rw [holds_of_and (by simp)]
  exact runHolds_congr (by simp)

theorem Holds.both (h : t.Holds db scalar scope rows [x, y.withConnective .and]) :
    t.Holds db scalar scope rows [x] ∧ t.Holds db scalar scope rows [y] := by
  rw [holds_pair_of_and] at h
  rw [holds_single, holds_single]
  exact ⟨h.of_subset (by simp), h.of_subset (by simp)⟩

/-- AND asks for no more, if the ways to the conditions part. -/
theorem holds_and (hparted : t.Parted scope x y) :
    t.Holds db scalar scope rows [x, y.withConnective .and] ↔
      t.Holds db scalar scope rows [x] ∧ t.Holds db scalar scope rows [y] := by
  rw [holds_pair_of_and, holds_single, holds_single]
  refine runHolds_append fun x' hx y' hy => ?_
  rwa [List.mem_singleton.1 hx, List.mem_singleton.1 hy]

theorem holds_or : t.Holds db scalar scope rows [x, y.withConnective .or] ↔
    t.Holds db scalar scope rows [x] ∨ t.Holds db scalar scope rows [y] := by
  rw [holds_of_or (by simp), ← holds_single_withConnective (x := y) (c := .or), holds_single,
    holds_single]
  simp

end PathQuery.JoinTree
