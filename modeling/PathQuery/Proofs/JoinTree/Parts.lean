import PathQuery.Proofs.JoinTree.Leaves

/-!
What a list of conditions comes to at a scope: a part for each condition that stays there, one for
each group, and one for the conditions below each relation to many. A list joined by AND asks for
all of its parts; one joined by OR asks for one, and then the members of a part stand by themselves.
-/

set_option autoImplicit false

namespace PathQuery.JoinTree

variable {t : JoinTree}

theorem mem_leavesAt {scope a : Nat} {xs : List Condition} {x : Condition} :
    x ∈ t.leavesAt scope a xs ↔
      ∃ y ∈ xs, t.anchorAt? scope y = some a ∧ y.withConnective .and = x := by
  simp [leavesAt, and_assoc]

theorem leavesAt_eq (t : JoinTree) (scope a : Nat) (xs : List Condition) :
    t.leavesAt scope a xs =
      (xs.map (·.withConnective .and)).filter fun x => t.anchorAt? scope x = some a := by
  rw [List.filter_map, leavesAt]
  congr 2
  funext x
  simp

theorem leavesAt_congr {xs ys : List Condition}
    (h : xs.map (·.withConnective .and) = ys.map (·.withConnective .and)) (scope a : Nat) :
    t.leavesAt scope a xs = t.leavesAt scope a ys := by
  rw [leavesAt_eq, leavesAt_eq, h]

theorem leavesAt_single_of_eq {scope a : Nat} {x : Condition} (h : t.anchorAt? scope x = some a) :
    t.leavesAt scope a [x] = [x.withConnective .and] := by
  simp [leavesAt, h]

theorem leavesAt_single_ne_nil {scope a : Nat} {x : Condition} :
    t.leavesAt scope a [x] ≠ [] ↔ t.anchorAt? scope x = some a := by
  by_cases h : t.anchorAt? scope x = some a <;> simp [leavesAt, h]

theorem bounds_of_anchorAt? {scope a : Nat} {x : Condition} (h : t.anchorAt? scope x = some a) :
    scope < a ∧ a < t.size := by
  obtain ⟨id, hid, ha⟩ := Option.bind_eq_some_iff.1 h
  have hbounds := anchor?_bounds ha
  exact ⟨hbounds.1, Nat.lt_of_le_of_lt hbounds.2 (owner?_lt hid)⟩

theorem exists_anchorAt?_of_leavesAt {scope a : Nat} {xs : List Condition}
    (h : t.leavesAt scope a xs ≠ []) : ∃ x ∈ xs, t.anchorAt? scope x = some a := by
  obtain ⟨x, hx⟩ := List.exists_mem_of_ne_nil _ h
  obtain ⟨y, hy, ha, -⟩ := mem_leavesAt.1 hx
  exact ⟨y, hy, ha⟩

section

variable {E : Engine} (t : JoinTree) (db : Database E) (scalar : Database.Scalar E)

/-- Conditions below a relation to many: under AND they are taken together, under OR one of them is
taken by itself. -/
def Taken (c : Connective) (a : Nat) (leaves : List Condition) (rows : Nat → Tuple E) : Prop :=
  match c with
  | .and => t.LinkedHold db scalar a leaves rows
  | .or => ∃ x ∈ leaves, t.LinkedHold db scalar a [x] rows

/-- The parts of a list; `inner` says what groups come to. -/
inductive Part (inner : List Condition → (Nat → Tuple E) → Prop) (c : Connective) (scope : Nat)
    (xs : List Condition) : ((Nat → Tuple E) → Prop) → Prop
  | near {x : Condition} (mem : x ∈ xs) (leaf : members? x = none)
    (joined : t.anchorAt? scope x = none) :
    Part inner c scope xs fun rows => t.LeafHolds db scalar rows x
  | group {d : Connective} {members : List Condition} (mem : .group d members ∈ xs) :
    Part inner c scope xs (inner members)
  | far {a : Nat} (some : t.leavesAt scope a xs ≠ []) :
    Part inner c scope xs (t.Taken db scalar c a (t.leavesAt scope a xs))

end

variable {E : Engine} {db : Database E} {scalar : Database.Scalar E}
  {inner : List Condition → (Nat → Tuple E) → Prop} {scope : Nat} {xs : List Condition}

theorem Part.congr {c : Connective} {ys : List Condition} {m : (Nat → Tuple E) → Prop}
    (h : xs.map (·.withConnective .and) = ys.map (·.withConnective .and))
    (hm : t.Part db scalar inner c scope xs m) : t.Part db scalar inner c scope ys m := by
  have hmem : ∀ x ∈ xs, ∃ y ∈ ys, y.withConnective .and = x.withConnective .and := by
    intro x hx
    have hx' := List.mem_map_of_mem (f := (·.withConnective .and)) hx
    rw [h] at hx'
    exact List.mem_map.1 hx'
  cases hm with
  | @near x hx hleaf hjoined =>
    obtain ⟨y, hy, hxy⟩ := hmem x hx
    have hsame : (fun rows => t.LeafHolds db scalar rows x) =
        fun rows => t.LeafHolds db scalar rows y := by
      funext rows
      rw [← leafHolds_withConnective (c := .and), ← hxy, leafHolds_withConnective]
    rw [hsame]
    refine .near hy ?_ ?_
    · rw [← members?_withConnective .and, hxy, members?_withConnective, hleaf]
    · rw [← anchorAt?_withConnective t scope .and, hxy, anchorAt?_withConnective, hjoined]
  | @group d members hx =>
    obtain ⟨y, hy, hxy⟩ := hmem _ hx
    cases y with
    | group d' members' =>
      obtain ⟨-, rfl⟩ := Condition.group.inj hxy
      exact .group hy
    | _ => simp [Condition.withConnective] at hxy
  | far hsome =>
    rw [leavesAt_congr h] at hsome ⊢
    exact .far hsome

theorem part_congr {c : Connective} {ys : List Condition} {m : (Nat → Tuple E) → Prop}
    (h : xs.map (·.withConnective .and) = ys.map (·.withConnective .and)) :
    t.Part db scalar inner c scope xs m ↔ t.Part db scalar inner c scope ys m :=
  ⟨Part.congr h, Part.congr h.symm⟩

theorem linkedHold_iff_parts (inner : List Condition → (Nat → Tuple E) → Prop) {a : Nat}
    {leaves : List Condition} {rows : Nat → Tuple E} (hleaves : ∀ x ∈ leaves, members? x = none) :
    t.LinkedHold db scalar a leaves rows ↔ ∀ m, t.Part db scalar inner .and a leaves m →
      ∃ y ∈ t.rowsAt db rows a, m (t.extend db rows a y) := by
  rw [linkedHold_iff]
  constructor
  · rintro ⟨hnear, hfar⟩ m hm
    cases hm with
    | near hx hleaf hjoined => exact hnear _ hx hjoined
    | group hx => exact absurd (hleaves _ hx) (by simp [members?])
    | @far b hsome =>
      obtain ⟨x, -, hb⟩ := exists_anchorAt?_of_leavesAt hsome
      have hbounds := bounds_of_anchorAt? hb
      exact hfar b hbounds.1 hbounds.2 hsome
  · intro h
    refine ⟨fun x hx hjoined => ?_, fun b _ _ hsome => ?_⟩
    · exact h _ (.near hx (hleaves x hx) hjoined)
    · exact h _ (.far hsome)

section Single

variable {x : Condition} {m : (Nat → Tuple E) → Prop}

theorem part_single_near (hleaf : members? x = none) (hjoined : t.anchorAt? scope x = none) :
    t.Part db scalar inner .and scope [x] m ↔ m = fun rows => t.LeafHolds db scalar rows x := by
  constructor
  · intro hm
    cases hm with
    | near hx _ _ =>
      obtain rfl := List.mem_singleton.1 hx
      rfl
    | group hx =>
      obtain rfl := List.mem_singleton.1 hx
      simp [members?] at hleaf
    | far hsome => simp [leavesAt_single_ne_nil, hjoined] at hsome
  · rintro rfl
    exact .near List.mem_cons_self hleaf hjoined

theorem part_single_group {d : Connective} {members : List Condition} :
    t.Part db scalar inner .and scope [.group d members] m ↔ m = inner members := by
  constructor
  · intro hm
    cases hm with
    | near hx hleaf _ =>
      obtain rfl := List.mem_singleton.1 hx
      simp [members?] at hleaf
    | group hx =>
      obtain ⟨-, rfl⟩ := Condition.group.inj (List.mem_singleton.1 hx)
      rfl
    | far hsome => simp [leavesAt_single_ne_nil] at hsome
  · rintro rfl
    exact .group List.mem_cons_self

theorem part_single_far {a : Nat} (ha : t.anchorAt? scope x = some a) :
    t.Part db scalar inner .and scope [x] m ↔
      m = t.LinkedHold db scalar a [x.withConnective .and] := by
  constructor
  · intro hm
    cases hm with
    | near hx hleaf hjoined =>
      obtain rfl := List.mem_singleton.1 hx
      simp [ha] at hjoined
    | group hx =>
      obtain rfl := List.mem_singleton.1 hx
      simp at ha
    | far hsome =>
      obtain rfl : a = _ := by simpa [ha] using leavesAt_single_ne_nil.1 hsome
      rw [leavesAt_single_of_eq ha]
      rfl
  · rintro rfl
    have hfar : t.Part db scalar inner .and scope [x]
        (t.Taken db scalar .and a (t.leavesAt scope a [x])) := .far (leavesAt_single_ne_nil.2 ha)
    rwa [leavesAt_single_of_eq ha] at hfar

end Single

theorem exists_part_or {Q : ((Nat → Tuple E) → Prop) → Prop}
    (hQ : ∀ (leaves : List Condition) (M : Condition → (Nat → Tuple E) → Prop),
      Q (fun rows => ∃ x ∈ leaves, M x rows) ↔ ∃ x ∈ leaves, Q (M x)) :
    (∃ m, t.Part db scalar inner .or scope xs m ∧ Q m) ↔
      ∃ x ∈ xs, ∀ m, t.Part db scalar inner .and scope [x] m → Q m := by
  constructor
  · rintro ⟨m, hm, hq⟩
    cases hm with
    | @near x hx hleaf hjoined =>
      refine ⟨x, hx, fun m hm => ?_⟩
      rwa [(part_single_near hleaf hjoined).1 hm]
    | @group d members hx =>
      refine ⟨_, hx, fun m hm => ?_⟩
      rwa [part_single_group.1 hm]
    | @far a hsome =>
      obtain ⟨x, hx, hq⟩ := (hQ _ fun x => t.LinkedHold db scalar a [x]).1 hq
      obtain ⟨y, hy, ha, rfl⟩ := mem_leavesAt.1 hx
      refine ⟨y, hy, fun m hm => ?_⟩
      rwa [(part_single_far ha).1 hm]
  · rintro ⟨x, hx, hall⟩
    cases hm : members? x with
    | some members =>
      obtain ⟨d, rfl⟩ := exists_members hm
      exact ⟨_, .group hx, hall _ (.group List.mem_cons_self)⟩
    | none =>
      cases ha : t.anchorAt? scope x with
      | none => exact ⟨_, .near hx hm ha, hall _ (.near List.mem_cons_self hm ha)⟩
      | some a =>
        have hleaf : x.withConnective .and ∈ t.leavesAt scope a xs :=
          mem_leavesAt.2 ⟨x, hx, ha, rfl⟩
        have hq := hall _ ((part_single_far ha).2 rfl)
        exact ⟨_, .far (List.ne_nil_of_mem hleaf), (hQ _ _).2 ⟨_, hleaf, hq⟩⟩

end PathQuery.JoinTree
