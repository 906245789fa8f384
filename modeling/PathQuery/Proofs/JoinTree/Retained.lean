import PathQuery.Proofs.JoinTree.Settled
import PathQuery.Proofs.Sql.ReadBack

/-!
What settling leaves as it is. Comparisons of two columns and SELECTs of the caller come out of it
unchanged but for their connectives: they stay in place, or they stand inside of a semi-join.
-/

set_option autoImplicit false

namespace PathQuery

namespace Condition

variable {xs ys : List Condition} {x y : Condition}

def isFixed : Condition → Bool
  | .compare _ _ _ _ _ => false
  | .membership _ _ _ _ => false
  | .group _ _ => false
  | _ => true

/-- The condition stands in the list, in a group or in a SELECT of it, behind some connective. -/
def Appears (xs : List Condition) (y : Condition) : Prop :=
  ∃ c, y.withConnective c ∈ nodesOf xs

@[simp] theorem isFixed_withConnective (c : Connective) (x : Condition) :
    (x.withConnective c).isFixed = x.isFixed := by
  cases x <;> rfl

theorem mem_nodes (x : Condition) : x ∈ x.nodes := by
  cases x <;> exact List.mem_cons_self

theorem mem_nodesOf : y ∈ nodesOf xs ↔ ∃ x ∈ xs, y ∈ x.nodes := by
  induction xs with
  | nil => simp [nodesOf]
  | cons x rest ih => simp [nodesOf, ih]

theorem nodes_withConnective (c : Connective) (x : Condition) :
    ∃ inner, x.nodes = x :: inner ∧ (x.withConnective c).nodes = x.withConnective c :: inner := by
  cases x <;> exact ⟨_, rfl, rfl⟩

theorem Inside.mem_nodesOf (h : Inside xs y) : y ∈ nodesOf xs := by
  induction h with
  | here mem => exact Condition.mem_nodesOf.2 ⟨_, mem, mem_nodes _⟩
  | within mem _ ih => exact Condition.mem_nodesOf.2 ⟨_, mem, List.mem_cons_of_mem _ ih⟩

namespace Appears

theorem of_mem (hx : x ∈ xs) (hy : y ∈ x.nodes) : Appears xs y :=
  ⟨y.connective, by rw [withConnective_connective]; exact mem_nodesOf.2 ⟨x, hx, hy⟩⟩

theorem of_inside (h : Inside xs y) : Appears xs y :=
  ⟨y.connective, by rw [withConnective_connective]; exact h.mem_nodesOf⟩

theorem of_withConnective {c : Connective} (h : Appears xs (y.withConnective c)) :
    Appears xs y := by
  obtain ⟨d, hd⟩ := h
  exact ⟨d, by rwa [withConnective_withConnective] at hd⟩

theorem trans (h : Appears xs y) (hxs : ∀ x ∈ xs, ∀ z ∈ x.nodes, Appears ys z) :
    Appears ys y := by
  obtain ⟨c, hc⟩ := h
  obtain ⟨x, hx, hz⟩ := mem_nodesOf.1 hc
  exact (hxs x hx _ hz).of_withConnective

theorem mono (h : Appears xs y) (hsub : xs ⊆ ys) : Appears ys y :=
  h.trans fun _ hx _ hz => of_mem (hsub hx) hz

theorem withConnective (c : Connective) (hx : x.withConnective c ∈ ys) :
    ∀ z ∈ x.nodes, Appears ys z := by
  intro z hz
  obtain ⟨inner, hnodes, hchanged⟩ := nodes_withConnective c x
  rw [hnodes] at hz
  rcases List.mem_cons.1 hz with rfl | hz
  · exact ⟨c, mem_nodesOf.2 ⟨_, hx, mem_nodes _⟩⟩
  · exact of_mem hx (hchanged ▸ List.mem_cons_of_mem _ hz)

theorem inGroup (c : Connective) (h : Appears xs y) : Appears [.group c xs] y := by
  obtain ⟨d, hd⟩ := h
  exact ⟨d, mem_nodesOf.2 ⟨_, List.mem_singleton_self _, List.mem_cons_of_mem _ hd⟩⟩

theorem inSelect {c : Connective} {negated : Bool} {frame : Frame} (h : Appears xs y) :
    Appears [.existence c negated frame xs] y := by
  obtain ⟨d, hd⟩ := h
  exact ⟨d, mem_nodesOf.2 ⟨_, List.mem_singleton_self _, List.mem_cons_of_mem _ hd⟩⟩

end Appears

theorem appears_behind {rest : List Condition} (h : Appears (x :: rest) y) :
    Appears (x.withConnective .and :: rest) y := by
  refine h.trans fun z hz => ?_
  rcases List.mem_cons.1 hz with rfl | hz
  · exact .withConnective .and List.mem_cons_self
  · exact fun w hw => .of_mem (List.mem_cons_of_mem _ hz) hw

theorem appears_conjoined (h : Appears xs y) : Appears (conjoined xs) y := by
  match xs, h with
  | [], h => exact h
  | [x], h => exact appears_behind h
  | x :: x' :: rest, h => exact (appears_behind h).inGroup .and

mutual

theorem mem_nodes_redirect {a : String} {target : ColumnRef} (hy : y.isFixed = true)
    (x : Condition) (h : y ∈ x.nodes) : y ∈ (x.redirect a target).nodes := by
  cases x with
  | group c members =>
    rw [nodes, List.mem_cons] at h
    rcases h with rfl | h
    · cases hy
    · exact List.mem_cons_of_mem _ (mem_nodesOf_redirectAll hy members h)
  | compare c b names op v =>
    obtain rfl := List.mem_singleton.1 h
    cases hy
  | membership c column values negated =>
    obtain rfl := List.mem_singleton.1 h
    cases hy
  | existence c negated frame inner => exact h
  | columns c left op right => exact h
  | subquery c frame inner op v => exact h
termination_by structural x

theorem mem_nodesOf_redirectAll {a : String} {target : ColumnRef} (hy : y.isFixed = true)
    (xs : List Condition) (h : y ∈ nodesOf xs) : y ∈ nodesOf (redirectAll a target xs) := by
  cases xs with
  | nil => exact h
  | cons x rest =>
    rw [nodesOf, List.mem_append] at h
    rw [redirectAll, nodesOf, List.mem_append]
    exact h.imp (mem_nodes_redirect hy x) (mem_nodesOf_redirectAll hy rest)
termination_by structural xs

end

end Condition

namespace Relation

open Condition

variable {xs : List Condition} {y : Condition}

theorem appears_numbered (a : String) (h : Appears xs y) (number : Nat) :
    Appears (numbered a number xs) y := by
  induction xs generalizing number y with
  | nil => exact h
  | cons x rest ih =>
    refine h.trans fun z hz w hw => ?_
    rw [numbered]
    rcases List.mem_cons.1 hz with rfl | hz
    · let numberTest := ofColumn (seriesAlias a) seriesColumn .eq (.raw (toString number))
      have hmember : Appears [numberTest, z.withConnective .and] w :=
        .withConnective .and (by simp) w hw
      exact (hmember.inGroup (if number = 1 then .and else .or)).mono (by simp [numberTest])
    · exact (ih (.of_mem hz hw) (number + 1)).mono (List.subset_cons_self _ _)

theorem appears_body (r : Relation) (parentAlias tableAlias : String) (extra : List Join)
    (hy : y.isFixed = true) (h : Appears xs y) (division : Bool) :
    Appears (r.body parentAlias tableAlias extra xs division).conditions y := by
  rcases r.conditions_body parentAlias tableAlias extra xs division with
    hsame | ⟨through, -, -, hmoved⟩
  · rwa [hsame]
  · obtain ⟨c, hc⟩ := h
    rw [hmoved]
    exact ⟨c, mem_nodesOf_redirectAll (by simpa using hy) xs hc⟩

theorem appears_semiJoin (r : Relation) (parentAlias tableAlias : String) (extra : List Join)
    (hy : y.isFixed = true) (h : Appears xs y) (strategy : Strategy) (c : Connective) :
    Appears [r.semiJoin parentAlias tableAlias extra xs strategy c] y := by
  rw [semiJoin_eq]
  split
  · have hbody := appears_body r parentAlias tableAlias extra hy h true
    exact (((appears_numbered tableAlias hbody 1).inGroup .and).mono
      (List.subset_cons_self _ _)).inSelect.inSelect
  · have hbody := appears_body r parentAlias tableAlias extra hy h false
    exact ((appears_conjoined hbody).mono (List.subset_cons_self _ _)).inSelect

end Relation

namespace JoinTree

open Condition

variable {t : JoinTree} {scope : Nat} {xs : List Condition} {y : Condition}

theorem appears_resetFirst (h : Appears xs y) : Appears (resetFirst xs) y := by
  cases xs with
  | nil => exact h
  | cons x rest => exact appears_behind h

theorem appears_regroup (t : JoinTree) (scope : Nat) (h : Appears xs y) :
    Appears (t.regroup scope xs) y := by
  unfold regroup
  split
  · refine h.trans fun x hx z hz => ?_
    rw [← flatten_runs xs] at hx
    obtain ⟨run, hrun, hx⟩ := List.mem_flatten.1 hx
    have hown : Appears (ofRun run) z := by
      obtain ⟨x', rest, rfl, ⟨rfl, hsingle⟩ | hgroup⟩ := ofRun_eq (ne_nil_of_mem_runs hrun)
      · rw [hsingle]
        exact .of_mem hx hz
      · rw [hgroup]
        exact (appears_behind (.of_mem hx hz)).inGroup _
    exact hown.mono fun w hw => List.mem_flatMap.2 ⟨run, hrun, hw⟩
  · exact h

/-- Comparisons of columns and SELECTs of the caller appear among the settled conditions. -/
theorem WellFormed.appears_settle (ht : t.WellFormed) (hy : y.isFixed = true) {r : Settled}
    (h : t.settle scope xs = .ok r) : Appears xs y → Appears r.conditions y := by
  induction scope, xs using settle_induction t generalizing r with
  | h scope xs ihgroup ihbelow =>
    intro happears
    obtain ⟨slots, hslots, hplaces⟩ := settle_eq_ok h
    obtain ⟨c, hc⟩ := appears_regroup t scope happears
    obtain ⟨x, hx, hz⟩ := mem_nodesOf.1 hc
    obtain ⟨slot, hslot, hslotx⟩ := exists_of_mem_left hslots hx
    cases hm : members? x with
    | some members =>
      obtain ⟨d, rfl⟩ := exists_members hm
      obtain ⟨inner, hinner, rfl⟩ := slotIn_eq_ok_group hslotx
      rcases List.mem_cons.1 hz with hself | hz
      · have hfixed := (isFixed_withConnective c y).trans hy
        rw [hself] at hfixed
        cases hfixed
      · have hmembers := ihgroup members (weight_members_regroup rfl hx) hinner ⟨c, hz⟩
        exact (hmembers.inGroup d).mono
          (List.cons_subset.2 ⟨hplaces.kept_mem hslot, List.nil_subset _⟩)
    | none =>
      have hkept {needed : List Nat} (heq : slot = .kept x needed) : Appears r.conditions y :=
        (Appears.of_mem (hplaces.kept_mem (heq ▸ hslot)) hz).of_withConnective
      rcases slotIn_single hm hslotx with
        ⟨-, heq⟩ | ⟨id, needed, -, -, -, ⟨-, heq⟩ | ⟨a, ha, -⟩⟩
      · exact hkept heq
      · exact hkept heq
      · -- A comparison that is collected appears in the list that is settled below.
        have hleaf : x ∈ collectedAt a.val slots := by
          rw [collectedAt_slots hslots]
          exact List.mem_filter.2 ⟨hx, by simp [ha]⟩
        obtain ⟨inner, test, hinner, htest, hmem, -⟩ :=
          hplaces.tested_mem (by simp) (List.ne_nil_of_mem hleaf)
        obtain ⟨p, rel, e⟩ := ht.edge a.val (Nat.zero_lt_of_lt a.property.1) a.property.2
        obtain ⟨strategy, d, rfl⟩ := semiJoinAt_eq_ok e htest
        have hbelow := ihbelow a.val a.property.1 a.property.2 _ hinner
          (appears_resetFirst (Appears.of_mem hleaf hz).of_withConnective)
        exact (Relation.appears_semiJoin rel _ _ _ hy hbelow strategy d).mono
          (List.cons_subset.2 ⟨hmem, List.nil_subset _⟩)

end JoinTree

end PathQuery
