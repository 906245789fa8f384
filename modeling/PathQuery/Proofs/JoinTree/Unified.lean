import PathQuery.Proofs.JoinTree.Slots
import PathQuery.Proofs.Outcome
import PathQuery.Proofs.Relation.Unified

/-!
Settling conditions in one spelling. Runs, slots and places follow from the connective of a
condition, its columns and its members, so a list that is unified is settled to what the list
itself is settled to, unified.
-/

set_option autoImplicit false

namespace PathQuery.JoinTree

open Condition

@[simp] theorem members?_unified (x : Condition) :
    members? x.unified = (members? x).map (List.map unified) := by
  cases x with
  | membership c column values negated => cases negated <;> rfl
  | group c members => simp [members?]
  | _ => rfl

theorem pushRun_unified (x : Condition) (rs : List (List Condition)) :
    pushRun x.unified (rs.map (List.map unified)) = (pushRun x rs).map (List.map unified) := by
  match rs with
  | [] => rfl
  | [] :: others => rfl
  | (y :: run) :: others =>
    simp only [List.map_cons, pushRun, connective_unified]
    split <;> rfl

theorem runs_unified (xs : List Condition) :
    runs (xs.map unified) = (runs xs).map (List.map unified) := by
  induction xs with
  | nil => rfl
  | cons x rest ih => rw [List.map_cons, runs, ih, pushRun_unified, runs]

theorem ofRun_unified (xs : List Condition) : ofRun (xs.map unified) = (ofRun xs).map unified := by
  match xs with
  | [] => rfl
  | [x] => rfl
  | x :: y :: rest => simp [ofRun]

@[simp] theorem isMixed_unified (xs : List Condition) : isMixed (xs.map unified) = isMixed xs := by
  simp only [isMixed, ← List.map_drop, List.any_map, Function.comp_def, connective_unified]

variable (t : JoinTree)

@[simp] theorem owner?_unified (x : Condition) : t.owner? x.unified = t.owner? x := by
  rw [owner?, owner?, tableAlias?_unified]

@[simp] theorem isAnchored_unified (scope : Nat) (x : Condition) :
    t.isAnchored scope x.unified = t.isAnchored scope x := by
  simp [isAnchored]

theorem regroup_unified (scope : Nat) (xs : List Condition) :
    t.regroup scope (xs.map unified) = (t.regroup scope xs).map unified := by
  have hany : (xs.map unified).any (t.isAnchored scope) = xs.any (t.isAnchored scope) := by
    simp only [List.any_map, Function.comp_def, isAnchored_unified]
  rw [regroup, regroup, isMixed_unified, hany, runs_unified]
  split
  · simp only [List.flatMap_map, List.map_flatMap, ofRun_unified]
  · rfl

@[simp] theorem rightSide_unified (scope : Nat) (anchor : Option Nat) (x : Condition) :
    t.rightSide scope anchor x.unified = t.rightSide scope anchor x := by
  cases x with
  | membership c column values negated => cases negated <;> rfl
  | _ => rfl

variable {t} {scope : Nat}

def Slot.unified : Slot t scope → Slot t scope
  | .kept x needed => .kept x.unified needed
  | .collected anchor x needed => .collected anchor x.unified needed

theorem slotOf_unified (x : Condition) :
    t.slotOf scope x.unified = Slot.unified <$> t.slotOf scope x := by
  cases h : t.owner? x with
  | none =>
    rw [slotOf_of_none scope h, slotOf_of_none scope ((t.owner?_unified x).trans h)]
    rfl
  | some owner =>
    rw [slotOf_of_some scope h, slotOf_of_some scope ((t.owner?_unified x).trans h), slotAt, slotAt,
      rightSide_unified, map_bind]
    congr 1
    funext needed
    cases t.anchorOf scope owner (owner?_lt h) <;> rfl

theorem collectedAt_unified (a : Nat) (slots : List (Slot t scope)) :
    collectedAt a (slots.map Slot.unified) = (collectedAt a slots).map unified := by
  induction slots with
  | nil => rfl
  | cons slot rest ih =>
    cases slot with
    | kept x needed => exact ih
    | collected b x needed =>
      simp only [collectedAt, List.map_cons, List.filterMap_cons, Slot.unified] at ih ⊢
      by_cases hb : b.val = a <;> simp [hb, ih]

theorem resetFirst_unified (xs : List Condition) :
    resetFirst (xs.map unified) = (resetFirst xs).map unified := by
  cases xs with
  | nil => rfl
  | cons x rest => simp [resetFirst]

def Settled.unified (r : Settled) : Settled :=
  { r with conditions := r.conditions.map Condition.unified }

theorem semiJoinAt_unified (a : Nat) (leaves : List Condition) (inner : Settled) :
    t.semiJoinAt a (leaves.map unified) inner.unified =
      Condition.unified <$> t.semiJoinAt a leaves inner := by
  have hall : ((leaves.map unified).drop 1).all (·.connective == .or) =
      (leaves.drop 1).all (·.connective == .or) := by
    simp only [← List.map_drop, List.all_map, Function.comp_def, connective_unified]
  have hfirst : (leaves.map unified).head?.map connective = leaves.head?.map connective := by
    simp [Function.comp_def]
  unfold semiJoinAt
  dsimp only [Settled.unified]
  rw [List.length_map, List.length_map, hall, hfirst]
  cases (t.node a).relation with
  | none => rfl
  | some r =>
    cases (t.node a).parent with
    | none => rfl
    | some p =>
      dsimp only
      rw [r.semiJoin_unified]
      rfl

theorem place_unified {settleAt : Below t scope → List Condition → Except Failure Settled}
    (hsettle : ∀ a xs, settleAt a (xs.map unified) = Settled.unified <$> settleAt a xs)
    (seen : List Nat) (slots : List (Slot t scope)) :
    t.place settleAt seen (slots.map Slot.unified) =
      Settled.unified <$> t.place settleAt seen slots := by
  induction slots generalizing seen with
  | nil => rfl
  | cons slot rest ih =>
    cases slot with
    | kept x needed =>
      rw [List.map_cons, Slot.unified, place, place, ih]
      simp [Settled.unified]
    | collected a x needed =>
      rw [List.map_cons, Slot.unified, place, place]
      split
      · rw [ih]
        simp [Settled.unified]
      · have hleaves : x.unified :: collectedAt a.val (rest.map Slot.unified) =
            (x :: collectedAt a.val rest).map unified := by
          rw [collectedAt_unified, List.map_cons]
        simp only [hleaves, resetFirst_unified, hsettle, bind_map_left, semiJoinAt_unified, ih]
        simp [Settled.unified]

theorem settle_unified (scope : Nat) (xs : List Condition) :
    t.settle scope (xs.map unified) = Settled.unified <$> t.settle scope xs := by
  induction scope, xs using t.settle_induction with
  | h scope xs ihmembers ihbelow =>
    have hslot : ∀ x ∈ t.regroup scope xs,
        t.slotIn scope x.unified = Slot.unified <$> t.slotIn scope x := by
      intro x hx
      cases hm : members? x with
      | none =>
        have hm' : members? x.unified = none := by rw [members?_unified, hm]; rfl
        rw [slotIn_of_single scope hm, slotIn_of_single scope hm', slotOf_unified]
      | some members =>
        obtain ⟨c, rfl⟩ := exists_members hm
        rw [unified_group, slotIn_group, slotIn_group,
          ihmembers members (weight_members_regroup rfl hx)]
        simp [Slot.unified, Settled.unified]
    rw [settle_eq, settle_eq, regroup_unified, mapM_map_of_commute hslot, map_bind, bind_map_left]
    congr 1
    funext slots
    exact place_unified (fun a leaves => ihbelow a.val a.property.1 a.property.2 leaves) [] slots

theorem settleRoot_unified (xs : List Condition) :
    t.settleRoot (xs.map unified) =
      Prod.map (List.map unified) id <$> t.settleRoot xs := by
  have hconjunctive : ((xs.map unified).drop 1).all (·.connective == .and) =
      (xs.drop 1).all (·.connective == .and) := by
    simp only [← List.map_drop, List.all_map, Function.comp_def, connective_unified]
  unfold settleRoot
  dsimp only
  simp only [hconjunctive, List.filterMap_map, Function.comp_def, needsRow_unified, owner?_unified,
    settle_unified, map_bind, bind_map_left]
  rfl

end PathQuery.JoinTree
