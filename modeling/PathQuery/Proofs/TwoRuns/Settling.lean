import PathQuery.Proofs.JoinTree.Slots
import PathQuery.Proofs.TwoRuns.Conditions
import PathQuery.Proofs.TwoRuns.Trees

/-!
Settling lists of conditions that are alike, on trees that agree but for the conditions kept at
nodes. The runs of a list, the node that a condition is collected at and the joins around it follow
from connectives and columns alone.
-/

set_option autoImplicit false

namespace PathQuery.JoinTree

variable {ρ : Value → Value → Prop} {t t' : JoinTree}

theorem eq_of_clear {α : Type} {f : JoinTree → α} (hf : ∀ t, f t.clear = f t)
    (h : t.clear = t'.clear) : f t = f t' := by
  rw [← hf t, h, hf t']

theorem pushRun_alike {x y : Condition} {rs rs' : List (List Condition)} (hx : x.Alike ρ y)
    (h : List.Forall₂ (List.Forall₂ (Condition.Alike ρ)) rs rs') :
    List.Forall₂ (List.Forall₂ (Condition.Alike ρ)) (pushRun x rs) (pushRun y rs') := by
  cases h with
  | nil => exact .cons (.cons hx .nil) .nil
  | cons hrun hrest =>
    cases hrun with
    | nil => exact .cons (.cons hx .nil) (.cons .nil hrest)
    | cons hx' hrun =>
      rw [pushRun, pushRun, hx'.connective_eq]
      split
      · exact .cons (.cons hx (.cons hx' hrun)) hrest
      · exact .cons (.cons hx .nil) (.cons (.cons hx' hrun) hrest)

theorem runs_alike {xs ys : List Condition} (h : List.Forall₂ (Condition.Alike ρ) xs ys) :
    List.Forall₂ (List.Forall₂ (Condition.Alike ρ)) (runs xs) (runs ys) := by
  induction h with
  | nil => exact .nil
  | cons hx _ ih => exact pushRun_alike hx ih

theorem ofRun_alike {xs ys : List Condition} (h : List.Forall₂ (Condition.Alike ρ) xs ys) :
    List.Forall₂ (Condition.Alike ρ) (ofRun xs) (ofRun ys) := by
  cases h with
  | nil => exact .nil
  | cons hx hrest =>
    cases hrest with
    | nil => exact .cons hx .nil
    | cons hx' hrest =>
      have hmembers := List.Forall₂.cons (hx.withConnective .and) (.cons hx' hrest)
      rw [ofRun, ofRun, hx.connective_eq]
      · exact .cons (Condition.alike_group _ hmembers) .nil
      all_goals simp

theorem any_connective_eq {xs ys : List Condition} (h : List.Forall₂ (Condition.Alike ρ) xs ys)
    (c : Connective) : xs.any (·.connective == c) = ys.any (·.connective == c) := by
  induction h with
  | nil => rfl
  | cons hx _ ih => rw [List.any_cons, List.any_cons, hx.connective_eq, ih]

theorem all_connective_eq {xs ys : List Condition} (h : List.Forall₂ (Condition.Alike ρ) xs ys)
    (c : Connective) : xs.all (·.connective == c) = ys.all (·.connective == c) := by
  induction h with
  | nil => rfl
  | cons hx _ ih => rw [List.all_cons, List.all_cons, hx.connective_eq, ih]

theorem isMixed_eq {xs ys : List Condition} (h : List.Forall₂ (Condition.Alike ρ) xs ys) :
    isMixed xs = isMixed ys := by
  have hrest := List.forall₂_drop 1 h
  rw [isMixed, isMixed, any_connective_eq hrest, any_connective_eq hrest]

theorem members?_isNone_eq {x y : Condition} (h : x.Alike ρ y) :
    (members? x).isNone = (members? y).isNone :=
  h.view_eq (f := fun x => (members? x).isNone) fun x => by cases x <;> rfl

section Trees

variable (h : t.clear = t'.clear)

include h

theorem owner?_eq {x y : Condition} (hxy : x.Alike ρ y) : t.owner? x = t'.owner? y := by
  rw [eq_of_clear (f := (·.owner? x)) (fun u => u.owner?_clear x) h, owner?, owner?,
    hxy.tableAlias?_eq]

theorem anchor?_eq (scope id : Nat) : t.anchor? scope id = t'.anchor? scope id :=
  eq_of_clear (f := (·.anchor? scope id)) (fun u => u.anchor?_clear scope id) h

theorem isAnchored_eq (scope : Nat) {x y : Condition} (hxy : x.Alike ρ y) :
    t.isAnchored scope x = t'.isAnchored scope y := by
  have hanchor : t.anchor? scope = t'.anchor? scope := funext fun id => anchor?_eq h scope id
  rw [isAnchored, isAnchored, members?_isNone_eq hxy, owner?_eq h hxy, hanchor]

theorem regroup_alike (scope : Nat) {xs ys : List Condition}
    (hxy : List.Forall₂ (Condition.Alike ρ) xs ys) :
    List.Forall₂ (Condition.Alike ρ) (t.regroup scope xs) (t'.regroup scope ys) := by
  have hany : xs.any (t.isAnchored scope) = ys.any (t'.isAnchored scope) := by
    induction hxy with
    | nil => rfl
    | cons hx _ ih => rw [List.any_cons, List.any_cons, isAnchored_eq h scope hx, ih]
  rw [regroup, regroup, isMixed_eq hxy, hany]
  split
  · exact List.rel_flatMap (runs_alike hxy) fun _ _ hrun => ofRun_alike hrun
  · exact hxy

inductive SlotAlike (ρ : Value → Value → Prop) (t t' : JoinTree) (scope : Nat) :
    Slot t scope → Slot t' scope → Prop
  | kept {x y : Condition} (needed : List Nat) (h : x.Alike ρ y) :
    SlotAlike ρ t t' scope (.kept x needed) (.kept y needed)
  | collected {a : Below t scope} {a' : Below t' scope} {x y : Condition} (needed : List Nat)
    (ha : a.val = a'.val) (h : x.Alike ρ y) :
    SlotAlike ρ t t' scope (.collected a x needed) (.collected a' y needed)

structure SettledAlike (ρ : Value → Value → Prop) (r r' : Settled) : Prop where
  conditions : List.Forall₂ (Condition.Alike ρ) r.conditions r'.conditions
  needed : r.needed = r'.needed

theorem rightSide_eq (scope : Nat) (anchor : Option Nat) {x y : Condition} (hxy : x.Alike ρ y) :
    t.rightSide scope anchor x = t'.rightSide scope anchor y := by
  cases x with
  | compare c a names op v =>
    obtain ⟨w, rfl, _⟩ := hxy
    rfl
  | group c xs =>
    obtain ⟨ys, rfl, _⟩ := hxy
    rfl
  | existence c negated f xs =>
    obtain ⟨g, ys, rfl, _⟩ := hxy
    rfl
  | membership c col vs negated =>
    obtain ⟨ws, rfl, _⟩ := hxy
    rfl
  | columns c left op right =>
    obtain rfl := hxy
    have halias := eq_of_clear (f := (·.idOfAlias? right.tableAlias))
      (fun u => u.idOfAlias?_clear right.tableAlias) h
    simp only [rightSide, halias, anchor?_eq h]
  | subquery c f xs op v =>
    obtain ⟨g, ys, w, rfl, _⟩ := hxy
    rfl

theorem agree_slotOf (scope : Nat) {x y : Condition} (hxy : x.Alike ρ y) :
    Agree (SlotAlike ρ t t' scope) (t.slotOf scope x) (t'.slotOf scope y) := by
  have howner := owner?_eq h hxy
  cases hx : t.owner? x with
  | none =>
    rw [slotOf_of_none scope hx, slotOf_of_none scope (howner ▸ hx)]
    exact .ok (.kept [] hxy)
  | some owner =>
    have hy : t'.owner? y = some owner := howner ▸ hx
    have hval := anchorOf_val t scope owner (owner?_lt hx)
    have hval' := anchorOf_val t' scope owner (owner?_lt hy)
    rw [slotOf_of_some scope hx, slotOf_of_some scope hy, slotAt, slotAt, rightSide_eq h _ _ hxy,
      anchor?_eq h]
    refine (Agree.refl _).bind fun needed _ hneeded => ?_
    subst hneeded
    rw [← anchor?_eq h] at hval'
    cases ha : t.anchorOf scope owner (owner?_lt hx) with
    | none =>
      cases ha' : t'.anchorOf scope owner (owner?_lt hy) with
      | none => exact .ok (.kept _ hxy)
      | some a' => simp [ha, ha', ← hval] at hval'
    | some a =>
      cases ha' : t'.anchorOf scope owner (owner?_lt hy) with
      | none => simp [ha, ha', ← hval] at hval'
      | some a' =>
        refine .ok (.collected _ ?_ hxy)
        simpa [ha, ha', ← hval] using hval'.symm

omit h in
theorem collectedAt_alike {scope : Nat} (a : Nat) {slots : List (Slot t scope)}
    {slots' : List (Slot t' scope)} (hs : List.Forall₂ (SlotAlike ρ t t' scope) slots slots') :
    List.Forall₂ (Condition.Alike ρ) (collectedAt a slots) (collectedAt a slots') := by
  refine List.rel_filterMap (fun s s' hs => ?_) hs
  cases hs with
  | kept needed hxy => exact .none
  | collected needed ha hxy =>
    simp only [ha]
    split
    · exact .some hxy
    · exact .none

omit h in
theorem resetFirst_alike {xs ys : List Condition} (hxy : List.Forall₂ (Condition.Alike ρ) xs ys) :
    List.Forall₂ (Condition.Alike ρ) (resetFirst xs) (resetFirst ys) := by
  cases hxy with
  | nil => exact .nil
  | cons hx hrest => exact .cons (hx.withConnective .and) hrest

theorem agree_semiJoinAt (anchor : Nat) {leaves leaves' : List Condition} {inner inner' : Settled}
    (hleaves : List.Forall₂ (Condition.Alike ρ) leaves leaves')
    (hinner : SettledAlike ρ inner inner') :
    Agree (Condition.Alike ρ) (t.semiJoinAt anchor leaves inner)
      (t'.semiJoinAt anchor leaves' inner') := by
  have hnode : ∀ id, (t.node id).clear = (t'.node id).clear :=
    fun id => eq_of_clear (f := fun u => (u.node id).clear) (fun u => by rw [u.node_clear]; rfl) h
  have hrelation : (t.node anchor).relation = (t'.node anchor).relation :=
    (congrArg Node.relation (hnode anchor) :)
  have hparent : (t.node anchor).parent = (t'.node anchor).parent :=
    (congrArg Node.parent (hnode anchor) :)
  have halias : ∀ id, (t.node id).tableAlias = (t'.node id).tableAlias :=
    fun id => (congrArg Node.tableAlias (hnode id) :)
  have hjoins : ∀ targets, t.joinsWithin anchor targets = t'.joinsWithin anchor targets :=
    fun targets => eq_of_clear (f := (·.joinsWithin anchor targets))
      (fun u => u.joinsWithin_clear anchor targets) h
  have hfirst : leaves.head?.map Condition.connective = leaves'.head?.map Condition.connective := by
    cases hleaves with
    | nil => rfl
    | cons hx _ => simp [hx.connective_eq]
  unfold semiJoinAt
  dsimp only
  rw [hrelation, hparent, halias, hleaves.length_eq,
    all_connective_eq (List.forall₂_drop 1 hleaves), hfirst, hinner.needed, hjoins,
    hinner.conditions.length_eq]
  cases (t'.node anchor).relation with
  | none => exact .error _
  | some r =>
    cases (t'.node anchor).parent with
    | none => exact .error _
    | some p =>
      simp only [halias]
      exact .ok (r.semiJoin_alike _ _ _ _ _ hinner.conditions)

theorem agree_place {scope : Nat}
    {settleAt : Below t scope → List Condition → Except Failure Settled}
    {settleAt' : Below t' scope → List Condition → Except Failure Settled}
    (hsettle : ∀ a a' xs ys, a.val = a'.val → List.Forall₂ (Condition.Alike ρ) xs ys →
      Agree (SettledAlike ρ) (settleAt a xs) (settleAt' a' ys))
    (seen : List Nat) {slots : List (Slot t scope)} {slots' : List (Slot t' scope)}
    (hs : List.Forall₂ (SlotAlike ρ t t' scope) slots slots') :
    Agree (SettledAlike ρ) (t.place settleAt seen slots) (t'.place settleAt' seen slots') := by
  induction hs generalizing seen with
  | nil => exact .ok ⟨.nil, rfl⟩
  | cons hslot hrest ih =>
    cases hslot with
    | kept needed hxy =>
      rw [place, place]
      exact (ih seen).bind fun r r' hr => .ok ⟨.cons hxy hr.conditions, by rw [hr.needed]⟩
    | @collected a a' x y needed ha hxy =>
      rw [place, place, ha]
      split
      · exact (ih seen).bind fun r r' hr => .ok ⟨hr.conditions, by rw [hr.needed]⟩
      · have hleaves := List.Forall₂.cons hxy (collectedAt_alike a'.val hrest)
        refine (hsettle a a' _ _ ha (resetFirst_alike hleaves)).bind fun inner inner' hinner => ?_
        refine (agree_semiJoinAt h a'.val hleaves hinner).bind fun test test' htest => ?_
        refine (ih (a'.val :: seen)).bind fun r r' hr => .ok ⟨.cons htest hr.conditions, ?_⟩
        have hparent := eq_of_clear (f := fun u => (u.node a'.val).parent)
          (fun u => by rw [u.node_clear]; rfl) h
        rw [hparent, hr.needed]

theorem agree_settle (scope : Nat) (xs : List Condition) :
    ∀ ys, List.Forall₂ (Condition.Alike ρ) xs ys →
      Agree (SettledAlike ρ) (t.settle scope xs) (t'.settle scope ys) := by
  induction scope, xs using t.settle_induction with
  | h scope xs ihmembers ihbelow =>
    intro ys hxy
    have hslot : ∀ x y, (x ∈ t.regroup scope xs ∧ x.Alike ρ y) →
        Agree (SlotAlike ρ t t' scope) (t.slotIn scope x) (t'.slotIn scope y) := by
      rintro x y ⟨hx, hxy⟩
      cases hm : members? x with
      | none =>
        have hm' : members? y = none := by simpa [hm] using members?_isNone_eq hxy
        rw [slotIn_of_single scope hm, slotIn_of_single scope hm']
        exact agree_slotOf h scope hxy
      | some members =>
        obtain ⟨c, rfl⟩ := exists_members hm
        obtain ⟨members', rfl, hmembers⟩ := hxy
        rw [slotIn_group, slotIn_group]
        refine (ihmembers members (weight_members_regroup rfl hx) members'
          (Condition.allAlike_iff.1 hmembers)).bind fun r r' hr => ?_
        rw [hr.needed]
        exact .ok (.kept _ (Condition.alike_group c hr.conditions))
    have hregroup := (List.forall₂_and_left _ _).2 ⟨fun x hx => hx, regroup_alike h scope hxy⟩
    rw [settle_eq, settle_eq]
    refine (Agree.mapM hregroup hslot).bind fun slots slots' hslots => ?_
    refine agree_place h (fun a a' leaves leaves' ha hleaves => ?_) [] hslots
    rw [← ha]
    exact ihbelow a.val a.property.1 a.property.2 leaves leaves' hleaves

omit h in
theorem clear_foldl {f : JoinTree → Nat → JoinTree} (hf : ∀ t id, (f t id).clear = f t.clear id)
    (t : JoinTree) (ids : List Nat) : (ids.foldl f t).clear = ids.foldl f t.clear := by
  induction ids generalizing t with
  | nil => rfl
  | cons id ids ih => rw [List.foldl_cons, List.foldl_cons, ih, hf]

omit h in
theorem grown_foldl {f : JoinTree → Nat → JoinTree} (hf : ∀ t id, Grown t (f t id))
    (t : JoinTree) (ids : List Nat) : Grown t (ids.foldl f t) := by
  induction ids generalizing t with
  | nil => exact .refl t
  | cons id ids ih => exact (hf t id).trans (ih (f t id))

theorem required_eq (conjunctive : Bool) {xs ys : List Condition}
    (hxy : List.Forall₂ (Condition.Alike ρ) xs ys) :
    (xs.filterMap fun x => if conjunctive && x.needsRow then
      (t.owner? x).filter fun id => (t.anchor? rootId id).isNone else none) =
    ys.filterMap fun y => if conjunctive && y.needsRow then
      (t'.owner? y).filter fun id => (t'.anchor? rootId id).isNone else none := by
  have hanchor : t.anchor? rootId = t'.anchor? rootId := funext fun id => anchor?_eq h rootId id
  induction hxy with
  | nil => rfl
  | cons hx _ ih => rw [List.filterMap_cons, List.filterMap_cons, ih, hx.needsRow_eq,
      owner?_eq h hx, hanchor]

theorem agree_settleRoot {xs ys : List Condition}
    (hxy : List.Forall₂ (Condition.Alike ρ) xs ys) :
    Agree (fun p q => List.Forall₂ (Condition.Alike ρ) p.1 q.1 ∧ p.2.clear = q.2.clear ∧
      Grown t p.2) (t.settleRoot xs) (t'.settleRoot ys) := by
  unfold settleRoot
  dsimp only
  rw [all_connective_eq (List.forall₂_drop 1 hxy), required_eq h _ hxy]
  generalize ys.filterMap _ = required
  have hmarked : (required.foldl JoinTree.require t).clear =
      (required.foldl JoinTree.require t').clear := by
    rw [clear_foldl clear_require, clear_foldl clear_require, h]
  have hgrown := grown_foldl (fun t id => (sameShape_require t id).grown) t required
  refine (agree_settle hmarked rootId xs ys hxy).bind fun r r' hr => ?_
  refine .ok ⟨hr.conditions, ?_, ?_⟩
  · rw [hr.needed, clear_foldl clear_joinPath, clear_foldl clear_joinPath, hmarked]
  · exact hgrown.trans (grown_foldl (fun t id => (sameShape_joinPath t id).grown) _ r.needed)

end Trees

end PathQuery.JoinTree
