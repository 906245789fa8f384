import Mathlib.Data.List.Forall2
import Mathlib.Data.List.Perm.Basic
import PathQuery.Proofs.Relation.Bodies

/-!
The order of sibling joins. The tables that one table leads to are joined in the order in which
paths found them. Each comes with what hangs below it as one branch, and branches of one table may
change places without a change in what is joined to what. Conditions are the same up to that order
where they differ in nothing but the joins of the subqueries inside them.
-/

set_option autoImplicit false

namespace PathQuery

namespace Join

def TiedTo (j : Join) (a : String) : Prop :=
  ∃ test ∈ j.on, test.right.tableAlias = a

def Hang (known : List String) : List Join → Prop
  | [] => True
  | j :: rest => (∃ a ∈ known, j.TiedTo a) ∧ Hang (j.tableAlias :: known) rest

/-- A join tied to the table under `parent`, and joins that hang on it alone. -/
inductive IsBranch (parent : String) : List Join → Prop
  | mk {j : Join} {rest : List Join} (tied : j.TiedTo parent) (hang : Hang [j.tableAlias] rest) :
    IsBranch parent (j :: rest)

def Apart (js ks : List Join) : Prop :=
  ∀ j ∈ js, ∀ k ∈ ks, ¬ j.TiedTo k.tableAlias

/-- The same joins, with whole branches of one table in another order. -/
inductive SiblingOrder : List Join → List Join → Prop
  | refl (js : List Join) : SiblingOrder js js
  | swap {parent : String} {before first second after : List Join}
    (left : IsBranch parent first) (right : IsBranch parent second)
    (apart : Apart first second) (apart' : Apart second first)
    (whole : Apart after (first ++ second)) :
    SiblingOrder (before ++ (first ++ (second ++ after))) (before ++ (second ++ (first ++ after)))
  | trans {js ks ls : List Join} (h : SiblingOrder js ks) (h' : SiblingOrder ks ls) :
    SiblingOrder js ls

section Apart

variable {js ks ls : List Join}

theorem Apart.append (h : Apart js ls) (h' : Apart ks ls) : Apart (js ++ ks) ls := by
  intro j hj
  rcases List.mem_append.1 hj with hj | hj
  · exact h j hj
  · exact h' j hj

theorem apart_flatten {blocks : List (List Join)} (h : ∀ b ∈ blocks, Apart b ls) :
    Apart blocks.flatten ls := by
  intro j hj
  obtain ⟨b, hb, hj⟩ := List.mem_flatten.1 hj
  exact h b hb j hj

theorem Apart.of_perm (h : Apart js ks) (hperm : ks.Perm ls) : Apart js ls :=
  fun j hj l hl => h j hj l (hperm.mem_iff.2 hl)

end Apart

namespace SiblingOrder

variable {js ks ls ms : List Join}

theorem perm (h : SiblingOrder js ks) : js.Perm ks := by
  induction h with
  | refl js => exact .refl js
  | swap left right apart apart' whole =>
    refine List.Perm.append_left _ ?_
    rw [← List.append_assoc, ← List.append_assoc]
    exact List.Perm.append_right _ List.perm_append_comm
  | trans _ _ ih ih' => exact ih.trans ih'

theorem append_left (before : List Join) (h : SiblingOrder js ks) :
    SiblingOrder (before ++ js) (before ++ ks) := by
  induction h with
  | refl js => exact .refl _
  | swap left right apart apart' whole =>
    rw [← List.append_assoc before, ← List.append_assoc before]
    exact .swap left right apart apart' whole
  | trans _ _ ih ih' => exact ih.trans ih'

/-- What follows must hang on no table of the list, or a branch would not be whole. -/
theorem append_right (h : SiblingOrder js ks) {after : List Join} (hafter : Apart after js) :
    SiblingOrder (js ++ after) (ks ++ after) := by
  induction h with
  | refl js => exact .refl _
  | swap left right apart apart' whole =>
    simp only [List.append_assoc]
    refine .swap left right apart apart' (whole.append fun j hj k hk => hafter j hj k ?_)
    simp only [List.mem_append] at hk ⊢
    tauto
  | trans h _ ih ih' => exact (ih hafter).trans (ih' (hafter.of_perm h.perm))

theorem append (h : SiblingOrder js ks) (h' : SiblingOrder ls ms) (hapart : Apart ls js) :
    SiblingOrder (js ++ ls) (ks ++ ms) :=
  (h.append_right hapart).trans (h'.append_left ks)

def Unrelated (js ks : List Join) : Prop :=
  Apart js ks ∧ Apart ks js

theorem flatten {blocks blocks' : List (List Join)} (h : List.Forall₂ SiblingOrder blocks blocks')
    (hapart : blocks.Pairwise Unrelated) : SiblingOrder blocks.flatten blocks'.flatten := by
  induction h with
  | nil => exact .refl []
  | cons hblock _ ih =>
    rw [List.pairwise_cons] at hapart
    exact hblock.append (ih hapart.2) (apart_flatten fun b hb => (hapart.1 b hb).2)

theorem of_perm {parent : String} {blocks blocks' : List (List Join)} (h : blocks.Perm blocks')
    (hbranch : ∀ b ∈ blocks, IsBranch parent b) (hapart : blocks.Pairwise Unrelated) :
    SiblingOrder blocks.flatten blocks'.flatten := by
  induction h with
  | nil => exact .refl []
  | cons b _ ih =>
    rw [List.forall_mem_cons] at hbranch
    exact (ih hbranch.2 (List.pairwise_cons.1 hapart).2).append_left b
  | swap b c rest =>
    simp only [List.forall_mem_cons] at hbranch
    obtain ⟨hc, hapart⟩ := List.pairwise_cons.1 hapart
    obtain ⟨hb, -⟩ := List.pairwise_cons.1 hapart
    rw [List.forall_mem_cons] at hc
    change SiblingOrder ([] ++ (c ++ (b ++ rest.flatten))) ([] ++ (b ++ (c ++ rest.flatten)))
    refine .swap hbranch.1 hbranch.2.1 hc.1.1 hc.1.2 (apart_flatten fun d hd => ?_)
    intro j hj k hk
    rcases List.mem_append.1 hk with hk | hk
    · exact (hc.2 d hd).2 j hj k hk
    · exact (hb d hd).2 j hj k hk
  | trans h _ ih ih' =>
    have hsymm : ∀ {b c : List Join}, Unrelated b c → Unrelated c b := And.symm
    exact (ih hbranch hapart).trans (ih' (fun b hb => hbranch b (h.mem_iff.2 hb))
      ((h.pairwise_iff hsymm).1 hapart))

end SiblingOrder

end Join

namespace Condition

open Join

mutual

inductive Rearranged : Condition → Condition → Prop
  | same (x : Condition) : Rearranged x x
  | group {c : Connective} {xs ys : List Condition} (members : AllRearranged xs ys) :
    Rearranged (.group c xs) (.group c ys)
  | existence {c : Connective} {negated : Bool} {frame : Frame} {joins : List Join}
    {xs ys : List Condition} (order : SiblingOrder frame.joins joins)
    (inner : AllRearranged xs ys) :
    Rearranged (.existence c negated frame xs) (.existence c negated { frame with joins } ys)

inductive AllRearranged : List Condition → List Condition → Prop
  | nil : AllRearranged [] []
  | cons {x y : Condition} {xs ys : List Condition} (head : Rearranged x y)
    (tail : AllRearranged xs ys) : AllRearranged (x :: xs) (y :: ys)

end

variable {x y : Condition} {xs ys : List Condition}

theorem AllRearranged.length_eq {xs ys : List Condition} :
    AllRearranged xs ys → xs.length = ys.length
  | .nil => rfl
  | .cons _ tail => congrArg (· + 1) tail.length_eq

theorem Rearranged.withConnective (h : Rearranged x y) (c : Connective) :
    Rearranged (x.withConnective c) (y.withConnective c) := by
  cases h with
  | same x => exact .same _
  | group members => exact .group members
  | existence order inner => exact .existence order inner

mutual

theorem Rearranged.usesOnlyKey_eq (a key : String) {x y : Condition} :
    Rearranged x y → x.usesOnlyKey a key = y.usesOnlyKey a key
  | .same _ => rfl
  | .group members => members.useOnlyKey_eq a key
  | .existence _ _ => rfl

theorem AllRearranged.useOnlyKey_eq (a key : String) {xs ys : List Condition} :
    AllRearranged xs ys → useOnlyKey a key xs = useOnlyKey a key ys
  | .nil => rfl
  | .cons head tail => by
    rw [useOnlyKey, useOnlyKey, head.usesOnlyKey_eq a key, tail.useOnlyKey_eq a key]

end

mutual

theorem Rearranged.redirect (a : String) (target : ColumnRef) {x y : Condition} :
    Rearranged x y → Rearranged (x.redirect a target) (y.redirect a target)
  | .same _ => .same _
  | .group members => .group (members.redirectAll a target)
  | .existence order inner => .existence order inner

theorem AllRearranged.redirectAll (a : String) (target : ColumnRef) {xs ys : List Condition} :
    AllRearranged xs ys →
      AllRearranged (Condition.redirectAll a target xs) (Condition.redirectAll a target ys)
  | .nil => .nil
  | .cons head tail => .cons (head.redirect a target) (tail.redirectAll a target)

end

theorem AllRearranged.conjoined (h : AllRearranged xs ys) :
    AllRearranged (conjoined xs) (conjoined ys) := by
  match h with
  | .nil => exact .nil
  | .cons head .nil => exact .cons (head.withConnective .and) .nil
  | .cons head (.cons second tail) =>
    exact .cons (.group (.cons (head.withConnective .and) (.cons second tail))) .nil

end Condition

namespace Relation

open Join Condition

variable {extra extra' : List Join} {xs ys : List Condition}

theorem numbered_rearranged (a : String) (number : Nat) {xs ys : List Condition} :
    AllRearranged xs ys → AllRearranged (numbered a number xs) (numbered a number ys)
  | .nil => .nil
  | .cons head tail =>
    .cons (.group (.cons (.same _) (.cons (head.withConnective .and) .nil)))
      (numbered_rearranged a (number + 1) tail)

structure BodyRearranged (b b' : Body) : Prop where
  source : b.source = b'.source
  joins : SiblingOrder b.joins b'.joins
  correlation : b.correlation = b'.correlation
  conditions : AllRearranged b.conditions b'.conditions

theorem body_rearranged (r : Relation) (parentAlias a : String) (division : Bool)
    (hextra : SiblingOrder extra extra') (h : AllRearranged xs ys) :
    BodyRearranged (r.body parentAlias a extra xs division)
      (r.body parentAlias a extra' ys division) := by
  have hkey := h.useOnlyKey_eq a r.linked.column
  have hempty : extra.isEmpty = extra'.isEmpty := hextra.perm.isEmpty_eq
  obtain ⟨name, kind, current, linked⟩ := r
  cases kind with
  | manyMany through =>
    simp only [body]
    rw [hkey, hempty]
    refine ⟨rfl, hextra.append_left _, rfl, ?_⟩
    dsimp only
    split
    · exact h
    · exact h.redirectAll a _
  | belongsTo => exact ⟨rfl, hextra, rfl, h⟩
  | hasOne => exact ⟨rfl, hextra, rfl, h⟩
  | hasMany => exact ⟨rfl, hextra, rfl, h⟩

namespace BodyRearranged

variable {b b' : Body} (h : BodyRearranged b b')

include h

theorem existence (c : Connective) (negated : Bool) (hxs : AllRearranged xs ys) :
    Rearranged (.existence c negated b.frame xs) (.existence c negated b'.frame ys) := by
  rw [show b'.frame = { b.frame with joins := b'.joins } by rw [Body.frame, Body.frame, h.source]]
  exact .existence h.joins hxs

theorem single (c : Connective) : Rearranged (b.single c) (b'.single c) := by
  refine h.existence c false (.cons ?_ h.conditions.conjoined)
  rw [h.correlation]
  exact .same _

theorem divided (a : String) (c : Connective) : Rearranged (b.divided a c) (b'.divided a c) := by
  have hinner : AllRearranged [b.correlation, .group .and (numbered a 1 b.conditions)]
      [b'.correlation, .group .and (numbered a 1 b'.conditions)] := by
    rw [h.correlation]
    exact .cons (.same _) (.cons (.group (numbered_rearranged a 1 h.conditions)) .nil)
  rw [Body.divided, Body.divided, h.conditions.length_eq]
  exact .existence (.refl _) (.cons (h.existence .and true hinner) .nil)

end BodyRearranged

theorem semiJoin_rearranged (r : Relation) (parentAlias a : String) (strategy : Strategy)
    (c : Connective) (hextra : SiblingOrder extra extra') (h : AllRearranged xs ys) :
    Rearranged (r.semiJoin parentAlias a extra xs strategy c)
      (r.semiJoin parentAlias a extra' ys strategy c) := by
  rw [semiJoin_eq, semiJoin_eq, h.length_eq]
  split
  · exact (r.body_rearranged parentAlias a true hextra h).divided a c
  · exact (r.body_rearranged parentAlias a false hextra h).single c

end Relation

end PathQuery
