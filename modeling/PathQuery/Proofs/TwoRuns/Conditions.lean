import PathQuery.Proofs.TwoRuns.Comparisons
import PathQuery.Proofs.Relation.Bodies

/-!
Conditions that are alike, and semi-joins over them. What a condition is about does not depend on
its values: the alias of its columns, whether it needs a row, whether it holds a SELECT. Whether the
linked table of a semi-join is left out depends on the columns that the conditions speak of, and the
numbers of a division on how many they are.
-/

set_option autoImplicit false

namespace PathQuery

variable {ρ : Value → Value → Prop}

theorem Frame.alike_refl {f : Frame} (hassignments : f.assignments = []) (hrows : f.rows = []) :
    f.Alike ρ f where
  rest := rfl
  assignments := by simp [hassignments]
  rows := by simp [hrows]

theorem alike_self_assignments {α : Type} (hρ : ∀ v, ρ v v) (xs : List (α × Value)) :
    List.Forall₂ (AssignmentAlike ρ) xs xs :=
  List.forall₂_same.2 fun x _ => ⟨rfl, Value.alike_self hρ x.2⟩

theorem alike_self_rows (hρ : ∀ v, ρ v v) (rows : List (List Value)) :
    List.Forall₂ (List.Forall₂ (Value.Alike ρ)) rows rows :=
  List.forall₂_same.2 fun row _ => Value.forall₂_alike_self hρ row

theorem Frame.alike_self (hρ : ∀ v, ρ v v) (f : Frame) : f.Alike ρ f where
  rest := rfl
  assignments := alike_self_assignments hρ f.assignments
  rows := alike_self_rows hρ f.rows

namespace Condition

mutual

theorem alike_self (hρ : ∀ v, ρ v v) (x : Condition) : x.Alike ρ x := by
  cases x with
  | compare c a names op v => exact ⟨v, rfl, v.alike_self hρ⟩
  | group c members => exact ⟨members, rfl, allAlike_self hρ members⟩
  | existence c negated f inner =>
    exact ⟨f, inner, rfl, f.alike_self hρ, allAlike_self hρ inner⟩
  | membership c column values negated => exact ⟨values, rfl, Value.forall₂_alike_self hρ values⟩
  | columns c left op right => rfl
  | subquery c f inner op v =>
    exact ⟨f, inner, v, rfl, f.alike_self hρ, allAlike_self hρ inner, v.alike_self hρ⟩
termination_by structural x

theorem allAlike_self (hρ : ∀ v, ρ v v) (xs : List Condition) : AllAlike ρ xs xs := by
  cases xs with
  | nil => rfl
  | cons x rest => exact ⟨x, rest, rfl, alike_self hρ x, allAlike_self hρ rest⟩
termination_by structural xs

end

theorem Alike.tableAlias?_eq {x y : Condition} (h : x.Alike ρ y) : x.tableAlias? = y.tableAlias? :=
  h.view_eq fun x => by cases x <;> rfl

theorem needsRow_outline (x : Condition) : x.outline.needsRow = x.needsRow := by
  cases x with
  | compare c a names op v => rw [outline, needsRow, needsRow, Value.isNull_blank]
  | _ => rfl

theorem Alike.needsRow_eq {x y : Condition} (h : x.Alike ρ y) : x.needsRow = y.needsRow :=
  h.view_eq needsRow_outline

mutual

theorem usesOnlyKey_outline (a key : String) (x : Condition) :
    x.outline.usesOnlyKey a key = x.usesOnlyKey a key := by
  cases x with
  | group c members => exact useOnlyKey_outlines a key members
  | _ => rfl
termination_by structural x

theorem useOnlyKey_outlines (a key : String) (xs : List Condition) :
    useOnlyKey a key (outlines xs) = useOnlyKey a key xs := by
  cases xs with
  | nil => rfl
  | cons x xs =>
    rw [outlines, useOnlyKey, useOnlyKey, usesOnlyKey_outline a key x,
      useOnlyKey_outlines a key xs]
termination_by structural xs

end

theorem useOnlyKey_eq (a key : String) {xs ys : List Condition}
    (h : List.Forall₂ (Alike ρ) xs ys) : useOnlyKey a key xs = useOnlyKey a key ys :=
  (alike_group .and h).view_eq (usesOnlyKey_outline a key)

mutual

theorem hasSubquery_outline (x : Condition) : x.outline.hasSubquery = x.hasSubquery := by
  cases x with
  | group c members => exact anySubquery_outlines members
  | _ => rfl
termination_by structural x

theorem anySubquery_outlines (xs : List Condition) :
    anySubquery (outlines xs) = anySubquery xs := by
  cases xs with
  | nil => rfl
  | cons x xs =>
    rw [outlines, anySubquery, anySubquery, hasSubquery_outline x, anySubquery_outlines xs]
termination_by structural xs

end

theorem anySubquery_eq {xs ys : List Condition} (h : List.Forall₂ (Alike ρ) xs ys) :
    anySubquery xs = anySubquery ys :=
  (alike_group .and h).view_eq hasSubquery_outline

mutual

theorem Alike.redirect (a : String) (target : ColumnRef) (x : Condition) {y : Condition}
    (h : x.Alike ρ y) : (x.redirect a target).Alike ρ (y.redirect a target) := by
  cases x with
  | compare c a' names op v =>
    obtain ⟨w, rfl, hv⟩ := h
    simp only [Condition.redirect]
    split
    · exact ⟨w, rfl, hv⟩
    · exact ⟨w, rfl, hv⟩
  | group c xs =>
    obtain ⟨ys, rfl, hxs⟩ := h
    exact ⟨_, rfl, AllAlike.redirectAll a target xs hxs⟩
  | existence c negated f xs =>
    obtain ⟨g, ys, rfl, hrest⟩ := h
    exact ⟨g, ys, rfl, hrest⟩
  | membership c col vs negated =>
    obtain ⟨ws, rfl, hws⟩ := h
    simp only [Condition.redirect]
    split
    · exact ⟨ws, rfl, hws⟩
    · exact ⟨ws, rfl, hws⟩
  | columns c left op right =>
    obtain rfl := h
    rfl
  | subquery c f xs op v =>
    obtain ⟨g, ys, w, rfl, hrest⟩ := h
    exact ⟨g, ys, w, rfl, hrest⟩
termination_by structural x

theorem AllAlike.redirectAll (a : String) (target : ColumnRef) (xs : List Condition)
    {ys : List Condition} (h : AllAlike ρ xs ys) :
    AllAlike ρ (redirectAll a target xs) (redirectAll a target ys) := by
  cases xs with
  | nil =>
    obtain rfl := h
    rfl
  | cons x xs =>
    obtain ⟨y, ys, rfl, hx, hxs⟩ := h
    exact ⟨_, _, rfl, Alike.redirect a target x hx, AllAlike.redirectAll a target xs hxs⟩
termination_by structural xs

end

theorem conjoined_alike {xs ys : List Condition} (h : List.Forall₂ (Alike ρ) xs ys) :
    List.Forall₂ (Alike ρ) (conjoined xs) (conjoined ys) := by
  cases h with
  | nil => exact .nil
  | cons hx hrest =>
    cases hrest with
    | nil => exact .cons (hx.withConnective .and) .nil
    | cons hx' hrest =>
      exact .cons (alike_group .and (.cons (hx.withConnective .and) (.cons hx' hrest))) .nil

end Condition

theorem Statement.needsAliases_eq {s s' : Statement} (h : s.toFrame.Alike ρ s'.toFrame)
    (hsubquery : Condition.anySubquery s.conditions = Condition.anySubquery s'.conditions) :
    s.needsAliases = s'.needsAliases := by
  have hjoins : s.joins = s'.joins := (congrArg Frame.joins h.rest :)
  have husing : s.deleteUsing = s'.deleteUsing := (congrArg Frame.deleteUsing h.rest :)
  simp only [needsAliases, hasSeveralTables, hjoins, husing, hsubquery]

namespace Relation

open Condition

theorem numbered_alike (a : String) (n : Nat) {xs ys : List Condition}
    (h : List.Forall₂ (Condition.Alike ρ) xs ys) :
    List.Forall₂ (Condition.Alike ρ) (numbered a n xs) (numbered a n ys) := by
  induction h generalizing n with
  | nil => exact .nil
  | cons hx _ ih =>
    have hnumber : (ofColumn (seriesAlias a) seriesColumn .eq (.raw (toString n))).Alike ρ
        (ofColumn (seriesAlias a) seriesColumn .eq (.raw (toString n))) :=
      alike_ofColumn _ _ _ rfl
    exact .cons (alike_group _ (.cons hnumber (.cons (hx.withConnective .and) .nil))) (ih (n + 1))

structure BodyAlike (ρ : Value → Value → Prop) (b b' : Body) : Prop where
  source : b.source = b'.source
  joins : b.joins = b'.joins
  correlation : b.correlation.Alike ρ b'.correlation
  conditions : List.Forall₂ (Condition.Alike ρ) b.conditions b'.conditions

theorem body_alike (r : Relation) (parentAlias a : String) (extra : List Join) (division : Bool)
    {xs ys : List Condition} (h : List.Forall₂ (Condition.Alike ρ) xs ys) :
    BodyAlike ρ (r.body parentAlias a extra xs division)
      (r.body parentAlias a extra ys division) := by
  have hkey := Condition.useOnlyKey_eq a r.linked.column h
  obtain ⟨name, kind, current, linked⟩ := r
  cases kind with
  | manyMany through =>
    simp only [body]
    rw [hkey]
    refine ⟨rfl, rfl, rfl, ?_⟩
    simp only
    split
    · exact h
    · exact Condition.allAlike_iff.1
        (Condition.AllAlike.redirectAll _ _ xs (Condition.allAlike_iff.2 h))
  | belongsTo => exact ⟨rfl, rfl, rfl, h⟩
  | hasOne => exact ⟨rfl, rfl, rfl, h⟩
  | hasMany => exact ⟨rfl, rfl, rfl, h⟩

theorem BodyAlike.frame {b b' : Body} (h : BodyAlike ρ b b') : b.frame.Alike ρ b'.frame := by
  rw [Body.frame, Body.frame, h.source, h.joins]
  exact Frame.alike_refl rfl rfl

theorem BodyAlike.single {b b' : Body} (h : BodyAlike ρ b b') (c : Connective) :
    (b.single c).Alike ρ (b'.single c) := by
  have hconditions := List.Forall₂.cons h.correlation (conjoined_alike h.conditions)
  exact ⟨_, _, rfl, h.frame, allAlike_iff.2 hconditions⟩

theorem BodyAlike.divided {b b' : Body} (h : BodyAlike ρ b b') (a : String) (c : Connective) :
    (b.divided a c).Alike ρ (b'.divided a c) := by
  have hnumbered : (Condition.group .and (numbered a 1 b.conditions)).Alike ρ
      (.group .and (numbered a 1 b'.conditions)) :=
    alike_group .and (numbered_alike a 1 h.conditions)
  have hinner := List.Forall₂.cons h.correlation (.cons hnumbered .nil)
  have htest : (Condition.existence .and true b.frame
      [b.correlation, .group .and (numbered a 1 b.conditions)]).Alike ρ _ :=
    ⟨_, _, rfl, h.frame, allAlike_iff.2 hinner⟩
  refine ⟨_, _, rfl, ?_, allAlike_iff.2 (.cons htest .nil)⟩
  rw [h.conditions.length_eq]
  exact Frame.alike_refl rfl rfl

theorem semiJoin_alike (r : Relation) (parentAlias a : String) (extra : List Join)
    (strategy : Strategy) (c : Connective) {xs ys : List Condition}
    (h : List.Forall₂ (Condition.Alike ρ) xs ys) :
    (r.semiJoin parentAlias a extra xs strategy c).Alike ρ
      (r.semiJoin parentAlias a extra ys strategy c) := by
  rw [semiJoin_eq, semiJoin_eq, h.length_eq]
  split
  · exact (body_alike r parentAlias a extra true h).divided a c
  · exact (body_alike r parentAlias a extra false h).single c

end Relation

end PathQuery
