import Mathlib.Data.List.Forall2
import PathQuery.Proofs.JoinTree.Reading
import PathQuery.Proofs.JoinTree.Runs
import PathQuery.Proofs.JoinTree.Slots

/-!
Mixed lists put into runs of AND. The runs of a list with conditions below a relation to many become
its members, joined by OR alone, and inside each run AND alone is left. No condition is lost, none
changes its place, and whatever the conditions come to, the list comes to what it came to before.
-/

set_option autoImplicit false

namespace PathQuery

namespace Condition

mutual

def leaves : Condition → List Condition
  | .group _ members => allLeaves members
  | x => [x.withConnective .and]
termination_by structural x => x

def allLeaves : List Condition → List Condition
  | [] => []
  | x :: rest => x.leaves ++ allLeaves rest
termination_by structural xs => xs

end

theorem allLeaves_append (xs ys : List Condition) :
    allLeaves (xs ++ ys) = allLeaves xs ++ allLeaves ys := by
  induction xs with
  | nil => rfl
  | cons x xs ih => simp [allLeaves, ih]

theorem leaves_withConnective (c : Connective) (x : Condition) :
    (x.withConnective c).leaves = x.leaves := by
  cases x <;> rfl

section Value

variable {α : Type} [Lattice α] [BoundedOrder α] (truth : Nat → α)

mutual

/-- What a condition comes to where `truth i` is what leaf number `i` comes to and the leaves of the
condition are numbered from `first` on. A group is read by itself. -/
def value (first : Nat) : Condition → α
  | .group _ members => Connective.read (values first members)
  | _ => truth first
termination_by structural x => x

def values (first : Nat) : List Condition → List (Connective × α)
  | [] => []
  | x :: rest => (x.connective, value first x) :: values (first + x.leaves.length) rest
termination_by structural xs => xs

end

theorem values_append (first : Nat) (xs ys : List Condition) :
    values truth first (xs ++ ys) =
      values truth first xs ++ values truth (first + (allLeaves xs).length) ys := by
  induction xs generalizing first with
  | nil => rfl
  | cons x xs ih => simp [values, allLeaves, ih, Nat.add_assoc]

theorem values_run (first : Nat) {xs : List Condition} (h : ∀ x ∈ xs, x.connective = .and) :
    values truth first xs = ((values truth first xs).map Prod.snd).map (Prod.mk .and) :=
  Connective.values_eq_run (fun _ => rfl) (fun _ _ _ => rfl) first h

theorem value_withConnective (first : Nat) (c : Connective) (x : Condition) :
    value truth first (x.withConnective c) = value truth first x := by
  cases x <;> rfl

end Value

end Condition

namespace JoinTree

open Condition (allLeaves values)

variable {t : JoinTree} {scope : Nat} {xs : List Condition}

/-- A list with a member below a relation to many is joined by one connective. -/
def Uniform (t : JoinTree) (scope : Nat) (xs : List Condition) : Prop :=
  (∃ x ∈ xs, t.anchorAt? scope x ≠ none) → ∃ c, ∀ x ∈ xs.drop 1, x.connective = c

theorem exists_ofRun_eq {run : List Condition} (h : run ≠ []) : ∃ y, ofRun run = [y] := by
  obtain ⟨x, rest, -, ⟨-, h⟩ | h⟩ := ofRun_eq h
  · exact ⟨_, h⟩
  · exact ⟨_, h⟩

theorem connective_ofRun {x y : Condition} {rest : List Condition}
    (h : y ∈ ofRun (x :: rest)) : y.connective = x.connective := by
  cases rest with
  | nil =>
    obtain rfl := List.mem_singleton.1 h
    rfl
  | cons z rest =>
    obtain rfl := List.mem_singleton.1 h
    rfl

theorem connective_regrouped (xs : List Condition) :
    ∀ y ∈ ((runs xs).flatMap ofRun).drop 1, y.connective = .or := by
  cases hruns : runs xs with
  | nil => simp
  | cons run others =>
    have hrun : run ∈ runs xs := by simp [hruns]
    obtain ⟨z, hz⟩ := exists_ofRun_eq (ne_nil_of_mem_runs hrun)
    rw [List.flatMap_cons, hz]
    intro y hy
    obtain ⟨run', hrun', hy⟩ := List.mem_flatMap.1 hy
    have hmem : run' ∈ (runs xs).drop 1 := by simpa [hruns] using hrun'
    obtain ⟨x, rest, rfl, -⟩ := ofRun_eq (ne_nil_of_mem_runs (List.mem_of_mem_drop hmem))
    rw [connective_ofRun hy, head_of_mem_runs hmem]

theorem connective_of_not_mixed (h : isMixed xs = false) :
    (∀ x ∈ xs.drop 1, x.connective = .and) ∨ ∀ x ∈ xs.drop 1, x.connective = .or := by
  rcases Bool.and_eq_false_iff.1 h with h | h
  · refine .inl fun x hx => ?_
    have hx := List.any_eq_false.1 h x hx
    cases hc : x.connective with
    | and => rfl
    | or => simp [hc] at hx
  · refine .inr fun x hx => ?_
    have hx := List.any_eq_false.1 h x hx
    cases hc : x.connective with
    | and => simp [hc] at hx
    | or => rfl

theorem anchorAt?_of_not_anchored (h : xs.any (t.isAnchored scope) = false) :
    ∀ x ∈ xs, t.anchorAt? scope x = none := by
  intro x hx
  have hnone := List.any_eq_false.1 h x hx
  cases hm : members? x with
  | none => simpa [isAnchored, hm, anchorAt?] using hnone
  | some members =>
    obtain ⟨c, rfl⟩ := exists_members hm
    rfl

/-- A list is regrouped into its runs, or it is joined by one connective as far as that matters. -/
theorem regroup_eq (t : JoinTree) (scope : Nat) (xs : List Condition) :
    t.regroup scope xs = (runs xs).flatMap ofRun ∨
      (t.regroup scope xs = xs ∧ t.Uniform scope xs) := by
  unfold regroup
  split
  · exact .inl rfl
  · next hkept =>
    refine .inr ⟨rfl, ?_⟩
    rintro ⟨x, hx, hanchored⟩
    rcases Bool.and_eq_false_iff.1 (Bool.eq_false_iff.2 hkept) with hmixed | hnone
    · rcases connective_of_not_mixed hmixed with hand | hor
      · exact ⟨.and, hand⟩
      · exact ⟨.or, hor⟩
    · exact absurd (anchorAt?_of_not_anchored hnone x hx) hanchored

theorem uniform_regroup (t : JoinTree) (scope : Nat) (xs : List Condition) :
    t.Uniform scope (t.regroup scope xs) := by
  rcases t.regroup_eq scope xs with hruns | ⟨hsame, huniform⟩
  · rw [hruns]
    exact fun _ => ⟨.or, connective_regrouped xs⟩
  · rwa [hsame]

/-- What stands in a regrouped list for neighbours of the list: for one condition the condition, for
several a group of them that took the connective of the first. -/
inductive StandsFor (t : JoinTree) (scope : Nat) : List Condition → Condition → Prop
  | single (x : Condition) : StandsFor t scope [x] x
  | group {x y : Condition} {rest : List Condition}
    (uniform : t.Uniform scope (x.withConnective .and :: y :: rest)) :
    StandsFor t scope (x :: y :: rest) (.group x.connective (x.withConnective .and :: y :: rest))

theorem exists_standsFor {run : List Condition} (hne : run ≠ [])
    (hand : ∀ x ∈ run.drop 1, x.connective = .and) :
    ∃ y, ofRun run = [y] ∧ t.StandsFor scope run y := by
  match run with
  | [] => exact absurd rfl hne
  | [x] => exact ⟨x, rfl, .single x⟩
  | x :: y :: rest => exact ⟨_, rfl, .group fun _ => ⟨.and, hand⟩⟩

theorem standsFor_flatMap_ofRun {rs : List (List Condition)} (hne : ∀ run ∈ rs, run ≠ [])
    (hand : ∀ run ∈ rs, ∀ x ∈ run.drop 1, x.connective = .and) :
    List.Forall₂ (t.StandsFor scope) rs (rs.flatMap ofRun) := by
  induction rs with
  | nil => exact .nil
  | cons run rs ih =>
    rw [List.forall_mem_cons] at hne hand
    obtain ⟨y, hy, hstands⟩ : ∃ y, ofRun run = [y] ∧ t.StandsFor scope run y :=
      exists_standsFor hne.1 hand.1
    rw [List.flatMap_cons, hy]
    exact .cons hstands (ih hne.2 hand.2)

theorem exists_standsFor_regroup (t : JoinTree) (scope : Nat) (xs : List Condition) :
    ∃ parts : List (List Condition), parts.flatten = xs ∧
      List.Forall₂ (t.StandsFor scope) parts (t.regroup scope xs) := by
  rcases t.regroup_eq scope xs with hruns | ⟨hsame, -⟩
  · rw [hruns]
    exact ⟨runs xs, flatten_runs xs, standsFor_flatMap_ofRun (fun _ => ne_nil_of_mem_runs)
      fun _ => connective_of_mem_runs⟩
  · rw [hsame]
    refine ⟨xs.map fun x => [x], ?_, ?_⟩
    · rw [← List.flatMap_def, List.flatMap_singleton']
    · rw [List.forall₂_map_left_iff]
      exact List.forall₂_same.2 fun x _ => .single x

theorem allLeaves_ofRun (run : List Condition) : allLeaves (ofRun run) = allLeaves run := by
  match run with
  | [] => rfl
  | [x] => rfl
  | x :: y :: rest =>
    simp [ofRun, Condition.allLeaves, Condition.leaves, Condition.leaves_withConnective]

theorem allLeaves_flatMap_ofRun (rs : List (List Condition)) :
    allLeaves (rs.flatMap ofRun) = allLeaves rs.flatten := by
  induction rs with
  | nil => rfl
  | cons run rs ih =>
    rw [List.flatMap_cons, List.flatten_cons, Condition.allLeaves_append,
      Condition.allLeaves_append, allLeaves_ofRun, ih]

theorem allLeaves_regroup (t : JoinTree) (scope : Nat) (xs : List Condition) :
    allLeaves (t.regroup scope xs) = allLeaves xs := by
  rcases t.regroup_eq scope xs with hruns | ⟨hsame, -⟩
  · rw [hruns, allLeaves_flatMap_ofRun, flatten_runs]
  · rw [hsame]

section Value

variable {α : Type} [Lattice α] [BoundedOrder α]

theorem read_ofRun (truth : Nat → α) (first : Nat) (before after : List (Connective × α))
    {run : List Condition} (hand : ∀ x ∈ run.drop 1, x.connective = .and) :
    Connective.read (before ++ (values truth first (ofRun run) ++ after)) =
      Connective.read (before ++ (values truth first run ++ after)) := by
  match run with
  | [] => rfl
  | [x] => rfl
  | x :: y :: rest =>
    have hrest : ∀ z ∈ y :: rest, z.connective = .and := hand
    have hrun := Condition.values_run truth (first + x.leaves.length) hrest
    have hread := Connective.read_grouped before after x.connective (Condition.value truth first x)
      ((values truth (first + x.leaves.length) (y :: rest)).map Prod.snd)
    rw [← hrun] at hread
    have hgroup : ∀ members, (Condition.group x.connective members).connective = x.connective :=
      fun _ => rfl
    simpa only [ofRun, Condition.values, Condition.value, hgroup, Condition.value_withConnective,
      Condition.leaves_withConnective, Condition.connective_withConnective, List.cons_append,
      List.nil_append] using hread.symm

theorem read_flatMap_ofRun (truth : Nat → α) (first : Nat) (before : List (Connective × α))
    {rs : List (List Condition)} (hand : ∀ run ∈ rs, ∀ x ∈ run.drop 1, x.connective = .and) :
    Connective.read (before ++ values truth first (rs.flatMap ofRun)) =
      Connective.read (before ++ values truth first rs.flatten) := by
  induction rs generalizing first before with
  | nil => rfl
  | cons run rs ih =>
    rw [List.forall_mem_cons] at hand
    rw [List.flatMap_cons, List.flatten_cons, Condition.values_append, Condition.values_append,
      allLeaves_ofRun, read_ofRun truth first before _ hand.1, ← List.append_assoc,
      ← List.append_assoc, ih _ _ hand.2]

theorem read_regroup (t : JoinTree) (scope : Nat) (xs : List Condition) (truth : Nat → α) :
    Connective.read (values truth 0 (t.regroup scope xs)) =
      Connective.read (values truth 0 xs) := by
  rcases t.regroup_eq scope xs with hruns | ⟨hsame, -⟩
  · have hand : ∀ run ∈ runs xs, ∀ x ∈ run.drop 1, x.connective = .and :=
      fun _ => connective_of_mem_runs
    have hread := read_flatMap_ofRun truth 0 [] hand
    rwa [flatten_runs, ← hruns] at hread
  · rw [hsame]

end Value

/-- Regrouping changes nothing of what a list comes to and keeps its leaves in their order; what it
leaves behind is joined by one connective where a member is below a relation to many, in the list
and in each group that was made, and members of the list are as they were. -/
theorem regroup_keeps_value_uniformly (t : JoinTree) (scope : Nat) (xs : List Condition) :
    (∀ {α : Type} [Lattice α] [BoundedOrder α] (truth : Nat → α),
        Connective.read (values truth 0 (t.regroup scope xs)) =
          Connective.read (values truth 0 xs)) ∧
      allLeaves (t.regroup scope xs) = allLeaves xs ∧
      t.Uniform scope (t.regroup scope xs) ∧
      ∃ parts : List (List Condition), parts.flatten = xs ∧
        List.Forall₂ (t.StandsFor scope) parts (t.regroup scope xs) :=
  ⟨t.read_regroup scope xs, t.allLeaves_regroup scope xs, t.uniform_regroup scope xs,
    t.exists_standsFor_regroup scope xs⟩

end JoinTree

end PathQuery
