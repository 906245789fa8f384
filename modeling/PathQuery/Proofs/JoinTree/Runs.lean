import PathQuery.JoinTree.SemiJoins
import PathQuery.Proofs.Precedence

/-!
Runs of AND as the reading of a list: a list without members holds, any other where all members of
one of its runs do.
-/

set_option autoImplicit false

namespace PathQuery.JoinTree

/-- Behind the first condition a list goes on with the rest of the first run, and then with the
others. -/
theorem exists_runs (rest : List Condition) :
    ∃ lead others, (∀ x, runs (x :: rest) = (x :: lead) :: others) ∧
      ∀ (P : Condition → Prop) (q : Prop),
        Connective.readFrom q (rest.map fun x => (x.connective, P x)) ↔
          (q ∧ ∀ x ∈ lead, P x) ∨ ∃ run ∈ others, ∀ x ∈ run, P x := by
  induction rest with
  | nil => exact ⟨[], [], fun _ => rfl, fun P q => by simp [Connective.readFrom]⟩
  | cons y rest ih =>
    obtain ⟨lead, others, hruns, hread⟩ := ih
    cases hy : y.connective with
    | and =>
      refine ⟨y :: lead, others, fun x => ?_, fun P q => ?_⟩
      · rw [runs, hruns y, pushRun, if_pos hy]
      · rw [List.map_cons, hy, Connective.readFrom, hread]
        simp [and_assoc]
    | or =>
      refine ⟨[], (y :: lead) :: others, fun x => ?_, fun P q => ?_⟩
      · rw [runs, hruns y, pushRun, if_neg (by simp [hy])]
      · rw [List.map_cons, hy, Connective.readFrom, hread]
        simp

theorem read_iff_runs (P : Condition → Prop) (xs : List Condition) :
    Connective.read (xs.map fun x => (x.connective, P x)) ↔
      xs = [] ∨ ∃ run ∈ runs xs, ∀ x ∈ run, P x := by
  cases xs with
  | nil => simp [Connective.read]
  | cons x rest =>
    obtain ⟨lead, others, hruns, hread⟩ := exists_runs rest
    rw [List.map_cons, Connective.read, hread, hruns x]
    simp

theorem mem_of_mem_runs {xs run : List Condition} (h : run ∈ runs xs) {x : Condition}
    (hx : x ∈ run) : x ∈ xs := by
  rw [← flatten_runs xs]
  exact List.mem_flatten.2 ⟨run, h, hx⟩

theorem runs_of_and {x : Condition} {rest : List Condition}
    (h : ∀ y ∈ rest, y.connective = .and) : runs (x :: rest) = [x :: rest] := by
  induction rest generalizing x with
  | nil => rfl
  | cons y rest ih =>
    rw [List.forall_mem_cons] at h
    rw [runs, ih h.2, pushRun, if_pos h.1]

theorem runs_of_or {x : Condition} {rest : List Condition} (h : ∀ y ∈ rest, y.connective = .or) :
    runs (x :: rest) = (x :: rest).map fun y => [y] := by
  induction rest generalizing x with
  | nil => rfl
  | cons y rest ih =>
    rw [List.forall_mem_cons] at h
    rw [runs, ih h.2, List.map_cons, pushRun, if_neg (by simp [h.1]), List.map_cons, List.map_cons]

theorem connective_of_mem_runs {xs run : List Condition} (h : run ∈ runs xs) :
    ∀ x ∈ run.drop 1, x.connective = .and := by
  induction xs generalizing run with
  | nil => simp [runs] at h
  | cons x xs ih =>
    cases xs with
    | nil =>
      obtain rfl : run = [x] := by simpa [runs, pushRun] using h
      simp
    | cons y ys =>
      obtain ⟨lead, others, hruns⟩ := runs_cons y ys
      rw [hruns] at ih
      rw [runs, hruns, pushRun] at h
      split at h
      · next hy =>
        rcases List.mem_cons.1 h with rfl | h
        · have hlead : ∀ z ∈ lead, z.connective = .and := ih List.mem_cons_self
          simpa [hy] using hlead
        · exact ih (List.mem_cons_of_mem _ h)
      · rcases List.mem_cons.1 h with rfl | h
        · simp
        · exact ih h

theorem head_of_mem_runs {xs : List Condition} {x : Condition} {rest : List Condition}
    (h : x :: rest ∈ (runs xs).drop 1) : x.connective = .or := by
  induction xs with
  | nil => simp [runs] at h
  | cons y xs ih =>
    cases xs with
    | nil => simp [runs, pushRun] at h
    | cons z zs =>
      obtain ⟨lead, others, hruns⟩ := runs_cons z zs
      rw [hruns] at ih
      rw [runs, hruns, pushRun] at h
      split at h
      · exact ih h
      · next hz =>
        rcases List.mem_cons.1 h with heq | h
        · obtain ⟨rfl, -⟩ := List.cons.inj heq
          cases hx : x.connective with
          | and => exact absurd hx hz
          | or => rfl
        · exact ih h

theorem ofRun_eq {run : List Condition} (h : run ≠ []) :
    ∃ x rest, run = x :: rest ∧ ((rest = [] ∧ ofRun run = [x]) ∨
      ofRun run = [.group x.connective (x.withConnective .and :: rest)]) := by
  cases run with
  | nil => exact absurd rfl h
  | cons x rest =>
    refine ⟨x, rest, rfl, ?_⟩
    cases rest with
    | nil => exact .inl ⟨rfl, rfl⟩
    | cons y rest => exact .inr rfl

/-- A condition of a regrouped list is one of the list, or a group of several of them. -/
theorem regroup_cases {t : JoinTree} {scope : Nat} {xs : List Condition} {y : Condition}
    (h : y ∈ t.regroup scope xs) : y ∈ xs ∨ ∃ x rest, (∀ z ∈ x :: rest, z ∈ xs) ∧
      y = .group x.connective (x.withConnective .and :: rest) := by
  unfold regroup at h
  split at h
  · obtain ⟨run, hrun, hy⟩ := List.mem_flatMap.1 h
    have hmembers : ∀ x ∈ run, x ∈ xs := fun x hx => mem_of_mem_runs hrun hx
    obtain ⟨x, rest, rfl, ⟨-, h⟩ | h⟩ := ofRun_eq (ne_nil_of_mem_runs hrun)
    · rw [h, List.mem_singleton] at hy
      exact .inl (hy ▸ hmembers x List.mem_cons_self)
    · rw [h, List.mem_singleton] at hy
      exact .inr ⟨x, rest, hmembers, hy⟩
  · exact .inl h

theorem regroup_of_connective {t : JoinTree} {scope : Nat} {xs : List Condition}
    {c : Connective} (h : ∀ x ∈ xs.drop 1, x.connective = c) : t.regroup scope xs = xs := by
  have hmixed : isMixed xs = false := by
    unfold isMixed
    cases c with
    | and =>
      rw [Bool.and_eq_false_iff]
      exact .inl (List.any_eq_false.2 fun x hx => by simp [h x hx])
    | or =>
      rw [Bool.and_eq_false_iff]
      exact .inr (List.any_eq_false.2 fun x hx => by simp [h x hx])
  simp [regroup, hmixed]

end PathQuery.JoinTree
