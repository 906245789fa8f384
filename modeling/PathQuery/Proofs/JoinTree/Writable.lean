import PathQuery.Proofs.JoinTree.Settled
import PathQuery.Proofs.Sql.Writable

/-!
Settling keeps conditions writable. A semi-join adds one test of columns, tests of the numbers it
counts with, and groups that have members; conditions that are moved to the table between keep their
shape; and a list that had conditions still has some once it is settled.
-/

set_option autoImplicit false

namespace PathQuery

namespace Condition

variable {a : String} {target : ColumnRef} {hollow : Prop} {xs : List Condition}

theorem length_redirectAll (a : String) (target : ColumnRef) (xs : List Condition) :
    (redirectAll a target xs).length = xs.length := by
  induction xs with
  | nil => rfl
  | cons x rest ih => rw [redirectAll, List.length_cons, ih, List.length_cons]

mutual

theorem throughout_redirect (x : Condition) (h : x.Throughout (Sound hollow)) :
    (x.redirect a target).Throughout (Sound hollow) := by
  cases x with
  | compare c b names op v =>
    obtain ⟨⟨column, rfl⟩, hfits⟩ := h
    rw [redirect]
    split
    · exact ⟨⟨target.column, rfl⟩, hfits⟩
    · exact ⟨⟨column, rfl⟩, hfits⟩
  | membership c column values negated =>
    rw [redirect]
    split <;> trivial
  | group c members =>
    refine ⟨fun hnil => h.1 ?_, throughout_redirectAll members h.2⟩
    rw [← List.length_eq_zero_iff, ← length_redirectAll a target, hnil]
    rfl
  | existence c negated frame inner => exact h
  | columns c left op right => exact h
  | subquery c frame inner op v => exact h
termination_by structural x

theorem throughout_redirectAll (xs : List Condition) (h : ThroughoutAll (Sound hollow) xs) :
    ThroughoutAll (Sound hollow) (redirectAll a target xs) := by
  cases xs with
  | nil => trivial
  | cons x rest => exact ⟨throughout_redirect x h.1, throughout_redirectAll rest h.2⟩
termination_by structural xs

end

theorem groupable_sound : Groupable (Throughout (Sound hollow)) where
  reconnected _ _ h := throughout_withConnective Sound.withConnective h
  group _ _ _ h hrest := throughout_group.2
    ⟨fun hnil => absurd hnil (List.cons_ne_nil _ _), List.forall_mem_cons.2 ⟨h, hrest⟩⟩

end Condition

namespace Relation

open Condition

variable {r : Relation} {a b : String} {extra : List Join} {hollow : Prop} {xs : List Condition}

theorem numbered_ne_nil {number : Nat} (h : xs ≠ []) : numbered a number xs ≠ [] := by
  cases xs with
  | nil => exact absurd rfl h
  | cons x rest => exact List.cons_ne_nil _ _

/-- A semi-join reads a table, is tied to the row outside by two columns, and takes its conditions
as they are or moved. -/
theorem writable_body (r : Relation) (a b : String) (extra : List Join) {xs : List Condition}
    (h : ∀ x ∈ xs, x.Throughout (Sound hollow)) (division : Bool) :
    let body := r.body a b extra xs division
    body.frame.HasRows ∧ body.correlation.Throughout (Sound hollow) ∧
      body.conditions.length = xs.length ∧ ∀ x ∈ body.conditions, x.Throughout (Sound hollow) := by
  have htable : ∀ body : Body, (∃ name a, body.source = .table name a) → body.frame.HasRows := by
    rintro body ⟨name, a, hsource⟩ b hb
    have hsame : body.source = .series b 0 := Option.some.inj hb
    rw [hsource] at hsame
    cases hsame
  rcases r.body_cases a b extra xs division with
    ⟨-, hbody⟩ | ⟨through, -, hbody | ⟨-, -, hbody⟩⟩
  · rw [hbody]
    exact ⟨htable _ ⟨_, _, rfl⟩, trivial, rfl, h⟩
  · rw [hbody]
    exact ⟨htable _ ⟨_, _, rfl⟩, trivial, rfl, h⟩
  · rw [hbody]
    exact ⟨htable _ ⟨_, _, rfl⟩, trivial, length_redirectAll _ _ xs,
      throughoutAll_iff.1 (throughout_redirectAll xs (throughoutAll_iff.2 h))⟩

/-- Division counts two conditions or more, so that its series has numbers and its group members. -/
theorem throughout_semiJoin (h : ∀ x ∈ xs, x.Throughout (Sound hollow)) (strategy : Strategy)
    (c : Connective) : (r.semiJoin a b extra xs strategy c).Throughout (Sound hollow) := by
  rw [semiJoin_eq]
  split
  · next hdivision =>
    obtain ⟨hrows, hcorrelation, hlength, hconditions⟩ := writable_body r a b extra h true
    have hne : (r.body a b extra xs true).conditions ≠ [] := by
      rw [← List.length_pos_iff, hlength]
      omega
    rw [Body.divided, throughout_existence, List.forall_mem_singleton, throughout_existence,
      List.forall_mem_cons, List.forall_mem_singleton, throughout_group]
    refine ⟨fun d hd => ?_, hrows, hcorrelation, fun hnil => absurd hnil (numbered_ne_nil hne),
      groupable_sound.forall_mem_numbered (fun _ => ⟨⟨seriesColumn, rfl⟩, rfl, rfl⟩) hconditions 1⟩
    exact hne (List.length_eq_zero_iff.1 (Source.series.inj (Option.some.inj hd)).2)
  · obtain ⟨hrows, hcorrelation, -, hconditions⟩ := writable_body r a b extra h false
    rw [Body.single, throughout_existence, List.forall_mem_cons]
    exact ⟨hrows, hcorrelation, groupable_sound.forall_mem_conjoined hconditions⟩

end Relation

namespace JoinTree

open Condition

variable {t : JoinTree} {scope : Nat} {hollow : Prop} {xs : List Condition} {r : Settled}

theorem regroup_ne_nil (h : xs ≠ []) : t.regroup scope xs ≠ [] := by
  unfold regroup
  split
  · cases xs with
    | nil => exact absurd rfl h
    | cons x rest =>
      obtain ⟨run, others, hruns⟩ := runs_cons x rest
      rw [hruns, List.flatMap_cons]
      intro hnil
      cases run with
      | nil => cases (List.append_eq_nil_iff.1 hnil).1
      | cons y run => cases (List.append_eq_nil_iff.1 hnil).1
  · exact h

theorem conditions_ne_nil_of_settle (h : t.settle scope xs = .ok r) (hne : xs ≠ []) :
    r.conditions ≠ [] := by
  obtain ⟨slots, hslots, hplaces⟩ := settle_eq_ok h
  refine hplaces.conditions_ne_nil ?_
  rintro rfl
  exact regroup_ne_nil hne (List.forall₂_nil_right_iff.1 hslots)

theorem throughout_regroup (h : ∀ x ∈ xs, x.Throughout (Sound hollow)) :
    ∀ x ∈ t.regroup scope xs, x.Throughout (Sound hollow) := by
  intro y hy
  rcases regroup_cases hy with hy | ⟨x, rest, hmembers, rfl⟩
  · exact h y hy
  · rw [List.forall_mem_cons] at hmembers
    rw [throughout_group, List.forall_mem_cons]
    exact ⟨fun hnil => absurd hnil (List.cons_ne_nil _ _),
      throughout_withConnective Sound.withConnective (h x hmembers.1),
      fun z hz => h z (hmembers.2 z hz)⟩

theorem throughout_resetFirst (h : ∀ x ∈ xs, x.Throughout (Sound hollow)) :
    ∀ x ∈ resetFirst xs, x.Throughout (Sound hollow) := by
  cases xs with
  | nil => exact h
  | cons x rest =>
    rw [List.forall_mem_cons] at h
    rw [resetFirst, List.forall_mem_cons]
    exact ⟨throughout_withConnective Sound.withConnective h.1, h.2⟩

theorem WellFormed.throughout_settle (ht : t.WellFormed) (scope : Nat) (xs : List Condition) :
    (∀ x ∈ xs, x.Throughout (Sound hollow)) → ∀ r, t.settle scope xs = .ok r →
      ∀ x ∈ r.conditions, x.Throughout (Sound hollow) := by
  induction scope, xs using settle_induction t with
  | h scope xs ihgroup ihbelow =>
    intro hxs r h x hx
    have hregrouped : ∀ x ∈ t.regroup scope xs, x.Throughout (Sound hollow) :=
      throughout_regroup hxs
    cases ht.settledFrom h hx with
    | kept mem => exact hregrouped x mem
    | @group c members inner mem settled needed =>
      obtain ⟨hgroup, hmembers⟩ := throughout_group.1 (hregrouped _ mem)
      refine throughout_group.2 ⟨fun hnil => hgroup ?_, ?_⟩
      · by_contra hne
        exact conditions_ne_nil_of_settle settled hne hnil
      · exact ihgroup members (weight_members_regroup rfl mem) hmembers inner settled
    | @test a p rel leaves inner strategy c below edge many lt leaves_eq settled parent right =>
      refine Relation.throughout_semiJoin ?_ strategy c
      refine ihbelow a below lt (resetFirst leaves) (throughout_resetFirst ?_) inner settled
      rw [leaves_eq]
      exact fun y hy => hregrouped y (List.mem_filter.1 hy).1

end JoinTree

end PathQuery
