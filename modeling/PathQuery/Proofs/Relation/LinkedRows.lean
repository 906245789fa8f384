import PathQuery.Proofs.Database.Evaluation
import PathQuery.Relation

/-!
The rows that a relation leads to, and the one that a relation to one row is followed to.
-/

set_option autoImplicit false

namespace PathQuery

variable {E : Engine}

namespace Relation

def links (r : Relation) (db : Database E) (x y : Tuple E) : Bool :=
  match r.kind with
  | .manyMany through =>
    (db through.table).any fun between =>
      E.meets (between through.fromColumn) (x r.current.column) &&
        E.meets (y r.linked.column) (between through.toColumn)
  | _ => E.meets (y r.linked.column) (x r.current.column)

def linkedRows (r : Relation) (db : Database E) (x : Tuple E) : List (Tuple E) :=
  (db r.linked.table).filter (r.links db x)

def follow (r : Relation) (db : Database E) (x : Tuple E) : Tuple E :=
  (r.linkedRows db x).headD nullRow

/-- Each row of the table between points at a linked row. -/
def PointsAtRows (r : Relation) (db : Database E) : Prop :=
  ∀ through, r.kind = .manyMany through → ∀ between ∈ db through.table,
    ∃ y ∈ db r.linked.table, E.meets (y r.linked.column) (between through.toColumn) = true

variable {r : Relation} {db : Database E}

theorem mem_linkedRows_direct (hkind : ∀ through, r.kind ≠ .manyMany through) {x y : Tuple E} :
    y ∈ r.linkedRows db x ↔
      y ∈ db r.linked.table ∧ E.meets (y r.linked.column) (x r.current.column) = true := by
  rw [linkedRows, List.mem_filter]
  unfold links
  split
  · next through h => exact absurd h (hkind through)
  · rfl

theorem mem_linkedRows_between {through : JoinTable} (hkind : r.kind = .manyMany through)
    {x y : Tuple E} :
    y ∈ r.linkedRows db x ↔
      y ∈ db r.linked.table ∧ ∃ between ∈ db through.table,
        E.meets (between through.fromColumn) (x r.current.column) = true ∧
          E.meets (y r.linked.column) (between through.toColumn) = true := by
  rw [linkedRows, List.mem_filter]
  simp only [links, hkind, List.any_eq_true, Bool.and_eq_true]

theorem kind_ne_manyMany (h : r.isToMany = false) (through : JoinTable) :
    r.kind ≠ .manyMany through := by
  intro hkind
  simp [isToMany, hkind] at h

theorem linkedRows_nullRow (r : Relation) (db : Database E) :
    r.linkedRows db nullRow = [] := by
  by_cases hkind : ∀ through, r.kind ≠ .manyMany through
  · refine List.eq_nil_iff_forall_not_mem.2 fun y hy => ?_
    have hmeets := ((mem_linkedRows_direct hkind).1 hy).2
    rw [nullRow, E.not_meets_none] at hmeets
    exact Bool.false_ne_true hmeets
  · obtain ⟨through, hkind⟩ := not_forall_not.1 hkind
    refine List.eq_nil_iff_forall_not_mem.2 fun y hy => ?_
    obtain ⟨-, between, -, hfrom, -⟩ := (mem_linkedRows_between hkind).1 hy
    rw [nullRow, E.not_meets_none] at hfrom
    exact Bool.false_ne_true hfrom

theorem follow_mem (r : Relation) (db : Database E) (x : Tuple E) :
    r.follow db x ∈ db r.linked.table ∨ r.follow db x = nullRow := by
  unfold follow
  cases hrows : r.linkedRows db x with
  | nil => exact .inr rfl
  | cons y ys =>
    have hy : y ∈ r.linkedRows db x := by simp [hrows]
    exact .inl (List.mem_filter.1 hy).1

end Relation

end PathQuery
