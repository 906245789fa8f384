import PathQuery.Proofs.JoinTree.Marks
import PathQuery.Proofs.JoinTree.Settled
import PathQuery.Proofs.Relation.ColumnRefs

/-!
The columns that a statement over a join tree refers to. Joins compare columns of the relations that
they follow, and settling brings in no others.
-/

set_option autoImplicit false

namespace PathQuery.JoinTree

variable {t : JoinTree} {N : ColumnRef → Prop}

/-- The columns of every relation that the tree follows are among these. -/
structure Refers (t : JoinTree) (N : ColumnRef → Prop) : Prop where
  wellFormed : t.WellFormed
  edge : ∀ {p id r}, t.Edge p id r → r.Refers N (t.node p).tableAlias (t.node id).tableAlias

theorem eachLeaf_refsOnly_withConnective (c : Connective) (x : Condition) (h : x.RefsOnly N) :
    (x.withConnective c).RefsOnly N :=
  Condition.refsOnly_withConnective.2 h

mutual

theorem eachLeaf_refsOnly (x : Condition) :
    EachLeaf (Condition.RefsOnly N) x ↔ x.RefsOnly N := by
  cases x with
  | group c members => exact (eachLeafOf_refsOnly members).trans Condition.refsOnly_group.symm
  | _ => rfl
termination_by structural x

theorem eachLeafOf_refsOnly (xs : List Condition) :
    EachLeafOf (Condition.RefsOnly N) xs ↔ ∀ x ∈ xs, x.RefsOnly N := by
  cases xs with
  | nil => simp [EachLeafOf]
  | cons x rest =>
    rw [EachLeafOf, eachLeaf_refsOnly x, eachLeafOf_refsOnly rest, List.forall_mem_cons]
termination_by structural xs

end

namespace Refers

variable (h : t.Refers N)

include h

theorem refs_joinsFor {id : Nat} {kind : JoinKind} :
    ∀ j ∈ t.joinsFor id kind, ∀ c ∈ j.refs, N c := by
  intro j hj
  by_cases hid : 0 < id ∧ id < t.size
  · obtain ⟨p, r, e⟩ := h.wellFormed.edge id hid.1 hid.2
    rw [joinsFor_of_edge e] at hj
    exact Relation.refs_joins (h.edge e) kind true j hj
  · have hnone : (t.node id).relation = none := by
      rcases Nat.eq_zero_or_pos id with rfl | hpos
      · exact h.wellFormed.rootRelation
      · rw [node_of_size_le (Nat.le_of_not_lt fun hlt => hid ⟨hpos, hlt⟩)]
        rfl
    simp [joinsFor, hnone] at hj

theorem refs_joinsWithin (scope : Nat) (targets : List Nat) :
    ∀ j ∈ t.joinsWithin scope targets, ∀ c ∈ j.refs, N c := by
  intro j hj
  rw [joinsWithin_eq] at hj
  obtain ⟨id, -, hj⟩ := List.mem_flatMap.1 hj
  exact h.refs_joinsFor j hj

theorem refs_statementJoins : ∀ j ∈ t.statementJoins, ∀ c ∈ j.refs, N c := by
  intro j hj
  obtain ⟨id, -, hj⟩ := h.wellFormed.mem_statementJoins.1 hj
  exact h.refs_joinsFor j hj

theorem refsOnly_settle (scope : Nat) (xs : List Condition) :
    (∀ x ∈ xs, x.RefsOnly N) → ∀ r, t.settle scope xs = .ok r → ∀ x ∈ r.conditions,
      x.RefsOnly N := by
  intro hxs
  replace hxs := (eachLeafOf_refsOnly xs).2 hxs
  induction scope, xs using settle_induction t with
  | h scope xs ihgroup ihbelow =>
    intro r hr x hx
    have hleaves := eachLeafOf_iff.1
      (eachLeafOf_regroup eachLeaf_refsOnly_withConnective t scope hxs)
    cases h.wellFormed.settledFrom hr hx with
    | kept mem leaf joined owner right => exact (eachLeaf_iff leaf).1 (hleaves x mem)
    | @group c members inner mem settled needed =>
      exact Condition.refsOnly_group.2
        (ihgroup members (weight_members_regroup rfl mem) (hleaves _ mem) inner settled)
    | @test a p rel leaves inner strategy c below edge many lt leaves_eq settled parent right =>
      refine Relation.refsOnly_semiJoin (h.edge edge) (h.refs_joinsWithin a inner.needed) ?_
        strategy c
      refine ihbelow a below lt (resetFirst leaves)
        (eachLeafOf_resetFirst eachLeaf_refsOnly_withConnective ?_) inner settled
      rw [leaves_eq]
      exact eachLeafOf_iff.2 fun y hy => hleaves y (List.mem_filter.1 hy).1

theorem of_sameShape {u : JoinTree} (hs : SameShape t u) : u.Refers N where
  wellFormed := h.wellFormed.of_sameShape hs
  edge {p id r} e := by
    rw [hs.tableAlias p, hs.tableAlias id]
    exact h.edge (hs.symm.edge e)

theorem refsOnly_settleRoot {u : JoinTree} {xs ys : List Condition}
    (hxs : ∀ x ∈ xs, x.RefsOnly N) (hsettled : t.settleRoot xs = .ok (ys, u)) :
    ∀ x ∈ ys, x.RefsOnly N := by
  obtain ⟨r, hr, rfl, -⟩ := settleRoot_eq_ok hsettled
  exact (h.of_sameShape (sameShape_requireAll t (t.requiredBy xs))).refsOnly_settle
    rootId xs hxs r hr

end Refers

end PathQuery.JoinTree
