import PathQuery.Proofs.Relation.Unified
import PathQuery.Proofs.Sql.Markup
import PathQuery.Proofs.TwoRuns.Agreement

/-!
Statements written in one spelling. A membership and the comparison with `IN` come to the same text
with the same list bound in it, the empty list included, and so does all that is around them.
-/

set_option autoImplicit false

namespace PathQuery

namespace Sql

structure Equivalent (ps qs : List Piece) : Prop where
  chars : chars ps = chars qs
  params : params ps = params qs

namespace Equivalent

variable {ps qs ps' qs' : List Piece}

theorem refl (ps : List Piece) : Equivalent ps ps := ⟨rfl, rfl⟩

theorem append (h : Equivalent ps qs) (h' : Equivalent ps' qs') :
    Equivalent (ps ++ ps') (qs ++ qs') where
  chars := by rw [chars_append, chars_append, h.chars, h'.chars]
  params := by rw [params_append, params_append, h.params, h'.params]

theorem cons (p : Piece) (h : Equivalent ps qs) : Equivalent (p :: ps) (p :: qs) :=
  (refl [p]).append h

end Equivalent

theorem agree_self {ε : Type} (x : Except ε (List Piece)) : Agree Equivalent x x :=
  (Agree.refl x).mono fun ps _ h => h ▸ .refl ps

theorem agree_inList (a : Aliasing) (c : Connective) (column : ColumnRef) (values : List Value) :
    Agree Equivalent
      (condition a (.compare c column.tableAlias [column.column] .isIn (.list values)))
      (condition a (.membership c column values false)) := by
  cases values with
  | nil => exact .ok (.refl _)
  | cons v vs =>
    refine .ok ((Equivalent.refl (Sql.column a column)).append ⟨?_, rfl⟩)
    simp [chars_cons, Piece.chars, lit, Operator.sql]

mutual

theorem agree_condition_unified (a : Aliasing) (x : Condition) :
    Agree Equivalent (condition a x.unified) (condition a x) := by
  cases x with
  | compare c tableAlias columns op v => exact agree_self _
  | group c members =>
    cases members with
    | nil => exact .error _
    | cons x rest =>
      exact (agree_conditions_unified a (x :: rest)).bind fun _ _ hps =>
        .ok ((hps.cons _).append (.refl _))
  | existence c negated frame inner =>
    refine (Agree.refl (selectHead .nested frame)).bind fun head _ hhead => ?_
    subst hhead
    refine (agree_whereClause_unified .nested inner).bind fun body body' hbody => ?_
    exact .ok ((((Equivalent.refl _).append hbody).append (.refl _)).append (.refl _))
  | membership c column values negated =>
    cases negated with
    | true => exact agree_self _
    | false => exact agree_inList a c column values
  | columns c left op right => exact agree_self _
  | subquery c frame inner op v =>
    refine (Agree.refl (selectHead .nested frame)).bind fun head _ hhead => ?_
    subst hhead
    refine (agree_whereClause_unified .nested inner).bind fun body body' hbody => ?_
    have htext := ((Equivalent.refl (lit "(" :: head)).append hbody).append
      (.refl (selectTail .nested frame))
    exact .ok ((htext.append (.refl _)).append (.refl _))
termination_by structural x

theorem agree_conditions_unified (a : Aliasing) (xs : List Condition) :
    Agree Equivalent (conditions a (Condition.unifiedAll xs)) (conditions a xs) := by
  cases xs with
  | nil => exact agree_self _
  | cons x rest =>
    exact (agree_condition_unified a x).bind fun _ _ hown =>
      (agree_siblings_unified a rest).bind fun _ _ hrest => .ok (hown.append hrest)
termination_by structural xs

theorem agree_siblings_unified (a : Aliasing) (xs : List Condition) :
    Agree Equivalent (siblings a (Condition.unifiedAll xs)) (siblings a xs) := by
  cases xs with
  | nil => exact agree_self _
  | cons x rest =>
    rw [Condition.unifiedAll, siblings, siblings, Condition.connective_unified]
    exact (agree_condition_unified a x).bind fun _ _ hown =>
      (agree_siblings_unified a rest).bind fun _ _ hrest =>
        .ok (((Equivalent.refl _).append hown).append hrest)
termination_by structural xs

theorem agree_whereClause_unified (a : Aliasing) (xs : List Condition) :
    Agree Equivalent (whereClause a (Condition.unifiedAll xs)) (whereClause a xs) := by
  cases xs with
  | nil => exact agree_self _
  | cons x rest =>
    exact (agree_condition_unified a x).bind fun _ _ hown =>
      (agree_siblings_unified a rest).bind fun _ _ hrest => .ok ((hown.append hrest).cons _)
termination_by structural xs

end

end Sql

namespace Statement

def unified (s : Statement) : Statement :=
  { s with conditions := s.conditions.map Condition.unified }

theorem toFrame_unified (s : Statement) : s.unified.toFrame = s.toFrame := rfl

open Sql

theorem aliasing_unified (s : Statement) : Aliasing.of s.unified = Aliasing.of s := by
  simp [Aliasing.of, unified, needsAliases, hasSeveralTables, selectsJoined]

theorem agree_body_unified (a : Aliasing) (s : Statement) :
    Agree Equivalent (whereClause a s.unified.conditions) (whereClause a s.conditions) := by
  have h := agree_whereClause_unified a s.conditions
  rwa [Condition.unifiedAll_eq] at h

theorem agree_select_unified (a : Aliasing) (s : Statement) :
    Agree Equivalent (select a s.unified) (select a s) := by
  refine (Agree.refl (selectHead a s.toFrame)).bind fun head _ hhead => ?_
  subst hhead
  refine (agree_body_unified a s).bind fun body body' hbody => ?_
  exact .ok (((Equivalent.refl head).append hbody).append (.refl _))

theorem agree_update_unified (a : Aliasing) (s : Statement) :
    Agree Equivalent (update a s.unified) (update a s) := by
  unfold update
  rw [toFrame_unified]
  cases s.source with
  | none => exact .error _
  | some src =>
    dsimp only
    split
    · exact .error _
    · refine (Agree.refl (source a src)).bind fun table _ htable => ?_
      subst htable
      refine (agree_body_unified a s).bind fun body body' hbody => ?_
      exact .ok ((Equivalent.refl _).append hbody)

theorem agree_delete_unified (a : Aliasing) (s : Statement) :
    Agree Equivalent (delete a s.unified) (delete a s) := by
  have htarget : deleteTarget? s.unified = deleteTarget? s := rfl
  unfold delete
  rw [htarget, toFrame_unified]
  cases s.deleteUsing with
  | some src =>
    refine (Agree.refl (source _ src)).bind fun table _ htable => ?_
    subst htable
    exact (agree_body_unified _ s).bind fun body body' hbody =>
      .ok ((Equivalent.refl _).append hbody)
  | none =>
    cases deleteTarget? s with
    | none => exact .error _
    | some table =>
      refine (agree_body_unified a s).bind fun body body' hbody => ?_
      exact .ok ((Equivalent.refl _).append hbody)

/-- A statement compiles alike in its own spelling and in one spelling. -/
theorem agree_compile_unified (s : Statement) :
    Agree (fun c c' => Equivalent c.pieces c'.pieces) (s.unified.compile (.of s.unified))
      (s.compile (.of s)) := by
  have hkind : s.unified.kind = s.kind := rfl
  unfold compile compileAs
  rw [hkind, aliasing_unified]
  cases s.kind with
  | select => exact (agree_select_unified _ s).map fun _ _ hps => hps
  | insert => exact (agree_self (insert s)).map fun _ _ hps => hps
  | update => exact (agree_update_unified _ s).map fun _ _ hps => hps
  | delete => exact (agree_delete_unified _ s).map fun _ _ hps => hps

end Statement

end PathQuery
