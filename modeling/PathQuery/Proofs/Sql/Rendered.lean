import PathQuery.Proofs.Outcome
import PathQuery.Sql.Render

/-!
What clauses and statements are made of where they could be written at all: the inversions of the
definitions that can refuse.
-/

set_option autoImplicit false

namespace PathQuery.Sql

theorem selectHead_eq_ok {a : Aliasing} {f : Frame} {ps : List Piece}
    (h : selectHead a f = .ok ps) :
    ∃ rows, (rows = [] ∨ ∃ src table, source a src = .ok table ∧ rows = lit " FROM " :: table) ∧
      ps = lit "SELECT " :: ((if f.distinct then [lit "DISTINCT "] else []) ++
        ((if (f.columns.map (selectItem a) ++ f.aggregates.map (aggregate a)).isEmpty then [lit "*"]
          else commaSeparated (f.columns.map (selectItem a) ++ f.aggregates.map (aggregate a))) ++
        (rows ++ joins a f.joins))) := by
  cases hsource : f.source with
  | none =>
    simp only [selectHead, hsource, bind_eq_ok_iff, pure_eq_ok_iff] at h
    obtain ⟨rows, rfl, rfl⟩ := h
    exact ⟨[], .inl rfl, by simp only [List.cons_append, List.append_assoc]⟩
  | some src =>
    simp only [selectHead, hsource, bind_eq_ok_iff, pure_eq_ok_iff] at h
    obtain ⟨table, htable, rows, rfl, rfl⟩ := h
    exact ⟨_, .inr ⟨src, table, htable, rfl⟩, by simp only [List.cons_append, List.append_assoc]⟩

theorem condition_group_eq_ok {a : Aliasing} {c : Connective} {members : List Condition}
    {ps : List Piece} (h : condition a (.group c members) = .ok ps) :
    members ≠ [] ∧ ∃ inner, conditions a members = .ok inner ∧
      ps = lit "(" :: (inner ++ [lit ")"]) := by
  cases members with
  | nil => simp [condition, throw, throwThe, MonadExceptOf.throw] at h
  | cons x rest =>
    simp only [condition, List.isEmpty_cons, Bool.false_eq_true, if_false, bind_eq_ok_iff,
      pure_eq_ok_iff] at h
    obtain ⟨inner, hinner, rfl⟩ := h
    exact ⟨List.cons_ne_nil _ _, inner, hinner, rfl⟩

variable {a : Aliasing} {s : Statement} {ps : List Piece}

theorem insert_eq_ok (h : insert s = .ok ps) :
    ∃ table, s.into = some table ∧ s.rows ≠ [] ∧
      ps = lit "INSERT INTO " :: tableName table ++ lit " (" ::
        commaSeparated (s.insertColumns.map fun c => [.name c]) ++ lit ") VALUES" ::
        commaSeparated (s.rows.map row) := by
  unfold insert at h
  cases hinto : s.into with
  | none => simp [hinto] at h
  | some table =>
    cases hrows : s.rows with
    | nil => simp [hinto, hrows] at h
    | cons r rest =>
      simp only [hinto, hrows, List.isEmpty_cons, Bool.false_eq_true, if_false] at h
      exact ⟨table, rfl, List.cons_ne_nil _ _, (Except.ok.inj h).symm⟩

theorem update_eq_ok (h : update a s = .ok ps) :
    ∃ src table body, s.source = some src ∧ s.assignments ≠ [] ∧ source a src = .ok table ∧
      whereClause a s.conditions = .ok body ∧
      ps = lit "UPDATE " :: table ++ joins a s.joins ++ lit " SET " ::
        commaSeparated (s.assignments.map (assignment a)) ++ body := by
  unfold update at h
  cases hsource : s.source with
  | none => simp [hsource] at h
  | some src =>
    cases hassignments : s.assignments with
    | nil => simp [hsource, hassignments, throw, throwThe, MonadExceptOf.throw] at h
    | cons target rest =>
      simp only [hsource, hassignments, List.isEmpty_cons, Bool.false_eq_true, if_false,
        bind_eq_ok_iff, pure_eq_ok_iff] at h
      obtain ⟨table, htable, body, hbody, hps⟩ := h
      exact ⟨src, table, body, rfl, List.cons_ne_nil _ _, htable, hbody, hps.symm⟩

theorem delete_eq_ok (h : delete a s = .ok ps) :
    (∃ src table body, s.deleteUsing = some src ∧
      source { a with tables := true } src = .ok table ∧
      whereClause { a with tables := true } s.conditions = .ok body ∧
      ps = [lit "DELETE FROM ", .name src.tableAlias, lit " USING "] ++ table ++
        joins { a with tables := true } s.joins ++ body) ∨
    (∃ table body, s.deleteUsing = none ∧ deleteTarget? s = some table ∧
      whereClause a s.conditions = .ok body ∧
      ps = lit "DELETE FROM " :: tableName table ++ body) := by
  cases husing : s.deleteUsing with
  | some src =>
    simp only [delete, husing, bind_eq_ok_iff, pure_eq_ok_iff] at h
    obtain ⟨table, htable, body, hbody, rfl⟩ := h
    exact .inl ⟨src, table, body, rfl, htable, hbody, rfl⟩
  | none =>
    cases htarget : deleteTarget? s with
    | none => simp [delete, husing, htarget] at h
    | some table =>
      simp only [delete, husing, htarget, bind_eq_ok_iff, pure_eq_ok_iff] at h
      obtain ⟨body, hbody, rfl⟩ := h
      exact .inr ⟨table, body, rfl, rfl, hbody, rfl⟩

end PathQuery.Sql
