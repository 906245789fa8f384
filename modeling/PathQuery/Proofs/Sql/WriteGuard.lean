import PathQuery.Proofs.Sql.Quiet
import PathQuery.Proofs.Sql.Rendered

/-!
The guard in front of execution judges compiled statements as they were meant: an UPDATE or DELETE
passes exactly when it has conditions, every other statement always passes. No table, alias or
column name can hide a WHERE or stand for one.
-/

set_option autoImplicit false

namespace PathQuery

namespace Sql

theorem hasWhere_where (after : Bool) (rest : List Char) :
    hasWhere (.code 0 after) (' ' :: 'W' :: 'H' :: 'E' :: 'R' :: 'E' :: ' ' :: rest) = true := by
  rw [hasWhere_cons (by decide), hasWhere, Bool.or_eq_true]
  exact .inl rfl

theorem hasWhere_whereClause {a : Aliasing} {xs : List Condition} {ps : List Piece}
    (h : whereClause a xs = .ok ps) (after : Bool) :
    hasWhere (.code 0 after) (chars ps) = true ↔ xs ≠ [] := by
  cases xs with
  | nil =>
    simp only [whereClause, Except.ok.injEq] at h
    simp [← h, hasWhere]
  | cons x rest =>
    simp only [whereClause, bind_eq_ok_iff, pure_eq_ok_iff] at h
    obtain ⟨own, _, behind, _, rfl⟩ := h
    simp [lit, Piece.chars, hasWhere_where]

/-- A write whose text in front of its conditions is quiet is judged by its conditions. -/
theorem hasWhere_write {a : Aliasing} {xs : List Condition} {front ps : List Piece}
    (hfront : Quiet (chars front)) (h : whereClause a xs = .ok ps) :
    hasWhere (.code 0 false) (chars (front ++ ps)) = true ↔ xs ≠ [] := by
  obtain ⟨after, hfront⟩ := hfront 0 false
  rw [chars_append, hfront]
  exact hasWhere_whereClause h after

theorem isSafeText_of_write {cs : List Char} (h : skipNoise .between cs = cs)
    (hwrite : startsWithKeyword "DELETE".toList cs = true ∨
      startsWithKeyword "UPDATE".toList cs = true) :
    isSafeText cs = hasWhere (.code 0 false) cs := by
  have hwrite : (startsWithKeyword "DELETE".toList cs || startsWithKeyword "UPDATE".toList cs) =
      true := Bool.or_eq_true_iff.2 hwrite
  simp only [isSafeText, h, hwrite, Bool.not_true, Bool.false_or]

theorem isSafeText_select {a : Aliasing} {s : Statement} {ps : List Piece}
    (h : select a s = .ok ps) : isSafeText (chars ps) = true := by
  simp only [select, bind_eq_ok_iff, pure_eq_ok_iff] at h
  obtain ⟨head, hhead, body, -, rfl⟩ := h
  obtain ⟨rows, -, rfl⟩ := selectHead_eq_ok hhead
  rw [List.cons_append, List.cons_append, chars_cons]
  rfl

theorem isSafeText_insert {s : Statement} {ps : List Piece} (h : insert s = .ok ps) :
    isSafeText (chars ps) = true := by
  obtain ⟨table, -, -, rfl⟩ := insert_eq_ok h
  rw [List.cons_append, List.cons_append, chars_cons]
  rfl

theorem isSafeText_update {a : Aliasing} {s : Statement} {ps : List Piece}
    (hraw : ∀ target ∈ s.assignments, target.2.hasFragment = false) (h : update a s = .ok ps) :
    isSafeText (chars ps) = true ↔ s.conditions ≠ [] := by
  obtain ⟨src, table, body, -, -, htable, hbody, hps⟩ := update_eq_ok h
  have hassign : Quiet (chars (commaSeparated (s.assignments.map (assignment a)))) :=
    markup_quiet.commaSeparated (List.forall_mem_map.2 fun target htarget =>
      quiet_assignment a (hraw target htarget))
  have hfront : Quiet (chars (lit "UPDATE " :: (table ++ joins a s.joins ++
      lit " SET " :: commaSeparated (s.assignments.map (assignment a))))) :=
    quiet_lit (by decide) (quiet_append
      (quiet_append (markup_quiet.source htable) (markup_quiet.joins a s.joins))
      (quiet_lit (by decide) hassign))
  have hsplit : ps = (lit "UPDATE " :: (table ++ joins a s.joins ++
      lit " SET " :: commaSeparated (s.assignments.map (assignment a)))) ++ body := by
    simp [hps]
  rw [← hasWhere_write hfront hbody, hsplit, isSafeText_of_write]
  · rfl
  · exact .inr rfl

theorem isSafeText_delete {a : Aliasing} {s : Statement} {ps : List Piece}
    (h : delete a s = .ok ps) : isSafeText (chars ps) = true ↔ s.conditions ≠ [] := by
  obtain ⟨src, table, body, -, htable, hbody, rfl⟩ | ⟨table, body, -, -, hbody, rfl⟩ :=
    delete_eq_ok h
  · have hfront : Quiet (chars ([lit "DELETE FROM ", .name src.tableAlias, lit " USING "] ++
        table ++ joins { a with tables := true } s.joins)) :=
      quiet_append
        (quiet_append (quiet_lit (by decide) (quiet_name _ (quiet_lit (by decide) .nil)))
          (markup_quiet.source htable))
        (markup_quiet.joins _ s.joins)
    rw [← hasWhere_write hfront hbody, isSafeText_of_write]
    · rfl
    · exact .inl rfl
  · have hfront : Quiet (chars (lit "DELETE FROM " :: tableName table)) :=
      quiet_lit (by decide) (markup_quiet.tableName table)
    rw [← hasWhere_write hfront hbody, isSafeText_of_write]
    · rfl
    · exact .inl rfl

end Sql

namespace Statement

/-- Of the compiled statements the guard holds back exactly the UPDATEs and DELETEs without
conditions, whatever names they hold. Values assigned by an UPDATE are parameters: a fragment would
be text of the statement itself. -/
theorem isSafe_iff_has_conditions (kind : StatementKind) (a : Sql.Aliasing) (s : Statement)
    (c : Compiled)
    (hraw : kind = .update → ∀ target ∈ s.assignments, target.2.hasFragment = false)
    (h : s.compileAs kind a = .ok c) :
    Sql.isSafe c.sql = true ↔ (kind = .update ∨ kind = .delete → s.conditions ≠ []) := by
  simp only [Statement.compileAs, map_eq_ok_iff] at h
  obtain ⟨ps, hps, rfl⟩ := h
  have hsafe : Sql.isSafe (Compiled.sql ⟨ps⟩) = Sql.isSafeText (Sql.chars ps) := by
    rw [Sql.isSafe, Compiled.sql, String.toList_ofList]
  rw [hsafe]
  cases kind with
  | select => simp [Sql.isSafeText_select hps]
  | insert => simp [Sql.isSafeText_insert hps]
  | update => simp [Sql.isSafeText_update (hraw rfl) hps]
  | delete => simp [Sql.isSafeText_delete hps]

theorem isSafe_of_odd_names :
    let s : Statement :=
      { kind := .update
        source := some (.table "a`b' WHERE (" "-- \"/*")
        joins := [⟨"t) WHERE", "`` WHERE", .left, [.equal ⟨"u'", "where"⟩ ⟨"`` WHERE", "*/"⟩]⟩]
        assignments := [(.root "WHERE", .text "x WHERE y"), (.root "(`", .list [.int 1, .null])] }
    let x : Condition := .compare .and rootAlias ["id"] .eq (.int 1)
    ∃ bare limited, s.compileAs .update { tables := true } = .ok bare ∧
      { s with conditions := [x] }.compileAs .update { tables := true } = .ok limited ∧
        Sql.isSafe bare.sql = false ∧ Sql.isSafe limited.sql = true := by
  intro s x
  have hraw : ∀ target ∈ s.assignments, target.2.hasFragment = false := by decide
  have hbare : ∃ c, s.compileAs .update { tables := true } = .ok c := ⟨_, rfl⟩
  have hlimited : ∃ c, { s with conditions := [x] }.compileAs .update { tables := true } = .ok c :=
    ⟨_, rfl⟩
  obtain ⟨c, hc⟩ := hbare
  obtain ⟨d, hd⟩ := hlimited
  refine ⟨c, d, hc, hd, ?_, ?_⟩
  · rw [← Bool.not_eq_true, isSafe_iff_has_conditions .update _ s c (fun _ => hraw) hc]
    exact fun h => h (.inl rfl) rfl
  · have hraw' : ∀ target ∈ ({ s with conditions := [x] } : Statement).assignments,
        target.2.hasFragment = false := hraw
    exact (isSafe_iff_has_conditions .update _ _ d (fun _ => hraw') hd).2
      fun _ => List.cons_ne_nil x []

end Statement

end PathQuery
