import PathQuery.Proofs.Sql.Markup
import PathQuery.Proofs.Sql.Reader

/-!
Placeholders and parameters of a compiled statement. Read from left to right with names passed
over, the statement has one question mark for each parameter that a connection receives, and each
was written for the value in its place. Fragments that bring question marks or backticks of their
own are left out, and so are keys whose only part is not a scalar.
-/

set_option autoImplicit false

namespace PathQuery

def isPlainText (cs : List Char) : Bool :=
  cs.all fun c => c != '?' && c != '`'

namespace Value

mutual

/-- Fragments are plain text, and the only part of a key is a scalar. -/
def isPlain : Value → Bool
  | .raw sql => isPlainText sql.toList
  | .list items => arePlain items
  | .entity [part] => part.isScalar
  | .entity key => arePlain key
  | _ => true
termination_by structural v => v

def arePlain : List Value → Bool
  | [] => true
  | v :: rest => v.isPlain && arePlain rest
termination_by structural vs => vs

end

theorem arePlain_iff (vs : List Value) : arePlain vs ↔ ∀ v ∈ vs, v.isPlain := by
  induction vs with
  | nil => simp [arePlain]
  | cons v vs ih => simp [arePlain, ih]

end Value

def SelectItem.isPlain : SelectItem → Bool
  | .column _ _ => true
  | .raw sql => isPlainText sql.toList

def Frame.isPlain (f : Frame) : Bool :=
  f.columns.all SelectItem.isPlain && f.assignments.all (fun target => target.2.isPlain) &&
    f.rows.all fun row => row.all Value.isPlain

namespace Condition

mutual

def isPlain : Condition → Bool
  | .compare _ _ _ _ value => value.isPlain
  | .group _ members => arePlain members
  | .existence _ _ frame inner => frame.isPlain && arePlain inner
  | .membership _ _ values _ => values.all Value.isPlain
  | .columns _ _ _ _ => true
  | .subquery _ frame inner _ value => frame.isPlain && arePlain inner && value.isPlain
termination_by structural x => x

def arePlain : List Condition → Bool
  | [] => true
  | x :: rest => x.isPlain && arePlain rest
termination_by structural xs => xs

end

end Condition

def Statement.isPlain (s : Statement) : Bool :=
  s.toFrame.isPlain && Condition.arePlain s.conditions

namespace Sql

def Piece.isPlain : Piece → Bool
  | .text cs => isPlainText cs
  | .name _ => true
  | .bound v => v.isPlain

def WrittenFor (mark : Option Value) (param : Value) : Prop :=
  ∃ v, mark = some v ∧ v.flatten = [param]

theorem ne_of_isPlainText (cs : List Char) (h : isPlainText cs) :
    ∀ c ∈ cs, c ≠ '?' ∧ c ≠ '`' := by
  simpa [isPlainText] using h

theorem filter_unmarked (cs : List Char) (h : isPlainText cs) :
    (unmarked cs).filter (fun m => m.1 == '?') = [] := by
  simp [unmarked]
  exact fun c hc => (ne_of_isPlainText cs h c hc).1

theorem toggled_unmarked (cs : List Char) (h : isPlainText cs) (ms : List Mark) :
    toggled Prod.fst false (unmarked cs ++ ms) = unmarked cs ++ toggled Prod.fst false ms := by
  apply toggled_append_of_forall
  simp [unmarked]
  exact fun c hc => (ne_of_isPlainText cs h c hc).2

theorem toggled_escape (cs : List Char) (ms : List Mark) :
    toggled Prod.fst true (unmarked (Ident.escape cs) ++ ms) = toggled Prod.fst true ms := by
  induction cs with
  | nil => rfl
  | cons c cs ih =>
    by_cases hc : c = '`'
    · simpa [Ident.escape, hc, unmarked, toggled] using ih
    · simpa [Ident.escape, hc, unmarked, toggled] using ih

theorem toggled_name (n : List Char) (ms : List Mark) :
    toggled Prod.fst false (unmarked (Ident.quoted n) ++ ms) = toggled Prod.fst false ms := by
  have h := toggled_escape n (('`', none) :: ms)
  simpa [Ident.quoted, unmarked, toggled] using h

theorem filter_scalar {v : Value} (h : v.isScalar) :
    markedPlaceholders v = [('?', some v)] ∧ v.flatten = [v] := by
  cases v <;> simp_all [Value.isScalar, markedPlaceholders, Value.flatten]

mutual

/-- A value writes one question mark for each parameter that it supplies. -/
theorem writtenFor_flatten (v : Value) (h : v.isPlain) :
    List.Forall₂ WrittenFor
      (((markedPlaceholders v).filter fun m => m.1 == '?').map Prod.snd) v.flatten := by
  cases v with
  | raw sql =>
    have hfilter := filter_unmarked sql.toList (by simpa [Value.isPlain] using h)
    simp [markedPlaceholders, Value.flatten, hfilter]
  | list items =>
    have hitems := writtenFor_tuple items (by simpa [Value.isPlain] using h)
    simpa [markedPlaceholders, Value.flatten] using hitems
  | entity key =>
    match key with
    | [] => simp [markedPlaceholders, markedTuple, Value.flatten, Value.flattenAll, unmarked]
    | [part] =>
      have hpart := (filter_scalar (v := part) (by simpa [Value.isPlain] using h)).2
      have hkey : (Value.entity [part]).flatten = [part] := by
        simp [Value.flatten, Value.flattenAll, hpart]
      rw [hkey]
      simp [markedPlaceholders]
      exact ⟨_, rfl, hkey⟩
    | part :: next :: rest =>
      have hkey := writtenFor_tuple (part :: next :: rest) (by simpa [Value.isPlain] using h)
      simpa [markedPlaceholders, Value.flatten] using hkey
  | _ =>
    simp [markedPlaceholders, Value.flatten]
    exact ⟨_, rfl, by simp [Value.flatten]⟩
termination_by structural v

theorem writtenFor_tuple (vs : List Value) (h : Value.arePlain vs) :
    List.Forall₂ WrittenFor
      (((markedTuple vs).filter fun m => m.1 == '?').map Prod.snd) (Value.flattenAll vs) := by
  cases vs with
  | nil => simp [markedTuple, Value.flattenAll, unmarked]
  | cons v rest =>
    have hplain : v.isPlain ∧ Value.arePlain rest := by simpa [Value.arePlain] using h
    have hv := writtenFor_flatten v hplain.1
    have hrest := writtenFor_rest rest hplain.2
    simpa [markedTuple, Value.flattenAll] using List.rel_append hv hrest
termination_by structural vs

theorem writtenFor_rest (vs : List Value) (h : Value.arePlain vs) :
    List.Forall₂ WrittenFor
      (((markedRest vs).filter fun m => m.1 == '?').map Prod.snd) (Value.flattenAll vs) := by
  cases vs with
  | nil => simp [markedRest, Value.flattenAll]
  | cons v rest =>
    have hplain : v.isPlain ∧ Value.arePlain rest := by simpa [Value.arePlain] using h
    have hv := writtenFor_flatten v hplain.1
    have hrest := writtenFor_rest rest hplain.2
    simpa [markedRest, Value.flattenAll] using List.rel_append hv hrest
termination_by structural vs

end

mutual

theorem ne_backtick_of_mem (v : Value) (h : v.isPlain) :
    ∀ m ∈ markedPlaceholders v, m.1 ≠ '`' := by
  cases v with
  | raw sql =>
    have hsql := ne_of_isPlainText sql.toList (by simpa [Value.isPlain] using h)
    simp [markedPlaceholders, unmarked]
    exact fun c hc => (hsql c hc).2
  | list items =>
    have hitems := ne_backtick_of_mem_tuple items (by simpa [Value.isPlain] using h)
    simpa [markedPlaceholders] using hitems
  | entity key =>
    match key with
    | [] => simp [markedPlaceholders, markedTuple, unmarked]
    | [part] => simp [markedPlaceholders]
    | part :: next :: rest =>
      have hkey := ne_backtick_of_mem_tuple (part :: next :: rest)
        (by simpa [Value.isPlain] using h)
      simpa [markedPlaceholders] using hkey
  | _ => simp [markedPlaceholders]
termination_by structural v

theorem ne_backtick_of_mem_tuple (vs : List Value) (h : Value.arePlain vs) :
    ∀ m ∈ markedTuple vs, m.1 ≠ '`' := by
  cases vs with
  | nil => simp [markedTuple, unmarked]
  | cons v rest =>
    have hplain : v.isPlain ∧ Value.arePlain rest := by simpa [Value.arePlain] using h
    have hv := ne_backtick_of_mem v hplain.1
    have hrest := ne_backtick_of_mem_rest rest hplain.2
    simp only [markedTuple, List.cons_append, List.forall_mem_cons, List.forall_mem_append]
    exact ⟨by decide, hv, hrest⟩
termination_by structural vs

theorem ne_backtick_of_mem_rest (vs : List Value) (h : Value.arePlain vs) :
    ∀ m ∈ markedRest vs, m.1 ≠ '`' := by
  cases vs with
  | nil => simp [markedRest]
  | cons v rest =>
    have hplain : v.isPlain ∧ Value.arePlain rest := by simpa [Value.arePlain] using h
    have hv := ne_backtick_of_mem v hplain.1
    have hrest := ne_backtick_of_mem_rest rest hplain.2
    simp only [markedRest, List.cons_append, List.forall_mem_cons, List.forall_mem_append]
    exact ⟨by decide, hv, hrest⟩
termination_by structural vs

end

def Piece.shown : Piece → List Mark
  | .name _ => []
  | p => p.marked

theorem toggled_marked {ps : List Piece} (h : ps.all Piece.isPlain) :
    toggled Prod.fst false (marked ps) = ps.flatMap Piece.shown := by
  induction ps with
  | nil => rfl
  | cons p ps ih =>
    have hplain : p.isPlain ∧ ps.all Piece.isPlain := by simpa using h
    have hcons : marked (p :: ps) = p.marked ++ marked ps := by simp [marked]
    rw [hcons, List.flatMap_cons, ← ih hplain.2]
    cases p with
    | text cs => exact toggled_unmarked cs (by simpa [Piece.isPlain] using hplain.1) _
    | name n => exact toggled_name n.toList _
    | bound v =>
      exact toggled_append_of_forall _
        (ne_backtick_of_mem v (by simpa [Piece.isPlain] using hplain.1)) _

theorem params_cons (p : Piece) (ps : List Piece) :
    params (p :: ps) = p.value?.toList ++ params ps := by
  cases p <;> rfl

/-- Plain pieces show one question mark for each parameter, in the same order. -/
theorem writtenFor_params {ps : List Piece} (h : ps.all Piece.isPlain) :
    List.Forall₂ WrittenFor (questions ps) (Value.flattenAll (params ps)) := by
  rw [questions, outside_eq_toggled, toggled_marked h]
  induction ps with
  | nil => simp [Value.flattenAll]
  | cons p ps ih =>
    have hplain : p.isPlain ∧ ps.all Piece.isPlain := by simpa using h
    have hps := ih hplain.2
    cases p with
    | text cs =>
      have hnone := filter_unmarked cs (by simpa [Piece.isPlain] using hplain.1)
      simpa [Piece.shown, Piece.marked, params_cons, Piece.value?, hnone] using hps
    | name n => simpa [Piece.shown, params_cons, Piece.value?] using hps
    | bound v =>
      have hv := writtenFor_flatten v (by simpa [Piece.isPlain] using hplain.1)
      simpa [Piece.shown, Piece.marked, params_cons, Piece.value?, Value.flattenAll]
        using List.rel_append hv hps

theorem isPlain_lit (s : String) : (lit s).isPlain = isPlainText s.toList := rfl

theorem isPlain_name (n : String) : (Piece.name n).isPlain = true := rfl

theorem isPlain_bound (v : Value) : (Piece.bound v).isPlain = v.isPlain := rfl

theorem isPlainText_of_isMarkup {cs : List Char} (h : isMarkup cs) : isPlainText cs := by
  rw [isMarkup, Bool.and_eq_true, Bool.not_eq_true', List.contains_eq_mem,
    decide_eq_false_iff_not] at h
  simp only [isPlainText, List.all_eq_true, Bool.and_eq_true, bne_iff_ne]
  intro c hc
  refine ⟨?_, ?_⟩
  · rintro rfl
    exact h.2 hc
  · rintro rfl
    exact absurd (not_isQuoteMark_of_isCalm h.1 '`' hc) (by decide)

theorem markup_isPlain : Markup fun ps => ps.all Piece.isPlain = true where
  nil := rfl
  name _ := rfl
  lit s hs := by rw [List.all_cons, isPlain_lit, isPlainText_of_isMarkup hs, List.all_nil]; rfl
  append hps hqs := by rw [List.all_append, hps, hqs]; rfl
  parens hps := by
    rw [List.all_append, List.all_cons, hps]
    decide
  renamed n hps := by
    rw [List.all_append, List.all_cons, hps]
    rfl

theorem isPlain_operator (op : Operator) : (lit op.sql).isPlain :=
  isPlainText_of_isMarkup (isMarkup_operator op)

theorem isPlain_comparison {op : Operator} {value : Value} {ps : List Piece}
    (hv : value.isPlain) (h : comparison op value = .ok ps) : ps.all Piece.isPlain := by
  unfold comparison at h
  split at h
  · simp only [Except.ok.injEq] at h
    rw [← h]
    simp only [List.all_cons, isPlain_operator]
    decide
  · split at h
    · next low high _ =>
      have hbounds : low.isPlain ∧ high.isPlain := by
        simpa [Value.isPlain, Value.arePlain] using hv
      simp only [Except.ok.injEq] at h
      rw [← h]
      simp only [List.all_cons, isPlain_operator, isPlain_bound, hbounds.1, hbounds.2]
      decide
    · simp at h
    · simp only [Except.ok.injEq] at h
      rw [← h]
      simp only [List.all_cons, isPlain_operator, isPlain_bound, hv]
      decide

theorem isPlain_compare {a : Aliasing} {tableAlias : String} {columns : List String}
    {op : Operator} {value : Value} {ps : List Piece} (hv : value.isPlain)
    (h : compare a tableAlias columns op value = .ok ps) : ps.all Piece.isPlain := by
  unfold compare at h
  split at h
  · simp only [Except.ok.injEq] at h
    rw [← h]
    exact markup_isPlain.constant _
  · simp only [bind_eq_ok_iff, pure_eq_ok_iff] at h
    obtain ⟨left, hleft, right, hright, rfl⟩ := h
    rw [List.all_append, markup_isPlain.operand hleft, isPlain_comparison hv hright]
    rfl

theorem isPlain_selectHead {a : Aliasing} {f : Frame} {ps : List Piece} (hf : f.isPlain)
    (h : selectHead a f = .ok ps) : ps.all Piece.isPlain := by
  simp only [Frame.isPlain, Bool.and_eq_true, List.all_eq_true] at hf
  refine markup_isPlain.selectHead ?_ h
  rintro item hitem sql rfl
  have hsql := hf.1.1 _ hitem
  simpa [isPlain_lit, SelectItem.isPlain] using hsql

mutual

theorem isPlain_condition {a : Aliasing} (x : Condition) {ps : List Piece} (hx : x.isPlain)
    (h : condition a x = .ok ps) : ps.all Piece.isPlain := by
  cases x with
  | compare _ tableAlias columns op value =>
    exact isPlain_compare (by simpa [Condition.isPlain] using hx) (by simpa [condition] using h)
  | group _ members =>
    have hmembers : Condition.arePlain members := by simpa [Condition.isPlain] using hx
    obtain ⟨-, inner, hinner, rfl⟩ := condition_group_eq_ok h
    simp only [List.all_cons, List.all_append, isPlain_conditions members hmembers hinner]
    decide
  | existence _ negated frame inner =>
    have hplain : frame.isPlain ∧ Condition.arePlain inner := by simpa [Condition.isPlain] using hx
    have hkeyword : (lit (if negated then "NOT EXISTS (" else "EXISTS (")).isPlain := by
      cases negated <;> decide
    simp only [condition, bind_eq_ok_iff, pure_eq_ok_iff] at h
    obtain ⟨head, hhead, body, hbody, rfl⟩ := h
    simp only [List.cons_append, List.all_cons, List.all_append, hkeyword,
      isPlain_selectHead hplain.1 hhead, isPlain_whereClause inner hplain.2 hbody,
      markup_isPlain.selectTail]
    decide
  | membership _ c values negated =>
    have hvalues : (Value.list values).isPlain := by
      simp only [Condition.isPlain, List.all_eq_true] at hx
      simpa [Value.isPlain, Value.arePlain_iff] using hx
    have hkeyword : (lit (if negated then " NOT IN " else " IN ")).isPlain := by
      cases negated <;> decide
    by_cases hempty : values.isEmpty
    · simp only [condition, hempty, if_true, Except.ok.injEq] at h
      rw [← h]
      exact markup_isPlain.constant _
    · simp [condition, hempty] at h
      rw [← h]
      simp only [List.all_append, List.all_cons, markup_isPlain.column, isPlain_bound, hvalues,
        hkeyword]
      decide
  | columns _ left op right =>
    simp only [condition, Except.ok.injEq] at h
    rw [← h]
    simp only [List.all_append, List.all_cons, markup_isPlain.column, isPlain_operator]
    decide
  | subquery _ frame inner op value =>
    have hplain : (frame.isPlain ∧ Condition.arePlain inner) ∧ value.isPlain := by
      simpa [Condition.isPlain] using hx
    have hvalue : (if op.isUnary then [] else [lit " ", .bound value]).all Piece.isPlain := by
      cases op.isUnary with
      | true => rfl
      | false =>
        simp only [Bool.false_eq_true, if_false, List.all_cons, isPlain_bound, hplain.2]
        decide
    simp only [condition, bind_eq_ok_iff, pure_eq_ok_iff] at h
    obtain ⟨head, hhead, body, hbody, rfl⟩ := h
    simp only [List.cons_append, List.all_cons, List.all_append, isPlain_operator, hvalue,
      isPlain_selectHead hplain.1.1 hhead, isPlain_whereClause inner hplain.1.2 hbody,
      markup_isPlain.selectTail]
    decide
termination_by structural x

theorem isPlain_conditions {a : Aliasing} (xs : List Condition) {ps : List Piece}
    (hxs : Condition.arePlain xs) (h : conditions a xs = .ok ps) : ps.all Piece.isPlain := by
  cases xs with
  | nil =>
    simp only [conditions, Except.ok.injEq] at h
    rw [← h]
    rfl
  | cons x rest =>
    have hplain : x.isPlain ∧ Condition.arePlain rest := by simpa [Condition.arePlain] using hxs
    simp only [conditions, bind_eq_ok_iff, pure_eq_ok_iff] at h
    obtain ⟨own, hown, behind, hbehind, rfl⟩ := h
    rw [List.all_append, isPlain_condition x hplain.1 hown,
      isPlain_siblings rest hplain.2 hbehind]
    rfl
termination_by structural xs

theorem isPlain_siblings {a : Aliasing} (xs : List Condition) {ps : List Piece}
    (hxs : Condition.arePlain xs) (h : siblings a xs = .ok ps) : ps.all Piece.isPlain := by
  cases xs with
  | nil =>
    simp only [siblings, Except.ok.injEq] at h
    rw [← h]
    rfl
  | cons x rest =>
    have hplain : x.isPlain ∧ Condition.arePlain rest := by simpa [Condition.arePlain] using hxs
    have hconnective : (lit x.connective.sql).isPlain := by cases x.connective <;> decide
    simp only [siblings, bind_eq_ok_iff, pure_eq_ok_iff] at h
    obtain ⟨own, hown, behind, hbehind, rfl⟩ := h
    simp only [List.all_append, List.all_cons, isPlain_condition x hplain.1 hown,
      isPlain_siblings rest hplain.2 hbehind, hconnective]
    decide
termination_by structural xs

theorem isPlain_whereClause {a : Aliasing} (xs : List Condition) {ps : List Piece}
    (hxs : Condition.arePlain xs) (h : whereClause a xs = .ok ps) : ps.all Piece.isPlain := by
  cases xs with
  | nil =>
    simp only [whereClause, Except.ok.injEq] at h
    rw [← h]
    rfl
  | cons x rest =>
    have hplain : x.isPlain ∧ Condition.arePlain rest := by simpa [Condition.arePlain] using hxs
    simp only [whereClause, bind_eq_ok_iff, pure_eq_ok_iff] at h
    obtain ⟨own, hown, behind, hbehind, rfl⟩ := h
    simp only [List.cons_append, List.all_cons, List.all_append,
      isPlain_condition x hplain.1 hown, isPlain_siblings rest hplain.2 hbehind]
    decide
termination_by structural xs

end

theorem isPlain_select {a : Aliasing} {s : Statement} {ps : List Piece} (hs : s.isPlain)
    (h : select a s = .ok ps) : ps.all Piece.isPlain := by
  have hplain : s.toFrame.isPlain ∧ Condition.arePlain s.conditions := by
    simpa [Statement.isPlain] using hs
  simp only [select, bind_eq_ok_iff, pure_eq_ok_iff] at h
  obtain ⟨head, hhead, body, hbody, rfl⟩ := h
  simp only [List.all_append, isPlain_selectHead hplain.1 hhead,
    isPlain_whereClause _ hplain.2 hbody, markup_isPlain.selectTail]
  rfl

theorem isPlain_insert {s : Statement} {ps : List Piece} (hs : s.isPlain)
    (h : insert s = .ok ps) : ps.all Piece.isPlain := by
  have hvalues : ∀ r ∈ s.rows, (row r).all Piece.isPlain := by
    intro r hr
    have hr : ∀ v ∈ r, v.isPlain := by
      simp only [Statement.isPlain, Frame.isPlain, Bool.and_eq_true, List.all_eq_true] at hs
      exact hs.1.2 r hr
    have hlist : (commaSeparated (r.map fun v => [Piece.bound v])).all Piece.isPlain :=
      markup_isPlain.commaSeparated_map fun v hv => by simpa [isPlain_bound] using hr v hv
    simp only [row, List.cons_append, List.all_cons, List.all_append, hlist]
    decide
  have hcolumns : (commaSeparated (s.insertColumns.map fun c => [Piece.name c])).all
      Piece.isPlain :=
    markup_isPlain.commaSeparated_map fun _ _ => rfl
  obtain ⟨table, -, -, rfl⟩ := insert_eq_ok h
  simp only [List.cons_append, List.all_cons, List.all_append, markup_isPlain.tableName, hcolumns,
    markup_isPlain.commaSeparated_map hvalues]
  decide

theorem isPlain_update {a : Aliasing} {s : Statement} {ps : List Piece} (hs : s.isPlain)
    (h : update a s = .ok ps) : ps.all Piece.isPlain := by
  have hplain : s.toFrame.isPlain ∧ Condition.arePlain s.conditions := by
    simpa [Statement.isPlain] using hs
  have hassign : ∀ target ∈ s.assignments, (assignment a target).all Piece.isPlain := by
    intro target htarget
    have hvalue : target.2.isPlain := by
      simp only [Frame.isPlain, Bool.and_eq_true, List.all_eq_true] at hplain
      exact hplain.1.1.2 target htarget
    simp only [assignment, List.all_append, List.all_cons, markup_isPlain.column, isPlain_bound,
      hvalue]
    decide
  obtain ⟨src, table, body, -, -, htable, hbody, rfl⟩ := update_eq_ok h
  simp only [List.cons_append, List.all_cons, List.all_append, markup_isPlain.source htable,
    markup_isPlain.joins, markup_isPlain.commaSeparated_map hassign,
    isPlain_whereClause _ hplain.2 hbody]
  decide

theorem isPlain_delete {a : Aliasing} {s : Statement} {ps : List Piece} (hs : s.isPlain)
    (h : delete a s = .ok ps) : ps.all Piece.isPlain := by
  have hconditions : Condition.arePlain s.conditions := by
    simp only [Statement.isPlain, Bool.and_eq_true] at hs
    exact hs.2
  obtain ⟨src, table, body, -, htable, hbody, rfl⟩ | ⟨table, body, -, -, hbody, rfl⟩ :=
    delete_eq_ok h
  · simp only [List.all_cons, List.all_append, markup_isPlain.source htable, markup_isPlain.joins,
      isPlain_whereClause _ hconditions hbody, isPlain_name]
    decide
  · simp only [List.cons_append, List.all_cons, List.all_append, markup_isPlain.tableName,
      isPlain_whereClause _ hconditions hbody]
    decide

theorem isPlain_compileAs {kind : StatementKind} {a : Aliasing} {s : Statement} {c : Compiled}
    (hs : s.isPlain) (h : s.compileAs kind a = .ok c) : c.pieces.all Piece.isPlain := by
  simp only [Statement.compileAs, map_eq_ok_iff] at h
  obtain ⟨ps, hps, rfl⟩ := h
  cases kind with
  | select => exact isPlain_select hs hps
  | insert => exact isPlain_insert hs hps
  | update => exact isPlain_update hs hps
  | delete => exact isPlain_delete hs hps

def questionMarks (text : List Char) : List Char :=
  (outside id text).filter (· == '?')

theorem length_questions (ps : List Piece) :
    (questions ps).length = (questionMarks (chars ps)).length := by
  rw [← marked_chars, questionMarks, outside_map, List.filter_map, List.length_map, questions,
    List.length_map]
  rfl

end Sql

namespace Statement

/-- A compiled statement has as many question marks outside of names as it has parameters. Marked
by their values its characters spell the SQL, and the value of each question mark supplies exactly
the parameter in the same place. -/
theorem placeholders_match_params (kind : StatementKind) (a : Sql.Aliasing) (s : Statement)
    (c : Compiled) (hs : s.isPlain) (h : s.compileAs kind a = .ok c) :
    (Sql.questionMarks c.sql.toList).length = c.flatParams.length ∧
      (Sql.marked c.pieces).map Prod.fst = c.sql.toList ∧
      List.Forall₂ Sql.WrittenFor (Sql.questions c.pieces) c.flatParams := by
  have hwritten := Sql.writtenFor_params (Sql.isPlain_compileAs hs h)
  have hsql : c.sql.toList = Sql.chars c.pieces := by simp [Compiled.sql]
  refine ⟨?_, ?_, hwritten⟩
  · rw [hsql, ← Sql.length_questions]
    exact hwritten.length_eq
  · rw [hsql, Sql.marked_chars]

theorem placeholders_match_params_of_odd_names :
    let inner : Condition := .compare .and "u" ["k"] .between (.list [.int 1, .entity [.int 2]])
    let s : Statement :=
      { kind := .update
        source := some (.table "odd`?" rootAlias)
        assignments := [(.root "c?", .text "?"), (.root "d", .raw "NOW()")]
        conditions := [
          .compare .and rootAlias ["a`", "b"] .isIn (.list [.entity [.int 1, .int 2], .list []]),
          .existence .or true (Statement.probe (.table "t" "u")).toFrame [inner]] }
    ∃ c, s.isPlain ∧ s.compileAs .update { tables := true } = .ok c ∧
      (Sql.questionMarks c.sql.toList).length = c.flatParams.length ∧
        (Sql.marked c.pieces).map Prod.fst = c.sql.toList ∧
          List.Forall₂ Sql.WrittenFor (Sql.questions c.pieces) c.flatParams := by
  intro inner s
  have hs : s.isPlain := by decide
  have h : ∃ c, s.compileAs .update { tables := true } = .ok c := ⟨_, rfl⟩
  obtain ⟨c, hc⟩ := h
  exact ⟨c, hs, hc, placeholders_match_params .update { tables := true } s c hs hc⟩

end Statement

end PathQuery
