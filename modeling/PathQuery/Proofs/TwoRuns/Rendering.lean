import PathQuery.Proofs.Sql.Markup
import PathQuery.Proofs.TwoRuns.Conditions

/-!
Statements that are alike, written as SQL. The text is the same, since placeholders show the shape
of a value alone, and the values bound in it stand against each other one by one.
-/

set_option autoImplicit false

namespace PathQuery

variable {ρ : Value → Value → Prop}

namespace Sql

mutual

theorem placeholders_eq (v : Value) {w : Value} (h : v.Alike ρ w) :
    placeholders v = placeholders w := by
  cases v with
  | list xs =>
    obtain ⟨ys, rfl, hys⟩ := h
    exact tuple_eq xs hys
  | entity xs =>
    obtain ⟨ys, rfl, hys⟩ := h
    match xs, hys with
    | [], hys =>
      obtain rfl := hys
      rfl
    | [x], ⟨y, ys', hy, hxy, hnil⟩ =>
      obtain rfl := hnil
      subst hy
      rfl
    | x :: x' :: xs, ⟨y, ys', hy, hxy, y', ys'', hy', hxy', hxs⟩ =>
      subst hy' hy
      have hrest := tupleRest_eq xs hxs
      simp only [placeholders, tuple, tupleRest, placeholders_eq x hxy, placeholders_eq x' hxy',
        hrest]
  | raw sql =>
    obtain rfl := h
    rfl
  | null =>
    obtain rfl := h
    rfl
  | _ =>
    obtain ⟨hv, hw, _⟩ := h
    rw [placeholders_of_isScalar (Value.isScalar_of_isData hv),
      placeholders_of_isScalar (Value.isScalar_of_isData hw)]
termination_by structural v

theorem tuple_eq (vs : List Value) {ws : List Value} (h : Value.AllAlike ρ vs ws) :
    tuple vs = tuple ws := by
  cases vs with
  | nil =>
    obtain rfl := h
    rfl
  | cons v vs =>
    obtain ⟨w, ws', rfl, hv, hvs⟩ := h
    rw [tuple, tuple, placeholders_eq v hv, tupleRest_eq vs hvs]
termination_by structural vs

theorem tupleRest_eq (vs : List Value) {ws : List Value} (h : Value.AllAlike ρ vs ws) :
    tupleRest vs = tupleRest ws := by
  cases vs with
  | nil =>
    obtain rfl := h
    rfl
  | cons v vs =>
    obtain ⟨w, ws', rfl, hv, hvs⟩ := h
    rw [tupleRest, tupleRest, placeholders_eq v hv, tupleRest_eq vs hvs]
termination_by structural vs

end

structure PiecesAlike (ρ : Value → Value → Prop) (ps qs : List Piece) : Prop where
  chars : chars ps = chars qs
  params : List.Forall₂ (Value.Alike ρ) (params ps) (params qs)

namespace PiecesAlike

variable {ps qs ps' qs' : List Piece}

theorem fixed (h : Sql.params ps = []) : PiecesAlike ρ ps ps where
  chars := rfl
  params := by simp [h]

theorem bound {v w : Value} (h : v.Alike ρ w) : PiecesAlike ρ [.bound v] [.bound w] where
  chars := by simp [Piece.chars, placeholders_eq v h]
  params := .cons h .nil

theorem append (h : PiecesAlike ρ ps qs) (h' : PiecesAlike ρ ps' qs') :
    PiecesAlike ρ (ps ++ ps') (qs ++ qs') where
  chars := by rw [chars_append, chars_append, h.chars, h'.chars]
  params := by
    rw [params_append, params_append]
    exact List.rel_append h.params h'.params

theorem lit (s : String) (h : PiecesAlike ρ ps qs) :
    PiecesAlike ρ (Sql.lit s :: ps) (Sql.lit s :: qs) where
  chars := by rw [chars_cons, chars_cons, h.chars]
  params := h.params

theorem commaSeparated {pss qss : List (List Piece)} (h : List.Forall₂ (PiecesAlike ρ) pss qss) :
    PiecesAlike ρ (Sql.commaSeparated pss) (Sql.commaSeparated qss) := by
  induction h with
  | nil => exact .fixed rfl
  | cons hps hrest ih =>
    cases hrest with
    | nil => exact hps
    | cons hqs hrest => exact hps.append (ih.lit ",")

end PiecesAlike

theorem bound_alike (op : Operator) {v w : Value} (h : v.Alike ρ w) :
    PiecesAlike ρ [lit " ", lit op.sql, lit " ", .bound v]
      [lit " ", lit op.sql, lit " ", .bound w] :=
  (((PiecesAlike.bound h).lit " ").lit op.sql).lit " "

theorem comparison_of_single (op : Operator) {v : Value}
    (h : op.isRange = false ∨ v.isList = false) :
    comparison op v = if op.isUnary then .ok [lit " ", lit op.sql]
      else .ok [lit " ", lit op.sql, lit " ", .bound v] := by
  unfold comparison
  split
  · rfl
  · rcases h with h | h
    · rw [h]
    · cases v with
      | list _ => simp [Value.isList] at h
      | _ => cases op.isRange <;> rfl

theorem agree_comparison (op : Operator) {v w : Value} (h : v.Alike ρ w) :
    Agree (PiecesAlike ρ) (comparison op v) (comparison op w) := by
  by_cases hsingle : op.isRange = false ∨ v.isList = false
  · rw [comparison_of_single op hsingle, comparison_of_single op (h.isList_eq ▸ hsingle)]
    split
    · exact .ok (.fixed rfl)
    · exact .ok (bound_alike op h)
  · rcases h.list_or_single with ⟨xs, ys, rfl, rfl, hxy⟩ | ⟨hv, _⟩
    · have hrange : op.isRange = true := by
        rw [not_or] at hsingle
        simpa using hsingle.1
      unfold comparison
      split
      · exact .ok (.fixed rfl)
      · rw [hrange]
        match xs, ys, hxy with
        | [], [], .nil => exact .error _
        | [x], [y], .cons _ .nil => exact .error _
        | [x, x'], [y, y'], .cons hx (.cons hx' .nil) =>
          have hhigh := (PiecesAlike.bound hx').lit " AND "
          exact .ok ((bound_alike op hx).append hhigh)
        | _ :: _ :: _ :: _, _ :: _ :: _ :: _, .cons _ (.cons _ (.cons _ _)) => exact .error _
    · exact absurd (.inr hv) hsingle

theorem compare_of_ne_nil (a : Aliasing) (tableAlias : String) (columns : List String)
    (op : Operator) {v : Value} (h : v.isList = false ∨ ∃ x xs, v = .list (x :: xs)) :
    compare a tableAlias columns op v =
      operand a tableAlias columns >>= fun left =>
        comparison op v >>= fun right => pure (left ++ right) := by
  rcases h with h | ⟨x, xs, rfl⟩
  · cases v with
    | list _ => simp [Value.isList] at h
    | _ => cases hm : op.isMembership <;> simp only [compare, hm]
  · cases hm : op.isMembership <;> simp only [compare, hm]

theorem agree_compare (a : Aliasing) (tableAlias : String) (columns : List String) (op : Operator)
    {v w : Value} (h : v.Alike ρ w) :
    Agree (PiecesAlike ρ) (compare a tableAlias columns op v)
      (compare a tableAlias columns op w) := by
  have hpair : Agree (PiecesAlike ρ)
      (operand a tableAlias columns >>= fun left =>
        comparison op v >>= fun right => pure (left ++ right))
      (operand a tableAlias columns >>= fun left =>
        comparison op w >>= fun right => pure (left ++ right)) := by
    cases hl : operand a tableAlias columns with
    | error e => exact .error e
    | ok left =>
      exact (agree_comparison op h).bind fun _ _ hright =>
        .ok (.append (.fixed (markup_params.operand hl)) hright)
  rcases h.list_or_single with ⟨xs, ys, rfl, rfl, hxy⟩ | ⟨hv, hw⟩
  · cases hxy with
    | nil =>
      cases hm : op.isMembership with
      | true =>
        simp only [compare, hm]
        exact .ok (.fixed rfl)
      | false =>
        simp only [compare, hm]
        exact hpair
    | cons _ _ =>
      rw [compare_of_ne_nil a tableAlias columns op (.inr ⟨_, _, rfl⟩),
        compare_of_ne_nil a tableAlias columns op (.inr ⟨_, _, rfl⟩)]
      exact hpair
  · rw [compare_of_ne_nil a tableAlias columns op (.inl hv),
      compare_of_ne_nil a tableAlias columns op (.inl hw)]
    exact hpair

theorem selectHead_eq {f g : Frame} (a : Aliasing) (h : f.Alike ρ g) :
    selectHead a f = selectHead a g :=
  (congrArg (selectHead a) h.rest :)

theorem selectTail_eq {f g : Frame} (a : Aliasing) (h : f.Alike ρ g) :
    selectTail a f = selectTail a g :=
  (congrArg (selectTail a) h.rest :)

theorem agree_selectHead {f g : Frame} (a : Aliasing) (h : f.Alike ρ g) :
    Agree (PiecesAlike ρ) (selectHead a f) (selectHead a g) := by
  rw [selectHead_eq a h]
  cases hg : selectHead a g with
  | error e => exact .error e
  | ok ps => exact .ok (.fixed (markup_params.selectHead (fun _ _ _ _ => rfl) hg))

mutual

theorem agree_condition (a : Aliasing) (x : Condition) {y : Condition} (h : x.Alike ρ y) :
    Agree (PiecesAlike ρ) (condition a x) (condition a y) := by
  cases x with
  | compare c tableAlias columns op v =>
    obtain ⟨w, rfl, hv⟩ := h
    exact agree_compare a tableAlias columns op hv
  | group c xs =>
    obtain ⟨ys, rfl, hxs⟩ := h
    cases xs with
    | nil =>
      obtain rfl := hxs
      exact .error _
    | cons x xs =>
      have hinner := agree_conditions a (x :: xs) hxs
      obtain ⟨y, ys', rfl, _⟩ := hxs
      exact hinner.bind fun _ _ hps => .ok ((hps.append (.fixed rfl)).lit "(")
  | existence c negated f xs =>
    obtain ⟨g, ys, rfl, hf, hxs⟩ := h
    refine (agree_selectHead .nested hf).bind fun head head' hhead => ?_
    refine (agree_whereClause .nested xs hxs).bind fun body body' hbody => ?_
    have htail : PiecesAlike ρ (selectTail .nested f) (selectTail .nested g) := by
      rw [selectTail_eq .nested hf]
      exact .fixed (markup_params.selectTail _ _)
    exact .ok ((((hhead.append hbody).append htail).append (.fixed rfl)).lit _)
  | membership c col vs negated =>
    obtain ⟨ws, rfl, hws⟩ := h
    cases hws with
    | nil => exact .ok (.fixed rfl)
    | cons hv hvs =>
      have hlist := (PiecesAlike.bound (Value.alike_list (.cons hv hvs))).lit
        (if negated then " NOT IN " else " IN ")
      exact .ok (.append (.fixed (markup_params.column a col)) hlist)
  | columns c left op right =>
    obtain rfl := h
    exact .ok (.fixed (by simp [markup_params.column a]))
  | subquery c f xs op v =>
    obtain ⟨g, ys, w, rfl, hf, hxs, hv⟩ := h
    refine (agree_selectHead .nested hf).bind fun head head' hhead => ?_
    refine (agree_whereClause .nested xs hxs).bind fun body body' hbody => ?_
    have htail : PiecesAlike ρ (selectTail .nested f) (selectTail .nested g) := by
      rw [selectTail_eq .nested hf]
      exact .fixed (markup_params.selectTail _ _)
    have hright : PiecesAlike ρ (if op.isUnary then [] else [lit " ", .bound v])
        (if op.isUnary then [] else [lit " ", .bound w]) := by
      split
      · exact .fixed rfl
      · exact (PiecesAlike.bound hv).lit " "
    have hmiddle : PiecesAlike ρ [lit ") ", lit op.sql] [lit ") ", lit op.sql] := .fixed rfl
    have hrest := ((hhead.append hbody).append htail).append (hmiddle.append hright)
    exact .ok (by simpa using hrest.lit "(")
termination_by structural x

theorem agree_conditions (a : Aliasing) (xs : List Condition) {ys : List Condition}
    (h : Condition.AllAlike ρ xs ys) :
    Agree (PiecesAlike ρ) (conditions a xs) (conditions a ys) := by
  cases xs with
  | nil =>
    obtain rfl := h
    exact .ok (.fixed rfl)
  | cons x xs =>
    obtain ⟨y, ys, rfl, hx, hxs⟩ := h
    exact (agree_condition a x hx).bind fun _ _ hown =>
      (agree_siblings a xs hxs).bind fun _ _ hrest => .ok (hown.append hrest)
termination_by structural xs

theorem agree_siblings (a : Aliasing) (xs : List Condition) {ys : List Condition}
    (h : Condition.AllAlike ρ xs ys) :
    Agree (PiecesAlike ρ) (siblings a xs) (siblings a ys) := by
  cases xs with
  | nil =>
    obtain rfl := h
    exact .ok (.fixed rfl)
  | cons x xs =>
    obtain ⟨y, ys, rfl, hx, hxs⟩ := h
    rw [siblings, siblings, hx.connective_eq]
    refine (agree_condition a x hx).bind fun own own' hown => ?_
    refine (agree_siblings a xs hxs).bind fun rest rest' hrest => ?_
    have hconnective : PiecesAlike ρ [lit " ", lit y.connective.sql, lit " "]
        [lit " ", lit y.connective.sql, lit " "] := .fixed rfl
    exact .ok ((hconnective.append hown).append hrest)
termination_by structural xs

theorem agree_whereClause (a : Aliasing) (xs : List Condition) {ys : List Condition}
    (h : Condition.AllAlike ρ xs ys) :
    Agree (PiecesAlike ρ) (whereClause a xs) (whereClause a ys) := by
  cases xs with
  | nil =>
    obtain rfl := h
    exact .ok (.fixed rfl)
  | cons x xs =>
    obtain ⟨y, ys, rfl, hx, hxs⟩ := h
    exact (agree_condition a x hx).bind fun _ _ hown =>
      (agree_siblings a xs hxs).bind fun _ _ hrest => .ok ((hown.append hrest).lit " WHERE ")
termination_by structural xs

end

variable {s s' : Statement} (h : s.Alike ρ s')

include h

theorem agree_body (a : Aliasing) :
    Agree (PiecesAlike ρ) (whereClause a s.conditions) (whereClause a s'.conditions) :=
  agree_whereClause a _ (Condition.allAlike_iff.2 h.conditions)

theorem agree_select (a : Aliasing) : Agree (PiecesAlike ρ) (select a s) (select a s') := by
  refine (agree_selectHead a h.frame).bind fun head head' hhead => ?_
  refine (agree_body h a).bind fun body body' hbody => ?_
  rw [selectTail_eq a h.frame]
  exact .ok ((hhead.append hbody).append (.fixed (markup_params.selectTail _ _)))

theorem agree_insert : Agree (PiecesAlike ρ) (insert s) (insert s') := by
  have hinto : s.into = s'.into := (congrArg Frame.into h.frame.rest :)
  have hcolumns : s.insertColumns = s'.insertColumns :=
    (congrArg Frame.insertColumns h.frame.rest :)
  have hempty : s.rows.isEmpty = s'.rows.isEmpty := isEmpty_eq_of_forall₂ h.frame.rows
  have hrow : ∀ vs ws, List.Forall₂ (Value.Alike ρ) vs ws → PiecesAlike ρ (row vs) (row ws) := by
    intro vs ws hvs
    have hitems := List.rel_map (P := PiecesAlike ρ) (fun v w hv => PiecesAlike.bound hv) hvs
    exact ((PiecesAlike.commaSeparated hitems).append (.fixed rfl)).lit "("
  have hrows := PiecesAlike.commaSeparated (List.rel_map hrow h.frame.rows)
  unfold insert
  rw [hinto, hcolumns, hempty]
  cases s'.into with
  | none => exact .error _
  | some table =>
    dsimp only
    split
    · exact .error _
    · have hnames : params (commaSeparated (s'.insertColumns.map fun c => [.name c])) = [] :=
        markup_params.commaSeparated_map fun _ _ => rfl
      have hhead : PiecesAlike ρ
          (tableName table ++ lit " (" :: commaSeparated (s'.insertColumns.map fun c => [.name c]))
          (tableName table ++ lit " (" ::
            commaSeparated (s'.insertColumns.map fun c => [.name c])) :=
        .fixed (by simp [hnames, markup_params.tableName table])
      exact .ok (by simpa using (hhead.append (hrows.lit ") VALUES")).lit "INSERT INTO ")

omit h in
variable (ρ) in
theorem agree_source (a : Aliasing) (src : Source) :
    Agree (PiecesAlike ρ) (source a src) (source a src) := by
  cases hs : source a src with
  | error e => exact .error e
  | ok ps => exact .ok (.fixed (markup_params.source hs))

theorem agree_update (a : Aliasing) : Agree (PiecesAlike ρ) (update a s) (update a s') := by
  have hsource : s.source = s'.source := (congrArg Frame.source h.frame.rest :)
  have hjoins : s.joins = s'.joins := (congrArg Frame.joins h.frame.rest :)
  have hempty : s.assignments.isEmpty = s'.assignments.isEmpty :=
    isEmpty_eq_of_forall₂ h.frame.assignments
  have hassign : ∀ x y, AssignmentAlike ρ x y →
      PiecesAlike ρ (assignment a x) (assignment a y) := by
    rintro ⟨c, v⟩ ⟨c', w⟩ ⟨hc, hv⟩
    obtain rfl : c = c' := hc
    exact .append (.fixed (markup_params.column a c)) ((PiecesAlike.bound hv).lit " = ")
  have hassignments := PiecesAlike.commaSeparated (List.rel_map hassign h.frame.assignments)
  unfold update
  rw [hsource, hjoins, hempty]
  cases s'.source with
  | none => exact .error _
  | some src =>
    dsimp only
    split
    · exact .error _
    · refine (agree_source ρ a src).bind fun table table' htable => ?_
      refine (agree_body h a).bind fun body body' hbody => ?_
      have hhead := htable.append (.fixed (markup_params.joins a s'.joins))
      have hrest := hhead.append ((hassignments.append hbody).lit " SET ")
      exact .ok (by simpa using hrest.lit "UPDATE ")

theorem agree_delete (a : Aliasing) : Agree (PiecesAlike ρ) (delete a s) (delete a s') := by
  have husing : s.deleteUsing = s'.deleteUsing := (congrArg Frame.deleteUsing h.frame.rest :)
  have hjoins : s.joins = s'.joins := (congrArg Frame.joins h.frame.rest :)
  have htarget : deleteTarget? s = deleteTarget? s' :=
    (congrArg (fun f : Frame => deleteTarget? { toFrame := f }) h.frame.rest :)
  unfold delete
  rw [husing, hjoins, htarget]
  cases s'.deleteUsing with
  | some src =>
    refine (agree_source ρ _ src).bind fun table table' htable => ?_
    refine (agree_body h _).bind fun body body' hbody => ?_
    have hhead : PiecesAlike ρ [lit "DELETE FROM ", .name src.tableAlias, lit " USING "]
        [lit "DELETE FROM ", .name src.tableAlias, lit " USING "] := .fixed rfl
    have hjoins := PiecesAlike.fixed (ρ := ρ) (markup_params.joins { a with tables := true } s'.joins)
    exact .ok (((hhead.append htable).append hjoins).append hbody)
  | none =>
    cases deleteTarget? s' with
    | none => exact .error _
    | some table =>
      refine (agree_body h a).bind fun body body' hbody => ?_
      have htable := PiecesAlike.fixed (ρ := ρ) (markup_params.tableName table)
      exact .ok ((htable.append hbody).lit "DELETE FROM ")

end Sql

namespace Statement

def CompiledAlike (ρ : Value → Value → Prop) (c c' : Compiled) : Prop :=
  Sql.PiecesAlike ρ c.pieces c'.pieces

theorem agree_compile {s s' : Statement} (h : s.Alike ρ s') :
    Agree (CompiledAlike ρ) (s.compile (.of s)) (s'.compile (.of s')) := by
  have hkind : s.kind = s'.kind := (congrArg Frame.kind h.frame.rest :)
  have hselects : s.selectsJoined = s'.selectsJoined :=
    (congrArg (fun f : Frame => selectsJoined { toFrame := f }) h.frame.rest :)
  have haliasing : Sql.Aliasing.of s = Sql.Aliasing.of s' := by
    rw [Sql.Aliasing.of, Sql.Aliasing.of,
      needsAliases_eq h.frame (Condition.anySubquery_eq h.conditions), hselects]
  unfold compile compileAs
  rw [hkind, haliasing]
  cases s'.kind with
  | select => exact (Sql.agree_select h _).map fun _ _ hps => hps
  | insert => exact (Sql.agree_insert h).map fun _ _ hps => hps
  | update => exact (Sql.agree_update h _).map fun _ _ hps => hps
  | delete => exact (Sql.agree_delete h _).map fun _ _ hps => hps

end Statement

end PathQuery
