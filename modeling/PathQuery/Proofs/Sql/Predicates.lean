import PathQuery.Proofs.Sql.ReadBack

/-!
The shapes of a predicate: two operands around an operator, a test for NULL, a range, and a list in
parentheses. A comparison of two columns, or of a SELECT of the caller with a value, is written with
the operator that it was given; its text has one of these shapes exactly when the operator fits what
stands on its right. A reader that stops at the blanks outside of backticks and parentheses tells.
-/

set_option autoImplicit false

namespace PathQuery

namespace Operator

def words (op : Operator) : List (List Char) :=
  Text.splitOn ' ' op.sql.toList

theorem words_injective {op op' : Operator} (h : op.words = op'.words) : op = op' := by
  have hsql : op.sql.toList = op'.sql.toList := by
    rw [← Text.intercalate_splitOn ' ' op.sql.toList, ← Text.intercalate_splitOn ' ' op'.sql.toList]
    exact congrArg _ h
  have hfind (op : Operator) : all.find? (·.sql.toList == op.sql.toList) = some op := by
    cases op <;> decide
  exact Option.some.inj ((hfind op).symm.trans (hsql ▸ hfind op'))

theorem of_words_isUnary {op op' : Operator} {w : List Char} (hunary : op'.isUnary = true)
    (h : op'.words = op.words ++ [w]) : op = .is ∨ op = .isNot := by
  have hlast : op.words = op'.words.dropLast := by rw [h, List.dropLast_concat]
  cases op' with
  | isNull => exact .inl (words_injective hlast)
  | isNotNull => exact .inr (words_injective hlast)
  | _ => cases hunary

theorem words_ne_append_and (op : Operator) (ws : List (List Char)) :
    op.words ≠ ws ++ ["AND".toList] := by
  intro h
  have hlast : op.words.getLast? = some "AND".toList := by rw [h, List.getLast?_concat]
  revert hlast
  cases op <;> decide

/-- Whether the operator compares with an operand of this text: one that takes a list asks for
parentheses, and a range asks for two bounds. -/
def takes (op : Operator) (right : List Char) : Bool :=
  if op.takesList then !op.isRange && right.head? == some '(' else !op.isUnary

end Operator

namespace Sql

def isGap (a : Seen) : Bool :=
  a.2 && a.1 == ' '

def fields (t : List Char) : List (List Char) :=
  ((seen {} t).splitOnP isGap).map (·.map Prod.fst)

/-- The text closes what it opens, and no blank stands outside of backticks and parentheses. -/
def IsField (t : List Char) : Prop :=
  Balanced t ∧ (seen {} t).all (! isGap ·) = true

instance (t : List Char) : Decidable (IsField t) :=
  inferInstanceAs (Decidable (_ ∧ _))

namespace IsField

variable {t u : List Char}

theorem gapless (ht : IsField t) : ∀ a ∈ seen {} t, isGap a = false := by
  simpa using List.all_eq_true.1 ht.2

theorem append (ht : IsField t) (hu : IsField u) : IsField (t ++ u) := by
  refine ⟨ht.1.append hu.1, ?_⟩
  rw [seen_append ht.1, List.all_append, ht.2, hu.2, Bool.and_true]

theorem of_hidden (hb : Balanced t) (h : seen {} t = t.map (·, false)) : IsField t := by
  refine ⟨hb, ?_⟩
  rw [h, List.all_map]
  exact List.all_eq_true.2 fun _ _ => rfl

theorem quoted (name : List Char) : IsField (Ident.quoted name) :=
  of_hidden (balanced_quoted name) (seen_quoted name)

theorem parens (ht : Balanced t) : IsField ('(' :: t ++ [')']) :=
  of_hidden ht.parens (seen_parens ht)

theorem of_forall (h : ∀ c ∈ t, c ≠ '`' ∧ c ≠ '(' ∧ c ≠ ')' ∧ c ≠ ' ') : IsField t := by
  refine ⟨.of_forall fun c hc => ⟨(h c hc).1, (h c hc).2.1, (h c hc).2.2.1⟩, ?_⟩
  refine List.all_eq_true.2 fun a ha => ?_
  have hmem : a.1 ∈ t := seen_map_fst {} t ▸ List.mem_map_of_mem ha
  simp [isGap, (h a.1 hmem).2.2.2]

theorem operator (op : Operator) : ∀ w ∈ op.words, IsField w := by
  cases op <;> decide

end IsField

section Fields

variable {t : List Char}

theorem fields_of_isField (ht : IsField t) : fields t = [t] := by
  rw [fields, List.splitOnP_eq_singleton ht.gapless, List.map_singleton, seen_map_fst]

theorem fields_cons (ht : IsField t) (u : List Char) : fields (t ++ ' ' :: u) = t :: fields u := by
  have hseen : seen {} (t ++ ' ' :: u) = seen {} t ++ (' ', true) :: seen {} u := seen_append ht.1 _
  rw [fields, hseen, List.splitOnP_append_cons_of_forall_mem ht.gapless _ rfl, List.map_cons,
    seen_map_fst, fields]

theorem fields_intercalate {ws : List (List Char)} (hne : ws ≠ []) (hws : ∀ w ∈ ws, IsField w)
    (u : List Char) :
    fields ([' '].intercalate ws) = ws ∧
      fields ([' '].intercalate ws ++ ' ' :: u) = ws ++ fields u := by
  induction ws with
  | nil => exact absurd rfl hne
  | cons w rest ih =>
    rw [List.forall_mem_cons] at hws
    cases rest with
    | nil =>
      simpa [List.intercalate] using And.intro (fields_of_isField hws.1) (fields_cons hws.1 u)
    | cons w' rest =>
      obtain ⟨hrest, hbehind⟩ := ih (List.cons_ne_nil _ _) hws.2
      have hcons : [' '].intercalate (w :: w' :: rest) =
          w ++ ' ' :: [' '].intercalate (w' :: rest) := by
        simp [List.intercalate]
      rw [hcons, fields_cons hws.1, hrest, List.append_assoc, List.cons_append, fields_cons hws.1,
        hbehind]
      exact ⟨rfl, rfl⟩

theorem fields_operator (op : Operator) (u : List Char) :
    fields op.sql.toList = op.words ∧
      fields (op.sql.toList ++ ' ' :: u) = op.words ++ fields u := by
  have h := fields_intercalate (Text.splitOn_ne_nil ' ' op.sql.toList) (IsField.operator op) u
  rwa [Text.intercalate_splitOn] at h

end Fields

def isPlain (c : Char) : Bool :=
  Ident.isWordChar c || "+-.".toList.contains c

/-- What stands on a side of an operator: a name between backticks, behind the name of its table or
alone, a placeholder, a word such as a number or a constant, and a text in parentheses, behind the
name of a function or alone. -/
inductive IsOperand : List Char → Prop
  | name (n : List Char) : IsOperand (Ident.quoted n)
  | qualified (table n : List Char) : IsOperand (Ident.quoted table ++ '.' :: Ident.quoted n)
  | placeholder : IsOperand ['?']
  | word {w : List Char} (nonempty : w ≠ []) (plain : w.all isPlain = true) : IsOperand w
  | parens {t : List Char} (balanced : Balanced t) : IsOperand ('(' :: t ++ [')'])
  | call {w t : List Char} (nonempty : w ≠ []) (plain : w.all isPlain = true)
    (balanced : Balanced t) : IsOperand (w ++ ('(' :: t ++ [')']))

inductive IsPredicate : List Char → Prop
  | binary {op : Operator} {left right : List Char} (unary : op.isUnary = false)
    (list : op.takesList = false) (hleft : IsOperand left) (hright : IsOperand right) :
    IsPredicate (left ++ ' ' :: (op.sql.toList ++ ' ' :: right))
  | nullTest {op : Operator} {left : List Char} (unary : op.isUnary = true)
    (hleft : IsOperand left) : IsPredicate (left ++ ' ' :: op.sql.toList)
  | range {op : Operator} {left low high : List Char} (range : op.isRange = true)
    (hleft : IsOperand left) (hlow : IsOperand low) (hhigh : IsOperand high) :
    IsPredicate (left ++ ' ' :: (op.sql.toList ++ ' ' ::
      (low ++ ' ' :: ("AND".toList ++ ' ' :: high))))
  | list {op : Operator} {left items : List Char} (list : op.takesList = true)
    (range : op.isRange = false) (hleft : IsOperand left) (balanced : Balanced items) :
    IsPredicate (left ++ ' ' :: (op.sql.toList ++ ' ' :: ('(' :: items ++ [')'])))

theorem isField_of_isPlain {w : List Char} (plain : w.all isPlain = true) : IsField w := by
  refine .of_forall fun c hc => ?_
  have hplain : isPlain c = true := List.all_eq_true.1 plain c hc
  refine ⟨?_, ?_, ?_, ?_⟩ <;> rintro rfl <;> exact absurd hplain (by decide)

theorem IsOperand.isField {t : List Char} (h : IsOperand t) : IsField t := by
  cases h with
  | name n => exact .quoted n
  | qualified table n =>
    have hdot : IsField ['.'] := by decide
    exact (IsField.quoted table).append (hdot.append (.quoted n))
  | placeholder => decide
  | word nonempty plain => exact isField_of_isPlain plain
  | parens balanced => exact .parens balanced
  | call nonempty plain balanced => exact (isField_of_isPlain plain).append (.parens balanced)

theorem IsOperand.exists_parens {t : List Char} (h : IsOperand t)
    (hfirst : t.head? = some '(') : ∃ u, Balanced u ∧ t = '(' :: u ++ [')'] := by
  have hword {w u : List Char} (nonempty : w ≠ []) (plain : w.all isPlain = true)
      (hfirst : (w ++ u).head? = some '(') : False := by
    obtain ⟨c, w, rfl⟩ := List.exists_cons_of_ne_nil nonempty
    obtain rfl : c = '(' := Option.some.inj hfirst
    exact absurd (Bool.and_eq_true_iff.1 plain).1 (by decide)
  cases h with
  | parens balanced => exact ⟨_, balanced, rfl⟩
  | word nonempty plain => exact (hword nonempty plain (u := []) (by simpa using hfirst)).elim
  | call nonempty plain => exact (hword nonempty plain hfirst).elim
  | name | qualified | placeholder => exact absurd (Option.some.inj hfirst) (by decide)

section Predicates

variable {op : Operator} {left right : List Char}

variable (op) in
theorem fields_binary (hleft : IsField left) (hright : IsField right) :
    fields (left ++ ' ' :: (op.sql.toList ++ ' ' :: right)) = left :: (op.words ++ [right]) := by
  rw [fields_cons hleft, (fields_operator op right).2, fields_of_isField hright]

variable (op) in
/-- Two operands around an operator have the shape of a predicate exactly when the operator fits the
operand on its right. -/
theorem isPredicate_iff (hleft : IsOperand left) (hright : IsOperand right) :
    IsPredicate (left ++ ' ' :: (op.sql.toList ++ ' ' :: right)) ↔ op.takes right = true := by
  constructor
  · intro h
    have hfields := fields_binary op hleft.isField hright.isField
    generalize left ++ ' ' :: (op.sql.toList ++ ' ' :: right) = t at h hfields
    cases h with
    | @binary op' left' right' unary list hleft' hright' =>
      rw [fields_binary _ hleft'.isField hright'.isField] at hfields
      have hwords := congrArg List.dropLast (List.cons.inj hfields).2
      rw [List.dropLast_concat, List.dropLast_concat] at hwords
      obtain rfl := Operator.words_injective hwords
      simp [Operator.takes, unary, list]
    | @nullTest op' left' unary hleft' =>
      rw [fields_cons hleft'.isField, (fields_operator op' []).1] at hfields
      rcases Operator.of_words_isUnary unary (List.cons.inj hfields).2 with rfl | rfl <;> rfl
    | @range op' left' low high range hleft' hlow hhigh =>
      have hand : IsField "AND".toList := by decide
      rw [fields_cons hleft'.isField, (fields_operator op' _).2, fields_cons hlow.isField,
        fields_cons hand, fields_of_isField hhigh.isField] at hfields
      have hwords : (op'.words ++ [low]) ++ ["AND".toList] ++ [high] = op.words ++ [right] := by
        simpa using (List.cons.inj hfields).2
      have hwords := congrArg List.dropLast hwords
      rw [List.dropLast_concat, List.dropLast_concat] at hwords
      exact absurd hwords.symm (Operator.words_ne_append_and op _)
    | @list op' left' items list range hleft' balanced =>
      rw [fields_binary _ hleft'.isField (.parens balanced)] at hfields
      obtain ⟨hwords, hitems⟩ := List.append_inj' (List.cons.inj hfields).2 rfl
      obtain rfl := Operator.words_injective hwords
      obtain rfl := List.singleton_inj.1 hitems
      simp [Operator.takes, list, range]
  · intro h
    unfold Operator.takes at h
    cases hlist : op.takesList with
    | false =>
      rw [hlist] at h
      exact .binary (by simpa using h) hlist hleft hright
    | true =>
      simp only [hlist, if_true, Bool.and_eq_true, Bool.not_eq_true', beq_iff_eq] at h
      obtain ⟨items, hitems, rfl⟩ := hright.exists_parens h.2
      exact .list hlist h.1 hleft hitems

end Predicates

def IsWhole : Value → Prop
  | .raw sql => IsOperand sql.toList
  | v => v.isClosed = true

theorem isOperand_placeholders {v : Value} (h : IsWhole v) : IsOperand (placeholders v) := by
  by_cases hraw : ∃ sql, v = .raw sql
  · obtain ⟨sql, rfl⟩ := hraw
    exact h
  · have hclosed : v.isClosed = true := by
      cases v with
      | raw sql => exact absurd ⟨sql, rfl⟩ hraw
      | _ => exact h
    rcases hasShape_of_isClosed v hclosed with hmark | hfragment | ⟨inner, hparens, hinner⟩
    · exact hmark ▸ .placeholder
    · exact absurd hfragment hraw
    · exact hparens ▸ .parens hinner

end Sql

namespace Condition

/-- A comparison of two columns, or of a SELECT with a value: its operator is the one that the
caller gave, whatever stands on the right. -/
def keepsOperator : Condition → Bool
  | .columns _ _ _ _ => true
  | .subquery _ _ _ _ _ => true
  | _ => false

/-- Whether that operator fits what stands on its right: neither a test for NULL nor an operator on
lists has a column there, and an operator on lists has the list of a value. -/
def operatorFits : Condition → Bool
  | .columns _ _ op _ => !op.isUnary && !op.takesList
  | .subquery _ _ _ op value => op.isUnary || op.takes (Sql.placeholders value)
  | _ => true

def HasWholeSelect : Condition → Prop
  | .subquery _ frame xs _ value =>
    (∀ ps, Sql.select .nested ⟨frame, xs⟩ = .ok ps → Sql.Balanced (Sql.chars ps)) ∧
      Sql.IsWhole value
  | _ => True

end Condition

namespace Sql

theorem isOperand_column (a : Aliasing) (c : ColumnRef) : IsOperand (chars (column a c)) := by
  cases htables : a.tables with
  | false => simpa [column, columnName, htables, Piece.chars] using IsOperand.name c.column.toList
  | true =>
    simpa [column, columnName, htables, Piece.chars, lit] using
      IsOperand.qualified c.tableAlias.toList c.column.toList

theorem head?_column (a : Aliasing) (c : ColumnRef) :
    (chars (column a c)).head? = some '`' := by
  cases htables : a.tables <;> simp [column, columnName, htables, Piece.chars, Ident.quoted]

theorem chars_columns (a : Aliasing) (left right : ColumnRef) (op : Operator) :
    chars (column a left ++ [lit " ", lit op.sql, lit " "] ++ column a right) =
      chars (column a left) ++ ' ' :: (op.sql.toList ++ ' ' :: chars (column a right)) := by
  simp [lit, Piece.chars]

theorem isPredicate_condition_iff {a : Aliasing} {x : Condition} {ps : List Piece}
    (hx : x.keepsOperator = true) (hwhole : x.HasWholeSelect) (h : condition a x = .ok ps) :
    IsPredicate (chars ps) ↔ x.operatorFits = true := by
  cases x with
  | columns c left op right =>
    obtain rfl := Except.ok.inj h
    rw [chars_columns, isPredicate_iff op (isOperand_column a left) (isOperand_column a right)]
    cases hlist : op.takesList <;>
      simp [Operator.takes, Condition.operatorFits, hlist, head?_column]
  | subquery c frame xs op value =>
    simp only [condition, bind_eq_ok_iff, pure_eq_ok_iff] at h
    obtain ⟨head, hhead, body, hbody, rfl⟩ := h
    obtain ⟨hselect, hvalue⟩ := hwhole
    have hbalanced : Balanced (chars (head ++ body ++ selectTail .nested frame)) := by
      refine hselect _ ?_
      simp only [select, hhead, hbody]
      rfl
    have hleft : IsOperand ('(' :: chars (head ++ body ++ selectTail .nested frame) ++ [')']) :=
      .parens hbalanced
    cases hunary : op.isUnary with
    | true =>
      have htest := IsPredicate.nullTest hunary hleft
      simpa [Condition.operatorFits, hunary, lit, Piece.chars] using htest
    | false =>
      have htest := isPredicate_iff op hleft (isOperand_placeholders hvalue)
      simpa [Condition.operatorFits, hunary, lit, Piece.chars] using htest
  | _ => cases hx

def WrittenIn (ps : List Piece) (y : Condition) : Prop :=
  ∃ a qs, condition a y = .ok qs ∧ qs <:+: ps

theorem WrittenIn.mono {ps qs : List Piece} {y : Condition} (h : WrittenIn ps y)
    (hwithin : ps <:+: qs) : WrittenIn qs y := by
  obtain ⟨a, own, hown, hps⟩ := h
  exact ⟨a, own, hown, hps.trans hwithin⟩

mutual

/-- Every condition inside of a condition is written where that one is. -/
theorem writtenIn_condition (a : Aliasing) (x : Condition) {ps : List Piece}
    (h : condition a x = .ok ps) : ∀ y ∈ x.nodes, WrittenIn ps y := by
  have hself : WrittenIn ps x := ⟨a, ps, h, List.infix_rfl⟩
  cases x with
  | group c members =>
    obtain ⟨-, inner, hinner, rfl⟩ := condition_group_eq_ok h
    rw [Condition.nodes, List.forall_mem_cons]
    refine ⟨hself, fun y hy => (writtenIn_conditions a members hinner y hy).mono ?_⟩
    exact ⟨[lit "("], [lit ")"], rfl⟩
  | existence c negated frame xs =>
    simp only [condition, bind_eq_ok_iff, pure_eq_ok_iff] at h
    obtain ⟨head, -, body, hbody, rfl⟩ := h
    rw [Condition.nodes, List.forall_mem_cons]
    refine ⟨hself, fun y hy => (writtenIn_whereClause .nested xs hbody y hy).mono ?_⟩
    exact ⟨lit (if negated then "NOT EXISTS (" else "EXISTS (") :: head,
      selectTail .nested frame ++ [lit ")"], by simp⟩
  | subquery c frame xs op value =>
    simp only [condition, bind_eq_ok_iff, pure_eq_ok_iff] at h
    obtain ⟨head, -, body, hbody, rfl⟩ := h
    rw [Condition.nodes, List.forall_mem_cons]
    refine ⟨hself, fun y hy => (writtenIn_whereClause .nested xs hbody y hy).mono ?_⟩
    exact ⟨lit "(" :: head, selectTail .nested frame ++ [lit ") ", lit op.sql] ++
      if op.isUnary then [] else [lit " ", .bound value], by simp⟩
  | _ => exact List.forall_mem_singleton.2 hself
termination_by structural x

theorem writtenIn_conditions (a : Aliasing) (xs : List Condition) {ps : List Piece}
    (h : conditions a xs = .ok ps) : ∀ y ∈ Condition.nodesOf xs, WrittenIn ps y := by
  cases xs with
  | nil => simp [Condition.nodesOf]
  | cons x rest =>
    simp only [conditions, bind_eq_ok_iff, pure_eq_ok_iff] at h
    obtain ⟨own, hown, behind, hbehind, rfl⟩ := h
    rw [Condition.nodesOf, List.forall_mem_append]
    exact ⟨fun y hy => (writtenIn_condition a x hown y hy).mono ⟨[], behind, rfl⟩,
      fun y hy => (writtenIn_siblings a rest hbehind y hy).mono ⟨own, [], by simp⟩⟩
termination_by structural xs

theorem writtenIn_siblings (a : Aliasing) (xs : List Condition) {ps : List Piece}
    (h : siblings a xs = .ok ps) : ∀ y ∈ Condition.nodesOf xs, WrittenIn ps y := by
  cases xs with
  | nil => simp [Condition.nodesOf]
  | cons x rest =>
    simp only [siblings, bind_eq_ok_iff, pure_eq_ok_iff] at h
    obtain ⟨own, hown, behind, hbehind, rfl⟩ := h
    rw [Condition.nodesOf, List.forall_mem_append]
    refine ⟨fun y hy => (writtenIn_condition a x hown y hy).mono ?_,
      fun y hy => (writtenIn_siblings a rest hbehind y hy).mono ?_⟩
    · exact ⟨[lit " ", lit x.connective.sql, lit " "], behind, rfl⟩
    · exact ⟨[lit " ", lit x.connective.sql, lit " "] ++ own, [], by simp⟩
termination_by structural xs

theorem writtenIn_whereClause (a : Aliasing) (xs : List Condition) {ps : List Piece}
    (h : whereClause a xs = .ok ps) : ∀ y ∈ Condition.nodesOf xs, WrittenIn ps y := by
  cases xs with
  | nil => simp [Condition.nodesOf]
  | cons x rest =>
    simp only [whereClause, bind_eq_ok_iff, pure_eq_ok_iff] at h
    obtain ⟨own, hown, behind, hbehind, rfl⟩ := h
    rw [Condition.nodesOf, List.forall_mem_append]
    exact ⟨fun y hy => (writtenIn_condition a x hown y hy).mono ⟨[lit " WHERE "], behind, rfl⟩,
      fun y hy => (writtenIn_siblings a rest hbehind y hy).mono ⟨lit " WHERE " :: own, [], by simp⟩⟩
termination_by structural xs

end

end Sql

theorem Statement.exists_whereClause {s : Statement} {kind : StatementKind} {a : Sql.Aliasing}
    {c : Compiled} (hkind : kind ≠ .insert) (h : s.compileAs kind a = .ok c) :
    ∃ b body, Sql.whereClause b s.conditions = .ok body ∧ body <:+: c.pieces := by
  obtain ⟨ps, hps, rfl⟩ := map_eq_ok_iff.1 h
  cases kind with
  | insert => exact absurd rfl hkind
  | select =>
    simp only [Sql.select, bind_eq_ok_iff, pure_eq_ok_iff] at hps
    obtain ⟨head, -, body, hbody, rfl⟩ := hps
    exact ⟨a, body, hbody, head, _, rfl⟩
  | update =>
    obtain ⟨src, table, body, -, -, -, hbody, rfl⟩ := Sql.update_eq_ok hps
    exact ⟨a, body, hbody, _, [], List.append_nil _⟩
  | delete =>
    obtain ⟨src, table, body, -, -, hbody, rfl⟩ | ⟨table, body, -, -, hbody, rfl⟩ :=
      Sql.delete_eq_ok hps
    · exact ⟨_, body, hbody, _, [], List.append_nil _⟩
    · exact ⟨a, body, hbody, _, [], List.append_nil _⟩

theorem Statement.writtenIn {s : Statement} {a : Sql.Aliasing} {c : Compiled}
    (hinsert : s.kind = .insert → s.conditions = []) (h : s.compile a = .ok c) :
    ∀ y ∈ Condition.nodesOf s.conditions, Sql.WrittenIn c.pieces y := by
  by_cases hkind : s.kind = .insert
  · rw [hinsert hkind]
    simp [Condition.nodesOf]
  · obtain ⟨b, body, hbody, hwithin⟩ := exists_whereClause hkind h
    exact fun y hy => (Sql.writtenIn_whereClause b s.conditions hbody y hy).mono hwithin

end PathQuery
