import PathQuery.Proofs.Sql.Clear

/-!
The text of a WHERE clause read back as its conditions. Split at the AND and OR outside of backticks
and parentheses, it falls into the conditions of one level, each behind its own connective. A group
is one text in parentheses, and of a SELECT inside of a condition the WHERE is read in the same way.
What callers write into a statement themselves is assumed to leave nothing open: fragments are
decimal numbers, and items of such a SELECT close their quotes and parentheses.
-/

set_option autoImplicit false

namespace PathQuery

namespace Condition

mutual

def nodes : Condition → List Condition
  | .group c members => .group c members :: nodesOf members
  | .existence c negated frame xs => .existence c negated frame xs :: nodesOf xs
  | .subquery c frame xs op value => .subquery c frame xs op value :: nodesOf xs
  | x => [x]
termination_by structural x => x

def nodesOf : List Condition → List Condition
  | [] => []
  | x :: rest => x.nodes ++ nodesOf rest
termination_by structural xs => xs

end

def hasLegibleValues : Condition → Bool
  | .compare _ _ _ _ value => value.isLegible
  | .membership _ _ values _ => Value.areLegible values
  | .subquery _ _ _ _ value => value.isLegible
  | _ => true

def isPair : Value → Bool
  | .list [_, _] => true
  | _ => false

def hasBounds : Condition → Bool
  | .compare _ _ _ op value => !op.isRange || isPair value
  | .columns _ _ op _ => !op.isRange
  | .subquery _ _ _ op _ => !op.isRange
  | _ => true

def hasClosedItems : Condition → Bool
  | .existence _ _ frame _ => frame.columns.all Sql.selectItemCloses
  | .subquery _ frame _ _ _ => frame.columns.all Sql.selectItemCloses
  | _ => true

end Condition

namespace Sql

def IsText (a : Aliasing) (x : Condition) (t : List Char) : Prop :=
  ∃ ps, condition a x = .ok ps ∧ chars ps = t

mutual

/-- What the text of a condition holds in parentheses reads back: the members of a group as the
conditions of one level, the WHERE of a SELECT as its conditions. -/
def PartsReadBack (a : Aliasing) : Condition → List Char → Prop
  | .group _ members, t => ∃ inner, enclosed? t = some ([], inner, []) ∧ ReadBack a members inner
  | .existence _ negated _ xs, t =>
    ∃ query inner,
      enclosed? t = some ((if negated then "NOT EXISTS " else "EXISTS ").toList, query, []) ∧
      whereText? query = (if xs.isEmpty then none else some inner) ∧ ReadBack .nested xs inner
  | .subquery _ _ xs _ _, t =>
    ∃ query behind inner, enclosed? t = some ([], query, behind) ∧
      whereText? query = (if xs.isEmpty then none else some inner) ∧ ReadBack .nested xs inner
  | _, _ => True
termination_by structural x => x

/-- Split at its connectives, the text falls into the conditions. -/
def ReadBack (a : Aliasing) : List Condition → List Char → Prop
  | [], t => t = []
  | x :: rest, t =>
    IsText a x (split t).1 ∧ PartsReadBack a x (split t).1 ∧ LaterReadBack a rest (split t).2
termination_by structural xs => xs

def LaterReadBack (a : Aliasing) : List Condition → List (Connective × List Char) → Prop
  | [], parts => parts = []
  | x :: rest, parts =>
    ∃ t later, parts = (x.connective, t) :: later ∧
      IsText a x t ∧ PartsReadBack a x t ∧ LaterReadBack a rest later
termination_by structural xs => xs

end

/-- The text of a clause holds a WHERE if there are conditions, and what follows it reads back. -/
def WhereReadsBack (a : Aliasing) (xs : List Condition) (t : List Char) : Prop :=
  ∃ inner, whereText? t = (if xs.isEmpty then none else some inner) ∧ ReadBack a xs inner

structure IsTest (t : List Char) : Prop where
  balanced : Balanced t
  whole : owedBehind false (keywords t) = some false
  within : ∀ k ∈ keywords t, k ≠ .opening ∧ k ≠ .closing
  fresh : Fresh t
  last : t.getLast?.any (! Text.isBlank ·) = true

theorem isTest_of_silent {t : List Char} (h : Silent t) (hfresh : Fresh t)
    (hlast : t.getLast?.any (! Text.isBlank ·) = true) : IsTest t where
  balanced := h.balanced
  whole := by rw [h.keywords_eq_nil]; rfl
  within := by simp [h.keywords_eq_nil]
  fresh := hfresh
  last := hlast

theorem isSegment_of_silent {t : List Char} (h : Silent t) (htight : Text.isTight t = true) :
    IsSegment t where
  balanced := h.balanced
  whole := by rw [h.keywords_eq_nil]; rfl
  within := by simp [h.keywords_eq_nil]
  tight := htight

theorem IsTest.isSegment {left right : List Char} (hright : IsTest right) (hleft : Silent left)
    (hfirst : left.head?.any (! Text.isBlank ·) = true) : IsSegment (left ++ right) := by
  have hkeywords : keywords (left ++ right) = keywords right := by
    rw [keywords_append hleft.balanced hright.fresh.apart, hleft.keywords_eq_nil, List.nil_append]
  exact ⟨hleft.balanced.append hright.balanced, hkeywords ▸ hright.whole,
    hkeywords ▸ hright.within, Text.isTight_append hfirst hright.last⟩

theorem joint_operator {op : Operator} (h : op.isRange = false) :
    Joint (fun _ => false) (chars [lit " ", lit op.sql, lit " "]) := by
  cases op with
  | between => simp [Operator.isRange] at h
  | notBetween => simp [Operator.isRange] at h
  | _ => decide

theorem isTest_unary {op : Operator} (h : op.isUnary = true) :
    IsTest (chars [lit " ", lit op.sql]) := by
  cases op with
  | isNull => exact isTest_of_silent ⟨by decide, rfl⟩ (.cons (by decide) _) rfl
  | isNotNull => exact isTest_of_silent ⟨by decide, rfl⟩ (.cons (by decide) _) rfl
  | _ => simp [Operator.isUnary] at h

theorem isTest_value {front : List Piece} (hfront : Joint (fun _ => false) (chars front))
    (hfresh : ∀ t, Fresh (chars front ++ t)) {value : Value} (hvalue : value.isLegible = true) :
    IsTest (chars (front ++ [.bound value])) := by
  have htext := isValueText_placeholders value hvalue
  have hchars : chars (front ++ [.bound value]) = chars front ++ placeholders value := by
    simp [Piece.chars]
  rw [hchars]
  exact isTest_of_silent (hfront.clear.append htext.silent hfront.2.2.apart) (hfresh _)
    (Text.last_append _ htext.last)

theorem isTest_operator {op : Operator} {value : Value} (hop : op.isRange = false)
    (hvalue : value.isLegible = true) :
    IsTest (chars (if op.isUnary then [lit " ", lit op.sql]
      else [lit " ", lit op.sql, lit " ", .bound value])) := by
  cases hunary : op.isUnary with
  | true => exact isTest_unary hunary
  | false =>
    exact isTest_value (joint_operator hop) (fun _ => .cons (by decide) _) hvalue

/-- A range owns the AND between its bounds. -/
theorem isTest_range {op : Operator} {low high : Value} (hop : op.isRange = true)
    (hlow : low.isLegible = true) (hhigh : high.isLegible = true) :
    IsTest (chars [lit " ", lit op.sql, lit " ", .bound low, lit " AND ", .bound high]) := by
  have hlow := isValueText_placeholders low hlow
  have hhigh := isValueText_placeholders high hhigh
  let mark := chars [lit " ", lit op.sql, lit " "]
  have hmark : Balanced mark ∧ Done mark ∧ keywords mark = [.between] := by
    cases op with
    | between => exact ⟨by decide, by decide, rfl⟩
    | notBetween => exact ⟨by decide, by decide, rfl⟩
    | _ => simp [Operator.isRange] at hop
  have hand : Balanced " AND ".toList := by decide
  have hchars : chars [lit " ", lit op.sql, lit " ", .bound low, lit " AND ", .bound high] =
      mark ++ (placeholders low ++ (" AND ".toList ++ placeholders high)) := by
    simp [mark, Piece.chars, lit]
  have hkeywords : keywords (mark ++ (placeholders low ++ (" AND ".toList ++ placeholders high))) =
      [.between, .joining .and] := by
    have hjoining : keywords " AND ".toList = [.joining .and] := rfl
    have hfresh : Fresh (" AND ".toList ++ placeholders high) := .cons (by decide) _
    rw [keywords_append hmark.1 hmark.2.1.apart, hmark.2.2,
      keywords_append hlow.silent.balanced hfresh.apart, hlow.silent.keywords_eq_nil,
      keywords_append hand (Done.apart (by decide)), hjoining, hhigh.silent.keywords_eq_nil]
    rfl
  rw [hchars]
  refine ⟨hmark.1.append (hlow.silent.balanced.append (hand.append hhigh.silent.balanced)), ?_, ?_,
    .cons (by decide) _, Text.last_append _ (Text.last_append _ (Text.last_append _ hhigh.last))⟩
  · rw [hkeywords]
    rfl
  · rw [hkeywords]
    decide

theorem first_columnName (qualified : Bool) (tableAlias column : String) :
    (chars (columnName qualified tableAlias column)).head?.any (! Text.isBlank ·) = true := by
  cases qualified <;> rfl

theorem last_columnName (qualified : Bool) (tableAlias column : String) :
    (chars (columnName qualified tableAlias column)).getLast?.any (! Text.isBlank ·) = true := by
  have hquoted : (Ident.quoted column.toList).getLast?.any (! Text.isBlank ·) = true := by
    rw [Ident.quoted, List.getLast?_concat]
    rfl
  cases qualified with
  | true =>
    have hchars : chars (columnName true tableAlias column) =
        (Ident.quoted tableAlias.toList ++ ['.']) ++ Ident.quoted column.toList := by
      simp [columnName, Piece.chars, lit]
    rw [hchars]
    exact Text.last_append _ hquoted
  | false => simpa [columnName, Piece.chars] using hquoted

theorem silent_operand {a : Aliasing} {tableAlias : String} {columns : List String}
    {ps : List Piece} (h : operand a tableAlias columns = .ok ps) :
    Silent (chars ps) ∧ (chars ps).head?.any (! Text.isBlank ·) = true := by
  have hcolumn (c : String) : Silent (chars (columnName a.tables tableAlias c)) :=
    silent_columnName _ _ _
  match columns, h with
  | [], h => simp [operand] at h
  | [c], h =>
    obtain rfl := Except.ok.inj h
    exact ⟨hcolumn c, first_columnName _ _ _⟩
  | c :: c' :: rest, h =>
    obtain rfl := Except.ok.inj h
    have hlist := clear_commaSeparated (List.forall_mem_map.2 fun name
      (_ : name ∈ c :: c' :: rest) => hcolumn name)
    rw [List.cons_append, chars_cons, chars_append]
    exact ⟨.parens hlist.balanced, rfl⟩

theorem isTest_comparison {op : Operator} {value : Value} {ps : List Piece}
    (hvalue : value.isLegible = true) (hbounds : (!op.isRange || Condition.isPair value) = true)
    (h : comparison op value = .ok ps) : IsTest (chars ps) := by
  cases hrange : op.isRange with
  | false =>
    have hps : comparison op value = .ok (if op.isUnary then [lit " ", lit op.sql]
        else [lit " ", lit op.sql, lit " ", .bound value]) := by
      simp only [comparison, hrange]
      split <;> rfl
    obtain rfl := Except.ok.inj (hps.symm.trans h)
    exact isTest_operator hrange hvalue
  | true =>
    have hunary : op.isUnary = false := by
      cases op with
      | between => rfl
      | notBetween => rfl
      | _ => simp [Operator.isRange] at hrange
    rw [hrange] at hbounds
    match value, hbounds with
    | .list [low, high], _ =>
      simp only [comparison, hunary, hrange] at h
      obtain rfl := Except.ok.inj h
      obtain ⟨hlow, hhigh⟩ : low.isLegible = true ∧ high.isLegible = true := by
        simpa [Value.isLegible, Value.areLegible] using hvalue
      exact isTest_range hrange hlow hhigh

theorem isSegment_constant (truth : Bool) : IsSegment (chars (constant truth)) := by
  cases truth <;> exact isSegment_of_silent ⟨by decide, rfl⟩ rfl

theorem isSegment_compare {a : Aliasing} {tableAlias : String} {columns : List String}
    {op : Operator} {value : Value} {ps : List Piece} (hvalue : value.isLegible = true)
    (hbounds : (!op.isRange || Condition.isPair value) = true)
    (h : compare a tableAlias columns op value = .ok ps) : IsSegment (chars ps) := by
  unfold compare at h
  split at h
  · obtain rfl := Except.ok.inj h
    exact isSegment_constant _
  · simp only [bind_eq_ok_iff, pure_eq_ok_iff] at h
    obtain ⟨left, hleft, right, hright, rfl⟩ := h
    obtain ⟨hsilent, hfirst⟩ := silent_operand hleft
    rw [chars_append]
    exact (isTest_comparison hvalue hbounds hright).isSegment hsilent hfirst

theorem isSegment_membership (a : Aliasing) (c : ColumnRef) {values : List Value} (negated : Bool)
    (hvalues : Value.areLegible values = true) :
    IsSegment (chars (column a c ++
      [lit (if negated then " NOT IN " else " IN "), .bound (.list values)])) := by
  have hkeyword :
      Joint (fun _ => false) (chars [lit (if negated then " NOT IN " else " IN ")]) := by
    cases negated <;> decide
  have hfresh (t : List Char) :
      Fresh (chars [lit (if negated then " NOT IN " else " IN ")] ++ t) := by
    cases negated <;> exact .cons (by decide) _
  have hlist : (Value.list values).isLegible = true := hvalues
  rw [chars_append]
  exact (isTest_value hkeyword hfresh hlist).isSegment (silent_columnName _ _ _)
    (first_columnName _ _ _)

theorem isSegment_columns (a : Aliasing) (left right : ColumnRef) {op : Operator}
    (hop : op.isRange = false) :
    IsSegment (chars (column a left ++ [lit " ", lit op.sql, lit " "] ++ column a right)) := by
  have hright : Silent (chars (column a right)) := silent_columnName _ _ _
  have htest : IsTest (chars ([lit " ", lit op.sql, lit " "] ++ column a right)) := by
    refine isTest_of_silent (clear_joint (joint_operator hop) hright) (.cons (by decide) _) ?_
    rw [chars_append]
    exact Text.last_append _ (last_columnName _ _ _)
  rw [List.append_assoc, chars_append]
  exact htest.isSegment (silent_columnName _ _ _) (first_columnName _ _ _)

theorem isSegment_existence (negated : Bool) {query : List Char} (h : Balanced query) :
    IsSegment ((if negated then "NOT EXISTS " else "EXISTS ").toList ++
      ('(' :: query ++ [')'])) := by
  have hfront : Joint (fun _ => false) (if negated then "NOT EXISTS " else "EXISTS ").toList := by
    cases negated <;> decide
  have hsilent : Silent ((if negated then "NOT EXISTS " else "EXISTS ").toList ++
      ('(' :: query ++ [')'])) :=
    hfront.clear.append (.parens h) hfront.2.2.apart
  refine isSegment_of_silent hsilent ?_
  rw [Text.isTight, ← List.append_assoc, List.getLast?_concat]
  cases negated <;> rfl

/-- A text that reads back as the conditions of one level, wherever it stands. -/
structure IsLevel (a : Aliasing) (xs : List Condition) (t : List Char) : Prop where
  balanced : Balanced t
  closing : .closing ∉ keywords t
  tight : Text.isTight t = true
  reads : ReadBack a xs t

theorem isLevel_cons {a : Aliasing} {x : Condition} {rest : List Condition} {t : List Char}
    {later : List (Connective × List Char)} (ht : IsSegment t) (htext : IsText a x t)
    (hparts : PartsReadBack a x t) (hlater : ∀ part ∈ later, IsSegment part.2)
    (hrest : LaterReadBack a rest later) : IsLevel a (x :: rest) (t ++ laterText later) where
  balanced := ht.balanced.append (balanced_laterText hlater)
  closing := by
    rw [keywords_append ht.balanced (fresh_laterText later).apart, List.mem_append]
    rintro (h | h)
    · exact (ht.within _ h).2 rfl
    · exact (keywords_laterText hlater _ h).2 rfl
  tight := isTight_append_laterText ht.tight hlater
  reads := by
    rw [ReadBack, split_append_laterText ht hlater]
    exact ⟨htext, hparts, hrest⟩

theorem whereClause_eq_ok {a : Aliasing} {xs : List Condition} {ps : List Piece} (hne : xs ≠ [])
    (h : whereClause a xs = .ok ps) :
    ∃ inner, conditions a xs = .ok inner ∧ chars ps = " WHERE ".toList ++ chars inner := by
  cases xs with
  | nil => exact absurd rfl hne
  | cons x rest =>
    simp only [whereClause, bind_eq_ok_iff, pure_eq_ok_iff] at h
    obtain ⟨own, hown, behind, hbehind, rfl⟩ := h
    refine ⟨own ++ behind, ?_, by simp [lit, Piece.chars]⟩
    simp only [conditions, bind_eq_ok_iff, pure_eq_ok_iff]
    exact ⟨own, hown, behind, hbehind, rfl⟩

/-- Between the parts of a SELECT that hold no WHERE and no condition, a clause of conditions reads
back. -/
theorem whereReadsBack_of_isLevel {a : Aliasing} {xs : List Condition} {body : List Piece}
    {head tail : List Char} (hhead : Clear noOpening head) (htail : IsClauses tail)
    (hbody : whereClause a xs = .ok body)
    (hxs : ∀ inner, xs ≠ [] → conditions a xs = .ok inner → IsLevel a xs (chars inner)) :
    Balanced (head ++ (chars body ++ tail)) ∧
      WhereReadsBack a xs (head ++ (chars body ++ tail)) := by
  cases hempty : xs with
  | nil =>
    rw [hempty] at hbody
    obtain rfl : [] = body := by simpa [whereClause] using hbody
    have hclear : Clear noOpening (head ++ tail) := hhead.append htail.clear htail.fresh.apart
    exact ⟨hclear.balanced, [], whereText?_eq_none (hclear.not_mem rfl), rfl⟩
  | cons x rest =>
    have hne : xs ≠ [] := by simp [hempty]
    obtain ⟨inner, hinner, hchars⟩ := whereClause_eq_ok hne hbody
    have hlevel := hxs inner hne hinner
    have hmark : Balanced " WHERE ".toList := by decide
    rw [hchars, List.append_assoc, ← hempty]
    refine ⟨hhead.balanced.append (hmark.append (hlevel.balanced.append htail.clear.balanced)),
      chars inner, ?_, hlevel.reads⟩
    rw [whereText?_append hhead.balanced (hhead.not_mem rfl) hlevel.balanced hlevel.closing
      hlevel.tight htail.fresh htail.isTail, hempty]
    rfl

/-- What the values, operators and selected items of a condition must keep to. -/
structure IsLegible (x : Condition) : Prop where
  values : x.hasLegibleValues = true
  bounds : x.hasBounds = true
  items : x.hasClosedItems = true

theorem mem_nodes (x : Condition) : x ∈ x.nodes := by
  cases x <;> simp [Condition.nodes]

mutual

theorem condition_reads (a : Aliasing) (x : Condition) (hx : ∀ y ∈ x.nodes, IsLegible y)
    {ps : List Piece} (h : condition a x = .ok ps) :
    IsSegment (chars ps) ∧ PartsReadBack a x (chars ps) := by
  have hown : IsLegible x := hx x (mem_nodes x)
  cases x with
  | compare c tableAlias columns op value =>
    exact ⟨isSegment_compare hown.values hown.bounds (by simpa [condition] using h), trivial⟩
  | membership c column values negated =>
    refine ⟨?_, trivial⟩
    by_cases hempty : values.isEmpty
    · simp only [condition, hempty, if_true, Except.ok.injEq] at h
      exact h ▸ isSegment_constant negated
    · simp only [condition, hempty] at h
      obtain rfl := Except.ok.inj h
      exact isSegment_membership a column negated hown.values
  | columns c left op right =>
    obtain rfl := Except.ok.inj h
    have hop : op.isRange = false := by simpa [Condition.hasBounds] using hown.bounds
    exact ⟨isSegment_columns a left right hop, trivial⟩
  | group c members =>
    have hmembers : ∀ y ∈ Condition.nodesOf members, IsLegible y := fun y hy =>
      hx y (List.mem_cons_of_mem _ hy)
    obtain ⟨hne, inner, hinner, rfl⟩ := condition_group_eq_ok h
    have hlevel := conditions_read a members hmembers hne hinner
    have hchars : chars (lit "(" :: (inner ++ [lit ")"])) = '(' :: chars inner ++ [')'] := by
      simp [lit, Piece.chars]
    rw [hchars]
    refine ⟨isSegment_of_silent (.parens hlevel.balanced) ?_, chars inner, ?_, hlevel.reads⟩
    · rw [Text.isTight, List.getLast?_concat]
      rfl
    · exact enclosed?_append [] nofun hlevel.balanced []
  | existence c negated frame xs =>
    have hxs : ∀ y ∈ Condition.nodesOf xs, IsLegible y := fun y hy =>
      hx y (List.mem_cons_of_mem _ hy)
    simp only [condition, bind_eq_ok_iff, pure_eq_ok_iff] at h
    obtain ⟨head, hhead, body, hbody, rfl⟩ := h
    have hselect := whereReadsBack_of_isLevel (clear_selectHead hown.items hhead)
      (isClauses_selectTail .nested frame) hbody
      fun inner hne hinner => conditions_read .nested xs hxs hne hinner
    obtain ⟨hbalanced, inner, hwhere, hreads⟩ := hselect
    have hchars : chars (lit (if negated then "NOT EXISTS (" else "EXISTS (") :: head ++ body ++
        selectTail .nested frame ++ [lit ")"]) =
        (if negated then "NOT EXISTS " else "EXISTS ").toList ++
          ('(' :: (chars head ++ (chars body ++ chars (selectTail .nested frame))) ++ [')']) := by
      cases negated <;> simp [lit, Piece.chars]
    rw [hchars]
    refine ⟨isSegment_existence negated hbalanced, _, inner, ?_, hwhere, hreads⟩
    refine enclosed?_append _ ?_ hbalanced []
    cases negated <;> decide
  | subquery c frame xs op value =>
    have hxs : ∀ y ∈ Condition.nodesOf xs, IsLegible y := fun y hy =>
      hx y (List.mem_cons_of_mem _ hy)
    have hop : op.isRange = false := by simpa [Condition.hasBounds] using hown.bounds
    simp only [condition, bind_eq_ok_iff, pure_eq_ok_iff] at h
    obtain ⟨head, hhead, body, hbody, rfl⟩ := h
    have hselect := whereReadsBack_of_isLevel (clear_selectHead hown.items hhead)
      (isClauses_selectTail .nested frame) hbody
      fun inner hne hinner => conditions_read .nested xs hxs hne hinner
    obtain ⟨hbalanced, inner, hwhere, hreads⟩ := hselect
    let test := if op.isUnary then [lit " ", lit op.sql]
      else [lit " ", lit op.sql, lit " ", .bound value]
    have htest : IsTest (chars test) := isTest_operator hop hown.values
    have hchars : chars (lit "(" :: head ++ body ++ selectTail .nested frame ++
        [lit ") ", lit op.sql] ++ if op.isUnary then [] else [lit " ", .bound value]) =
        ('(' :: (chars head ++ (chars body ++ chars (selectTail .nested frame))) ++ [')']) ++
          chars test := by
      cases hunary : op.isUnary <;> simp [test, hunary, lit, Piece.chars]
    rw [hchars]
    refine ⟨htest.isSegment (.parens hbalanced) rfl, _, chars test, inner, ?_, hwhere, hreads⟩
    rw [List.append_assoc]
    exact enclosed?_append [] nofun hbalanced (chars test)
termination_by structural x

theorem conditions_read (a : Aliasing) (xs : List Condition)
    (hxs : ∀ y ∈ Condition.nodesOf xs, IsLegible y) (hne : xs ≠ []) {ps : List Piece}
    (h : conditions a xs = .ok ps) : IsLevel a xs (chars ps) := by
  cases xs with
  | nil => exact absurd rfl hne
  | cons x rest =>
    obtain ⟨hx, hrest⟩ := List.forall_mem_append.1 hxs
    simp only [conditions, bind_eq_ok_iff, pure_eq_ok_iff] at h
    obtain ⟨own, hown, behind, hbehind, rfl⟩ := h
    obtain ⟨hsegment, hparts⟩ := condition_reads a x hx hown
    obtain ⟨later, hchars, hlater, hreads⟩ := siblings_read a rest hrest hbehind
    rw [chars_append, hchars]
    exact isLevel_cons hsegment ⟨own, hown, rfl⟩ hparts hlater hreads
termination_by structural xs

theorem siblings_read (a : Aliasing) (xs : List Condition)
    (hxs : ∀ y ∈ Condition.nodesOf xs, IsLegible y) {ps : List Piece}
    (h : siblings a xs = .ok ps) :
    ∃ later, chars ps = laterText later ∧ (∀ part ∈ later, IsSegment part.2) ∧
      LaterReadBack a xs later := by
  cases xs with
  | nil =>
    obtain rfl := Except.ok.inj h
    exact ⟨[], rfl, nofun, rfl⟩
  | cons x rest =>
    obtain ⟨hx, hrest⟩ := List.forall_mem_append.1 hxs
    simp only [siblings, bind_eq_ok_iff, pure_eq_ok_iff] at h
    obtain ⟨own, hown, behind, hbehind, rfl⟩ := h
    obtain ⟨hsegment, hparts⟩ := condition_reads a x hx hown
    obtain ⟨later, hchars, hlater, hreads⟩ := siblings_read a rest hrest hbehind
    refine ⟨(x.connective, chars own) :: later, ?_, ?_, ?_⟩
    · simp [laterText, hchars, lit, Piece.chars]
    · exact List.forall_mem_cons.2 ⟨hsegment, hlater⟩
    · exact ⟨chars own, later, rfl, ⟨own, hown, rfl⟩, hparts, hreads⟩
termination_by structural xs

end

/-- The text of a WHERE clause reads back as its conditions: split at the AND and OR outside of
backticks and parentheses, it has one part for each condition, in order and behind its own
connective, and so have the groups and the SELECTs in it. -/
theorem whereClause_reads_back (a : Aliasing) (xs : List Condition)
    (hvalues : ∀ y ∈ Condition.nodesOf xs, y.hasLegibleValues = true)
    (hbounds : ∀ y ∈ Condition.nodesOf xs, y.hasBounds = true)
    (hitems : ∀ y ∈ Condition.nodesOf xs, y.hasClosedItems = true) {ps : List Piece}
    (h : whereClause a xs = .ok ps) : WhereReadsBack a xs (chars ps) := by
  have hxs : ∀ y ∈ Condition.nodesOf xs, IsLegible y := fun y hy =>
    ⟨hvalues y hy, hbounds y hy, hitems y hy⟩
  have hnothing : IsClauses [] := .inl rfl
  have hread := whereReadsBack_of_isLevel .nil hnothing h
    fun inner hne hinner => conditions_read a xs hxs hne hinner
  simpa using hread.2

theorem whereClause_reads_back_of_nested :
    let comments : Frame :=
      { kind := .select, source := some (.table "comments" "c"), columns := [.raw "1"]
        groupBy := [⟨"c", "id"⟩], limit := some 5 }
    let xs : List Condition :=
      [.compare .and "_" ["views"] .between (.list [.int 1, .raw "9.5"]),
        .group .or [.compare .and "_" ["a` AND `b", "("] .isIn (.list [.list [.null, .int 2]]),
          .membership .or ⟨"_", "id"⟩ [] true],
        .existence .and true comments
          [.columns .and ⟨"c", "article_id"⟩ .eq ⟨"_", "id"⟩,
            .compare .or "c" ["score"] .notBetween (.list [.int 1, .int 2])],
        .subquery .or comments [] .gt (.int 3)]
    (∀ y ∈ Condition.nodesOf xs, y.hasLegibleValues = true ∧ y.hasBounds = true ∧
        y.hasClosedItems = true) ∧
      ∃ ps, whereClause .nested xs = .ok ps ∧ WhereReadsBack .nested xs (chars ps) := by
  intro comments xs
  have hvalues : ∀ y ∈ Condition.nodesOf xs, y.hasLegibleValues = true := by decide
  have hbounds : ∀ y ∈ Condition.nodesOf xs, y.hasBounds = true := by decide
  have hitems : ∀ y ∈ Condition.nodesOf xs, y.hasClosedItems = true := by decide
  obtain ⟨ps, hps⟩ : ∃ ps, whereClause .nested xs = .ok ps := ⟨_, rfl⟩
  exact ⟨fun y hy => ⟨hvalues y hy, hbounds y hy, hitems y hy⟩, ps, hps,
    whereClause_reads_back .nested xs hvalues hbounds hitems hps⟩

/-- A selected item that SQL text was given for can close the parenthesis in front of it: one
condition then reads as two. -/
theorem existence_reads_as_two :
    let xs : List Condition :=
      [.existence .and false
        { kind := .select, source := some (.table "u" "u"), columns := [.raw ") AND ("] } []]
    (∀ y ∈ Condition.nodesOf xs, y.hasLegibleValues = true ∧ y.hasBounds = true) ∧
      ∃ ps, whereClause .nested xs = .ok ps ∧
        chars ps = " WHERE EXISTS (SELECT ) AND ( FROM `u` AS `u`)".toList ∧
        ¬WhereReadsBack .nested xs (chars ps) := by
  intro xs
  refine ⟨by decide, _, rfl, by decide +kernel, ?_⟩
  rintro ⟨inner, hwhere, hread⟩
  have htext : whereText? (" WHERE EXISTS (SELECT ) AND ( FROM `u` AS `u`)".toList) =
      some "EXISTS (SELECT ) AND ( FROM `u` AS `u`)".toList := by decide +kernel
  obtain rfl := Option.some.inj (htext.symm.trans hwhere)
  obtain ⟨_, _, hlater⟩ := hread
  have hsplit : (split "EXISTS (SELECT ) AND ( FROM `u` AS `u`)".toList).2 ≠ [] := by decide +kernel
  exact hsplit hlater

end Sql

end PathQuery
