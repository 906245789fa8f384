import PathQuery.Proofs.Sql.Rendered
import PathQuery.Sql.Guard

/-!
What a statement writes besides values and fragments: names between backticks, and markup, which has
no quotes, question marks and comment marks. Whatever holds of markup and of names, and stays when
pieces stand behind one another and in parentheses, holds of every clause without a value.
-/

set_option autoImplicit false

namespace PathQuery.Sql

/-- Text without quotes, parentheses and comment marks in which no word starts with a W. -/
def isCalm (afterWordChar : Bool) : List Char → Bool
  | [] => true
  | c :: rest =>
    !isQuoteMark c && c != '-' && c != '/' && c != '(' && c != ')' &&
      (afterWordChar || c.toUpper != 'W') && isCalm (Ident.isWordChar c) rest

def isMarkup (cs : List Char) : Bool :=
  isCalm false cs && !cs.contains '?'

theorem isCalm_of_false {cs : List Char} (after : Bool) (h : isCalm false cs) :
    isCalm after cs := by
  cases after with
  | false => exact h
  | true =>
    cases cs with
    | nil => rfl
    | cons c cs =>
      simp only [isCalm, Bool.and_eq_true] at h
      simp [isCalm, h]

theorem isCalm_append {after : Bool} {cs ds : List Char} (hcs : isCalm after cs)
    (hds : isCalm false ds) : isCalm after (cs ++ ds) := by
  induction cs generalizing after with
  | nil => exact isCalm_of_false after hds
  | cons c cs ih =>
    rw [isCalm, Bool.and_eq_true] at hcs
    rw [List.cons_append, isCalm, hcs.1, ih hcs.2]
    rfl

theorem isCalm_of_digits {cs : List Char} (after : Bool) (h : ∀ c ∈ cs, c.isDigit) :
    isCalm after cs := by
  induction cs generalizing after with
  | nil => rfl
  | cons c cs ih =>
    obtain ⟨hc, hcs⟩ := List.forall_mem_cons.1 h
    have hne : ∀ d : Char, d.isDigit = false → c ≠ d := by
      rintro d hd rfl
      simp [hc] at hd
    have hupper : c.toUpper = c := by
      have hc : 48 ≤ c.val ∧ c.val ≤ 57 := by simpa [Char.isDigit] using hc
      have hle : ¬97 ≤ c.val := fun h => absurd (UInt32.le_trans h hc.2) (by decide)
      exact dif_neg fun h => hle h.1
    simp [isCalm, isQuoteMark, hupper, hne, ih _ hcs]

theorem not_isQuoteMark_of_isCalm {after : Bool} {cs : List Char} (h : isCalm after cs) :
    ∀ c ∈ cs, isQuoteMark c = false := by
  induction cs generalizing after with
  | nil => simp
  | cons c cs ih =>
    simp only [isCalm, Bool.and_eq_true, Bool.not_eq_true'] at h
    exact List.forall_mem_cons.2 ⟨h.1.1.1.1.1.1, ih h.2⟩

theorem isMarkup_append {cs ds : List Char} (hcs : isMarkup cs) (hds : isMarkup ds) :
    isMarkup (cs ++ ds) := by
  simp only [isMarkup, Bool.and_eq_true, Bool.not_eq_true'] at hcs hds ⊢
  exact ⟨isCalm_append hcs.1 hds.1, by simpa using ⟨by simpa using hcs.2, by simpa using hds.2⟩⟩

theorem isMarkup_number (n : Nat) : isMarkup (toString n).toList := by
  rw [Nat.toString_eq_repr, Nat.toList_repr]
  have hdigits : ∀ c ∈ Nat.toDigits 10 n, c.isDigit := fun c hc =>
    Nat.isDigit_of_mem_toDigits (by decide) (by decide) hc
  rw [isMarkup, isCalm_of_digits false hdigits, Bool.true_and, Bool.not_eq_true',
    List.contains_eq_mem, decide_eq_false_iff_not]
  intro hmark
  exact absurd (hdigits '?' hmark) (by decide)

theorem isMarkup_operator (op : Operator) : isMarkup op.sql.toList := by
  cases op <;> decide

theorem isMarkup_joinKind (kind : JoinKind) : isMarkup kind.sql.toList := by
  cases kind <;> decide

/-- A property of pieces that clauses without values have as soon as markup and names do. -/
structure Markup (P : List Piece → Prop) : Prop where
  nil : P []
  name : ∀ n, P [.name n]
  lit : ∀ s, isMarkup s.toList → P [Sql.lit s]
  append : ∀ {ps qs}, P ps → P qs → P (ps ++ qs)
  parens : ∀ {ps}, P ps → P (Sql.lit "(" :: ps ++ [Sql.lit ")"])
  renamed : ∀ {ps} n, P ps → P (Sql.lit "(" :: ps ++ [Sql.lit ") AS ", .name n])

namespace Markup

variable {P : List Piece → Prop} {ps : List Piece}

theorem lit_cons (hP : Markup P) {s : String} (hs : isMarkup s.toList) (h : P ps) :
    P (Sql.lit s :: ps) :=
  hP.append (hP.lit s hs) h

theorem name_cons (hP : Markup P) (n : String) (h : P ps) : P (.name n :: ps) :=
  hP.append (hP.name n) h

theorem columnName (hP : Markup P) (qualified : Bool) (tableAlias column : String) :
    P (Sql.columnName qualified tableAlias column) := by
  cases qualified with
  | true => exact hP.name_cons _ (hP.lit_cons (by decide) (hP.name column))
  | false => exact hP.name column

theorem column (hP : Markup P) (a : Aliasing) (c : ColumnRef) : P (Sql.column a c) :=
  hP.columnName a.tables c.tableAlias c.column

theorem commaSeparated (hP : Markup P) {pss : List (List Piece)} (h : ∀ ps ∈ pss, P ps) :
    P (Sql.commaSeparated pss) := by
  induction pss with
  | nil => exact hP.nil
  | cons ps rest ih =>
    rw [List.forall_mem_cons] at h
    cases rest with
    | nil => exact h.1
    | cons qs rest => exact hP.append h.1 (hP.lit_cons (by decide) (ih h.2))

theorem commaSeparated_map (hP : Markup P) {α : Type} {f : α → List Piece} {xs : List α}
    (h : ∀ x ∈ xs, P (f x)) : P (Sql.commaSeparated (xs.map f)) :=
  hP.commaSeparated (List.forall_mem_map.2 h)

theorem tableName (hP : Markup P) (name : String) : P (Sql.tableName name) := by
  unfold Sql.tableName
  induction Text.splitOn '.' name.toList with
  | nil => exact hP.nil
  | cons s rest ih =>
    cases rest with
    | nil => exact hP.name _
    | cons s' rest => exact hP.name_cons _ (hP.lit_cons (by decide) ih)

theorem asAlias (hP : Markup P) (qualified : Bool) (n : String) :
    P (if qualified then [Sql.lit " AS ", .name n] else []) := by
  cases qualified with
  | true => exact hP.lit_cons (by decide) (hP.name n)
  | false => exact hP.nil

theorem series (hP : Markup P) (count : Nat) : P (Sql.series count) := by
  refine hP.append (hP.lit_cons (by decide) (hP.name seriesColumn)) ?_
  induction List.range (count - 1) with
  | nil => exact hP.nil
  | cons k ks ih => exact hP.lit_cons (by decide) (hP.lit_cons (isMarkup_number (k + 2)) ih)

theorem source (hP : Markup P) {a : Aliasing} {s : Source} (h : Sql.source a s = .ok ps) :
    P ps := by
  cases s with
  | table name tableAlias =>
    simp only [Sql.source, Except.ok.injEq] at h
    rw [← h]
    exact hP.append (hP.tableName name) (hP.asAlias a.tables tableAlias)
  | series tableAlias count =>
    by_cases hc : count = 0
    · simp [Sql.source, hc] at h
    · simp only [Sql.source, hc, if_false, Except.ok.injEq] at h
      rw [← h]
      exact hP.renamed tableAlias (hP.series count)

theorem joinTest (hP : Markup P) (a : Aliasing) (t : JoinTest) : P (Sql.joinTest a t) := by
  have hop : P [Sql.lit " ", Sql.lit t.op.sql, Sql.lit " "] :=
    hP.lit_cons (by decide) (hP.lit_cons (isMarkup_operator t.op) (hP.lit " " (by decide)))
  exact hP.append (hP.append (hP.column a t.left) hop) (hP.column a t.right)

theorem joinTests (hP : Markup P) (a : Aliasing) (ts : List JoinTest) :
    P (Sql.joinTests a ts) := by
  induction ts with
  | nil => exact hP.nil
  | cons t rest ih =>
    cases rest with
    | nil => exact hP.joinTest a t
    | cons t' rest => exact hP.append (hP.joinTest a t) (hP.lit_cons (by decide) ih)

theorem join (hP : Markup P) (a : Aliasing) (j : Join) : P (Sql.join a j) := by
  have hkind : P [Sql.lit " ", Sql.lit j.kind.sql, Sql.lit " "] :=
    hP.lit_cons (by decide) (hP.lit_cons (isMarkup_joinKind j.kind) (hP.lit " " (by decide)))
  have htable := hP.append (hP.append hkind (hP.tableName j.table))
    (hP.asAlias a.tables j.tableAlias)
  exact hP.append htable (hP.lit_cons (by decide) (hP.joinTests a j.on))

theorem joins (hP : Markup P) (a : Aliasing) (js : List Join) : P (Sql.joins a js) := by
  induction js with
  | nil => exact hP.nil
  | cons j js ih => exact hP.append (hP.join a j) ih

theorem operand (hP : Markup P) {a : Aliasing} {tableAlias : String} {names : List String}
    (h : Sql.operand a tableAlias names = .ok ps) : P ps := by
  match names with
  | [] => simp [Sql.operand] at h
  | [c] =>
    simp only [Sql.operand, Except.ok.injEq] at h
    rw [← h]
    exact hP.columnName a.tables tableAlias c
  | c :: c' :: rest =>
    simp only [Sql.operand, Except.ok.injEq] at h
    rw [← h]
    exact hP.parens (hP.commaSeparated_map fun c _ => hP.columnName a.tables tableAlias c)

theorem constant (hP : Markup P) (truth : Bool) : P (Sql.constant truth) := by
  cases truth with
  | true => exact hP.lit "1=1" (by decide)
  | false => exact hP.lit "1=0" (by decide)

/-- Fragments among the items of a SELECT may be anything. -/
theorem selectItem (hP : Markup P) (a : Aliasing) {item : SelectItem}
    (hraw : ∀ sql, item = .raw sql → P [Sql.lit sql]) : P (Sql.selectItem a item) := by
  cases item with
  | raw sql => exact hraw sql rfl
  | column c label =>
    refine hP.append (hP.column a c) ?_
    split
    · exact hP.lit_cons (by decide) (hP.name _)
    · exact hP.nil

theorem aggregate (hP : Markup P) (a : Aliasing) (g : Aggregate) : P (Sql.aggregate a g) := by
  obtain ⟨function, c?, distinct, label?⟩ := g
  have hfunction : isMarkup function.sql.toList := by cases function <;> decide
  have hdistinct : P (if distinct then [Sql.lit "DISTINCT "] else []) := by
    cases distinct with
    | true => exact hP.lit _ (by decide)
    | false => exact hP.nil
  have hcall : ∀ {inner label}, P inner → P label →
      P (Sql.lit function.sql :: Sql.lit "(" :: (inner ++ Sql.lit ")" :: label)) := by
    intro inner label hinner hlabel
    simpa using hP.append (hP.lit_cons hfunction (hP.parens hinner)) hlabel
  have hlabel : ∀ l, P [Sql.lit " AS ", .name l] := fun l => hP.lit_cons (by decide) (hP.name l)
  have hstar : P [Sql.lit "*"] := hP.lit "*" (by decide)
  cases c? with
  | none =>
    cases label? with
    | none => exact hcall (hP.append hdistinct hstar) hP.nil
    | some l => exact hcall (hP.append hdistinct hstar) (hlabel l)
  | some c =>
    cases label? with
    | none => exact hcall (hP.append hdistinct (hP.column a c)) hP.nil
    | some l => exact hcall (hP.append hdistinct (hP.column a c)) (hlabel l)

theorem selectHead (hP : Markup P) {a : Aliasing} {f : Frame}
    (hraw : ∀ item ∈ f.columns, ∀ sql, item = .raw sql → P [Sql.lit sql])
    (h : Sql.selectHead a f = .ok ps) : P ps := by
  have hitems : ∀ qs ∈ f.columns.map (Sql.selectItem a) ++ f.aggregates.map (Sql.aggregate a),
      P qs := by
    rw [List.forall_mem_append, List.forall_mem_map, List.forall_mem_map]
    exact ⟨fun item hitem => hP.selectItem a (hraw item hitem), fun g _ => hP.aggregate a g⟩
  have hdistinct : P (if f.distinct then [Sql.lit "DISTINCT "] else []) := by
    cases f.distinct with
    | true => exact hP.lit _ (by decide)
    | false => exact hP.nil
  obtain ⟨rows, hrows, rfl⟩ := selectHead_eq_ok h
  have hfrom : P rows := by
    obtain rfl | ⟨src, table, htable, rfl⟩ := hrows
    · exact hP.nil
    · exact hP.lit_cons (by decide) (hP.source htable)
  refine hP.lit_cons (by decide) (hP.append hdistinct (hP.append ?_ (hP.append hfrom
    (hP.joins a f.joins))))
  split
  · exact hP.lit "*" (by decide)
  · exact hP.commaSeparated hitems

theorem clause (hP : Markup P) {α : Type} {keyword : String} (hkeyword : isMarkup keyword.toList)
    {f : α → List Piece} (hf : ∀ x, P (f x)) (xs : List α) :
    P (Sql.clause keyword (xs.map f)) := by
  unfold Sql.clause
  split
  · exact hP.nil
  · exact hP.lit_cons hkeyword (hP.commaSeparated_map fun x _ => hf x)

theorem ordering (hP : Markup P) (a : Aliasing) (o : Ordering) : P (Sql.ordering a o) := by
  refine hP.append (hP.column a o.column) ?_
  split
  · exact hP.lit " DESC" (by decide)
  · exact hP.nil

theorem limits (hP : Markup P) (limit offset : Option Nat) : P (Sql.limits limit offset) := by
  have hlimit : ∀ n : Nat, isMarkup (s!" LIMIT {n}").toList := fun n => by
    rw [String.toList_append]
    exact isMarkup_append (by decide) (isMarkup_number n)
  have hoffset : ∀ n : Nat, isMarkup (s!" OFFSET {n}").toList := fun n => by
    rw [String.toList_append]
    exact isMarkup_append (by decide) (isMarkup_number n)
  cases limit with
  | none =>
    cases offset with
    | none => exact hP.nil
    | some offset =>
      refine hP.lit _ ?_
      have htext : (s!" LIMIT {noLimit} OFFSET {offset}").toList =
          (s!" LIMIT {noLimit}").toList ++ (s!" OFFSET {offset}").toList := by simp
      rw [htext]
      exact isMarkup_append (hlimit noLimit) (hoffset offset)
  | some limit =>
    cases offset with
    | none => exact hP.lit _ (hlimit limit)
    | some offset => exact hP.lit_cons (hlimit limit) (hP.lit _ (hoffset offset))

theorem selectTail (hP : Markup P) (a : Aliasing) (f : Frame) : P (Sql.selectTail a f) :=
  hP.append (hP.append (hP.clause (by decide) (hP.column a) f.groupBy)
    (hP.clause (by decide) (hP.ordering a) f.orderBy)) (hP.limits f.limit f.offset)

end Markup

@[simp] theorem params_lit (s : String) (ps : List Piece) : params (lit s :: ps) = params ps := rfl

@[simp] theorem params_name (n : String) (ps : List Piece) :
    params (.name n :: ps) = params ps := rfl

@[simp] theorem params_bound (v : Value) (ps : List Piece) :
    params (.bound v :: ps) = v :: params ps := rfl

/-- Nothing is bound but the values of conditions, assignments and rows. -/
theorem markup_params : Markup fun ps => params ps = [] where
  nil := rfl
  name _ := rfl
  lit _ _ := rfl
  append hps hqs := by rw [params_append, hps, hqs, List.append_nil]
  parens hps := by simp [hps]
  renamed _ hps := by simp [hps]

end PathQuery.Sql
