import PathQuery.Proofs.Sql.Rendered
import PathQuery.Proofs.Sql.Segments

/-!
The keywords of what a statement writes around its conditions. Names and placeholders show none at
all, whatever they hold. In front of the WHERE of a SELECT stands no other WHERE, and behind its
conditions stands nothing or a clause with a keyword of its own.
-/

set_option autoImplicit false

namespace PathQuery

namespace Value

def isDecimal (sql : String) : Bool :=
  !sql.toList.isEmpty && sql.toList.all ("0123456789+-.eE".toList.contains ·)

mutual

def isLegible : Value → Bool
  | .raw sql => isDecimal sql
  | .list items => areLegible items
  | .entity key => areLegible key
  | _ => true
termination_by structural v => v

def areLegible : List Value → Bool
  | [] => true
  | v :: rest => v.isLegible && areLegible rest
termination_by structural vs => vs

end

mutual

def isClosed : Value → Bool
  | .raw sql => decide (Sql.Balanced sql.toList)
  | .list items => areClosed items
  | .entity key => areClosed key
  | _ => true
termination_by structural v => v

def areClosed : List Value → Bool
  | [] => true
  | v :: rest => v.isClosed && areClosed rest
termination_by structural vs => vs

end

end Value

namespace Sql

/-- A balanced text that shows only some keywords. -/
structure Clear (p : Keyword → Bool) (t : List Char) : Prop where
  balanced : Balanced t
  keywords : (keywords t).all p = true

abbrev Silent (t : List Char) : Prop :=
  Clear (fun _ => false) t

/-- A clear text behind which any clear text can stand. -/
def Joint (p : Keyword → Bool) (t : List Char) : Prop :=
  Balanced t ∧ (keywords t).all p = true ∧ Done t

instance (p : Keyword → Bool) (t : List Char) : Decidable (Joint p t) :=
  inferInstanceAs (Decidable (_ ∧ _ ∧ _))

section Clear

variable {p : Keyword → Bool} {t u : List Char}

namespace Clear

theorem nil : Clear p [] := ⟨.nil, rfl⟩

theorem append (ht : Clear p t) (hu : Clear p u) (h : Apart t u) : Clear p (t ++ u) where
  balanced := ht.balanced.append hu.balanced
  keywords := by
    rw [keywords_append ht.balanced h, List.all_append, ht.keywords, hu.keywords, Bool.and_true]

theorem of_hidden (hb : Balanced t) (h : seen {} t = t.map (·, false)) : Clear p t where
  balanced := hb
  keywords := by rw [keywords_of_hidden h, List.all_nil]

theorem parens (ht : Balanced t) : Clear p ('(' :: t ++ [')']) :=
  of_hidden ht.parens (seen_parens ht)

theorem quoted (name : List Char) : Clear p (Ident.quoted name) :=
  of_hidden (balanced_quoted name) (seen_quoted name)

theorem not_mem (h : Clear p t) {k : Keyword} (hk : p k = false) : k ∉ Sql.keywords t := by
  intro hmem
  have hp := List.all_eq_true.1 h.keywords k hmem
  simp [hk] at hp

end Clear

theorem Joint.clear (h : Joint p t) : Clear p t := ⟨h.1, h.2.1⟩

theorem Silent.keywords_eq_nil (h : Silent t) : keywords t = [] :=
  List.eq_nil_iff_forall_not_mem.2 fun _ => h.not_mem rfl

theorem Silent.clear (h : Silent t) : Clear p t :=
  ⟨h.balanced, by rw [h.keywords_eq_nil, List.all_nil]⟩

/-- Characters that open and close nothing and start no keyword. -/
def isDull (c : Char) : Bool :=
  !("`()".toList.contains c || "AOBWGL".toList.contains c.toUpper)

theorem silent_of_isDull (h : ∀ c ∈ t, isDull c = true) : Silent t := by
  have hbalanced : Balanced t := by
    refine .of_forall fun c hc => ?_
    have hdull := h c hc
    refine ⟨?_, ?_, ?_⟩ <;> rintro rfl <;> exact absurd hdull (by decide)
  refine ⟨hbalanced, ?_⟩
  rw [keywords_eq_nil_of_seen, List.all_nil]
  intro a ha
  have hmem : a.1 ∈ t := by
    rw [← seen_map_fst {} t]
    exact List.mem_map_of_mem ha
  have hdull := h a.1 hmem
  simp only [isDull, Bool.not_eq_true', Bool.or_eq_false_iff] at hdull
  simp only [isSilent, hdull.2, Bool.and_false, Bool.not_false]

theorem silent_toString (n : Nat) : Silent (toString n).toList := by
  rw [Nat.toString_eq_repr, Nat.toList_repr]
  refine silent_of_isDull fun c hc => ?_
  have hdigit : c.isDigit = true := Nat.isDigit_of_mem_toDigits (by decide) (by decide) hc
  have hc : 48 ≤ c.toNat ∧ c.toNat ≤ 57 := by
    simpa [Char.isDigit, UInt32.le_iff_toNat_le] using hdigit
  have hdull : ∀ k < 58, 48 ≤ k → isDull (Char.ofNat k) = true := by decide
  rw [← Char.ofNat_toNat c]
  exact hdull c.toNat (by omega) hc.1

end Clear

section Pieces

variable {p : Keyword → Bool} {ps qs : List Piece}

theorem clear_joint (hp : Joint p (chars ps)) (hq : Clear p (chars qs)) :
    Clear p (chars (ps ++ qs)) := by
  rw [chars_append]
  exact hp.clear.append hq hp.2.2.apart

theorem clear_lit {s : String} (h : Joint p s.toList) (hps : Clear p (chars ps)) :
    Clear p (chars (lit s :: ps)) := by
  rw [chars_cons]
  exact h.clear.append hps h.2.2.apart

theorem clear_append (hp : Clear p (chars ps)) (hq : Clear p (chars qs)) (h : Fresh (chars qs)) :
    Clear p (chars (ps ++ qs)) := by
  rw [chars_append]
  exact hp.append hq h.apart

theorem done_quoted (name : List Char) : Done (Ident.quoted name) := by
  rw [Done, Ident.quoted, List.getLast?_concat]
  decide

theorem clear_name (n : String) (hps : Clear p (chars ps)) : Clear p (chars (.name n :: ps)) := by
  rw [chars_cons]
  exact (Clear.quoted n.toList).append hps (done_quoted _).apart

theorem clear_commaSeparated {pss : List (List Piece)} (h : ∀ qs ∈ pss, Clear p (chars qs)) :
    Clear p (chars (commaSeparated pss)) := by
  induction pss with
  | nil => exact .nil
  | cons ps rest ih =>
    obtain ⟨hps, hrest⟩ := List.forall_mem_cons.1 h
    cases rest with
    | nil => exact hps
    | cons qs rest =>
      have hcomma : Joint p ",".toList := ⟨by decide, rfl, by decide⟩
      exact clear_append hps (clear_lit hcomma (ih hrest)) (.cons (by decide) _)

end Pieces

theorem silent_columnName (qualified : Bool) (tableAlias column : String) :
    Silent (chars (columnName qualified tableAlias column)) := by
  cases qualified with
  | true => exact clear_name _ (clear_lit (by decide) (clear_name _ .nil))
  | false => exact clear_name _ .nil

theorem silent_tableName (name : String) : Silent (chars (tableName name)) := by
  unfold tableName
  induction Text.splitOn '.' name.toList with
  | nil => exact .nil
  | cons s rest ih =>
    cases rest with
    | nil => exact clear_name _ .nil
    | cons s' rest => exact clear_name _ (clear_lit (by decide) ih)

theorem silent_label (n : String) : Silent (chars [lit " AS ", .name n]) :=
  clear_lit (by decide) (clear_name _ .nil)

theorem silent_alias (qualified : Bool) (n : String) :
    Silent (chars (if qualified then [lit " AS ", .name n] else [])) := by
  cases qualified with
  | true => exact silent_label n
  | false => exact .nil

theorem fresh_alias (qualified : Bool) (n : String) :
    Fresh (chars (if qualified then [lit " AS ", .name n] else [])) := by
  cases qualified with
  | true => exact .cons (by decide) _
  | false => exact .nil

/-- The text of a value: no keyword shows, and no blank stands at its end. -/
structure IsValueText (t : List Char) : Prop where
  silent : Silent t
  last : t.getLast?.any (! Text.isBlank ·) = true

namespace IsValueText

theorem mark : IsValueText ['?'] where
  silent := ⟨by decide, rfl⟩
  last := rfl

theorem parens {t : List Char} (ht : Balanced t) : IsValueText ('(' :: t ++ [')']) where
  silent := .parens ht
  last := by rw [List.getLast?_concat]; rfl

theorem of_isDecimal {sql : String} (h : Value.isDecimal sql = true) :
    IsValueText sql.toList := by
  have hdull : ∀ c ∈ "0123456789+-.eE".toList, isDull c = true ∧ Text.isBlank c = false := by
    simpa only [List.all_eq_true, Bool.and_eq_true, Bool.not_eq_true'] using
      (by decide : "0123456789+-.eE".toList.all fun c => isDull c && !Text.isBlank c)
  rw [Value.isDecimal, Bool.and_eq_true] at h
  obtain ⟨hne, hall⟩ := h
  have hmem : ∀ c ∈ sql.toList, c ∈ "0123456789+-.eE".toList := by simpa using hall
  refine ⟨silent_of_isDull fun c hc => (hdull c (hmem c hc)).1, ?_⟩
  have hne : sql.toList ≠ [] := by simpa using hne
  rw [List.getLast?_eq_some_getLast hne, Option.any_some,
    (hdull _ (hmem _ (List.getLast_mem hne))).2]
  rfl

end IsValueText

mutual

theorem isClosed_of_isLegible (v : Value) (h : v.isLegible = true) : v.isClosed = true := by
  cases v with
  | raw sql => exact decide_eq_true (IsValueText.of_isDecimal h).silent.balanced
  | list items => exact areClosed_of_areLegible items h
  | entity key => exact areClosed_of_areLegible key h
  | _ => rfl
termination_by structural v

theorem areClosed_of_areLegible (vs : List Value) (h : Value.areLegible vs = true) :
    Value.areClosed vs = true := by
  cases vs with
  | nil => rfl
  | cons v rest =>
    obtain ⟨hv, hvs⟩ := Bool.and_eq_true_iff.1 h
    exact Bool.and_eq_true_iff.2 ⟨isClosed_of_isLegible v hv, areClosed_of_areLegible rest hvs⟩
termination_by structural vs

end

def HasShape (v : Value) : Prop :=
  placeholders v = ['?'] ∨ (∃ sql, v = .raw sql) ∨
    ∃ inner, placeholders v = '(' :: inner ++ [')'] ∧ Balanced inner

theorem HasShape.balanced {v : Value} (h : HasShape v) (hclosed : v.isClosed = true) :
    Balanced (placeholders v) := by
  rcases h with hmark | ⟨sql, rfl⟩ | ⟨inner, hparens, hinner⟩
  · exact hmark ▸ IsValueText.mark.silent.balanced
  · exact of_decide_eq_true hclosed
  · exact hparens ▸ hinner.parens

mutual

theorem hasShape_of_isClosed (v : Value) (h : v.isClosed = true) : HasShape v := by
  cases v with
  | raw sql => exact .inr (.inl ⟨sql, rfl⟩)
  | list items =>
    rw [HasShape, placeholders]
    exact .inr (.inr (balanced_tuple items h))
  | entity key =>
    by_cases hkey : ∃ part, key = [part]
    · obtain ⟨part, rfl⟩ := hkey
      exact .inl rfl
    · rw [HasShape, placeholders_entity (not_exists.1 hkey)]
      exact .inr (.inr (balanced_tuple key h))
  | _ => exact .inl rfl
termination_by structural v

theorem balanced_tuple (vs : List Value) (h : Value.areClosed vs = true) :
    ∃ inner, tuple vs = '(' :: inner ++ [')'] ∧ Balanced inner := by
  cases vs with
  | nil => exact ⟨"NULL".toList, rfl, by decide⟩
  | cons v rest =>
    obtain ⟨hv, hvs⟩ := Bool.and_eq_true_iff.1 h
    obtain ⟨ys, hys, hrest⟩ := balanced_tupleRest rest hvs
    refine ⟨placeholders v ++ ys, ?_, ((hasShape_of_isClosed v hv).balanced hv).append hrest⟩
    have htuple : tuple (v :: rest) = '(' :: placeholders v ++ tupleRest rest := rfl
    rw [htuple, hys, List.cons_append, List.cons_append, List.append_assoc]
termination_by structural vs

theorem balanced_tupleRest (vs : List Value) (h : Value.areClosed vs = true) :
    ∃ ys, tupleRest vs = ys ++ [')'] ∧ Balanced ys := by
  cases vs with
  | nil => exact ⟨[], rfl, .nil⟩
  | cons v rest =>
    obtain ⟨hv, hvs⟩ := Bool.and_eq_true_iff.1 h
    obtain ⟨ys, hys, hrest⟩ := balanced_tupleRest rest hvs
    have hcomma : Balanced [','] := by decide
    refine ⟨[','] ++ (placeholders v ++ ys), ?_,
      hcomma.append (((hasShape_of_isClosed v hv).balanced hv).append hrest)⟩
    rw [tupleRest, hys, List.cons_append, List.append_assoc, List.append_assoc]
    rfl
termination_by structural vs

end

theorem isValueText_placeholders (v : Value) (h : v.isLegible = true) :
    IsValueText (placeholders v) := by
  rcases hasShape_of_isClosed v (isClosed_of_isLegible v h) with
    hmark | ⟨sql, rfl⟩ | ⟨inner, hparens, hinner⟩
  · exact hmark ▸ .mark
  · exact .of_isDecimal h
  · exact hparens ▸ .parens hinner

def noOpening : Keyword → Bool :=
  (· != .opening)

theorem clear_joinTests (a : Aliasing) (ts : List JoinTest) :
    Clear noOpening (chars (joinTests a ts)) := by
  have htest (t : JoinTest) : Clear noOpening (chars (joinTest a t)) := by
    have hop : Joint noOpening (chars [lit " ", lit t.op.sql, lit " "]) := by
      cases t.op <;> decide
    have hleft : Silent (chars (column a t.left)) := silent_columnName _ _ _
    have hright : Silent (chars (column a t.right)) := silent_columnName _ _ _
    rw [joinTest, List.append_assoc]
    exact clear_append hleft.clear (clear_joint hop hright.clear) (.cons (by decide) _)
  induction ts with
  | nil => exact .nil
  | cons t rest ih =>
    cases rest with
    | nil => exact htest t
    | cons t' rest => exact clear_append (htest t) (clear_lit (by decide) ih) (.cons (by decide) _)

theorem fresh_joins (a : Aliasing) (js : List Join) : Fresh (chars (joins a js)) := by
  cases js with
  | nil => exact .nil
  | cons _ _ => exact .cons (by decide) _

theorem clear_joins (a : Aliasing) (js : List Join) : Clear noOpening (chars (joins a js)) := by
  induction js with
  | nil => exact .nil
  | cons j js ih =>
    have hkind : Joint noOpening (chars [lit " ", lit j.kind.sql, lit " "]) := by
      cases j.kind <;> decide
    have hon : Clear noOpening (chars (lit " ON " :: joinTests a j.on)) :=
      clear_lit (by decide) (clear_joinTests a j.on)
    have halias := (silent_alias a.tables j.tableAlias).clear (p := noOpening)
    have hjoin : Clear noOpening (chars (join a j)) := by
      rw [join, List.append_assoc, List.append_assoc]
      refine clear_joint hkind (clear_append (silent_tableName j.table).clear
        (clear_append halias hon (.cons (by decide) _)) ?_)
      cases a.tables <;> exact .cons (by decide) _
    have hcons : joins a (j :: js) = join a j ++ joins a js := by simp [joins]
    rw [hcons]
    exact clear_append hjoin ih (fresh_joins a js)

theorem balanced_series (count : Nat) : Balanced (chars (series count)) := by
  have hhead : Silent (chars [lit "SELECT 1 AS ", .name seriesColumn]) :=
    clear_lit (by decide) (clear_name _ .nil)
  rw [series, chars_append]
  refine hhead.balanced.append ?_
  induction List.range (count - 1) with
  | nil => exact .nil
  | cons k ks ih =>
    have hunion : Balanced " UNION ALL SELECT ".toList := by decide
    have hnumber := (silent_toString (k + 2)).balanced
    rw [List.flatMap_cons, chars_append]
    exact (hunion.append (hnumber.append .nil)).append ih

theorem silent_source {a : Aliasing} {s : Source} {ps : List Piece} (h : source a s = .ok ps) :
    Silent (chars ps) := by
  cases s with
  | table name tableAlias =>
    obtain rfl := Except.ok.inj h
    exact clear_append (silent_tableName name) (silent_alias a.tables tableAlias)
      (fresh_alias a.tables tableAlias)
  | series tableAlias count =>
    by_cases hc : count = 0
    · simp [source, hc] at h
    · simp only [source, hc, if_false, Except.ok.injEq] at h
      have hchars : chars ps =
          ('(' :: chars (series count) ++ [')']) ++ chars [lit " AS ", .name tableAlias] := by
        rw [← h]
        simp [lit, Piece.chars]
      rw [hchars]
      exact (Clear.parens (balanced_series count)).append (silent_label tableAlias)
        (Fresh.apart (.cons (by decide) _))

/-- A selected item that SQL text was given for leaves no quote and no parenthesis open, and holds
no WHERE outside of them. -/
def selectItemCloses : SelectItem → Bool
  | .column _ _ => true
  | .raw sql => decide (Balanced sql.toList) && (keywords sql.toList).all noOpening

theorem clear_selectItem (a : Aliasing) {item : SelectItem} (h : selectItemCloses item = true) :
    Clear noOpening (chars (selectItem a item)) := by
  cases item with
  | column c label =>
    have hcolumn : Silent (chars (column a c)) := silent_columnName _ _ _
    match ha : a.results, label with
    | true, some l =>
      have hboth : Silent (chars (column a c ++ [lit " AS ", .name l])) :=
        clear_append hcolumn (silent_label l) (.cons (by decide) _)
      simpa only [selectItem, ha] using hboth.clear
    | true, none => simpa [selectItem, ha] using hcolumn.clear
    | false, _ => simpa [selectItem, ha] using hcolumn.clear
  | raw sql =>
    obtain ⟨hbalanced, hkeywords⟩ := Bool.and_eq_true_iff.1 h
    have hclear : Clear noOpening sql.toList := ⟨of_decide_eq_true hbalanced, hkeywords⟩
    simpa [selectItem, lit, Piece.chars] using hclear

theorem silent_aggregate (a : Aliasing) (g : Aggregate) : Silent (chars (aggregate a g)) := by
  obtain ⟨function, c?, distinct, label?⟩ := g
  have hfunction : Silent function.sql.toList := by
    cases function <;> exact ⟨by decide, rfl⟩
  have hinner : ∃ inner, Balanced inner ∧ chars (aggregate a ⟨function, c?, distinct, none⟩) =
      function.sql.toList ++ ('(' :: inner ++ [')']) := by
    have hdistinct : Balanced (chars (if distinct then [lit "DISTINCT "] else [])) := by
      cases distinct <;> decide
    cases c? with
    | none =>
      have hstar : Balanced ['*'] := by decide
      exact ⟨_ ++ ['*'], hdistinct.append hstar, by simp [aggregate, lit, Piece.chars]⟩
    | some c =>
      have hcolumn : Silent (chars (column a c)) := silent_columnName _ _ _
      exact ⟨_ ++ _, hdistinct.append hcolumn.balanced, by simp [aggregate, lit, Piece.chars]⟩
  obtain ⟨inner, hbalanced, hchars⟩ := hinner
  have hbare : Silent (chars (aggregate a ⟨function, c?, distinct, none⟩)) := by
    rw [hchars]
    exact hfunction.append (.parens hbalanced) (Fresh.apart (.cons (by decide) _))
  cases label? with
  | none => exact hbare
  | some l =>
    have happend : aggregate a ⟨function, c?, distinct, some l⟩ =
        aggregate a ⟨function, c?, distinct, none⟩ ++ [lit " AS ", .name l] := by
      simp [aggregate]
    rw [happend]
    exact clear_append hbare (silent_label l) (.cons (by decide) _)

theorem clear_selectHead {a : Aliasing} {f : Frame} {ps : List Piece}
    (hcloses : f.columns.all selectItemCloses = true) (h : selectHead a f = .ok ps) :
    Clear noOpening (chars ps) := by
  have hitems : ∀ items ∈ f.columns.map (selectItem a) ++ f.aggregates.map (aggregate a),
      Clear noOpening (chars items) := by
    rw [List.forall_mem_append, List.forall_mem_map, List.forall_mem_map]
    exact ⟨fun item hitem => clear_selectItem a (List.all_eq_true.1 hcloses item hitem),
      fun g _ => (silent_aggregate a g).clear⟩
  have hlist : Clear noOpening (chars
      (if (f.columns.map (selectItem a) ++ f.aggregates.map (aggregate a)).isEmpty then [lit "*"]
        else commaSeparated (f.columns.map (selectItem a) ++ f.aggregates.map (aggregate a)))) := by
    split
    · exact ⟨by decide, rfl⟩
    · exact clear_commaSeparated hitems
  have hdistinct : Joint noOpening (chars (if f.distinct then [lit "DISTINCT "] else [])) := by
    cases f.distinct <;> decide
  have hfresh : Fresh (chars (joins a f.joins)) := fresh_joins a f.joins
  obtain ⟨rows, hrows, rfl⟩ := selectHead_eq_ok h
  refine clear_lit (by decide) (clear_joint hdistinct ?_)
  obtain rfl | ⟨src, table, htable, rfl⟩ := hrows
  · exact clear_append hlist (clear_joins a f.joins) hfresh
  · have hsource : Clear noOpening (chars (lit " FROM " :: (table ++ joins a f.joins))) :=
      clear_lit (by decide)
        (clear_append (silent_source htable).clear (clear_joins a f.joins) hfresh)
    exact clear_append hlist hsource (.cons (by decide) _)

def clauseMarks : List (List Char) :=
  [" GROUP BY ".toList, " ORDER BY ".toList, " LIMIT ".toList]

def IsClauses (t : List Char) : Prop :=
  t = [] ∨ ∃ mark ∈ clauseMarks, ∃ u, t = mark ++ u ∧ Clear noOpening u

section IsClauses

variable {t u : List Char}

theorem joint_clauseMark {mark : List Char} (h : mark ∈ clauseMarks) : Joint noOpening mark := by
  have hall : ∀ mark ∈ clauseMarks, Joint noOpening mark := by decide
  exact hall mark h

theorem IsClauses.fresh (h : IsClauses t) : Fresh t := by
  have hall : ∀ mark ∈ clauseMarks, mark ≠ [] ∧ Fresh mark := by decide
  rcases h with rfl | ⟨mark, hmark, u, rfl, _⟩
  · exact .nil
  · rw [Fresh, List.head?_append_of_ne_nil _ (hall mark hmark).1]
    exact (hall mark hmark).2

theorem IsClauses.clear (h : IsClauses t) : Clear noOpening t := by
  rcases h with rfl | ⟨mark, hmark, u, rfl, hu⟩
  · exact .nil
  · have hjoint := joint_clauseMark hmark
    exact hjoint.clear.append hu hjoint.2.2.apart

theorem IsClauses.append (ht : IsClauses t) (hu : IsClauses u) : IsClauses (t ++ u) := by
  rcases ht with rfl | ⟨mark, hmark, t, rfl, ht⟩
  · exact hu
  · exact .inr ⟨mark, hmark, t ++ u, List.append_assoc _ _ _, ht.append hu.clear hu.fresh.apart⟩

theorem IsClauses.isTail (h : IsClauses t) : IsTail t := by
  have hall : ∀ mark ∈ clauseMarks, ∃ w ∈ outerWords mark,
      (outerWords mark).take 2 = [[(' ', true)], w] ∧ keyword? w = some .closing := by
    decide
  rcases h with rfl | ⟨mark, hmark, u, rfl, _⟩
  · exact .inl rfl
  · have hjoint := joint_clauseMark hmark
    obtain ⟨w, _, htake, hclosing⟩ := hall mark hmark
    have hmark : outerWords mark = [[(' ', true)], w] ++ (outerWords mark).drop 2 := by
      rw [← htake, List.take_append_drop]
    refine .inr ⟨w, (outerWords mark).drop 2 ++ outerWords u, ?_, hclosing⟩
    rw [outerWords_append hjoint.1 hjoint.2.2.apart]
    exact congrArg (· ++ outerWords u) hmark

end IsClauses

theorem isClauses_clause {α : Type} {keyword : String} (hkeyword : keyword.toList ∈ clauseMarks)
    {f : α → List Piece} (hf : ∀ x, Clear noOpening (chars (f x))) (xs : List α) :
    IsClauses (chars (clause keyword (xs.map f))) := by
  unfold clause
  split
  · exact .inl rfl
  · exact .inr ⟨_, hkeyword, _, chars_cons _ _,
      clear_commaSeparated (List.forall_mem_map.2 fun x _ => hf x)⟩

theorem isClauses_limits (limit offset : Option Nat) :
    IsClauses (chars (limits limit offset)) := by
  have hmark : " LIMIT ".toList ∈ clauseMarks := by decide
  have hlimit : toString " LIMIT " = " LIMIT " := rfl
  have hskip : toString " OFFSET " = " OFFSET " := rfl
  have hnumber (n : Nat) : Clear noOpening (toString n).toList := (silent_toString n).clear
  have hoffset (n : Nat) : Clear noOpening (" OFFSET ".toList ++ (toString n).toList) :=
    (Clear.append ⟨by decide, rfl⟩ (hnumber n) (Done.apart (by decide)))
  have hboth (m n : Nat) : Clear noOpening
      ((toString m).toList ++ (" OFFSET ".toList ++ (toString n).toList)) :=
    (hnumber m).append (hoffset n) (Fresh.apart (.cons (by decide) _))
  cases limit with
  | none =>
    cases offset with
    | none => exact .inl rfl
    | some n =>
      refine .inr ⟨_, hmark, _, ?_, hboth noLimit n⟩
      simp [limits, lit, Piece.chars, hlimit, hskip]
  | some m =>
    cases offset with
    | none =>
      refine .inr ⟨_, hmark, _, ?_, hnumber m⟩
      simp [limits, lit, Piece.chars, hlimit]
    | some n =>
      refine .inr ⟨_, hmark, _, ?_, hboth m n⟩
      simp [limits, lit, Piece.chars, hlimit, hskip]

theorem isClauses_selectTail (a : Aliasing) (f : Frame) : IsClauses (chars (selectTail a f)) := by
  have hcolumn (c : ColumnRef) : Silent (chars (column a c)) := silent_columnName _ _ _
  have hordering (o : Ordering) : Clear noOpening (chars (ordering a o)) := by
    cases hd : o.descending with
    | false => simpa [ordering, hd] using (hcolumn o.column).clear
    | true =>
      have hdescending : Clear noOpening (chars [lit " DESC"]) := ⟨by decide, rfl⟩
      simpa [ordering, hd] using
        clear_append (hcolumn o.column).clear hdescending (.cons (by decide) _)
  rw [selectTail, chars_append, chars_append]
  exact ((isClauses_clause (by decide) (fun c => (hcolumn c).clear) _).append
    (isClauses_clause (by decide) hordering _)).append (isClauses_limits f.limit f.offset)

end Sql

end PathQuery
