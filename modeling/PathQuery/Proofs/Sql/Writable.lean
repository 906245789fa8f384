import PathQuery.Proofs.Outcome
import PathQuery.Sql.Render

/-!
Conditions that can be written. Writing refuses a comparison without a column, bounds that are not
two, a group without members and a series without numbers; any other condition becomes SQL.
-/

set_option autoImplicit false

namespace PathQuery

/-- The operand that an operator is written with: none, two bounds, a list, or one value. -/
def Operator.Fits (op : Operator) (v : Value) : Prop :=
  if op.isUnary then v = .null
  else if op.isRange then ∃ low high, v = .list [low, high]
  else if op.takesList then ∃ items, v = .list items
  else v.isNull = false ∧ v.isList = false

def Frame.HasRows (f : Frame) : Prop :=
  ∀ a, f.source ≠ some (.series a 0)

namespace Condition

section Throughout

variable (G : Condition → Prop)

mutual

/-- `G` of the condition and of every condition inside it, in groups and in SELECTs. -/
def Throughout : Condition → Prop
  | .compare c a names op v => G (.compare c a names op v)
  | .group c members => G (.group c members) ∧ ThroughoutAll members
  | .existence c negated frame inner => G (.existence c negated frame inner) ∧ ThroughoutAll inner
  | .membership c column values negated => G (.membership c column values negated)
  | .columns c left op right => G (.columns c left op right)
  | .subquery c frame inner op v => G (.subquery c frame inner op v) ∧ ThroughoutAll inner
termination_by structural x => x

def ThroughoutAll : List Condition → Prop
  | [] => True
  | x :: rest => Throughout x ∧ ThroughoutAll rest
termination_by structural xs => xs

end

variable {G}

theorem throughoutAll_iff {xs : List Condition} :
    ThroughoutAll G xs ↔ ∀ x ∈ xs, x.Throughout G := by
  induction xs with
  | nil => simp [ThroughoutAll]
  | cons x xs ih => rw [ThroughoutAll, ih, List.forall_mem_cons]

theorem throughout_group {c : Connective} {members : List Condition} :
    (Condition.group c members).Throughout G ↔
      G (.group c members) ∧ ∀ x ∈ members, x.Throughout G := by
  rw [← throughoutAll_iff]
  rfl

theorem throughout_existence {c : Connective} {negated : Bool} {frame : Frame}
    {inner : List Condition} :
    (Condition.existence c negated frame inner).Throughout G ↔
      G (.existence c negated frame inner) ∧ ∀ x ∈ inner, x.Throughout G := by
  rw [← throughoutAll_iff]
  rfl

mutual

theorem Throughout.imp {H : Condition → Prop} (himp : ∀ x, G x → H x) (x : Condition)
    (h : x.Throughout G) : x.Throughout H := by
  cases x with
  | group c members => exact ⟨himp _ h.1, ThroughoutAll.imp himp members h.2⟩
  | existence c negated frame inner => exact ⟨himp _ h.1, ThroughoutAll.imp himp inner h.2⟩
  | subquery c frame inner op v => exact ⟨himp _ h.1, ThroughoutAll.imp himp inner h.2⟩
  | _ => exact himp _ h
termination_by structural x

theorem ThroughoutAll.imp {H : Condition → Prop} (himp : ∀ x, G x → H x) (xs : List Condition)
    (h : ThroughoutAll G xs) : ThroughoutAll H xs := by
  cases xs with
  | nil => trivial
  | cons x rest => exact ⟨Throughout.imp himp x h.1, ThroughoutAll.imp himp rest h.2⟩
termination_by structural xs

end

theorem throughout_withConnective (hG : ∀ c x, G x → G (x.withConnective c)) {c : Connective}
    {x : Condition} (h : x.Throughout G) : (x.withConnective c).Throughout G := by
  cases x with
  | group d members => exact ⟨hG c _ h.1, h.2⟩
  | existence d negated frame inner => exact ⟨hG c _ h.1, h.2⟩
  | subquery d frame inner op v => exact ⟨hG c _ h.1, h.2⟩
  | _ => exact hG c _ h

end Throughout

def Shaped : Condition → Prop
  | .compare _ _ names op v => (∃ column, names = [column]) ∧ op.Fits v
  | _ => True

/-- Nothing at the condition itself keeps it from being written, but that a group may be empty where
`hollow` allows it. -/
def Sound (hollow : Prop) : Condition → Prop
  | .compare _ _ names op v => (∃ column, names = [column]) ∧ op.Fits v
  | .group _ members => members = [] → hollow
  | .existence _ _ frame _ => frame.HasRows
  | .membership _ _ _ _ => True
  | .columns _ _ _ _ => True
  | .subquery _ frame _ _ _ => frame.HasRows

theorem Sound.shaped {hollow : Prop} {x : Condition} (h : x.Sound hollow) : x.Shaped := by
  cases x with
  | compare c a names op v => exact h
  | _ => trivial

theorem Sound.withConnective {hollow : Prop} (c : Connective) (x : Condition)
    (h : x.Sound hollow) : (x.withConnective c).Sound hollow := by
  cases x <;> exact h

end Condition

namespace Sql

open Condition

variable {a : Aliasing} {xs : List Condition}

theorem exists_comparison {op : Operator} {v : Value} (h : op.Fits v) :
    ∃ ps, comparison op v = .ok ps := by
  unfold Operator.Fits at h
  unfold comparison
  split
  · exact ⟨_, rfl⟩
  · next hunary =>
    rw [if_neg hunary] at h
    cases hrange : op.isRange with
    | false => exact ⟨_, rfl⟩
    | true =>
      rw [hrange, if_pos rfl] at h
      obtain ⟨low, high, rfl⟩ := h
      exact ⟨_, rfl⟩

theorem exists_compare {tableAlias column : String} {op : Operator} {v : Value} (h : op.Fits v) :
    ∃ ps, compare a tableAlias [column] op v = .ok ps := by
  obtain ⟨ps, hps⟩ := exists_comparison h
  unfold compare
  split
  · exact ⟨_, rfl⟩
  · exact ⟨columnName a.tables tableAlias column ++ ps, by rw [hps]; rfl⟩

theorem exists_source {src : Source} (h : ∀ b, src ≠ .series b 0) :
    ∃ ps, source a src = .ok ps := by
  cases src with
  | table name b => exact ⟨_, rfl⟩
  | series b count =>
    have hcount : count ≠ 0 := fun hzero => h b (congrArg (Source.series b) hzero)
    exact ⟨_, by rw [source, if_neg hcount]⟩

theorem exists_selectHead {f : Frame} (h : f.HasRows) : ∃ ps, selectHead a f = .ok ps := by
  unfold selectHead
  cases hsource : f.source with
  | none => exact ⟨_, rfl⟩
  | some src =>
    have hrows : ∀ b, src ≠ .series b 0 := fun b hb => h b (by rw [hsource, hb])
    obtain ⟨ps, hps⟩ := exists_source (a := a) hrows
    exact ⟨_, by simp only [hps]; rfl⟩

theorem exists_conditions (h : ∃ ps, siblings a xs = .ok ps) :
    (∃ ps, conditions a xs = .ok ps) ∧ ∃ ps, whereClause a xs = .ok ps := by
  cases xs with
  | nil => exact ⟨⟨_, rfl⟩, _, rfl⟩
  | cons x rest =>
    obtain ⟨ps, h⟩ := h
    obtain ⟨own, hown, h⟩ := bind_eq_ok_iff.1 h
    obtain ⟨others, hothers, -⟩ := bind_eq_ok_iff.1 h
    exact ⟨⟨_, by rw [conditions, hown, hothers]; rfl⟩, _, by rw [whereClause, hown, hothers]; rfl⟩

mutual

/-- What is sound throughout, with no group empty, can be written. -/
theorem exists_condition (a : Aliasing) (x : Condition) (h : x.Throughout (Sound False)) :
    ∃ ps, condition a x = .ok ps := by
  cases x with
  | compare c b names op v =>
    obtain ⟨⟨column, rfl⟩, hfits⟩ := h
    exact exists_compare hfits
  | group c members =>
    obtain ⟨ps, hps⟩ := (exists_conditions (exists_siblings a members h.2)).1
    have hne : members.isEmpty = false := List.isEmpty_eq_false_iff.2 h.1
    exact ⟨_, by rw [condition, hne, hps]; rfl⟩
  | existence c negated frame inner =>
    obtain ⟨head, hhead⟩ := exists_selectHead (a := .nested) h.1
    obtain ⟨body, hbody⟩ := (exists_conditions (exists_siblings .nested inner h.2)).2
    exact ⟨_, by rw [condition, hhead, hbody]; rfl⟩
  | membership c column values negated =>
    unfold condition
    split <;> exact ⟨_, rfl⟩
  | columns c left op right => exact ⟨_, rfl⟩
  | subquery c frame inner op v =>
    obtain ⟨head, hhead⟩ := exists_selectHead (a := .nested) h.1
    obtain ⟨body, hbody⟩ := (exists_conditions (exists_siblings .nested inner h.2)).2
    exact ⟨_, by rw [condition, hhead, hbody]; rfl⟩
termination_by structural x

theorem exists_siblings (a : Aliasing) (xs : List Condition) (h : ThroughoutAll (Sound False) xs) :
    ∃ ps, siblings a xs = .ok ps := by
  cases xs with
  | nil => exact ⟨_, rfl⟩
  | cons x rest =>
    obtain ⟨own, hown⟩ := exists_condition a x h.1
    obtain ⟨others, hothers⟩ := exists_siblings a rest h.2
    exact ⟨_, by rw [siblings, hown, hothers]; rfl⟩
termination_by structural xs

end

theorem exists_whereClause (a : Aliasing) (h : ∀ x ∈ xs, x.Throughout (Sound False)) :
    ∃ ps, whereClause a xs = .ok ps :=
  (exists_conditions (exists_siblings a xs (throughoutAll_iff.2 h))).2

end Sql

def Statement.Complete (s : Statement) : Prop :=
  match s.kind with
  | .select => s.toFrame.HasRows
  | .insert => s.into ≠ none ∧ s.rows ≠ []
  | .update => (∃ table a, s.source = some (.table table a)) ∧ s.assignments ≠ []
  | .delete =>
    (∃ table a, s.deleteUsing = some (.table table a)) ∨
      s.deleteUsing = none ∧ s.deleteFrom ≠ none

theorem Statement.exists_compile {s : Statement} (hs : s.Complete)
    (h : ∀ x ∈ s.conditions, x.Throughout (Condition.Sound False)) (a : Sql.Aliasing) :
    ∃ c, s.compile a = .ok c := by
  suffices hpieces : ∃ ps, (match s.kind with
      | .select => Sql.select a s
      | .insert => Sql.insert s
      | .update => Sql.update a s
      | .delete => Sql.delete a s) = .ok ps by
    obtain ⟨ps, hps⟩ := hpieces
    exact ⟨⟨ps⟩, map_eq_ok_iff.2 ⟨ps, hps, rfl⟩⟩
  have hwhere := fun a => Sql.exists_whereClause a h
  unfold Complete at hs
  cases hkind : s.kind with
  | select =>
    rw [hkind] at hs
    obtain ⟨head, hhead⟩ := Sql.exists_selectHead (a := a) hs
    obtain ⟨body, hbody⟩ := hwhere a
    exact ⟨_, by rw [Sql.select, hhead, hbody]; rfl⟩
  | insert =>
    rw [hkind] at hs
    obtain ⟨table, htable⟩ := Option.ne_none_iff_exists'.1 hs.1
    have hrows : s.rows.isEmpty = false := by simpa using hs.2
    simp only [Sql.insert, htable, hrows]
    exact ⟨_, rfl⟩
  | update =>
    rw [hkind] at hs
    obtain ⟨⟨table, b, hsource⟩, hne⟩ := hs
    obtain ⟨body, hbody⟩ := hwhere a
    have hassignments : s.assignments.isEmpty = false := by simpa using hne
    simp only [Sql.update, hsource, hassignments, hbody]
    exact ⟨_, rfl⟩
  | delete =>
    rw [hkind] at hs
    rcases hs with ⟨table, b, husing⟩ | ⟨husing, hfrom⟩
    · obtain ⟨body, hbody⟩ := hwhere { a with tables := true }
      simp only [Sql.delete, husing, hbody]
      exact ⟨_, rfl⟩
    · obtain ⟨table, htable⟩ := Option.ne_none_iff_exists'.1 hfrom
      obtain ⟨body, hbody⟩ := hwhere a
      simp only [Sql.delete, husing, Sql.deleteTarget?, htable, Option.some_or, hbody]
      exact ⟨_, rfl⟩

end PathQuery
