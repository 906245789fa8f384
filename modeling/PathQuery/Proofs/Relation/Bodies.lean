import PathQuery.Relation.SemiJoin

/-!
A semi-join from the body it is made of: one test that a linked row satisfies all conditions, or
a division that counts the conditions through.
-/

set_option autoImplicit false

namespace PathQuery

namespace Condition

@[simp] theorem hasSubquery_withConnective (c : Connective) (x : Condition) :
    (x.withConnective c).hasSubquery = x.hasSubquery := by
  cases x <;> rfl

theorem anySubquery_iff {xs : List Condition} :
    anySubquery xs = true ↔ ∃ x ∈ xs, x.hasSubquery = true := by
  induction xs with
  | nil => simp [anySubquery]
  | cons x xs ih => simp [anySubquery, ih]

variable {a key : String}

mutual

theorem hasSubquery_of_usesOnlyKey (x : Condition) (h : x.usesOnlyKey a key = true) :
    x.hasSubquery = false := by
  cases x with
  | group c members => exact anySubquery_of_useOnlyKey members h
  | existence c negated frame inner => simp [usesOnlyKey] at h
  | subquery c frame inner op v => simp [usesOnlyKey] at h
  | _ => rfl
termination_by structural x

theorem anySubquery_of_useOnlyKey (xs : List Condition) (h : useOnlyKey a key xs = true) :
    anySubquery xs = false := by
  cases xs with
  | nil => rfl
  | cons x rest =>
    rw [useOnlyKey, Bool.and_eq_true] at h
    rw [anySubquery, hasSubquery_of_usesOnlyKey x h.1, anySubquery_of_useOnlyKey rest h.2]
    rfl
termination_by structural xs

end

@[simp] theorem usesOnlyKey_withConnective (c : Connective) (x : Condition) :
    (x.withConnective c).usesOnlyKey a key = x.usesOnlyKey a key := by
  cases x <;> rfl

theorem redirect_withConnective (c : Connective) (target : ColumnRef) (x : Condition) :
    (x.withConnective c).redirect a target = (x.redirect a target).withConnective c := by
  cases x with
  | compare d b names op v =>
    simp only [withConnective, redirect]
    split <;> rfl
  | membership d column values negated =>
    simp only [withConnective, redirect]
    split <;> rfl
  | _ => rfl

mutual

theorem hasSubquery_redirect (target : ColumnRef) (x : Condition) :
    (x.redirect a target).hasSubquery = x.hasSubquery := by
  cases x with
  | compare c b names op v =>
    rw [redirect]
    split <;> rfl
  | membership c column values negated =>
    rw [redirect]
    split <;> rfl
  | group c members => exact anySubquery_redirectAll target members
  | _ => rfl
termination_by structural x

theorem anySubquery_redirectAll (target : ColumnRef) (xs : List Condition) :
    anySubquery (redirectAll a target xs) = anySubquery xs := by
  cases xs with
  | nil => rfl
  | cons x rest =>
    rw [redirectAll, anySubquery, hasSubquery_redirect target x,
      anySubquery_redirectAll target rest, anySubquery]
termination_by structural xs

end

/-- A property that conditions keep whatever connects them, and that groups take from their
members. -/
structure Groupable (P : Condition → Prop) : Prop where
  reconnected : ∀ c x, P x → P (x.withConnective c)
  group : ∀ c x rest, P x → (∀ y ∈ rest, P y) → P (.group c (x :: rest))

variable {P : Condition → Prop} {xs : List Condition}

theorem Groupable.forall_mem_conjoined (hP : Groupable P) (h : ∀ x ∈ xs, P x) :
    ∀ x ∈ conjoined xs, P x := by
  match xs, h with
  | [], _ => simp [conjoined]
  | [x], h => exact List.forall_mem_singleton.2 (hP.reconnected .and x (h x List.mem_cons_self))
  | x :: y :: rest, h =>
    rw [List.forall_mem_cons] at h
    exact List.forall_mem_singleton.2 (hP.group .and _ _ (hP.reconnected .and x h.1) h.2)

theorem Groupable.forall_mem_numbered (hP : Groupable P)
    (hcount : ∀ n : Nat, P (.ofColumn (Relation.seriesAlias a) seriesColumn .eq
      (.raw (toString n)))) (h : ∀ x ∈ xs, P x) (number : Nat) :
    ∀ x ∈ Relation.numbered a number xs, P x := by
  induction xs generalizing number with
  | nil => simp [Relation.numbered]
  | cons x rest ih =>
    rw [List.forall_mem_cons] at h
    rw [Relation.numbered, List.forall_mem_cons]
    refine ⟨hP.group _ _ _ (hcount number) ?_, ih h.2 (number + 1)⟩
    exact List.forall_mem_singleton.2 (hP.reconnected .and x h.1)

end Condition

namespace Relation

namespace Body

def frame (b : Body) : Frame :=
  { Statement.probe b.source with joins := b.joins }.toFrame

def single (b : Body) (c : Connective) : Condition :=
  .existence c false b.frame (b.correlation :: Condition.conjoined b.conditions)

/-- There is no number whose condition is satisfied by no linked row. -/
def divided (b : Body) (tableAlias : String) (c : Connective) : Condition :=
  .existence c true
    (Statement.probe (.series (seriesAlias tableAlias) b.conditions.length)).toFrame
    [.existence .and true b.frame
      [b.correlation, .group .and (numbered tableAlias 1 b.conditions)]]

end Body

/-- A semi-join starts from the linked rows themselves or, between many and many, from the table
between. It joins the linked table there unless the conditions speak only of its key, which the
table between holds too. -/
theorem body_cases (r : Relation) (parentAlias tableAlias : String) (extra : List Join)
    (conditions : List Condition) (division : Bool) :
    ((∀ through, r.kind ≠ .manyMany through) ∧
      r.body parentAlias tableAlias extra conditions division =
        ⟨.table r.linked.table tableAlias, extra,
          .columns .and ⟨tableAlias, r.linked.column⟩ .eq ⟨parentAlias, r.current.column⟩,
          conditions⟩) ∨
    ∃ through, r.kind = .manyMany through ∧
      (r.body parentAlias tableAlias extra conditions division =
        ⟨.table through.table (joinTableAlias tableAlias),
          r.linkedJoin tableAlias through .inner :: extra,
          .columns .and ⟨joinTableAlias tableAlias, through.fromColumn⟩ .eq
            ⟨parentAlias, r.current.column⟩, conditions⟩ ∨
      extra = [] ∧ Condition.useOnlyKey tableAlias r.linked.column conditions = true ∧
        r.body parentAlias tableAlias extra conditions division =
          ⟨.table through.table (joinTableAlias tableAlias), [],
            .columns .and ⟨joinTableAlias tableAlias, through.fromColumn⟩ .eq
              ⟨parentAlias, r.current.column⟩,
            Condition.redirectAll tableAlias ⟨joinTableAlias tableAlias, through.toColumn⟩
              conditions⟩) := by
  unfold body
  dsimp only
  split
  · next through hkind =>
    refine .inr ⟨through, hkind, ?_⟩
    split
    · exact .inl rfl
    · next hlink =>
      simp only [Bool.or_eq_true, Bool.not_eq_true', not_or] at hlink
      have hempty : extra = [] := by simpa using hlink.1.2
      exact .inr ⟨hempty, by simpa using hlink.2, by rw [hempty]; rfl⟩
  · next hkind => exact .inl ⟨hkind, rfl⟩

theorem joins_body (r : Relation) (parentAlias tableAlias : String) (extra : List Join)
    (conditions : List Condition) (division : Bool) :
    ∃ own, (r.body parentAlias tableAlias extra conditions division).joins = own ++ extra ∧
      (own = [] ∨ ∃ through, r.kind = .manyMany through ∧
        own = [r.linkedJoin tableAlias through .inner]) := by
  rcases r.body_cases parentAlias tableAlias extra conditions division with
    ⟨-, hbody⟩ | ⟨through, hkind, hbody | ⟨hempty, -, hbody⟩⟩
  · exact ⟨[], by rw [hbody]; rfl, .inl rfl⟩
  · exact ⟨_, by rw [hbody]; rfl, .inr ⟨through, hkind, rfl⟩⟩
  · exact ⟨[], by rw [hbody, hempty]; rfl, .inl rfl⟩

theorem hasSubquery_correlation (r : Relation) (parentAlias tableAlias : String)
    (extra : List Join) (conditions : List Condition) (division : Bool) :
    (r.body parentAlias tableAlias extra conditions division).correlation.hasSubquery = false := by
  rcases r.body_cases parentAlias tableAlias extra conditions division with
    ⟨-, hbody⟩ | ⟨_, -, hbody | ⟨-, -, hbody⟩⟩ <;> rw [hbody] <;> rfl

/-- Conditions come into a semi-join as they are, or, where they speak only of the linked key, moved
to the table between. -/
theorem conditions_body (r : Relation) (parentAlias tableAlias : String) (extra : List Join)
    (conditions : List Condition) (division : Bool) :
    (r.body parentAlias tableAlias extra conditions division).conditions = conditions ∨
      ∃ through, r.kind = .manyMany through ∧
        Condition.useOnlyKey tableAlias r.linked.column conditions = true ∧
        (r.body parentAlias tableAlias extra conditions division).conditions =
          Condition.redirectAll tableAlias ⟨joinTableAlias tableAlias, through.toColumn⟩
            conditions := by
  rcases r.body_cases parentAlias tableAlias extra conditions division with
    ⟨-, hbody⟩ | ⟨through, hkind, hbody | ⟨-, hkey, hbody⟩⟩
  · exact .inl (by rw [hbody])
  · exact .inl (by rw [hbody])
  · exact .inr ⟨through, hkind, hkey, by rw [hbody]⟩

theorem semiJoin_eq (r : Relation) (parentAlias tableAlias : String) (extra : List Join)
    (conditions : List Condition) (strategy : Strategy) (c : Connective) :
    r.semiJoin parentAlias tableAlias extra conditions strategy c =
      if strategy = .division ∧ 2 ≤ conditions.length then
        (r.body parentAlias tableAlias extra conditions true).divided tableAlias c
      else (r.body parentAlias tableAlias extra conditions false).single c := by
  by_cases h : strategy = .division ∧ 2 ≤ conditions.length
  · rw [if_pos h]
    simp only [semiJoin, h.1, h.2, beq_self_eq_true, decide_true, Bool.and_self, if_true]
    rfl
  · have hfalse : (strategy == .division && decide (2 ≤ conditions.length)) = false := by
      simpa using h
    rw [if_neg h]
    simp only [semiJoin, hfalse, Bool.false_eq_true, if_false]
    rfl

theorem connective_semiJoin (r : Relation) (parentAlias tableAlias : String) (extra : List Join)
    (conditions : List Condition) (strategy : Strategy) (c : Connective) :
    (r.semiJoin parentAlias tableAlias extra conditions strategy c).connective = c := by
  rw [semiJoin_eq]
  split <;> rfl

end Relation

end PathQuery
