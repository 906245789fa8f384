import PathQuery.Proofs.Database.Evaluation
import PathQuery.Proofs.Filter.Resolved
import PathQuery.Proofs.TwoRuns.Agreement

/-!
Comparisons and their negations. A list takes another operator than a single value, a missing value
takes a test for NULL, and tuples exchange AND and OR; in all these forms the negated comparison is
true where the other is false, false where it is true, and unknown where it is unknown.
-/

set_option autoImplicit false

namespace PathQuery

namespace Truth

@[simp] theorem not_inf (a b : Truth) : (a ⊓ b).not = a.not ⊔ b.not := by
  cases a <;> cases b <;> rfl

@[simp] theorem not_sup (a b : Truth) : (a ⊔ b).not = a.not ⊓ b.not := by
  cases a <;> cases b <;> rfl

@[simp] theorem not_ofBool (b : Bool) : (ofBool b).not = ofBool (!b) := by
  cases b <;> rfl

end Truth

namespace Connective

section Lattice

variable {α : Type} [Lattice α]

theorem readFrom_map_and (run : α) (xs : List α) :
    readFrom run (xs.map (Prod.mk .and)) = xs.foldl (· ⊓ ·) run := by
  induction xs generalizing run with
  | nil => rfl
  | cons x xs ih => rw [List.map_cons, readFrom, ih, List.foldl_cons]

theorem readFrom_map_or (run : α) (xs : List α) :
    readFrom run (xs.map (Prod.mk .or)) = xs.foldl (· ⊔ ·) run := by
  induction xs generalizing run with
  | nil => rfl
  | cons x xs ih => rw [List.map_cons, readFrom, ih, List.foldl_cons, List.foldl_assoc]

end Lattice

/-- De Morgan's law for a conjunction of any length. -/
theorem not_readFrom_and (run : Truth) (xs : List Truth) :
    (readFrom run (xs.map (Prod.mk .and))).not =
      readFrom run.not ((xs.map Truth.not).map (Prod.mk .or)) := by
  rw [readFrom_map_and, readFrom_map_or, List.foldl_map]
  exact (List.foldl_hom Truth.not fun a b => (Truth.not_inf a b).symm).symm

theorem not_readFrom_or (run : Truth) (xs : List Truth) :
    (readFrom run (xs.map (Prod.mk .or))).not =
      readFrom run.not ((xs.map Truth.not).map (Prod.mk .and)) := by
  rw [readFrom_map_and, readFrom_map_or, List.foldl_map]
  exact (List.foldl_hom Truth.not fun a b => (Truth.not_sup a b).symm).symm

end Connective

namespace Condition

/-- The second condition is the negation of the first wherever both are evaluated. -/
def Opposed (x y : Condition) : Prop :=
  ∀ (E : Engine) (db : Database E) (scalar : Database.Scalar E) (e : Scene E),
    db.eval scalar e y = (db.eval scalar e x).not

theorem Opposed.withConnective {x y : Condition} (h : Opposed x y) (c d : Connective) :
    Opposed (x.withConnective c) (y.withConnective d) := by
  intro E db scalar e
  rw [Database.eval_withConnective, Database.eval_withConnective, h]

theorem eval_joinedBy {E : Engine} (db : Database E) (scalar : Database.Scalar E) (e : Scene E)
    (c d : Connective) (x : Condition) (rest : List Condition) :
    db.eval scalar e (.group d (joinedBy c (x :: rest))) =
      Connective.readFrom (db.eval scalar e x)
        ((rest.map (db.eval scalar e)).map (Prod.mk c)) := by
  have hrest : db.evalEach scalar e (rest.map (withConnective c)) =
      (rest.map (db.eval scalar e)).map (Prod.mk c) := by
    simp [Database.evalEach_eq, Function.comp_def]
  rw [joinedBy, Database.eval, Database.evalEach, hrest, Connective.read,
    Database.eval_withConnective]

theorem evals_eq_of_opposed {xs ys : List Condition} (h : List.Forall₂ Opposed xs ys) {E : Engine}
    (db : Database E) (scalar : Database.Scalar E) (e : Scene E) :
    ys.map (db.eval scalar e) = (xs.map (db.eval scalar e)).map Truth.not := by
  induction h with
  | nil => rfl
  | cons hxy _ ih => rw [List.map_cons, List.map_cons, List.map_cons, ih, hxy]

theorem opposed_and {xs ys : List Condition} (h : List.Forall₂ Opposed xs ys) (hne : xs ≠ [])
    (c d : Connective) :
    Opposed (.group c (joinedBy .and xs)) (.group d (joinedBy .or ys)) := by
  cases h with
  | nil => exact absurd rfl hne
  | cons hxy hrest =>
    intro E db scalar e
    rw [eval_joinedBy, eval_joinedBy, Connective.not_readFrom_and, hxy,
      evals_eq_of_opposed hrest]

theorem opposed_or {xs ys : List Condition} (h : List.Forall₂ Opposed xs ys) (hne : xs ≠ [])
    (c d : Connective) :
    Opposed (.group c (joinedBy .or xs)) (.group d (joinedBy .and ys)) := by
  cases h with
  | nil => exact absurd rfl hne
  | cons hxy hrest =>
    intro E db scalar e
    rw [eval_joinedBy, eval_joinedBy, Connective.not_readFrom_or, hxy,
      evals_eq_of_opposed hrest]

theorem opposed_nullTest (a column : String) :
    Opposed (ofColumn a column .isNull .null) (ofColumn a column .isNotNull .null) := by
  intro E db scalar e
  simp [Database.eval, ofColumn, Engine.compare, Engine.compareOne, Engine.relate]

theorem opposed_equality (a column : String) (v : Value) :
    Opposed (ofColumn a column .eq v) (ofColumn a column .ne v) := by
  intro E db scalar e
  simp [Database.eval, ofColumn, Engine.compare, Engine.compareOne, Engine.relate]

theorem opposed_inList (a column : String) (values : List Value) :
    Opposed (ofColumn a column .isIn (.list values)) (ofColumn a column .notIn (.list values)) :=
  fun _ _ _ _ => rfl

/-- `=` and `!=` accept every value, and change their form together. -/
theorem agree_equality (a column : String) (v : Value) :
    Agree Opposed (ofScalar a column .eq v) (ofScalar a column .ne v) := by
  match v with
  | .null => exact .ok (opposed_nullTest a column)
  | .list [] => exact .ok (opposed_nullTest a column)
  | .list [v] => exact agree_equality a column v
  | .list (v :: w :: rest) => exact .ok (opposed_inList a column (v :: w :: rest))
  | .entity key => exact .ok (opposed_equality a column (.entity key))
  | .raw sql => exact .ok (opposed_equality a column (.raw sql))
  | .bool b => exact .ok (opposed_equality a column (.bool b))
  | .int n => exact .ok (opposed_equality a column (.int n))
  | .float x => exact .ok (opposed_equality a column (.float x))
  | .text s => exact .ok (opposed_equality a column (.text s))
  | .blob bytes => exact .ok (opposed_equality a column (.blob bytes))
  | .timestamp t => exact .ok (opposed_equality a column (.timestamp t))
  | .uuid u => exact .ok (opposed_equality a column (.uuid u))
  | .json j => exact .ok (opposed_equality a column (.json j))
termination_by structural v

/-- `IN` and `NOT IN` take any list as it is and any other value as its only member. -/
theorem agree_inclusion (a column : String) {v : Value} (hnull : v.isNull = false) :
    Agree Opposed (ofScalar a column .isIn v) (ofScalar a column .notIn v) := by
  cases hlist : v.isList with
  | true =>
    cases v with
    | list items =>
      rw [ofScalar_list, ofScalar_list]
      exact .ok (opposed_inList a column items)
    | _ => cases hlist
  | false =>
    rw [ofScalar_of_single _ _ _ hnull hlist, ofScalar_of_single _ _ _ hnull hlist]
    exact .ok (opposed_inList a column [v])

theorem agree_ofTuple_negated (a : String) {columns : List String} (hcolumns : columns ≠ [])
    (values : List Value) :
    Agree (fun xs ys => Opposed (.group .and xs) (.group .and ys))
      (ofTuple a columns .eq .and values) (ofTuple a columns .ne .or values) := by
  rw [ofTuple_eq, ofTuple_eq]
  split
  · exact .error _
  · next hwidth =>
    refine (Agree.mapM_ne_nil (zip_ne_nil hcolumns (not_not.1 hwidth)) fun p _ =>
      agree_equality a p.1 p.2).map ?_
    rintro xs ys ⟨hxs, hne⟩
    exact opposed_and hxs hne .and .and

/-- Some tuple agrees against every tuple differs. No tuple agrees with an empty list. -/
theorem agree_ofTupleList_negated (a : String) {columns : List String} (hcolumns : columns ≠ [])
    (tuples : List (List Value)) :
    Agree Opposed (ofTupleList a columns false tuples) (ofTupleList a columns true tuples) := by
  cases tuples with
  | nil =>
    cases columns with
    | nil => exact absurd rfl hcolumns
    | cons c rest => exact .ok fun _ _ _ _ => rfl
  | cons values rest =>
    refine (Agree.mapM_ne_nil (List.cons_ne_nil values rest) fun values _ =>
      agree_ofTuple_negated a hcolumns values).bind ?_
    rintro groups groups' ⟨hgroups, hne⟩
    have hopposed :
        List.Forall₂ Opposed (groups.map (.group .and)) (groups'.map (.group .and)) := by
      rw [List.forall₂_map_left_iff, List.forall₂_map_right_iff]
      exact hgroups
    have hchain : Opposed (.group .and (chain .or groups)) (.group .and (chain .and groups')) := by
      rw [chain_eq, chain_eq]
      exact opposed_or hopposed (by simpa using hne) .and .and
    cases hgroups with
    | nil => exact absurd rfl hne
    | cons hmembers hrest =>
      cases hrest with
      | nil => exact .ok hmembers
      | cons hnext hrest => exact .ok hchain

/-- Outcomes of a comparison and of its negation: both are refused, though with words of their own,
or both are made and are opposed. -/
def OpposedOutcomes (p q : Except Failure Condition) : Prop :=
  (∃ f g, p = .error f ∧ q = .error g) ∨ ∃ x y, p = .ok x ∧ q = .ok y ∧ Opposed x y

theorem opposedOutcomes_of_agree {p q : Except Failure Condition} (h : Agree Opposed p q) :
    OpposedOutcomes p q := by
  cases h with
  | error f => exact .inl ⟨f, f, rfl, rfl⟩
  | ok h => exact .inr ⟨_, _, rfl, rfl, h⟩

theorem opposedOutcomes_scalar (a column : String) {op negated : Operator}
    (hop : (op, negated) ∈ [(Operator.eq, Operator.ne), (.isIn, .notIn)]) (v : Value) :
    OpposedOutcomes (ofScalar a column op v) (ofScalar a column negated v) := by
  simp only [List.mem_cons, Prod.mk.injEq, List.not_mem_nil, or_false] at hop
  rcases hop with ⟨rfl, rfl⟩ | ⟨rfl, rfl⟩
  · exact opposedOutcomes_of_agree (agree_equality a column v)
  · cases hnull : v.isNull with
    | false => exact opposedOutcomes_of_agree (agree_inclusion a column hnull)
    | true =>
      cases v with
      | null => exact .inl ⟨_, _, rfl, rfl⟩
      | _ => cases hnull

theorem opposedOutcomes_tuples (a : String) {columns : List String} (hcolumns : columns ≠ [])
    {op negated : Operator}
    (hop : (op, negated) ∈ [(Operator.eq, Operator.ne), (.isIn, .notIn)]) (v : Value) :
    OpposedOutcomes (ofTuples a columns op v) (ofTuples a columns negated v) := by
  have hagree := agree_ofTupleList_negated a hcolumns (tuples v)
  rw [ofTuples_eq, ofTuples_eq]
  simp only [List.mem_cons, Prod.mk.injEq, List.not_mem_nil, or_false] at hop
  rcases hop with ⟨rfl, rfl⟩ | ⟨rfl, rfl⟩
  · exact opposedOutcomes_of_agree hagree
  · exact opposedOutcomes_of_agree hagree

/-- On columns of a table, `!=` is the negation of `=` and `NOT IN` that of `IN`: one is refused
where the other is, and otherwise they evaluate to opposite truth values in every engine, database
and row. -/
theorem ofColumns_negated (a : String) {columns : List String} (hcolumns : columns ≠ [])
    {op negated : Operator} (hop : (op, negated) ∈ [(Operator.eq, Operator.ne), (.isIn, .notIn)])
    (v : Value) :
    ((∃ f, ofColumns a op v columns = .error f) ↔ ∃ f, ofColumns a negated v columns = .error f) ∧
      ∀ x y, ofColumns a op v columns = .ok x → ofColumns a negated v columns = .ok y →
        ∀ (E : Engine) (db : Database E) (scalar : Database.Scalar E) (e : Scene E),
          db.eval scalar e y = (db.eval scalar e x).not := by
  have houtcomes : OpposedOutcomes (ofColumns a op v columns) (ofColumns a negated v columns) := by
    match columns, hcolumns with
    | [column], _ => exact opposedOutcomes_scalar a column hop v
    | c :: c' :: rest, hcolumns => exact opposedOutcomes_tuples a hcolumns hop v
  rcases houtcomes with ⟨f, g, hf, hg⟩ | ⟨x, y, hx, hy, hopposed⟩
  · rw [hf, hg]
    exact ⟨⟨fun _ => ⟨g, rfl⟩, fun _ => ⟨f, rfl⟩⟩, fun _ _ h => nomatch h⟩
  · rw [hx, hy]
    refine ⟨⟨fun ⟨_, h⟩ => (nomatch h), fun ⟨_, h⟩ => (nomatch h)⟩, ?_⟩
    intro x' y' hx' hy'
    obtain rfl := Except.ok.inj hx'
    obtain rfl := Except.ok.inj hy'
    exact hopposed

/-- Three tuples: one with a missing value, one with a list inside, one of plain values. -/
def Negated.tuples : Value :=
  .list [.list [.int 1, .null], .list [.list [.int 2, .int 3], .text "x"],
    .list [.bool true, .raw "1"]]

theorem ofColumns_negated_tuples :
    ∃ x y, ofColumns "_" .eq Negated.tuples ["a", "b"] = .ok x ∧
      ofColumns "_" .ne Negated.tuples ["a", "b"] = .ok y ∧
      ∀ (E : Engine) (db : Database E) (scalar : Database.Scalar E) (e : Scene E),
        db.eval scalar e y = (db.eval scalar e x).not :=
  ⟨_, _, rfl, rfl, (ofColumns_negated "_" (List.cons_ne_nil "a" ["b"]) List.mem_cons_self
    Negated.tuples).2 _ _ rfl rfl⟩

end Condition

end PathQuery
