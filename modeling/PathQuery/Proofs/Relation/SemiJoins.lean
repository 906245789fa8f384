import PathQuery.Proofs.Database.Overlooked
import PathQuery.Proofs.Relation.Tested

/-!
Semi-joins against the rows that a relation leads to. Whatever the strategy, a semi-join asks for
linked rows and for nothing that its own aliases stand for.
-/

set_option autoImplicit false

namespace PathQuery

variable {E : Engine} {db : Database E} {scalar : Database.Scalar E}

namespace Relation

def ownAliases (tableAlias : String) : List String :=
  [joinTableAlias tableAlias, seriesAlias tableAlias]

/-- A row linked to the one under the outer alias, together with what is joined to it. -/
def SomeLinked (r : Relation) (db : Database E) (e : Scene E) (parentAlias tableAlias : String)
    (extra : List Join) (Q : Scene E → Prop) : Prop :=
  ∃ y ∈ r.linkedRows db (e parentAlias), ∃ e' ∈ db.joins (e.put tableAlias y) extra, Q e'

variable {r : Relation} {p a : String} {extra : List Join} {conditions : List Condition}
  {e : Scene E} {strategy : Strategy} {c : Connective}

theorem Inside.agreeOff {y : Tuple E} {base : Scene E} (h : Inside a e y base) :
    base.AgreeOff (ownAliases a) (e.put a y) := by
  intro b hb
  obtain ⟨hbetween, -⟩ : b ≠ joinTableAlias a ∧ b ≠ seriesAlias a := by
    simpa [ownAliases] using hb
  by_cases hlinked : b = a
  · rw [hlinked, h.row, Scene.put_same]
  · rw [h.rest b hlinked hbetween, Scene.put_other _ _ hlinked]

theorem Inside.agreeOff_series {y row : Tuple E} {base : Scene E}
    (h : Inside a (e.put (seriesAlias a) row) y base) :
    base.AgreeOff (ownAliases a) (e.put a y) := by
  intro b hb
  rw [h.agreeOff b hb]
  obtain ⟨-, hseries⟩ : b ≠ joinTableAlias a ∧ b ≠ seriesAlias a := by
    simpa [ownAliases] using hb
  by_cases hlinked : b = a
  · rw [hlinked, Scene.put_same, Scene.put_same]
  · rw [Scene.put_other _ _ hlinked, Scene.put_other _ _ hlinked, Scene.put_other _ _ hseries]

theorem someLinked_true (hclear : Clear p a extra) :
    (r.SomeLinked db e p a extra fun _ => True) ↔ r.linkedRows db (e p) ≠ [] := by
  constructor
  · rintro ⟨y, hy, -⟩
    exact List.ne_nil_of_mem hy
  · intro h
    obtain ⟨y, hy⟩ := List.exists_mem_of_ne_nil _ h
    obtain ⟨e', he'⟩ := List.exists_mem_of_ne_nil _
      (Database.joins_ne_nil db hclear.outer (e.put a y))
    exact ⟨y, hy, e', he', trivial⟩

section Overlooked

variable (hclear : Clear p a extra)
  (hextra : ∀ j ∈ extra, ∀ c ∈ j.columnRefs, c.tableAlias ∉ ownAliases a)
  (hconditions : ∀ x ∈ conditions, db.Overlooks scalar (ownAliases a) x)

include hclear hextra hconditions

theorem lets_single_iff_someLinked
    (hreads : r.ReadsLinked a extra conditions false ∨ r.PointsAtRows db) :
    db.Lets scalar e ((r.body p a extra conditions false).single c) ↔
      r.SomeLinked db e p a extra fun e' => db.LetsAll scalar e' conditions := by
  refine lets_single hclear hreads fun y _ base hbase => ?_
  exact Database.exists_joined_of_agreeOff hextra
    (fun _ _ h => Database.letsAll_of_agreeOff hconditions h) hbase.agreeOff

theorem lets_divided_iff_someLinked :
    db.Lets scalar e ((r.body p a extra conditions true).divided a c) ↔
      ∀ x ∈ conditions, r.SomeLinked db e p a extra fun e' => db.Lets scalar e' x := by
  refine lets_divided hclear fun y _ k base hbase x hx => ?_
  refine Database.exists_joined_of_agreeOff hextra (fun e₁ e₂ h => ?_) hbase.agreeOff_series
  rw [Database.Lets, Database.Lets, hconditions x hx e₁ e₂ h]

/-- A semi-join holds of a row iff one linked row satisfies the conditions together, and by division
of several conditions iff each of them is satisfied by a linked row. The linked rows are read off
their own table or off a table between whose rows all point at one. -/
theorem semiJoin_asks (c : Connective)
    (hreads : r.ReadsLinked a extra conditions
      (strategy == .division && decide (2 ≤ conditions.length)) ∨ r.PointsAtRows db) :
    (¬ (strategy = .division ∧ 2 ≤ conditions.length) →
      (db.Lets scalar e (r.semiJoin p a extra conditions strategy c) ↔
        r.SomeLinked db e p a extra fun e' => db.LetsAll scalar e' conditions)) ∧
    (conditions = [] → (db.Lets scalar e (r.semiJoin p a extra conditions strategy c) ↔
      r.linkedRows db (e p) ≠ [])) ∧
    (strategy = .division → 2 ≤ conditions.length →
      (db.Lets scalar e (r.semiJoin p a extra conditions strategy c) ↔
        ∀ x ∈ conditions, r.SomeLinked db e p a extra fun e' => db.Lets scalar e' x)) := by
  have htogether : ¬ (strategy = .division ∧ 2 ≤ conditions.length) →
      (db.Lets scalar e (r.semiJoin p a extra conditions strategy c) ↔
        r.SomeLinked db e p a extra fun e' => db.LetsAll scalar e' conditions) := by
    intro h
    have hfalse : (strategy == .division && decide (2 ≤ conditions.length)) = false := by
      simpa using h
    rw [hfalse] at hreads
    rw [semiJoin_eq, if_neg h]
    exact lets_single_iff_someLinked hclear hextra hconditions hreads
  refine ⟨htogether, ?_, ?_⟩
  · rintro rfl
    rw [htogether (by simp), ← someLinked_true hclear]
    simp only [Database.letsAll_nil]
  · intro hdivision hlength
    rw [semiJoin_eq, if_pos ⟨hdivision, hlength⟩]
    exact lets_divided_iff_someLinked hclear hextra hconditions

end Overlooked

namespace Owned

def tags : Relation :=
  { name := "tags", kind := .manyMany ⟨"articles_tags", "article_id", "tag_id"⟩
    current := ⟨"Article", "articles", "id", "id"⟩, linked := ⟨"Tag", "tags", "id", "id"⟩ }

def owner : Join :=
  { table := "authors", tableAlias := "tags.owner", kind := .left
    on := [.equal ⟨"tags.owner", "id"⟩ ⟨"tags", "author_id"⟩] }

def asked : List Condition :=
  [.ofColumn "tags" "name" .eq (.text "A"), .ofColumn "tags.owner" "name" .eq (.text "B")]

def row (contents : List (String × String)) : Tuple Engine.textual :=
  fun column => contents.lookup column

/-- An article with two tags: one is called A, the other one belongs to the author B. -/
def tables : Database Engine.textual :=
  fun name => match name with
    | "articles_tags" => [row [("article_id", "1"), ("tag_id", "2")],
        row [("article_id", "1"), ("tag_id", "3")]]
    | "tags" => [row [("id", "2"), ("name", "'A'")], row [("id", "3"), ("author_id", "4")]]
    | "authors" => [row [("id", "4"), ("name", "'B'")]]
    | _ => []

def scene : Scene Engine.textual :=
  fun _ => row [("id", "1")]

end Owned

/-- Each of the two conditions is satisfied by a tag and both of them by none. -/
theorem semiJoin_asks_of_tags :
    let test := fun strategy =>
      Owned.tags.semiJoin rootAlias "tags" [Owned.owner] Owned.asked strategy .and
    Clear rootAlias "tags" [Owned.owner] ∧
      (∀ j ∈ [Owned.owner], ∀ c ∈ j.columnRefs, c.tableAlias ∉ ownAliases "tags") ∧
      (∀ x ∈ Owned.asked,
        Owned.tables.Overlooks (fun _ _ _ => none) (ownAliases "tags") x) ∧
      (∀ division, Owned.tags.ReadsLinked "tags" [Owned.owner] Owned.asked division) ∧
      Owned.tables.Lets (fun _ _ _ => none) Owned.scene (test .division) ∧
      ¬ Owned.tables.Lets (fun _ _ _ => none) Owned.scene (test .existence) := by
  intro test
  have hclear : Clear rootAlias "tags" [Owned.owner] := by constructor <;> decide +kernel
  have hjoins : ∀ j ∈ [Owned.owner], ∀ c ∈ j.columnRefs, c.tableAlias ∉ ownAliases "tags" := by
    decide +kernel
  have hconditions : ∀ x ∈ Owned.asked,
      Owned.tables.Overlooks (fun _ _ _ => none) (ownAliases "tags") x := by
    have hmentioned : ∀ x ∈ Owned.asked, ∀ b ∈ ownAliases "tags", b ∉ x.mentioned := by
      decide +kernel
    exact fun x hx => Database.eval_of_agreeOff (fun _ _ _ _ _ _ _ => rfl) x (hmentioned x hx)
  have hreads : ∀ division,
      Owned.tags.ReadsLinked "tags" [Owned.owner] Owned.asked division :=
    fun division through _ => by simp
  refine ⟨hclear, hjoins, hconditions, hreads, ?_, ?_⟩
  · refine ((semiJoin_asks hclear hjoins hconditions .and (.inl (hreads _))).2.2 rfl
      (by decide)).2 ?_
    unfold SomeLinked Database.Lets
    decide +kernel
  · refine mt ((semiJoin_asks hclear hjoins hconditions .and (.inl (hreads _))).1
      (by decide)).1 ?_
    unfold SomeLinked Database.LetsAll
    decide +kernel

end Relation

end PathQuery
