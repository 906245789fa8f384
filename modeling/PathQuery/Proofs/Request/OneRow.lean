import PathQuery.Proofs.JoinTree.OneRow
import PathQuery.Proofs.Request.Connectives

/-!
One criterion that becomes several comparisons of the rows of one node: of the columns that it
lists, or of those that a hook asks for. A row of which all of them hold is enough for a statement
to select. It is all that a statement asks for where they are joined by OR, or where no more than
one row is linked. Joined by AND they are divided over the linked rows, as the criteria of a filter
are, and may hold of one row each.
-/

set_option autoImplicit false

namespace PathQuery

open JoinTree

namespace Threads

def operator (negated : Bool) : Operator :=
  if negated then .ne else .eq

def pair (negated : Bool) : Criterion :=
  .compare .and "articles/title,id" (if negated then "!=" else "=") (.list [.text "D", .int 3])

def halves (negated : Bool) : List Condition :=
  [.compare .and "articles" ["title"] (operator negated) (.text "D"),
    .compare (if negated then .or else .and) "articles" ["id"] (operator negated) (.int 3)]

theorem resolves_pair (negated : Bool) :
    tree.Resolves rootId (pair negated) (.group .and (halves negated)) := by
  have hsegments : segments "articles/title,id" = ["articles", "title,id"] := by decide +kernel
  have hfound : tree.resolveFrom rootId "articles/title,id" = (.ok (1, "title,id"), tree) := by
    simp only [resolveFrom, hsegments]
    rfl
  have hread : Operator.parse (if negated then "!=" else "=") = .ok (operator negated) := by
    cases negated <;> with_unfolding_all rfl
  have habout : Building.columnsOf 1 "title,id" tree = .ok ((1, ["title", "id"]), tree) := by
    with_unfolding_all rfl
  have hmade : Condition.ofColumns (tree.node 1).tableAlias (operator negated)
      (Value.list [.text "D", .int 3]).dereference ["title", "id"] =
        .ok (.group .and (halves negated)) := by
    cases negated <;> with_unfolding_all rfl
  exact Resolves.compare hread hfound rfl habout hmade

theorem owner?_halves (negated : Bool) : ∀ x ∈ halves negated, tree.owner? x = some 1 := by
  simp only [halves, List.forall_mem_cons, List.not_mem_nil, false_implies, implies_true, and_true]
  exact ⟨rfl, rfl⟩

theorem anchor?_articles : tree.anchor? rootId 1 = some 1 := by
  rw [anchor?, pathBetween?_of_parent (p := rootId) (by decide) rfl (by decide), pathBetween?_self]
  rfl

theorem about_halves (negated : Bool) : tree.About 1 (.group .and (halves negated)) :=
  ⟨rfl, rfl, trivial⟩

end Threads

namespace BuiltOf

variable {E : Engine} {db : Database E} {s : Schema} {name : String} {st : Statement}
  {start u : JoinTree} {x : Tuple E} {id : Nat} {c : Connective} {path operator : String}
  {v : Value} {members : List Condition}

/-- A comparison that becomes several selects what has one row of which all of them hold, and
nothing else if they are joined by OR or there is no more than one row to hold of. -/
theorem selects_one_row (scalar : Database.Scalar E) (g : s.Governs db)
    (h : BuiltOf s name [.compare c path operator v] st)
    (hstart : JoinTree.ofModel s name = .ok start) (hx : x ∈ db (start.table rootId).name)
    (hu : Reached start u)
    (hy : u.Resolves rootId (.compare c path operator v) (.group c members))
    (habout : u.About id (.group c members)) :
    let rows := u.extend db (fun _ => nullRow) rootId x
    (∀ picked, u.Picks db id rootId rows picked →
      db.Lets scalar (u.scene picked) (.group c members) → st.Selects db scalar x) ∧
    (EachGroup (· ≠ []) (.group c members) →
      EachGroup JoinedByOr (.group c members) ∨ u.PicksOnce db id rootId rows →
      (st.Selects db scalar x ↔ ∃ picked, u.Picks db id rootId rows picked ∧
        db.Lets scalar (u.scene picked) (.group c members))) := by
  intro rows
  have hys : u.ResolvesAll rootId [.compare c path operator v] [.group c members] := .cons hy .nil
  have hkept : st.LosesNoRow E := by
    refine h.losesNoRow g.plain.undotted hstart hu hys fun y hmem => ?_
    rw [List.mem_singleton.1 hmem]
    exact fun hmissing => hmissing
  have hselects : st.Selects db scalar x ↔ u.Holds db scalar rootId rows [.group c members] :=
    h.selects_iff g rfl hkept hstart hx hu hys
  refine ⟨fun picked hpicked hlets => ?_, fun hfull hone => ?_⟩
  · exact hselects.2 (hpicked.holds habout hlets)
  · exact hselects.trans (holds_iff_exists_picks habout hfull hone)

/-- An author is selected for an article that has not both the title D and the number 3. -/
theorem selects_one_row_of_other_pair :
    let f : Filter := { criteria := [Threads.pair true] }
    let rows := Threads.tree.extend Threads.tables (fun _ => nullRow) rootId Threads.author
    ∃ st, (Threads.request f).build 1 = .ok st ∧ Threads.schema.Governs Threads.tables ∧
      Threads.author ∈ Threads.tables (Threads.start.table rootId).name ∧
      Threads.tree.Resolves rootId (Threads.pair true) (.group .and (Threads.halves true)) ∧
      Threads.tree.About 1 (.group .and (Threads.halves true)) ∧
      (st.Selects Threads.tables (fun _ _ _ => none) Threads.author ↔
        ∃ picked, Threads.tree.Picks Threads.tables 1 rootId rows picked ∧
          Threads.tables.Lets (fun _ _ _ => none) (Threads.tree.scene picked)
            (.group .and (Threads.halves true))) := by
  intro f rows
  have hopens : (Threads.request f).opens 1 = true := by decide +kernel
  obtain ⟨st, hst⟩ := Request.exists_build rfl hopens
  have hx : Threads.author ∈ Threads.tables (Threads.start.table rootId).name :=
    List.mem_cons_self
  have hresolves := Threads.resolves_pair true
  have hfull : EachGroup (· ≠ []) (.group .and (Threads.halves true)) :=
    ⟨by simp [Threads.halves], trivial, trivial, trivial⟩
  have hor : EachGroup JoinedByOr (.group .and (Threads.halves true)) :=
    ⟨by simp [JoinedByOr, Threads.halves, Condition.connective], trivial, trivial, trivial⟩
  obtain ⟨-, hiff⟩ := selects_one_row (fun _ _ _ => none) Threads.governs
    (BuiltOf.of_select (f := f) hst) rfl hx Threads.reached hresolves (Threads.about_halves true)
  exact ⟨st, hst, Threads.governs, hx, hresolves, Threads.about_halves true, hiff hfull (.inl hor)⟩

/-- One article has the title D and another one the number 3. Asked for an article with both, the
statement selects their author. -/
theorem pair_of_two_articles_selected :
    let f : Filter := { criteria := [Threads.pair false] }
    Threads.schema.Governs Threads.tables ∧ Threads.author ∈ Threads.tables "authors" ∧
      (¬ ∃ article ∈ Threads.articles.linkedRows Threads.tables Threads.author,
        Engine.textual.compare .eq [article "title"] (.text "D") = .holds ∧
          Engine.textual.compare .eq [article "id"] (.int 3) = .holds) ∧
      ∃ st, (Threads.request f).build 1 = .ok st ∧
        st.Selects Threads.tables (fun _ _ _ => none) Threads.author := by
  intro f
  have hopens : (Threads.request f).opens 1 = true := by decide +kernel
  obtain ⟨st, hst⟩ := Request.exists_build rfl hopens
  have hbuilt : BuiltOf Threads.schema "Author" f.criteria st := .of_select hst
  have hys := ResolvesAll.cons (Threads.resolves_pair false) .nil
  have hkept : st.LosesNoRow Engine.textual := by
    refine hbuilt.losesNoRow Threads.governs.plain.undotted rfl Threads.reached hys fun y hy => ?_
    rw [List.mem_singleton.1 hy]
    exact fun hmissing => hmissing
  have hselects : st.Selects Threads.tables (fun _ _ _ => none) Threads.author ↔ _ :=
    hbuilt.selects_iff Threads.governs rfl hkept rfl (List.mem_cons_self : Threads.author ∈ _)
      Threads.reached hys
  refine ⟨Threads.governs, List.mem_cons_self, by decide +kernel, st, hst, hselects.2 ?_⟩
  have hand : ∀ x ∈ (Threads.halves false).drop 1, x.connective = .and := by
    simp [Threads.halves, Condition.connective]
  have halias : Threads.tree.idOfAlias? "articles" = some 1 := rfl
  have harticles : ∀ rows, Threads.tree.rowsAt Threads.tables rows 1 =
      Threads.articles.linkedRows Threads.tables (rows rootId) := fun _ => rfl
  rw [holds_divided (by simp [Threads.halves]) (Threads.owner?_halves false) hand
    Threads.anchor?_articles (JoinedFrom.self _ _).anchor?_eq]
  simp only [Threads.halves, Threads.operator, Bool.false_eq_true, if_false, List.forall_mem_cons,
    List.not_mem_nil, false_implies, implies_true, and_true, leafHolds_compare halias, extend_self,
    harticles, List.map_cons, List.map_nil]
  decide +kernel

end BuiltOf

end PathQuery
