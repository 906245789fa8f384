import PathQuery.Proofs.Filter.Shaped
import PathQuery.Proofs.JoinTree.Meaning
import PathQuery.Proofs.JoinTree.Writable
import PathQuery.Proofs.Request.Built

/-!
Statements that build can be written. What their kind asks for is there once they are built, and
their conditions are those of the filter, settled; only a group that was written without members is
refused when it comes to SQL.
-/

set_option autoImplicit false

namespace PathQuery

namespace Options

open Building JoinTree

variable {o : Options} {start u : JoinTree} {depth : Nat} {st : Statement}

theorem made_of_select (h : o.select depth start = .ok (st, u)) :
    st.kind = .select ∧ st.Complete := by
  obtain ⟨source, t₁, hsource, h⟩ := exists_of_bind h
  obtain ⟨fields, t₂, -, h⟩ := exists_of_bind h
  rcases run_ite (run_get h) with ⟨-, h⟩ | ⟨-, h⟩
  · obtain ⟨_, _, -, h⟩ := exists_of_bind h
    cases h
  obtain ⟨eager, t₃, -, h⟩ := exists_of_bind h
  obtain ⟨groups, t₄, -, h⟩ := exists_of_bind h
  obtain ⟨aggregates, t₅, -, h⟩ := exists_of_bind h
  obtain ⟨orderBy, t₆, -, h⟩ := exists_of_bind h
  obtain ⟨limit, t₇, -, h⟩ := exists_of_bind h
  obtain ⟨offset, t₈, -, h⟩ := exists_of_bind h
  obtain ⟨conditions, t₉, -, h⟩ := exists_of_bind h
  obtain ⟨rfl, -⟩ := Prod.mk.inj (Except.ok.inj h)
  obtain ⟨rfl, -⟩ := Prod.mk.inj (Except.ok.inj hsource)
  refine ⟨rfl, fun a ha => ?_⟩
  cases ha

theorem made_of_insert (h : o.insert start = .ok (st, u)) :
    st.kind = .insert ∧ st.Complete := by
  rcases run_ite h with ⟨-, h⟩ | ⟨-, h⟩
  · cases h
  rcases run_ite h with ⟨-, h⟩ | ⟨-, h⟩
  · cases h
  obtain ⟨columns, t₁, -, h⟩ := exists_of_bind h
  obtain ⟨_, t₂, -, h⟩ := exists_of_bind h
  obtain ⟨rfl, -⟩ := Prod.mk.inj (Except.ok.inj h)
  refine ⟨rfl, by simp, ?_⟩
  change o.insertion.2 ≠ []
  unfold insertion
  split
  · exact List.cons_ne_nil _ _
  · next hrows => simpa using hrows

theorem made_of_update (h : o.update depth start = .ok (st, u)) :
    st.kind = .update ∧ st.Complete := by
  rcases run_ite h with ⟨-, h⟩ | ⟨hassignments, h⟩
  · cases h
  obtain ⟨source, t₁, hsource, h⟩ := exists_of_bind h
  obtain ⟨assignments, t₂, hmade, h⟩ := exists_of_bind h
  obtain ⟨conditions, t₃, -, h⟩ := exists_of_bind h
  obtain ⟨rfl, -⟩ := Prod.mk.inj (Except.ok.inj h)
  obtain ⟨rfl, -⟩ := Prod.mk.inj (Except.ok.inj hsource)
  refine ⟨rfl, ⟨_, _, rfl⟩, ?_⟩
  cases hgiven : o.assignments with
  | nil => simp [hgiven] at hassignments
  | cons target rest =>
    rw [hgiven, List.mapM_cons] at hmade
    obtain ⟨x, t₄, -, hmade⟩ := exists_of_bind hmade
    obtain ⟨xs, t₅, -, hmade⟩ := exists_of_bind hmade
    obtain ⟨rfl, -⟩ := Prod.mk.inj (Except.ok.inj hmade)
    exact List.cons_ne_nil _ _

theorem made_of_delete (h : o.delete depth start = .ok (st, u)) :
    st.kind = .delete ∧ st.Complete := by
  obtain ⟨source, t₁, hsource, h⟩ := exists_of_bind h
  obtain ⟨conditions, t₂, -, h⟩ := exists_of_bind h
  obtain ⟨rfl, -⟩ := Prod.mk.inj (Except.ok.inj h)
  obtain ⟨rfl, -⟩ := Prod.mk.inj (Except.ok.inj hsource)
  split
  · exact ⟨rfl, .inl ⟨_, _, rfl⟩⟩
  · exact ⟨rfl, .inr ⟨rfl, by simp⟩⟩

/-- A statement is of the kind that was asked for, with what that kind needs. -/
theorem made_of_statement {kind : StatementKind}
    (h : o.statement depth kind start = .ok (st, u)) : st.kind = kind ∧ st.Complete := by
  cases kind with
  | select => exact made_of_select h
  | insert => exact made_of_insert h
  | update => exact made_of_update h
  | delete => exact made_of_delete h

theorem kind_of_statement {kind : StatementKind}
    (h : o.statement depth kind start = .ok (st, u)) : st.kind = kind :=
  (made_of_statement h).1

theorem complete_of_statement {kind : StatementKind}
    (h : o.statement depth kind start = .ok (st, u)) : st.Complete :=
  (made_of_statement h).2

end Options

namespace Request

open JoinTree

variable {settings : Settings} {decls : List ModelDecl} {s : Schema} {name : String} {m : Model}
  {r : Request} {depth : Nat} {st : Statement} {hollow : Prop}

theorem throughout_resolved (hclosed : s.Closed) (hkeys : ∀ m ∈ s.models, m.table.primaryKey ≠ [])
    {t : JoinTree} (ht : t.Over s) (hm : t.model? rootId = some m) {f : Filter}
    (hplain : s.AvoidsSelects (m, f)) (hgroups : ¬ hollow → s.NoEmptyGroup (m, f))
    {xs : List Condition} (h : t.ResolvesAll rootId f.criteria xs) :
    ∀ x ∈ xs, x.Throughout (Condition.Sound hollow) :=
  h.throughout ht hclosed hkeys ht.wellFormed.nonempty hm (Schema.returns_of_calls hplain hgroups)
    (hplain _ .refl) fun hfull => (hgroups hfull).members _ .refl

theorem model?_of_reached (hm : s.model name = .ok m) {start t : JoinTree}
    (hstart : JoinTree.ofModel s name = .ok start) (h : Reached start t) :
    t.model? rootId = some m := by
  obtain ⟨hroot, -⟩ := root_of_ofModel (Schema.model_eq_ok_iff.1 hm) hstart
  rw [h.grown.model? rootId (wellFormed_ofModel hstart).nonempty, hroot]

theorem throughout_built (hresolve : Schema.resolve settings decls = .ok s)
    (hkeys : ∀ m ∈ s.models, m.table.primaryKey ≠ []) (hm : s.model name = .ok m)
    (htarget : r.target = .model s name) (hplain : s.AvoidsSelects (m, r.options.filter))
    (hgroups : ¬ hollow → s.NoEmptyGroup (m, r.options.filter)) (h : r.build depth = .ok st) :
    ∀ x ∈ st.conditions, x.Throughout (Condition.Sound hollow) := by
  obtain ⟨start, t, u, xs, hstart, hreached, hresolved, hrun⟩ := settled_of_build h
  rw [joinTree, htarget] at hstart
  obtain ⟨settled, hsettled, hconditions, -⟩ := settleRoot_eq_ok hrun
  have hover : t.Over s := (Planted.model hstart).over.later hreached
  have hxs := throughout_resolved (Schema.closed_of_resolve hresolve) hkeys hover
    (model?_of_reached hm hstart hreached) hplain hgroups hresolved
  have hw := hover.wellFormed.of_sameShape (sameShape_requireAll t (t.requiredBy xs))
  rw [hconditions]
  exact hw.throughout_settle rootId xs hxs settled hsettled

/-- A statement that builds, with no SELECT of the caller in its filter or in what hooks return for
it, compares single columns with operands that fit, wherever the filter is resolved and down to the
innermost SELECT of the statement. If also no group is empty, it compiles. -/
theorem compile_of_build (hresolve : Schema.resolve settings decls = .ok s)
    (hkeys : ∀ m ∈ s.models, m.table.primaryKey ≠ []) (hm : s.model name = .ok m)
    (htarget : r.target = .model s name) (hplain : s.AvoidsSelects (m, r.options.filter))
    (h : r.build depth = .ok st) :
    (∀ start t u xs, JoinTree.ofModel s name = .ok start → Reached start t →
        r.options.filter.resolve depth rootId t = .ok (xs, u) →
        ∀ x ∈ xs, x.Throughout Condition.Shaped) ∧
      (∀ x ∈ st.conditions, x.Throughout Condition.Shaped) ∧
      (s.NoEmptyGroup (m, r.options.filter) → ∃ c, st.compile (.of st) = .ok c) := by
  have hshaped : ∀ {xs : List Condition}, (∀ x ∈ xs, x.Throughout (Condition.Sound True)) →
      ∀ x ∈ xs, x.Throughout Condition.Shaped :=
    fun hxs x hx => (hxs x hx).imp fun _ => Condition.Sound.shaped
  refine ⟨fun start t u xs hstart ht hxs => hshaped ?_, hshaped ?_, fun hgroups => ?_⟩
  · have hover := (Planted.model hstart).over.later ht
    obtain ⟨hu, -, hresolved⟩ := Filter.expands_resolve (P := fun _ _ => True) depth rootId
      r.options.filter t hover.wellFormed hover.wellFormed.nonempty xs u hxs
    exact throughout_resolved (Schema.closed_of_resolve hresolve) hkeys (hover.later hu)
      (model?_of_reached hm hstart (ht.trans hu)) hplain (fun hfull => absurd trivial hfull)
      hresolved
  · exact throughout_built hresolve hkeys hm htarget hplain (fun hfull => absurd trivial hfull) h
  · obtain ⟨start, u, -, hrun⟩ := run_of_build htarget h
    exact Statement.exists_compile (Options.complete_of_statement hrun)
      (throughout_built hresolve hkeys hm htarget hplain (fun _ => hgroups) h) _

/-- Authors of an article B or C, one of them with a number above 1: tested by division, with a list
inside. -/
def prolific : Request where
  target := .model Blog.schema "Author"
  kind := .select
  options := {
    filter := (Filter.empty.eq "articles/title" (.list [.text "B", .text "C"])).compare
      "articles/id" ">" (.list [.int 1]) }

theorem compile_of_build_prolific :
    ∃ m st c, Schema.resolve {} Blog.decls = .ok Blog.schema ∧
      (∀ m ∈ Blog.schema.models, m.table.primaryKey ≠ []) ∧ Blog.schema.model "Author" = .ok m ∧
      Blog.schema.AvoidsSelects (m, prolific.options.filter) ∧
      Blog.schema.NoEmptyGroup (m, prolific.options.filter) ∧ prolific.build 1 = .ok st ∧
      (∀ x ∈ st.conditions, x.Throughout Condition.Shaped) ∧ st.compile (.of st) = .ok c := by
  have hresolve : Schema.resolve {} Blog.decls = .ok Blog.schema := by with_unfolding_all rfl
  have hkeys : ∀ m ∈ Blog.schema.models, m.table.primaryKey ≠ [] := by decide
  obtain ⟨m, hm, hcalls⟩ : ∃ m, Blog.schema.model "Author" = .ok m ∧
      Blog.schema.calls (m, prolific.options.filter) = [] := ⟨_, rfl, by decide +kernel⟩
  have hself : ∀ c, Blog.schema.LeadsTo (m, prolific.options.filter) c →
      c = (m, prolific.options.filter) := by
    intro c hleads
    rcases hleads.cases_head with rfl | ⟨c', hc', -⟩
    · rfl
    · rw [hcalls] at hc'
      cases hc'
  have hplain : Blog.schema.AvoidsSelects (m, prolific.options.filter) := by
    intro c hleads
    rw [hself c hleads]
    rfl
  have hgroups : Blog.schema.NoEmptyGroup (m, prolific.options.filter) := by
    refine ⟨fun c hleads => ?_, fun c hleads c' hc' => ?_⟩
    · rw [hself c hleads]
      rfl
    · rw [hself c hleads, hcalls] at hc'
      cases hc'
  have hopens : prolific.opens 1 = true := by decide +kernel
  obtain ⟨st, hst⟩ := exists_build rfl hopens
  obtain ⟨-, hshaped, hcompiles⟩ := compile_of_build hresolve hkeys hm rfl hplain hst
  obtain ⟨c, hc⟩ := hcompiles hgroups
  exact ⟨m, st, c, hresolve, hkeys, hm, hplain, hgroups, hst, hshaped, hc⟩

end Request

end PathQuery
