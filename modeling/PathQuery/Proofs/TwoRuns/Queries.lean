import PathQuery.Proofs.TwoRuns.Clauses
import PathQuery.Proofs.TwoRuns.Rendering
import PathQuery.Query

/-!
The SQL of a query does not depend on the values in it. Two runs of a query on options that differ
scalar for scalar fail with the same error, or end with the same text, and the connection receives
the scalars of either run in the same places.
-/

set_option autoImplicit false

namespace PathQuery

variable {ρ : Value → Value → Prop}

/-- Two scalars that stand in the same place: both NULL, or related. -/
def Value.ScalarsAlike (ρ : Value → Value → Prop) (v w : Value) : Prop :=
  v.isScalar ∧ w.isScalar ∧ v.Alike ρ w

namespace Value

mutual

theorem flatten_alike (v : Value) {w : Value} (h : v.Alike ρ w) :
    List.Forall₂ (ScalarsAlike ρ) v.flatten w.flatten := by
  cases v with
  | list xs =>
    obtain ⟨ys, rfl, hys⟩ := h
    exact flattenAll_alike xs hys
  | entity xs =>
    obtain ⟨ys, rfl, hys⟩ := h
    exact flattenAll_alike xs hys
  | raw sql =>
    obtain rfl := h
    exact .nil
  | null =>
    obtain rfl := h
    exact .cons ⟨rfl, rfl, rfl⟩ .nil
  | _ =>
    obtain ⟨hv, hw, hρ⟩ := h
    have hvs := isScalar_of_isData hv
    have hws := isScalar_of_isData hw
    rw [flatten_of_isScalar hvs, flatten_of_isScalar hws]
    exact .cons ⟨hvs, hws, alike_of_isData hv hw hρ⟩ .nil
termination_by structural v

theorem flattenAll_alike (vs : List Value) {ws : List Value} (h : AllAlike ρ vs ws) :
    List.Forall₂ (ScalarsAlike ρ) (flattenAll vs) (flattenAll ws) := by
  cases vs with
  | nil =>
    obtain rfl := h
    exact .nil
  | cons v vs =>
    obtain ⟨w, ws', rfl, hv, hvs⟩ := h
    exact List.rel_append (flatten_alike v hv) (flattenAll_alike vs hvs)
termination_by structural vs

end

end Value

theorem Options.Alike.over {g : Target} {o o' : Options} (h : o.Alike ρ o') (depth : Nat)
    (hfree : o.filter.avoidsHooks g) :
    o.AlikeOver ρ g (List.Forall₂ (Condition.Alike ρ)) depth o' where
  rest := h.rest
  empty := isEmpty_eq_of_forall₂ h.filter.criteria
  assignments := h.assignments
  rows := h.rows
  conditions := Options.related_conditions (Filter.related_resolve depth h.filter hfree)
    fun _ _ _ _ ht hxy => JoinTree.agree_settleRoot ht hxy

theorem Request.agree_build (depth : Nat) (r : Request) {o : Options} (h : r.options.Alike ρ o)
    (hfree : r.options.filter.avoidsHooks r.target) :
    Agree (Statement.Alike ρ) (r.build depth) ({ r with options := o }.build depth) :=
  (r.agree_build_over (h.over depth hfree) .nil fun _ _ => Condition.anySubquery_eq).mono
    fun _ _ hs => ⟨hs.frame, hs.conditions⟩

namespace Query

theorem compile_of_pending (depth : Nat) {q : Query} (h : q = q.reset) :
    (q.compile depth).1 =
      q.request.build depth >>= fun s => (s.compile (.of s)).mapError .error := by
  have hrestart : q.restart = q := by
    rw [h]
    rfl
  have hnone : q.statement? = none ∧ q.compiled? = none := by
    rw [h]
    exact ⟨rfl, rfl⟩
  cases hb : q.request.build depth with
  | error e => simp [compile, assemble, hrestart, hnone, hb, bind, Except.bind]
  | ok s =>
    cases hc : s.compile (.of s) with
    | error e =>
      simp [compile, assemble, hrestart, hnone, hb, hc, bind, Except.bind, Except.mapError]
    | ok c => simp [compile, assemble, hrestart, hnone, hb, hc, bind, Except.bind, Except.mapError]

/-- Options that differ in their scalars alone, with no condition on a hooked attribute, fail with
the same error or compile to the same SQL. The parameters are as many, and in each place stand the
two scalars that stand in one place of the options. -/
theorem sql_independent_of_values (ρ : Value → Value → Prop) (depth : Nat) (q : Query)
    (o o' : Options) (h : o.Alike ρ o') (hfree : o.filter.avoidsHooks q.request.target) :
    Agree (fun c c' => c.sql = c'.sql ∧
        List.Forall₂ (Value.ScalarsAlike ρ) c.flatParams c'.flatParams)
      ((q.withOptions fun _ => o).compile depth).1
      ((q.withOptions fun _ => o').compile depth).1 := by
  rw [compile_of_pending depth rfl, compile_of_pending depth rfl]
  have hbuild := Request.agree_build depth { q.request with options := o } h hfree
  refine hbuild.bind fun s s' hs => ?_
  have hcompile := Statement.agree_compile hs
  generalize s.compile (.of s) = x at hcompile ⊢
  generalize s'.compile (.of s') = y at hcompile ⊢
  cases hcompile with
  | error e => exact .error _
  | ok hpieces =>
    refine .ok ⟨?_, ?_⟩
    · rw [Compiled.sql, Compiled.sql, hpieces.chars]
    · exact Value.flattenAll_alike _ (Value.allAlike_iff.2 hpieces.params)

/-- A text in place of a number, and in a list, changes no SQL; the label of the model has a hook,
which neither list of conditions asks about. -/
theorem sql_independent_of_values_of_users :
    let label : Hook := fun _ v => .ok (Filter.empty.eq "name" v)
    let user : Model := {
      name := "User"
      table := (Table.named "users").withColumns ["id", "name", "age"]
      relations := []
      hooks := [("label", label)] }
    let q : Query := { request := { target := .model ⟨[user], {}⟩ "User", kind := .select } }
    let o (name : Value) (ages : List Value) : Options := {
      filter := (Filter.empty.eq "name" name).membership "age" (ages ++ [.null]) false }
    let ρ : Value → Value → Prop := fun v w => (v, w) ∈
      [(.int 1, .text "x' OR 1=1 --"), (.int 2, .uuid ⟨7⟩)]
    (o (.int 1) [.int 2]).Alike ρ (o (.text "x' OR 1=1 --") [.uuid ⟨7⟩]) ∧
      (o (.int 1) [.int 2]).filter.avoidsHooks q.request.target ∧
      Agree (fun c c' => c.sql = c'.sql ∧
          List.Forall₂ (Value.ScalarsAlike ρ) c.flatParams c'.flatParams)
        ((q.withOptions fun _ => o (.int 1) [.int 2]).compile 1).1
        ((q.withOptions fun _ => o (.text "x' OR 1=1 --") [.uuid ⟨7⟩]).compile 1).1 := by
  intro label user q o ρ
  have h : (o (.int 1) [.int 2]).Alike ρ (o (.text "x' OR 1=1 --") [.uuid ⟨7⟩]) := by
    refine
      { rest := rfl, filter := ⟨.cons ?_ (.cons ?_ .nil), rfl⟩, assignments := .nil, rows := .nil }
    · exact ⟨_, rfl, rfl, rfl, by simp [ρ]⟩
    · refine ⟨_, rfl, .cons ⟨rfl, rfl, by simp [ρ]⟩ (.cons rfl .nil)⟩
  have hfree : (o (.int 1) [.int 2]).filter.avoidsHooks q.request.target := by
    decide
  exact ⟨h, hfree, sql_independent_of_values ρ 1 q _ _ h hfree⟩

end Query

end PathQuery
