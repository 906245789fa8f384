import PathQuery.Proofs.Outcome
import PathQuery.Query

/-!
The life of a query: any steps in any order, with a connection that answers as it likes. A query
never keeps a statement of options that have changed since, so what it executes is always the
statement of its options at that moment.
-/

set_option autoImplicit false

namespace PathQuery

/-- Built and written afresh, the request gives `c`. -/
def Request.Compiles (depth : Nat) (r : Request) (c : Compiled) : Prop :=
  ∃ s, r.build depth = .ok s ∧ s.compile (.of s) = .ok c

namespace Query

/-- The stage of a query says what it keeps, and what it keeps belongs to its request. -/
structure Coherent (depth : Nat) (q : Query) : Prop where
  pending_iff : q.stage = .pending ↔ q.statement? = none
  assembled_iff : q.stage = .assembled ↔ q.statement?.isSome ∧ q.compiled? = none
  further_iff : q.stage = .compiled ∨ q.stage = .executed ↔ q.statement?.isSome ∧ q.compiled?.isSome
  built : ∀ s, q.statement? = some s → q.request.build depth = .ok s
  written : ∀ c, q.compiled? = some c → ∃ s, q.statement? = some s ∧ s.compile (.of s) = .ok c

structure Prepared (depth : Nat) (q q' : Query) : Prop where
  request : q'.request = q.request
  coherent : q'.Coherent depth
  stage : q'.stage ≠ .executed

variable {depth : Nat} {q : Query}

theorem coherent_of_reset (depth : Nat) (h : q = q.reset) : q.Coherent depth := by
  rw [h]
  exact {
    pending_iff := ⟨fun _ => rfl, fun _ => rfl⟩
    assembled_iff := by simp [reset]
    further_iff := by simp [reset]
    built := by simp [reset]
    written := by simp [reset] }

namespace Coherent

theorem compiles (h : q.Coherent depth) {c : Compiled} (hc : q.compiled? = some c) :
    q.request.Compiles depth c := by
  obtain ⟨s, hs, hwrite⟩ := h.written c hc
  exact ⟨s, h.built s hs, hwrite⟩

theorem compiled_none (h : q.Coherent depth) (hs : q.statement? = none) : q.compiled? = none := by
  cases hc : q.compiled? with
  | none => rfl
  | some c =>
    obtain ⟨s, hs', -⟩ := h.written c hc
    simp [hs] at hs'

theorem restart (h : q.Coherent depth) : Prepared depth q q.restart := by
  by_cases hq : q.stage = .executed
  · rw [Query.restart, if_pos hq]
    exact ⟨rfl, coherent_of_reset depth rfl, by simp [reset]⟩
  · rw [Query.restart, if_neg hq]
    exact ⟨rfl, h, hq⟩

theorem assembled (h : q.Coherent depth) (hs : q.statement? = none) {s : Statement}
    (hbuild : q.request.build depth = .ok s) :
    { q with statement? := some s, stage := .assembled }.Coherent depth where
  pending_iff := by simp
  assembled_iff := by simp [h.compiled_none hs]
  further_iff := by simp [h.compiled_none hs]
  built := by simpa using hbuild
  written := by simp [h.compiled_none hs]

theorem compiled (h : q.Coherent depth) {s : Statement} (hs : q.statement? = some s) {c : Compiled}
    (hwrite : s.compile (.of s) = .ok c) :
    { q with compiled? := some c, stage := .compiled }.Coherent depth where
  pending_iff := by simp [hs]
  assembled_iff := by simp
  further_iff := by simp [hs]
  built := h.built
  written := by simpa [hs] using hwrite

theorem executed (h : q.Coherent depth) {c : Compiled} (hc : q.compiled? = some c) :
    { q with stage := .executed }.Coherent depth := by
  obtain ⟨s, hs, -⟩ := h.written c hc
  exact {
    pending_iff := by simp [hs]
    assembled_iff := by simp [hc]
    further_iff := by simp [hs, hc]
    built := h.built
    written := h.written }

end Coherent

namespace Prepared

theorem trans {q' q'' : Query} (h : Prepared depth q q') (h' : Prepared depth q' q'') :
    Prepared depth q q'' :=
  ⟨h'.request.trans h.request, h'.coherent, h'.stage⟩

end Prepared

theorem prepared_of_assemble {q' : Query} {r : Except Failure Statement} (h : q.Coherent depth)
    (hstep : q.assemble depth = (r, q')) :
    Prepared depth q q' ∧ ∀ s, r = .ok s → q'.statement? = some s := by
  have hrestart := h.restart
  simp only [assemble] at hstep
  split at hstep
  next s hs =>
    obtain ⟨rfl, rfl⟩ := Prod.mk.inj hstep
    exact ⟨hrestart, by simpa using hs⟩
  next hs =>
    split at hstep
    next s hbuild =>
      obtain ⟨rfl, rfl⟩ := Prod.mk.inj hstep
      exact ⟨⟨hrestart.request, hrestart.coherent.assembled hs hbuild, by simp⟩, by simp⟩
    next =>
      obtain ⟨rfl, rfl⟩ := Prod.mk.inj hstep
      exact ⟨hrestart, by simp⟩

theorem prepared_of_compile {q' : Query} {r : Except Failure Compiled} (h : q.Coherent depth)
    (hstep : q.compile depth = (r, q')) :
    Prepared depth q q' ∧ ∀ c, r = .ok c → q'.compiled? = some c := by
  have hrestart := h.restart
  simp only [compile] at hstep
  split at hstep
  next c hc =>
    obtain ⟨rfl, rfl⟩ := Prod.mk.inj hstep
    exact ⟨hrestart, by simpa using hc⟩
  next =>
    split at hstep
    next e q₁ hassemble =>
      obtain ⟨rfl, rfl⟩ := Prod.mk.inj hstep
      exact ⟨hrestart.trans (prepared_of_assemble hrestart.coherent hassemble).1, by simp⟩
    next s q₁ hassemble =>
      obtain ⟨hprepared, hkept⟩ := prepared_of_assemble hrestart.coherent hassemble
      have hprepared := hrestart.trans hprepared
      split at hstep
      next c hwrite =>
        obtain ⟨rfl, rfl⟩ := Prod.mk.inj hstep
        have hcompiled := hprepared.coherent.compiled (hkept s rfl) hwrite
        exact ⟨⟨hprepared.request, hcompiled, by simp⟩, by simp⟩
      next =>
        obtain ⟨rfl, rfl⟩ := Prod.mk.inj hstep
        exact ⟨hprepared, by simp⟩

section Run

variable {σ : Type} {conn : Connection σ} {state : σ}

/-- What a run can do: it fails before anything is sent, or it sends the statement of its request,
and then only a failure of the connection keeps the query from being executed. -/
theorem run_cases (conn : Connection σ) (state : σ) (h : q.Coherent depth) :
    let p := q.run conn depth state
    (p.connection = state ∧ Prepared depth q p.query ∧ ∀ outcome, p.result ≠ .ok outcome) ∨
      ∃ c, q.request.Compiles depth c ∧ Sql.isSafe c.sql = true ∧
        p.connection = (conn.execute state c.sql c.flatParams).2 ∧
          p.query.Coherent depth ∧ p.query.request = q.request ∧
            ∀ e, p.result = .error e → p.query.stage ≠ .executed := by
  intro p
  cases hcompile : q.compile depth with
  | mk r q' =>
    obtain ⟨hprepared, hkept⟩ := prepared_of_compile h hcompile
    cases r with
    | error e =>
      have hp : p = ⟨.error e, q', state, []⟩ := by simp only [p, run, hcompile]
      rw [hp]
      exact .inl ⟨rfl, hprepared, by simp⟩
    | ok c =>
      have hcompiles := hprepared.coherent.compiles (hkept c rfl)
      rw [hprepared.request] at hcompiles
      by_cases hsafe : Sql.isSafe c.sql = true
      · cases hexecute : conn.execute state c.sql c.flatParams with
        | mk answer state' =>
          cases answer with
          | error e =>
            have hp : p = ⟨.error (.error (.ofConnection e c.sql)), q', state',
                [q'.log.entry q'.kind c.sql c.flatParams.length]⟩ := by
              simp only [p, run, hcompile, hsafe, hexecute, Bool.not_true, Bool.false_eq_true,
                if_false]
            rw [hp]
            exact .inr ⟨c, hcompiles, hsafe, by rw [hexecute], hprepared.coherent,
              hprepared.request, fun _ _ => hprepared.stage⟩
          | ok outcome =>
            have hp : p = ⟨.ok outcome, { q' with stage := .executed }, state',
                [q'.log.entry q'.kind c.sql c.flatParams.length]⟩ := by
              simp only [p, run, hcompile, hsafe, hexecute, Bool.not_true, Bool.false_eq_true,
                if_false]
            rw [hp]
            exact .inr ⟨c, hcompiles, hsafe, by rw [hexecute],
              hprepared.coherent.executed (hkept c rfl), hprepared.request, by simp⟩
      · have hp : p = ⟨.error (.error (.unsafeStatement c.sql)), q', state, []⟩ := by
          simp only [p, run, hcompile, hsafe, Bool.not_false, if_true]
        rw [hp]
        exact .inl ⟨rfl, hprepared, by simp⟩

end Run

inductive Step where
  | change (f : Options → Options)
  | assemble
  | compile
  | run
  | fetchAll
  | fetchOptional
  | insertOne
  | count

namespace Step

/-- The step on its own: what it returns is forgotten, whether it failed is not. -/
def perform {σ : Type} (conn : Connection σ) (depth : Nat) (state : σ) (q : Query) :
    Step → Performed σ Unit
  | .change f => ⟨.ok (), q.withOptions f, state, []⟩
  | .assemble => ⟨(q.assemble depth).1.map fun _ => (), (q.assemble depth).2, state, []⟩
  | .compile => ⟨(q.compile depth).1.map fun _ => (), (q.compile depth).2, state, []⟩
  | .run => (q.run conn depth state).map fun _ => .ok ()
  | .fetchAll => (q.fetchAll conn depth state).map fun _ => .ok ()
  | .fetchOptional => (q.fetchOptional conn depth state).map fun _ => .ok ()
  | .insertOne => (q.insertOne conn depth state).map fun _ => .ok ()
  | .count => (q.count conn depth state).map fun _ => .ok ()

def request (q : Query) : Step → Request
  | .count => q.counting.request
  | _ => q.request

def isOwn : Step → Bool
  | .change _ => false
  | .insertOne => false
  | .count => false
  | _ => true

end Step

def performAll {σ : Type} (conn : Connection σ) (depth : Nat) :
    List Step → σ → Query → Query × σ
  | [], state, q => (q, state)
  | step :: rest, state, q =>
    let p := step.perform conn depth state q
    performAll conn depth rest p.connection p.query

section Steps

variable {σ : Type} (conn : Connection σ) (state : σ)

theorem coherent_run (h : q.Coherent depth) : (q.run conn depth state).query.Coherent depth := by
  rcases run_cases conn state h with ⟨-, hprepared, -⟩ | ⟨_, -, -, -, hcoherent, -⟩
  · exact hprepared.coherent
  · exact hcoherent

theorem coherent_perform (h : q.Coherent depth) (step : Step) :
    (step.perform conn depth state q).query.Coherent depth := by
  cases step with
  | change f => exact coherent_of_reset depth rfl
  | assemble => exact (prepared_of_assemble h rfl).1.coherent
  | compile => exact (prepared_of_compile h rfl).1.coherent
  | run => exact coherent_run conn state h
  | fetchAll => exact coherent_run conn state h
  | fetchOptional => exact coherent_run conn state h
  | insertOne =>
    simp only [Step.perform, insertOne]
    split
    · exact h
    · exact coherent_run conn state h
  | count =>
    simp only [Step.perform, count]
    split
    · exact h
    · exact h

/-- What the steps so far did, the query keeps only what belongs to its request. -/
theorem coherent_performAll (h : q.Coherent depth) (steps : List Step) :
    (performAll conn depth steps state q).1.Coherent depth := by
  induction steps generalizing state q with
  | nil => exact h
  | cons step rest ih => exact ih _ (coherent_perform conn state h step)

/-- A step leaves the connection alone or executes one statement: that of its request, which the
guard lets through. -/
theorem perform_connection (h : q.Coherent depth) (step : Step) :
    let p := step.perform conn depth state q
    p.connection = state ∨
      ∃ c, (step.request q).Compiles depth c ∧ Sql.isSafe c.sql = true ∧
        p.connection = (conn.execute state c.sql c.flatParams).2 := by
  have hrun : ∀ {q : Query}, q.Coherent depth → (q.run conn depth state).connection = state ∨
      ∃ c, q.request.Compiles depth c ∧ Sql.isSafe c.sql = true ∧
        (q.run conn depth state).connection = (conn.execute state c.sql c.flatParams).2 := by
    intro q h
    rcases run_cases conn state h with ⟨hsame, -⟩ | ⟨c, hcompiles, hsafe, hsent, -⟩
    · exact .inl hsame
    · exact .inr ⟨c, hcompiles, hsafe, hsent⟩
  cases step with
  | change f => exact .inl rfl
  | assemble => exact .inl rfl
  | compile => exact .inl rfl
  | run => exact hrun h
  | fetchAll => exact hrun h
  | fetchOptional => exact hrun h
  | insertOne =>
    simp only [Step.perform, insertOne]
    split
    · exact .inl rfl
    · exact hrun h
  | count =>
    simp only [Step.perform, count]
    split
    · exact .inl rfl
    · exact hrun (coherent_of_reset depth rfl)

theorem perform_failed (h : q.Coherent depth) {step : Step} (hown : step.isOwn = true)
    {e : Failure} (hfailed : (step.perform conn depth state q).result = .error e) :
    let p := step.perform conn depth state q
    p.query.request = q.request ∧ p.query.stage ≠ .executed := by
  have hrun : ∀ e', (q.run conn depth state).result = .error e' →
      (q.run conn depth state).query.request = q.request ∧
        (q.run conn depth state).query.stage ≠ .executed := by
    intro e' he'
    rcases run_cases conn state h with ⟨-, hprepared, -⟩ | ⟨_, -, -, -, -, hrequest, hstage⟩
    · exact ⟨hprepared.request, hprepared.stage⟩
    · exact ⟨hrequest, hstage e' he'⟩
  -- What follows a run takes its result apart and cannot fail by itself.
  have hbind : ∀ {α β : Type} (x : Except Failure α) (f : α → β) (e' : Failure),
      (x.bind fun a => .ok (f a)) = .error e' → x = .error e' := by
    intro α β x f e' hx
    cases x with
    | error _ =>
      cases hx
      rfl
    | ok a => cases hx
  cases step with
  | change f => cases hown
  | assemble =>
    obtain ⟨hprepared, -⟩ := prepared_of_assemble h rfl
    exact ⟨hprepared.request, hprepared.stage⟩
  | compile =>
    obtain ⟨hprepared, -⟩ := prepared_of_compile h rfl
    exact ⟨hprepared.request, hprepared.stage⟩
  | run => exact hrun e (hbind _ _ e hfailed)
  | fetchAll => exact hrun e (hbind _ _ e (hbind _ _ e hfailed))
  | fetchOptional => exact hrun e (hbind _ _ e (hbind _ _ e hfailed))
  | insertOne => cases hown
  | count => cases hown

end Steps

end Query

namespace Connection

variable {σ : Type}

/-- The same connection, with the statements and parameters that it was given written down. -/
def recorded (conn : Connection σ) : Connection (σ × List (String × List Value)) where
  execute := fun (state, given) sql params =>
    let (answer, state) := conn.execute state sql params
    (answer, state, given ++ [(sql, params)])
  lastInsertId? := fun (state, _) => conn.lastInsertId? state

theorem execute_recorded (conn : Connection σ) (state : σ) (given : List (String × List Value))
    (sql : String) (params : List Value) :
    conn.recorded.execute (state, given) sql params =
      ((conn.execute state sql params).1, (conn.execute state sql params).2,
        given ++ [(sql, params)]) :=
  rfl

end Connection

namespace Query

variable {σ : Type} (conn : Connection σ) (depth : Nat)

theorem run_recorded (state : σ) (given : List (String × List Value)) (q : Query) :
    let p := q.run conn.recorded depth (state, given)
    let p' := q.run conn depth state
    p.result = p'.result ∧ p.query = p'.query ∧ p.connection.1 = p'.connection := by
  intro p p'
  simp only [p, p', run]
  split
  · exact ⟨rfl, rfl, rfl⟩
  next c q' _ =>
    by_cases hsafe : Sql.isSafe c.sql = true
    · simp only [hsafe, Bool.not_true, Bool.false_eq_true, if_false, conn.execute_recorded]
      obtain ⟨answer, state'⟩ := conn.execute state c.sql c.flatParams
      cases answer with
      | error e => exact ⟨rfl, rfl, rfl⟩
      | ok outcome => exact ⟨rfl, rfl, rfl⟩
    · simp only [hsafe, Bool.not_false, if_true]
      exact ⟨trivial, trivial, trivial⟩

theorem perform_recorded (state : σ) (given : List (String × List Value)) (q : Query)
    (step : Step) :
    let p := step.perform conn.recorded depth (state, given) q
    let p' := step.perform conn depth state q
    p.query = p'.query ∧ p.connection.1 = p'.connection := by
  obtain ⟨-, hquery, hstate⟩ := run_recorded conn depth state given q
  obtain ⟨-, -, hcounted⟩ := run_recorded conn depth state given q.counting
  cases step with
  | change f => exact ⟨rfl, rfl⟩
  | assemble => exact ⟨rfl, rfl⟩
  | compile => exact ⟨rfl, rfl⟩
  | run => exact ⟨hquery, hstate⟩
  | fetchAll => exact ⟨hquery, hstate⟩
  | fetchOptional => exact ⟨hquery, hstate⟩
  | insertOne =>
    simp only [Step.perform, insertOne]
    split
    · exact ⟨rfl, rfl⟩
    · exact ⟨hquery, hstate⟩
  | count =>
    simp only [Step.perform, count]
    split
    · exact ⟨rfl, rfl⟩
    · exact ⟨rfl, hcounted⟩

theorem performAll_recorded (steps : List Step) (state : σ) (given : List (String × List Value))
    (q : Query) :
    let reached := performAll conn.recorded depth steps (state, given) q
    (reached.1, reached.2.1) = performAll conn depth steps state q := by
  induction steps generalizing state given q with
  | nil => rfl
  | cons step rest ih =>
    obtain ⟨hquery, hstate⟩ := perform_recorded conn depth state given q step
    have hpair : (step.perform conn.recorded depth (state, given) q).connection =
        ((step.perform conn depth state q).connection,
          (step.perform conn.recorded depth (state, given) q).connection.2) :=
      Prod.ext hstate rfl
    simp only [performAll]
    rw [hquery, hpair]
    exact ih _ _ _

end Query

/-- A statement with its parameters as a connection may be given it for the request. -/
def Request.Gives (depth : Nat) (r : Request) (given : String × List Value) : Prop :=
  ∃ c, r.Compiles depth c ∧ given = (c.sql, c.flatParams) ∧ Sql.isSafe c.sql = true ∧
    ∀ v ∈ c.flatParams, v.isScalar = true

namespace Query

/-- Whatever was asked of a query and whatever the connection answered: the stage says what the
query keeps, and what it keeps is the statement and the SQL of its present request. The next step
gives the connection at most one statement, that of the request at that moment, safe and with
scalars only, and a step of its own that fails leaves the request as it is and the query not
executed. -/
theorem life_cycle {σ : Type} (conn : Connection σ) (depth : Nat) (request : Request)
    (log : StatementLog) (steps : List Step) (state : σ) :
    let reached := performAll conn.recorded depth steps (state, []) { request, log }
    (reached.1, reached.2.1) = performAll conn depth steps state { request, log } ∧
      reached.1.Coherent depth ∧
      ∀ step : Step,
        let p := step.perform conn.recorded depth reached.2 reached.1
        (∃ given, p.connection.2 = reached.2.2 ++ given ∧ given.length ≤ 1 ∧
          ∀ g ∈ given, (step.request reached.1).Gives depth g) ∧
        (step.isOwn = true → ∀ e, p.result = .error e →
          p.query.request = reached.1.request ∧ p.query.stage ≠ .executed) := by
  intro reached
  have hcoherent : reached.1.Coherent depth :=
    coherent_performAll _ _ (coherent_of_reset depth rfl) steps
  refine ⟨performAll_recorded conn depth steps state [] _, hcoherent, fun step => ⟨?_,
    fun hown e hfailed => perform_failed conn.recorded reached.2 hcoherent hown hfailed⟩⟩
  rcases perform_connection conn.recorded reached.2 hcoherent step with
    hsame | ⟨c, hcompiles, hsafe, hsent⟩
  · exact ⟨[], by rw [hsame, List.append_nil], by simp, by simp⟩
  · refine ⟨[(c.sql, c.flatParams)], by rw [hsent]; rfl, Nat.le_refl 1, ?_⟩
    simp only [List.forall_mem_singleton]
    exact ⟨c, hcompiles, rfl, hsafe, Value.isScalar_of_mem_flattenAll c.params⟩

end Query

end PathQuery
