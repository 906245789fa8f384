import PathQuery.Connection
import PathQuery.Request
import PathQuery.Sql.Guard
import PathQuery.Sql.Render
import PathQuery.StatementLog

/-!
Queries: requests on their way to a connection. A query is pending until its statement is built,
then assembled, compiled and executed, and keeps what it has produced. Changing an option makes it
pending again, and so does asking an executed query for its statement.
-/

set_option autoImplicit false

namespace PathQuery

inductive Stage where
  | pending
  | assembled
  | compiled
  | executed
  deriving DecidableEq, Repr

structure Query where
  request : Request
  log : StatementLog := {}
  stage : Stage := .pending
  statement? : Option Statement := none
  compiled? : Option Compiled := none

/-- What a step with a connection leaves behind: its result, the query, the connection, and the
entries of the log. -/
structure Performed (σ α : Type) where
  result : Except Failure α
  query : Query
  connection : σ
  entries : List LogEntry

namespace Performed

def map {σ α β : Type} (f : α → Except Failure β) (p : Performed σ α) : Performed σ β :=
  { p with result := p.result.bind f }

end Performed

namespace Query

def ofModel (s : Schema) (name : String) (kind : StatementKind) : Except Error Query := do
  let request ← Request.ofModel s name kind
  return { request, log := ← StatementLog.ofSettings s.settings.log }

def ofTable (t : Table) (kind : StatementKind) : Query :=
  { request := .ofTable t kind }

def kind (q : Query) : StatementKind :=
  q.request.kind

def reset (q : Query) : Query :=
  { q with stage := .pending, statement? := none, compiled? := none }

/-- Changes the options; nothing built from the old ones is kept. -/
def withOptions (q : Query) (f : Options → Options) : Query :=
  { q.reset with request := { q.request with options := f q.request.options } }

def filter (q : Query) (f : Filter) : Query :=
  q.withOptions fun o => { o with filter := o.filter.extend f }

def fields (q : Query) (names : List String) : Query :=
  q.withOptions fun o => { o with fields := o.fields ++ names }

def eager (q : Query) (path : String) : Query :=
  q.withOptions fun o => { o with eager := o.eager ++ [path] }

def orderBy (q : Query) (spec : String) : Query :=
  q.withOptions fun o => { o with orderBy := o.orderBy ++ [spec] }

def groupBy (q : Query) (path : String) : Query :=
  q.withOptions fun o => { o with groupBy := o.groupBy ++ [path] }

def aggregate (q : Query) (a : AggregateRequest) : Query :=
  q.withOptions fun o => { o with aggregates := o.aggregates ++ [a] }

def limit (q : Query) (n : Int) : Query :=
  q.withOptions fun o => { o with limit := some n }

def offset (q : Query) (n : Int) : Query :=
  q.withOptions fun o => { o with offset := some n }

def distinct (q : Query) : Query :=
  q.withOptions fun o => { o with distinct := true }

def set (q : Query) (name : String) (value : Value) : Query :=
  q.withOptions fun o => { o with assignments := o.assignments ++ [(name, value)] }

def values (q : Query) (row : List Value) : Query :=
  q.withOptions fun o => { o with rows := o.rows ++ [row] }

def restart (q : Query) : Query :=
  if q.stage = .executed then q.reset else q

/-- The statement of the query, built if there is none yet. A failure leaves the query as it was. -/
def assemble (depth : Nat) (q : Query) : Except Failure Statement × Query :=
  let q := q.restart
  match q.statement? with
  | some s => (.ok s, q)
  | none =>
    match q.request.build depth with
    | .ok s => (.ok s, { q with statement? := some s, stage := .assembled })
    | .error e => (.error e, q)

def compile (depth : Nat) (q : Query) : Except Failure Compiled × Query :=
  let q := q.restart
  match q.compiled? with
  | some c => (.ok c, q)
  | none =>
    match q.assemble depth with
    | (.error e, q) => (.error e, q)
    | (.ok s, q) =>
      match s.compile (.of s) with
      | .ok c => (.ok c, { q with compiled? := some c, stage := .compiled })
      | .error e => (.error (.error e), q)

/-- Executes the query. An UPDATE or DELETE without conditions does not reach the connection; every
statement that does is logged before. -/
def run {σ : Type} (conn : Connection σ) (depth : Nat) (state : σ) (q : Query) :
    Performed σ Outcome :=
  match q.compile depth with
  | (.error e, q) => ⟨.error e, q, state, []⟩
  | (.ok c, q) =>
    if !Sql.isSafe c.sql then ⟨.error (.error (.unsafeStatement c.sql)), q, state, []⟩
    else
      let entries := [q.log.entry q.kind c.sql c.flatParams.length]
      match conn.execute state c.sql c.flatParams with
      | (.ok outcome, state) => ⟨.ok outcome, { q with stage := .executed }, state, entries⟩
      | (.error e, state) => ⟨.error (.error (.ofConnection e c.sql)), q, state, entries⟩

def fetchAll {σ : Type} (conn : Connection σ) (depth : Nat) (state : σ) (q : Query) :
    Performed σ (List Row) :=
  (q.run conn depth state).map fun outcome => .ok outcome.rows

def fetchOptional {σ : Type} (conn : Connection σ) (depth : Nat) (state : σ) (q : Query) :
    Performed σ (Option Row) :=
  (q.run conn depth state).map fun outcome => .ok outcome.rows.head?

def counting (q : Query) : Query :=
  { request := q.request, log := q.log : Query }.withOptions fun o =>
    { o with
      fields := [], eager := [], orderBy := [], groupBy := [], limit := none, offset := none
      aggregates := [{ function := .count, label := some "count" }] }

def readCount (sql : String) : Option Row → Except Failure Int64
  | none => .ok 0
  | some row =>
    match (row.get? "count").or (row.at? 0) with
    | none => .ok 0
    | some (.int n) => .ok n
    | some v => .error (.error (.database s!"unexpected COUNT result {v.display}" sql))

def count {σ : Type} (conn : Connection σ) (depth : Nat) (state : σ) (q : Query) :
    Performed σ Int64 :=
  if q.kind ≠ .select then ⟨.error (.error (.malformed .count .notCountable)), q, state, []⟩
  else
    let p := q.counting.fetchOptional conn depth state
    let sql := (p.query.compiled?.map Compiled.sql).getD ""
    { p.map (readCount sql) with query := q }

def insertOne {σ : Type} (conn : Connection σ) (depth : Nat) (state : σ) (q : Query) :
    Performed σ (Option Value) :=
  if q.kind ≠ .insert then ⟨.error (.error (.malformed .insertOne .notAnInsert)), q, state, []⟩
  else
    let p := q.run conn depth state
    p.map fun _ => .ok (conn.lastInsertId? p.connection)

end Query

namespace Schema

/-- The parts of a key: a list or a record for a key of several parts, a record for one of one
part, and any other value as the only part. -/
def keyParts (width : Nat) (key : Value) : List Value :=
  match key with
  | .list parts => if 1 < width then parts else [key]
  | .entity parts => if 1 ≤ width then parts else [key]
  | _ => [key]

def keyQuery (s : Schema) (model : String) (key : Value) : Except Error Query := do
  let t ← s.table model
  let parts := keyParts t.primaryKey.length key
  if parts.length ≠ t.primaryKey.length then
    throw (.malformed .key (.keyWidth t.name t.primaryKey.length parts.length))
  let f := (t.primaryKey.zip parts).foldl (fun f (name, v) => f.eq name v) Filter.empty
  return ((← Query.ofModel s model .select).filter f).limit 1

def findByKey {σ : Type} (s : Schema) (conn : Connection σ) (depth : Nat) (state : σ)
    (model : String) (key : Value) : Except Failure Row × σ × List LogEntry :=
  match s.table model, s.keyQuery model key with
  | .error e, _ => (.error (.error e), state, [])
  | _, .error e => (.error (.error e), state, [])
  | .ok t, .ok q =>
    let p := q.fetchOptional conn depth state
    let found (row : Option Row) : Except Failure Row :=
      match row with
      | some row => .ok row
      | none => .error (.error (.recordNotFound t.name key))
    (p.result.bind found, p.connection, p.entries)

end Schema

end PathQuery
