import Mathlib.Logic.Function.Basic
import PathQuery.Proofs.Database.Engine

/-!
Conditions evaluated over a database. Under each alias stands one row; a SELECT inside a condition
puts the rows of its source and of its joins under further aliases and sees those around it. An
outer join that finds nothing puts a row of NULLs. A RIGHT JOIN occurs in no statement built here
and is read as an inner one.
-/

set_option autoImplicit false

namespace PathQuery

/-- The contents of a row by column. -/
abbrev Tuple (E : Engine) : Type :=
  String → Option E.Cell

abbrev Database (E : Engine) : Type :=
  String → List (Tuple E)

/-- The row under each alias. -/
abbrev Scene (E : Engine) : Type :=
  String → Tuple E

variable {E : Engine}

def nullRow : Tuple E :=
  fun _ => none

def seriesRow (k : Nat) : Tuple E :=
  fun column => if column = seriesColumn then some (E.number k) else none

namespace Scene

def put (e : Scene E) (tableAlias : String) (y : Tuple E) : Scene E :=
  Function.update e tableAlias y

@[simp] theorem put_same (e : Scene E) (a : String) (y : Tuple E) : e.put a y a = y := by
  simp [put]

theorem put_other (e : Scene E) {a b : String} (y : Tuple E) (h : b ≠ a) : e.put a y b = e b := by
  simp [put, h]

def cell (e : Scene E) (c : ColumnRef) : Option E.Cell :=
  e c.tableAlias c.column

def passes (e : Scene E) (on : List JoinTest) : Bool :=
  on.all fun t => E.relate t.op (e.cell t.left) (e.cell t.right) = .holds

end Scene

namespace Database

variable (db : Database E)

def join (e : Scene E) (j : Join) : List (Scene E) :=
  let found := ((db j.table).map (e.put j.tableAlias)).filter (·.passes j.on)
  if j.kind = .left ∧ found = [] then [e.put j.tableAlias nullRow] else found

def joins (e : Scene E) : List Join → List (Scene E)
  | [] => [e]
  | j :: rest => (db.join e j).flatMap fun e => joins e rest

def source (e : Scene E) : Source → List (Scene E)
  | .table name a => (db name).map (e.put a)
  | .series a count => (List.range count).map fun k => e.put a (seriesRow (k + 1))

def scenes (e : Scene E) (f : Frame) : List (Scene E) :=
  (match f.source with
    | some s => db.source e s
    | none => [e]).flatMap fun e => db.joins e f.joins

/-- What a SELECT that is compared with a value returns: left open, since such a SELECT is given
whole and never taken apart. -/
abbrev Scalar (E : Engine) : Type :=
  Scene E → Frame → List Condition → Option E.Cell

variable (scalar : Scalar E)

mutual

def eval (e : Scene E) : Condition → Truth
  | .compare _ a names op value => E.compare op (names.map (e a)) value
  | .group _ members => Connective.read (evalEach e members)
  | .existence _ negated frame inner =>
    .ofBool (negated !=
      (db.scenes e frame).any fun e => Connective.read (evalEach e inner) = .holds)
  | .membership _ column values negated => E.member (e.cell column) values negated
  | .columns _ left op right => E.relate op (e.cell left) (e.cell right)
  | .subquery _ frame inner op value => E.compareOne op (scalar e frame inner) value
termination_by structural x => x

def evalEach (e : Scene E) : List Condition → List (Connective × Truth)
  | [] => []
  | x :: rest => (x.connective, eval e x) :: evalEach e rest
termination_by structural xs => xs

end

def Lets (e : Scene E) (x : Condition) : Prop :=
  db.eval scalar e x = .holds

def LetsAll (e : Scene E) (xs : List Condition) : Prop :=
  Connective.read (db.evalEach scalar e xs) = .holds

variable {db scalar}

theorem evalEach_eq (e : Scene E) (xs : List Condition) :
    db.evalEach scalar e xs = xs.map fun x => (x.connective, db.eval scalar e x) := by
  induction xs with
  | nil => rfl
  | cons x xs ih => rw [evalEach, ih, List.map_cons]

theorem letsAll_iff {e : Scene E} {xs : List Condition} :
    db.LetsAll scalar e xs ↔
      Connective.read (xs.map fun x => (x.connective, db.Lets scalar e x)) := by
  rw [LetsAll, Truth.read_eq_holds, evalEach_eq, List.map_map]
  rfl

@[simp] theorem letsAll_nil {e : Scene E} : db.LetsAll scalar e [] :=
  rfl

@[simp] theorem lets_group {e : Scene E} {c : Connective} {members : List Condition} :
    db.Lets scalar e (.group c members) ↔ db.LetsAll scalar e members :=
  Iff.rfl

theorem lets_existence {e : Scene E} {c : Connective} {frame : Frame} {inner : List Condition} :
    db.Lets scalar e (.existence c false frame inner) ↔
      ∃ e' ∈ db.scenes e frame, db.LetsAll scalar e' inner := by
  simp [Lets, eval, LetsAll]

theorem lets_absence {e : Scene E} {c : Connective} {frame : Frame} {inner : List Condition} :
    db.Lets scalar e (.existence c true frame inner) ↔
      ∀ e' ∈ db.scenes e frame, ¬ db.LetsAll scalar e' inner := by
  simp [Lets, eval, LetsAll]

@[simp] theorem eval_withConnective {e : Scene E} {c : Connective} {x : Condition} :
    db.eval scalar e (x.withConnective c) = db.eval scalar e x := by
  cases x <;> rfl

@[simp] theorem lets_withConnective {e : Scene E} {c : Connective} {x : Condition} :
    db.Lets scalar e (x.withConnective c) ↔ db.Lets scalar e x := by
  rw [Lets, eval_withConnective, Lets]

theorem mem_join {e e' : Scene E} {j : Join} (h : e' ∈ db.join e j) :
    ∃ y, e' = e.put j.tableAlias y := by
  unfold join at h
  dsimp only at h
  split at h
  · rw [List.mem_singleton] at h
    exact ⟨_, h⟩
  · obtain ⟨hmem, -⟩ := List.mem_filter.1 h
    obtain ⟨y, -, rfl⟩ := List.mem_map.1 hmem
    exact ⟨y, rfl⟩

theorem joins_other {js : List Join} {e e' : Scene E} {b : String} (h : e' ∈ db.joins e js)
    (hb : ∀ j ∈ js, b ≠ j.tableAlias) : e' b = e b := by
  induction js generalizing e with
  | nil =>
    rw [joins, List.mem_singleton] at h
    rw [h]
  | cons j js ih =>
    rw [joins, List.mem_flatMap] at h
    obtain ⟨e₁, h₁, h⟩ := h
    obtain ⟨y, rfl⟩ := mem_join h₁
    rw [ih h fun j hj => hb j (List.mem_cons_of_mem _ hj), Scene.put_other]
    exact hb j List.mem_cons_self

theorem join_ne_nil (db : Database E) {e : Scene E} {j : Join} (h : j.kind = .left) :
    db.join e j ≠ [] := by
  unfold join
  dsimp only
  split
  · simp
  · next hne => exact fun hnil => hne ⟨h, hnil⟩

theorem joins_ne_nil (db : Database E) {js : List Join} (h : ∀ j ∈ js, j.kind = .left)
    (e : Scene E) : db.joins e js ≠ [] := by
  induction js generalizing e with
  | nil => simp [joins]
  | cons j js ih =>
    have hj : db.join e j ≠ [] := join_ne_nil db (h j List.mem_cons_self)
    obtain ⟨e₁, h₁⟩ := List.exists_mem_of_ne_nil _ hj
    obtain ⟨e₂, h₂⟩ := List.exists_mem_of_ne_nil _
      (ih (fun j hj => h j (List.mem_cons_of_mem _ hj)) e₁)
    rw [joins]
    exact List.ne_nil_of_mem (List.mem_flatMap.2 ⟨e₁, h₁, h₂⟩)

theorem joins_append (e : Scene E) (js ks : List Join) :
    db.joins e (js ++ ks) = (db.joins e js).flatMap fun e => db.joins e ks := by
  induction js generalizing e with
  | nil => simp [joins]
  | cons j js ih => simp [joins, ih, List.flatMap_assoc]

theorem found_equal (db : Database E) (e : Scene E) (table column : String) {a : String}
    {target : ColumnRef} (h : target.tableAlias ≠ a) :
    ((db table).map (e.put a)).filter (·.passes [.equal ⟨a, column⟩ target]) =
      ((db table).filter fun y => E.meets (y column) (e.cell target)).map (e.put a) := by
  rw [List.filter_map]
  congr 2
  funext y
  have htarget : (e.put a y).cell target = e.cell target := by
    rw [Scene.cell, Scene.put_other _ _ h, Scene.cell]
  have hrow : (e.put a y).cell ⟨a, column⟩ = y column := by simp [Scene.cell]
  simp [Scene.passes, JoinTest.equal, htarget, hrow, Engine.meets]

@[simp] theorem lets_columns {e : Scene E} {c : Connective} {left right : ColumnRef} :
    db.Lets scalar e (.columns c left .eq right) ↔ E.meets (e.cell left) (e.cell right) = true := by
  simp [Lets, eval, Engine.meets]

theorem scenes_series (e : Scene E) (a : String) (count : Nat) :
    db.scenes e (Statement.probe (.series a count)).toFrame =
      (List.range count).map fun k => e.put a (seriesRow (k + 1)) := by
  simp [scenes, Statement.probe, source, joins, List.flatMap_singleton']

end Database

end PathQuery
