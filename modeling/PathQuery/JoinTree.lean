import PathQuery.Schema

/-!
The tree of joins that the paths of one statement walk. A node is a chain of relations from the
root, created when a path first takes it and shared by all later paths. Nodes are numbered in the
order of their creation, so a parent has a smaller number than its children; walks rely on that
order to end.
-/

set_option autoImplicit false

namespace PathQuery

structure Node where
  relation : Option Relation
  model : Option String
  tableAlias : String
  depth : Nat
  parent : Option Nat
  children : List (String × Nat)
  leaves : List Condition
  selected : Bool
  joined : Bool
  required : Bool
  deriving Repr

namespace Node

def root (model : Option String) : Node :=
  { relation := none, model, tableAlias := rootAlias, depth := 0, parent := none, children := []
    leaves := [], selected := true, joined := true, required := true }

def isToMany (n : Node) : Bool :=
  n.relation.any Relation.isToMany

end Node

structure JoinTree where
  /-- Absent below a bare table, where no path leads anywhere. -/
  schema : Option Schema
  rootTable : Table
  nodes : List Node

namespace JoinTree

def rootId : Nat := 0

def ofModel (s : Schema) (name : String) : Except Error JoinTree :=
  (s.model name).map fun m => ⟨some s, m.table, [Node.root (some m.name)]⟩

def ofTable (t : Table) : JoinTree :=
  ⟨none, t, [Node.root none]⟩

def size (t : JoinTree) : Nat :=
  t.nodes.length

def node (t : JoinTree) (id : Nat) : Node :=
  t.nodes.getD id (Node.root none)

def hasModel (t : JoinTree) : Bool :=
  (t.node rootId).model.isSome

def model? (t : JoinTree) (id : Nat) : Option Model := do
  let s ← t.schema
  s.model? (← (t.node id).model)

def table (t : JoinTree) (id : Nat) : Table :=
  ((t.model? id).map Model.table).getD t.rootTable

def idOfAlias? (t : JoinTree) (tableAlias : String) : Option Nat :=
  t.nodes.findIdx? (·.tableAlias == tableAlias)

def owner? (t : JoinTree) (x : Condition) : Option Nat :=
  x.tableAlias?.bind t.idOfAlias?

def modifyNode (t : JoinTree) (id : Nat) (f : Node → Node) : JoinTree :=
  { t with nodes := t.nodes.modify id f }

def childAlias (t : JoinTree) (parent : Nat) (relation : String) : String :=
  if parent = rootId then relation else (t.node parent).tableAlias ++ "." ++ relation

def grow (t : JoinTree) (parent : Nat) (name : String) (r : Relation) : JoinTree :=
  let child : Node :=
    { relation := some r, model := some r.linked.model, tableAlias := t.childAlias parent name
      depth := (t.node parent).depth + 1, parent := some parent, children := [], leaves := []
      selected := false, joined := false, required := false }
  let t' := t.modifyNode parent fun n => { n with children := n.children ++ [(name, t.size)] }
  { t' with nodes := t'.nodes ++ [child] }

/-- The child of a node under a relation, created if it is new. -/
def child (t : JoinTree) (parent : Nat) (name : String) : Except Error Nat × JoinTree :=
  match (t.node parent).children.lookup name with
  | some id => (.ok id, t)
  | none =>
    match t.model? parent with
    | none =>
      (.error (.unknownRelation ((t.node parent).model.getD t.rootTable.name) name), t)
    | some m =>
      match m.relation? name with
      | none => (.error (.unknownRelation m.name name), t)
      | some r => (.ok t.size, t.grow parent name r)

/-- Follows relations one by one; what was created before a failure stays. -/
def descend (t : JoinTree) (start : Nat) : List String → Except Error Nat × JoinTree
  | [] => (.ok start, t)
  | name :: rest =>
    match t.child start name with
    | (.ok id, t) => t.descend id rest
    | (.error e, t) => (.error e, t)

def segments (path : String) : List String :=
  (Text.splitOn '/' path.toList).map fun s => String.ofList (Text.trim s)

/-- Resolves a path from a node to a node and an attribute. A path with an empty segment creates
nothing. -/
def resolveFrom (t : JoinTree) (start : Nat) (path : String) :
    Except Error (Nat × String) × JoinTree :=
  let segs := segments path
  if segs.any (· == "") then (.error (.malformed .path (.invalidPath path)), t)
  else
    match t.descend start segs.dropLast with
    | (.ok id, t) => (.ok (id, segs.getLastD ""), t)
    | (.error e, t) => (.error e, t)

def resolve (t : JoinTree) (path : String) : Except Error (Nat × String) × JoinTree :=
  t.resolveFrom rootId path

/-- Follows the relations of a path; an empty segment is found only when it is reached. -/
def descendPath (t : JoinTree) (path : String) (start : Nat) :
    List String → Except Error Nat × JoinTree
  | [] => (.ok start, t)
  | name :: rest =>
    if name = "" then (.error (.malformed .path (.invalidPath path)), t)
    else
      match t.child start name with
      | (.ok id, t) => t.descendPath path id rest
      | (.error e, t) => (.error e, t)

def resolveRelations (t : JoinTree) (start : Nat) (path : String) : Except Error Nat × JoinTree :=
  t.descendPath path start (segments path)

def attach (t : JoinTree) (id : Nat) (leaf : Condition) : JoinTree :=
  t.modifyNode id fun n => { n with leaves := n.leaves ++ [leaf] }

def lineage (t : JoinTree) (id : Nat) : List Nat :=
  id ::
    match (t.node id).parent with
    | some p => if p < id then t.lineage p else []
    | none => []
termination_by id

/-- The nodes from just below `scope` down to a node, if `scope` is the node or above it. -/
def pathBetween? (t : JoinTree) (scope id : Nat) : Option (List Nat) :=
  if id = scope then some []
  else
    match (t.node id).parent with
    | some p => if p < id then (t.pathBetween? scope p).map (· ++ [id]) else none
    | none => none
termination_by id

theorem pathBetween?_bounds (t : JoinTree) (scope id : Nat) :
    ∀ path, t.pathBetween? scope id = some path →
      scope ≤ id ∧ ∀ n ∈ path, scope < n ∧ n ≤ id := by
  induction id using Nat.strongRecOn with
  | ind id ih =>
    intro path h
    rw [pathBetween?] at h
    split at h
    · next hid =>
      obtain rfl : path = [] := by simpa using h.symm
      simp [hid]
    · next hid =>
      split at h
      · next p _ =>
        split at h
        · next hp =>
          obtain ⟨q, hq, rfl⟩ := Option.map_eq_some_iff.1 h
          obtain ⟨hle, hmem⟩ := ih p hp q hq
          refine ⟨by omega, fun n hn => ?_⟩
          rcases List.mem_append.1 hn with hn | hn
          · have := hmem n hn
            omega
          · obtain rfl : n = id := by simpa using hn
            omega
        · simp at h
      · simp at h

/-- The first node below `scope`, on the way down to a node, that a relation to many rows leads
to. -/
def anchor? (t : JoinTree) (scope id : Nat) : Option Nat :=
  (t.pathBetween? scope id).bind (·.find? fun n => (t.node n).isToMany)

theorem anchor?_bounds {t : JoinTree} {scope id a : Nat} (h : t.anchor? scope id = some a) :
    scope < a ∧ a ≤ id := by
  obtain ⟨path, hp, ha⟩ := Option.bind_eq_some_iff.1 h
  exact (t.pathBetween?_bounds scope id path hp).2 a (List.mem_of_find?_eq_some ha)

def modifyAll (t : JoinTree) (ids : List Nat) (f : Node → Node) : JoinTree :=
  { t with nodes := t.nodes.mapIdx fun i n => if ids.contains i then f n else n }

def joinPath (t : JoinTree) (id : Nat) : JoinTree :=
  t.modifyAll (t.lineage id) fun n => { n with joined := true }

def select (t : JoinTree) (id : Nat) : JoinTree :=
  (t.modifyNode id fun n => { n with selected := true }).joinPath id

def require (t : JoinTree) (id : Nat) : JoinTree :=
  t.modifyAll (t.lineage id) fun n => { n with joined := true, required := true }

/-- A node and all below it, parents first and siblings in the order of creation. -/
def preorder (t : JoinTree) (id : Nat) : List Nat :=
  id :: (t.node id).children.flatMap fun (_, c) =>
    if id < c ∧ c < t.size then t.preorder c else []
termination_by t.size - id

def selected (t : JoinTree) : List Nat :=
  (t.preorder rootId).filter fun id => id != rootId && (t.node id).selected

def joinsFor (t : JoinTree) (id : Nat) (kind : JoinKind) : List Join :=
  match (t.node id).relation, (t.node id).parent with
  | some r, some p => r.joins (t.node p).tableAlias (t.node id).tableAlias kind true
  | _, _ => []

def statementJoins (t : JoinTree) : List Join :=
  ((t.preorder rootId).filter fun id => id != rootId && (t.node id).joined).flatMap fun id =>
    t.joinsFor id (if (t.node id).required then .inner else .left)

/-- The joins inside a test on the rows of `scope` that reach all targets below it. -/
def joinsWithin (t : JoinTree) (scope : Nat) (targets : List Nat) : List Join :=
  let wanted := targets.flatMap fun target => (t.pathBetween? scope target).getD []
  ((t.preorder scope).filter fun id => id != scope && wanted.contains id).flatMap fun id =>
    t.joinsFor id .left

end JoinTree

end PathQuery
