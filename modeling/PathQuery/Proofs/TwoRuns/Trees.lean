import PathQuery.Proofs.JoinTree.Walks
import PathQuery.Proofs.TwoRuns.Agreement
import PathQuery.Request

/-!
Join trees of two runs. They differ in the conditions kept at their nodes alone, and no step looks
at those: what is asked of a tree is asked of the tree without them, and growing and marking go on
as if they were not there.
-/

set_option autoImplicit false

namespace PathQuery

def Node.clear (n : Node) : Node :=
  { n with leaves := [] }

namespace JoinTree

def clear (t : JoinTree) : JoinTree :=
  { t with nodes := t.nodes.map Node.clear }

@[simp] theorem schema_clear (t : JoinTree) : t.clear.schema = t.schema := rfl

@[simp] theorem rootTable_clear (t : JoinTree) : t.clear.rootTable = t.rootTable := rfl

@[simp] theorem size_clear (t : JoinTree) : t.clear.size = t.size := by
  simp [clear, size]

@[simp] theorem node_clear (t : JoinTree) (id : Nat) : t.clear.node id = (t.node id).clear := by
  rw [node_eq, node_eq]
  cases h : t.nodes[id]? with
  | none => simp [clear, h, Node.clear, Node.root]
  | some n => simp [clear, h]

@[simp] theorem hasModel_clear (t : JoinTree) : t.clear.hasModel = t.hasModel := by
  simp [hasModel, Node.clear]

@[simp] theorem model?_clear (t : JoinTree) (id : Nat) : t.clear.model? id = t.model? id := by
  simp [model?, Node.clear]

@[simp] theorem table_clear (t : JoinTree) (id : Nat) : t.clear.table id = t.table id := by
  simp [table]

@[simp] theorem idOfAlias?_clear (t : JoinTree) (a : String) :
    t.clear.idOfAlias? a = t.idOfAlias? a := by
  simp only [idOfAlias?, clear, List.findIdx?_map]
  rfl

@[simp] theorem owner?_clear (t : JoinTree) (x : Condition) : t.clear.owner? x = t.owner? x := by
  have h : t.clear.idOfAlias? = t.idOfAlias? := funext t.idOfAlias?_clear
  rw [owner?, owner?, h]

@[simp] theorem childAlias_clear (t : JoinTree) (p : Nat) (name : String) :
    t.clear.childAlias p name = t.childAlias p name := by
  simp [childAlias, Node.clear]

theorem parent_clear (t : JoinTree) (id : Nat) :
    (t.clear.node id).parent = (t.node id).parent := by
  rw [node_clear, Node.clear]

@[simp] theorem lineage_clear (t : JoinTree) (id : Nat) : t.clear.lineage id = t.lineage id :=
  lineage_congr t.parent_clear id

@[simp] theorem pathBetween?_clear (t : JoinTree) (scope id : Nat) :
    t.clear.pathBetween? scope id = t.pathBetween? scope id :=
  pathBetween?_congr t.parent_clear scope id

@[simp] theorem anchor?_clear (t : JoinTree) (scope id : Nat) :
    t.clear.anchor? scope id = t.anchor? scope id := by
  simp only [anchor?, pathBetween?_clear, node_clear]
  rfl

@[simp] theorem preorder_clear (t : JoinTree) (id : Nat) :
    t.clear.preorder id = t.preorder id := by
  induction hn : t.size - id using Nat.strongRecOn generalizing id with
  | ind n ih =>
    rw [preorder, preorder, node_clear, size_clear]
    congr 1
    refine List.flatMap_congr fun p _ => ?_
    obtain ⟨name, c⟩ := p
    simp only
    split
    · rename_i hc
      exact ih (t.size - c) (by omega) c rfl
    · rfl

@[simp] theorem joinsFor_clear (t : JoinTree) (id : Nat) (kind : JoinKind) :
    t.clear.joinsFor id kind = t.joinsFor id kind := by
  simp only [joinsFor, node_clear]
  rfl

@[simp] theorem statementJoins_clear (t : JoinTree) :
    t.clear.statementJoins = t.statementJoins := by
  simp only [statementJoins, preorder_clear, node_clear, joinsFor_clear]
  rfl

@[simp] theorem joinsWithin_clear (t : JoinTree) (scope : Nat) (targets : List Nat) :
    t.clear.joinsWithin scope targets = t.joinsWithin scope targets := by
  simp only [joinsWithin, preorder_clear, pathBetween?_clear, joinsFor_clear]

theorem clear_modifyNode (t : JoinTree) (id : Nat) {f : Node → Node}
    (hf : ∀ n, (f n).clear = f n.clear) :
    (t.modifyNode id f).clear = t.clear.modifyNode id f := by
  have hnodes : (t.nodes.modify id f).map Node.clear = (t.nodes.map Node.clear).modify id f := by
    apply List.ext_getElem?
    intro i
    by_cases hi : i = id
    · simp [hi, hf, Function.comp_def]
    · simp [Ne.symm hi]
  simp only [modifyNode, clear, hnodes]

theorem clear_modifyAll (t : JoinTree) (ids : List Nat) {f : Node → Node}
    (hf : ∀ n, (f n).clear = f n.clear) :
    (t.modifyAll ids f).clear = t.clear.modifyAll ids f := by
  have hnodes : (t.nodes.mapIdx fun i n => if ids.contains i then f n else n).map Node.clear =
      (t.nodes.map Node.clear).mapIdx fun i n => if ids.contains i then f n else n := by
    apply List.ext_getElem?
    intro i
    by_cases hi : i ∈ ids
    · simp [hi, hf, Function.comp_def]
    · simp [hi, Function.comp_def]
  simp only [modifyAll, clear, hnodes]

theorem clear_attach (t : JoinTree) (id : Nat) (leaf : Condition) :
    (t.attach id leaf).clear = t.clear := by
  have hnodes : (t.nodes.modify id fun n => { n with leaves := n.leaves ++ [leaf] }).map
      Node.clear = t.nodes.map Node.clear := by
    apply List.ext_getElem?
    intro i
    by_cases hi : i = id
    · simp [hi, Function.comp_def, Node.clear]
      rfl
    · simp [Ne.symm hi]
  simp only [attach, modifyNode, clear, hnodes]

theorem clear_joinPath (t : JoinTree) (id : Nat) :
    (t.joinPath id).clear = t.clear.joinPath id := by
  rw [joinPath, joinPath, lineage_clear]
  exact clear_modifyAll t _ fun _ => rfl

theorem clear_require (t : JoinTree) (id : Nat) :
    (t.require id).clear = t.clear.require id := by
  rw [require, require, lineage_clear]
  exact clear_modifyAll t _ fun _ => rfl

theorem clear_select (t : JoinTree) (id : Nat) : (t.select id).clear = t.clear.select id := by
  rw [select, select, clear_joinPath]
  rw [clear_modifyNode t id (f := fun n => { n with selected := true }) fun _ => rfl]

theorem clear_grow (t : JoinTree) (p : Nat) (name : String) (r : Relation) :
    (t.grow p name r).clear = t.clear.grow p name r := by
  have h := clear_modifyNode t p
    (f := fun n => { n with children := n.children ++ [(name, t.size)] }) fun _ => rfl
  have hnodes := congrArg JoinTree.nodes h
  simp only [grow, childAlias_clear, node_clear, size_clear]
  simp only [clear, List.map_append, List.map_cons, List.map_nil] at hnodes ⊢
  rw [hnodes]
  rfl

theorem child_clear (t : JoinTree) (p : Nat) (name : String) :
    t.clear.child p name = Prod.map id clear (t.child p name) := by
  have hchildren : (t.clear.node p).children = (t.node p).children := by
    rw [node_clear]
    rfl
  have hmodel : (t.clear.node p).model = (t.node p).model := by
    rw [node_clear]
    rfl
  unfold child
  rw [hchildren, model?_clear, hmodel, rootTable_clear, size_clear]
  cases (t.node p).children.lookup name with
  | some id => rfl
  | none =>
    cases t.model? p with
    | none => rfl
    | some m =>
      cases hr : m.relation? name with
      | none => simp [hr]
      | some r => simp [hr, clear_grow]

theorem descend_clear (t : JoinTree) (start : Nat) (names : List String) :
    t.clear.descend start names = Prod.map id clear (t.descend start names) := by
  induction names generalizing t start with
  | nil => rfl
  | cons name rest ih =>
    rw [descend, descend, child_clear]
    rcases t.child start name with ⟨e | c, u⟩
    · rfl
    · exact ih u c

theorem resolveFrom_clear (t : JoinTree) (start : Nat) (path : String) :
    t.clear.resolveFrom start path = Prod.map id clear (t.resolveFrom start path) := by
  unfold resolveFrom
  simp only [descend_clear]
  split
  · rfl
  · rcases t.descend start (segments path).dropLast with ⟨e | c, u⟩ <;> rfl

theorem descendPath_clear (t : JoinTree) (path : String) (start : Nat) (names : List String) :
    t.clear.descendPath path start names = Prod.map id clear (t.descendPath path start names) := by
  induction names generalizing t start with
  | nil => rfl
  | cons name rest ih =>
    rw [descendPath, descendPath, child_clear]
    split
    · rfl
    · rcases t.child start name with ⟨e | c, u⟩
      · rfl
      · exact ih u c

end JoinTree

end PathQuery
