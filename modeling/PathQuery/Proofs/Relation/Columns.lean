import PathQuery.Proofs.Relation.ColumnRefs
import PathQuery.Proofs.Schema.Closed

/-!
The names of columns that a statement holds, in its clauses, in the tests of its joins and in its
conditions down to the innermost SELECT: those of the columns that it refers to.
-/

set_option autoImplicit false

namespace PathQuery

def JoinTest.columnNames (test : JoinTest) : List String :=
  [test.left.column, test.right.column]

def Join.columnNames (j : Join) : List String :=
  j.on.flatMap JoinTest.columnNames

def Frame.columnNames (f : Frame) : List String :=
  f.columnRefs.map ColumnRef.column ++ f.joins.flatMap Join.columnNames ++ f.insertColumns

theorem Join.map_refs (j : Join) : j.refs.map ColumnRef.column = j.columnNames := by
  rw [Join.refs, List.map_flatMap]
  rfl

theorem Frame.map_refs (f : Frame) : f.refs.map ColumnRef.column = f.columnNames := by
  have hroot : ColumnRef.column ∘ ColumnRef.root = id := rfl
  simp only [Frame.refs, List.map_append, List.map_flatMap, Join.map_refs, List.map_map, hroot,
    List.map_id, Frame.columnNames]

namespace Condition

mutual

def columnNames : Condition → List String
  | .compare _ _ names _ _ => names
  | .group _ members => columnNamesOf members
  | .existence _ _ frame conditions => frame.columnNames ++ columnNamesOf conditions
  | .membership _ column _ _ => [column.column]
  | .columns _ left _ right => [left.column, right.column]
  | .subquery _ frame conditions _ _ => frame.columnNames ++ columnNamesOf conditions
termination_by structural x => x

def columnNamesOf : List Condition → List String
  | [] => []
  | x :: rest => x.columnNames ++ columnNamesOf rest
termination_by structural xs => xs

end

mutual

theorem map_refs (x : Condition) : x.refs.map ColumnRef.column = x.columnNames := by
  cases x with
  | compare c a names op v =>
    rw [refs, List.map_map]
    exact List.map_id names
  | group c members => exact map_refsOf members
  | existence c negated frame inner =>
    rw [refs, List.map_append, Frame.map_refs, map_refsOf inner, columnNames]
  | subquery c frame inner op v =>
    rw [refs, List.map_append, Frame.map_refs, map_refsOf inner, columnNames]
  | _ => rfl
termination_by structural x

theorem map_refsOf (xs : List Condition) : (refsOf xs).map ColumnRef.column = columnNamesOf xs := by
  cases xs with
  | nil => rfl
  | cons x rest => rw [refsOf, List.map_append, map_refs x, map_refsOf rest, columnNamesOf]
termination_by structural xs

end

end Condition

def Statement.columnNames (st : Statement) : List String :=
  st.toFrame.columnNames ++ Condition.columnNamesOf st.conditions

theorem Statement.map_refs (st : Statement) : st.refs.map ColumnRef.column = st.columnNames := by
  rw [Statement.refs, List.map_append, Frame.map_refs, Condition.map_refsOf, Statement.columnNames]

namespace Condition

variable {N : String → Prop} {x : Condition} {xs : List Condition}

def NamesOnly (N : String → Prop) (x : Condition) : Prop :=
  ∀ column ∈ x.columnNames, N column

theorem namesOnly_iff : x.NamesOnly N ↔ x.RefsOnly fun c => N c.column := by
  rw [NamesOnly, ← map_refs, List.forall_mem_map, RefsOnly]

theorem forall_mem_columnNamesOf :
    (∀ column ∈ columnNamesOf xs, N column) ↔ ∀ x ∈ xs, x.NamesOnly N := by
  rw [← map_refsOf, List.forall_mem_map, forall_mem_refsOf]
  exact forall₂_congr fun _ _ => namesOnly_iff.symm

theorem namesOnly_group {c : Connective} {members : List Condition} :
    (Condition.group c members).NamesOnly N ↔ ∀ x ∈ members, x.NamesOnly N :=
  forall_mem_columnNamesOf

end Condition

theorem isIdent_seriesColumn : IsIdent seriesColumn :=
  ⟨⟨[['k']]⟩, by rfl⟩

end PathQuery
