import PathQuery.Proofs.Relation.Bodies
import PathQuery.Proofs.Scope

/-!
The columns that a statement refers to, under which aliases, in its clauses, in the tests of its
joins and in its conditions down to the innermost SELECT. What a semi-join adds to those of its
conditions are columns of its relation and the column that numbers are counted in.
-/

set_option autoImplicit false

namespace PathQuery

def JoinTest.refs (test : JoinTest) : List ColumnRef :=
  [test.left, test.right]

def Join.refs (j : Join) : List ColumnRef :=
  j.on.flatMap JoinTest.refs

/-- The columns that an INSERT fills are those of the table that it is about. -/
def Frame.refs (f : Frame) : List ColumnRef :=
  f.columnRefs ++ f.joins.flatMap Join.refs ++ f.insertColumns.map ColumnRef.root

namespace Condition

mutual

def refs : Condition → List ColumnRef
  | .compare _ a names _ _ => names.map (ColumnRef.mk a)
  | .group _ members => refsOf members
  | .existence _ _ frame conditions => frame.refs ++ refsOf conditions
  | .membership _ column _ _ => [column]
  | .columns _ left _ right => [left, right]
  | .subquery _ frame conditions _ _ => frame.refs ++ refsOf conditions
termination_by structural x => x

def refsOf : List Condition → List ColumnRef
  | [] => []
  | x :: rest => x.refs ++ refsOf rest
termination_by structural xs => xs

end

end Condition

def Statement.refs (st : Statement) : List ColumnRef :=
  st.toFrame.refs ++ Condition.refsOf st.conditions

namespace Condition

variable {N : ColumnRef → Prop} {x : Condition} {xs : List Condition}

def RefsOnly (N : ColumnRef → Prop) (x : Condition) : Prop :=
  ∀ c ∈ x.refs, N c

theorem forall_mem_refsOf : (∀ c ∈ refsOf xs, N c) ↔ ∀ x ∈ xs, x.RefsOnly N := by
  induction xs with
  | nil => simp [refsOf]
  | cons x rest ih =>
    rw [refsOf, List.forall_mem_append, ih, List.forall_mem_cons]
    rfl

@[simp] theorem refs_withConnective (c : Connective) (x : Condition) :
    (x.withConnective c).refs = x.refs := by
  cases x <;> rfl

@[simp] theorem refsOnly_withConnective {c : Connective} :
    (x.withConnective c).RefsOnly N ↔ x.RefsOnly N := by
  simp [RefsOnly]

theorem refsOnly_group {c : Connective} {members : List Condition} :
    (Condition.group c members).RefsOnly N ↔ ∀ x ∈ members, x.RefsOnly N :=
  forall_mem_refsOf

theorem refsOnly_existence {c : Connective} {negated : Bool} {frame : Frame} :
    (Condition.existence c negated frame xs).RefsOnly N ↔
      (∀ c ∈ frame.refs, N c) ∧ ∀ x ∈ xs, x.RefsOnly N := by
  rw [← forall_mem_refsOf, ← List.forall_mem_append]
  rfl

mutual

theorem refsOnly_redirect {a : String} {target : ColumnRef} (htarget : N target)
    (x : Condition) (h : x.RefsOnly N) : (x.redirect a target).RefsOnly N := by
  cases x with
  | compare c b names op v =>
    rw [redirect]
    split
    · intro column hcolumn
      obtain ⟨_, hname, rfl⟩ := List.mem_map.1 hcolumn
      obtain ⟨-, -, rfl⟩ := List.mem_map.1 hname
      exact htarget
    · exact h
  | membership c column values negated =>
    rw [redirect]
    split
    · exact List.forall_mem_singleton.2 htarget
    · exact h
  | group c members =>
    rw [redirect, refsOnly_group]
    exact refsOnly_redirectAll htarget members (refsOnly_group.1 h)
  | existence c negated frame inner => exact h
  | columns c left op right => exact h
  | subquery c frame inner op v => exact h
termination_by structural x

theorem refsOnly_redirectAll {a : String} {target : ColumnRef} (htarget : N target)
    (xs : List Condition) (h : ∀ x ∈ xs, x.RefsOnly N) :
    ∀ x ∈ redirectAll a target xs, x.RefsOnly N := by
  cases xs with
  | nil => simp [redirectAll]
  | cons x rest =>
    rw [List.forall_mem_cons] at h
    rw [redirectAll, List.forall_mem_cons]
    exact ⟨refsOnly_redirect htarget x h.1, refsOnly_redirectAll htarget rest h.2⟩
termination_by structural xs

end

theorem groupable_refsOnly : Groupable (RefsOnly N) where
  reconnected _ _ h := refsOnly_withConnective.2 h
  group _ _ _ h hrest := refsOnly_group.2 (List.forall_mem_cons.2 ⟨h, hrest⟩)

end Condition

namespace Relation

open Condition

variable {N : ColumnRef → Prop} {r : Relation} {a b : String} {extra : List Join}
  {xs : List Condition}

/-- The columns of a relation between rows under two aliases, and the column that conditions on the
linked rows are counted in, are among these. -/
structure Refers (N : ColumnRef → Prop) (r : Relation) (a b : String) : Prop where
  current : N ⟨a, r.current.column⟩
  linked : N ⟨b, r.linked.column⟩
  fromColumn : ∀ through, r.kind = .manyMany through → N ⟨joinTableAlias b, through.fromColumn⟩
  toColumn : ∀ through, r.kind = .manyMany through → N ⟨joinTableAlias b, through.toColumn⟩
  counted : N ⟨seriesAlias b, seriesColumn⟩

variable (hr : r.Refers N a b)

include hr

theorem refs_linkedJoin {through : JoinTable} (hkind : r.kind = .manyMany through)
    (kind : JoinKind) : ∀ c ∈ (r.linkedJoin b through kind).refs, N c := by
  simp only [linkedJoin, Join.refs, JoinTest.equal, JoinTest.refs, List.flatMap_cons,
    List.flatMap_nil, List.append_nil, List.forall_mem_cons]
  exact ⟨hr.linked, hr.toColumn through hkind, by simp⟩

theorem refs_joins (kind : JoinKind) (link : Bool) :
    ∀ j ∈ r.joins a b kind link, ∀ c ∈ j.refs, N c := by
  unfold joins
  split
  · next through hkind =>
    rw [List.forall_mem_cons]
    refine ⟨?_, ?_⟩
    · simp only [Join.refs, JoinTest.equal, JoinTest.refs, List.flatMap_cons, List.flatMap_nil,
        List.append_nil, List.forall_mem_cons]
      exact ⟨hr.fromColumn through hkind, hr.current, by simp⟩
    · split
      · exact List.forall_mem_singleton.2 (refs_linkedJoin hr hkind kind)
      · simp
  · rw [List.forall_mem_singleton]
    simp only [Join.refs, JoinTest.equal, JoinTest.refs, List.flatMap_cons, List.flatMap_nil,
      List.append_nil, List.forall_mem_cons]
    exact ⟨hr.linked, hr.current, by simp⟩

variable (hextra : ∀ j ∈ extra, ∀ c ∈ j.refs, N c)

include hextra

theorem refs_body (h : ∀ x ∈ xs, x.RefsOnly N) (division : Bool) :
    let body := r.body a b extra xs division
    (∀ c ∈ body.frame.refs, N c) ∧ body.correlation.RefsOnly N ∧
      ∀ x ∈ body.conditions, x.RefsOnly N := by
  have hframe : ∀ body : Body, (∀ j ∈ body.joins, ∀ c ∈ j.refs, N c) →
      ∀ c ∈ body.frame.refs, N c := by
    intro body hjoins c hc
    have hc : c ∈ body.joins.flatMap Join.refs := by
      simpa [Frame.refs, Frame.columnRefs, Body.frame, Statement.probe] using hc
    obtain ⟨j, hj, hc⟩ := List.mem_flatMap.1 hc
    exact hjoins j hj c hc
  have hpair : ∀ left right : ColumnRef, N left → N right →
      (Condition.columns .and left .eq right).RefsOnly N := fun left right hleft hright =>
    List.forall_mem_cons.2 ⟨hleft, List.forall_mem_singleton.2 hright⟩
  rcases r.body_cases a b extra xs division with
    ⟨-, hbody⟩ | ⟨through, hkind, hbody | ⟨-, -, hbody⟩⟩
  · rw [hbody]
    exact ⟨hframe _ hextra, hpair _ _ hr.linked hr.current, h⟩
  · rw [hbody]
    exact ⟨hframe _ (List.forall_mem_cons.2 ⟨refs_linkedJoin hr hkind .inner, hextra⟩),
      hpair _ _ (hr.fromColumn through hkind) hr.current, h⟩
  · rw [hbody]
    exact ⟨hframe _ (by simp), hpair _ _ (hr.fromColumn through hkind) hr.current,
      refsOnly_redirectAll (hr.toColumn through hkind) xs h⟩

/-- A semi-join refers to what its conditions and its joins refer to, and to columns of its
relation. -/
theorem refsOnly_semiJoin (h : ∀ x ∈ xs, x.RefsOnly N) (strategy : Strategy) (c : Connective) :
    (r.semiJoin a b extra xs strategy c).RefsOnly N := by
  rw [semiJoin_eq]
  split
  · obtain ⟨hframe, hcorrelation, hconditions⟩ := refs_body hr hextra h true
    rw [Body.divided, refsOnly_existence]
    refine ⟨by simp [Frame.refs, Frame.columnRefs, Statement.probe], ?_⟩
    rw [List.forall_mem_singleton, refsOnly_existence, List.forall_mem_cons,
      List.forall_mem_singleton, refsOnly_group]
    exact ⟨hframe, hcorrelation, groupable_refsOnly.forall_mem_numbered
      (fun _ => List.forall_mem_singleton.2 hr.counted) hconditions 1⟩
  · obtain ⟨hframe, hcorrelation, hconditions⟩ := refs_body hr hextra h false
    rw [Body.single, refsOnly_existence, List.forall_mem_cons]
    exact ⟨hframe, hcorrelation, groupable_refsOnly.forall_mem_conjoined hconditions⟩

end Relation

end PathQuery
