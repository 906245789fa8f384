import PathQuery.Proofs.JoinTree.Laws

/-!
Conditions on the rows of one node. Rows are picked for the node one after the other: of those that
each relation to many on the way links, one. A condition that holds of rows so picked holds of the
scope, whatever it joins. The other way it may be asked of several rows: under AND each comparison
of its own, so one row is all it takes only where nothing is joined by AND or nothing else is there
to be picked.
-/

set_option autoImplicit false

namespace PathQuery.JoinTree

variable {E : Engine}

/-- Rows for the way from a scope down to a node: of the rows that each relation to many links, one,
and with it the rows joined to it. -/
inductive Picks (t : JoinTree) (db : Database E) (id : Nat) :
    Nat → (Nat → Tuple E) → (Nat → Tuple E) → Prop
  | joined {scope : Nat} {rows : Nat → Tuple E} (joined : t.anchor? scope id = none) :
    Picks t db id scope rows rows
  | through {scope a : Nat} {rows picked : Nat → Tuple E} {y : Tuple E}
    (anchored : t.anchor? scope id = some a) (linked : y ∈ t.rowsAt db rows a)
    (rest : Picks t db id a (t.extend db rows a y) picked) : Picks t db id scope rows picked

def PicksOnce (t : JoinTree) (db : Database E) (id scope : Nat) (rows : Nat → Tuple E) : Prop :=
  ∀ p q, t.Picks db id scope rows p → t.Picks db id scope rows q → p = q

abbrev About (t : JoinTree) (id : Nat) (x : Condition) : Prop :=
  EachLeaf (fun leaf => t.owner? leaf = some id) x

section Groups

variable (P : List Condition → Prop)

mutual

def EachGroup : Condition → Prop
  | .group _ members => P members ∧ EachGroupOf members
  | .compare _ _ _ _ _ => True
  | .existence _ _ _ _ => True
  | .membership _ _ _ _ => True
  | .columns _ _ _ _ => True
  | .subquery _ _ _ _ _ => True
termination_by structural x => x

def EachGroupOf : List Condition → Prop
  | [] => True
  | x :: rest => EachGroup x ∧ EachGroupOf rest
termination_by structural xs => xs

end

end Groups

def JoinedByOr (xs : List Condition) : Prop :=
  ∀ x ∈ xs.drop 1, x.connective = .or

variable {t : JoinTree} {db : Database E} {scalar : Database.Scalar E} {id scope : Nat}
  {rows picked : Nat → Tuple E} {x : Condition} {xs : List Condition}

/-- Comparisons that hold of a picked row hold of linked rows: each time of the row that was
picked. -/
theorem Picks.linkedHold {a : Nat} {y : Tuple E} (hlinked : y ∈ t.rowsAt db rows a)
    (h : t.Picks db id a (t.extend db rows a y) picked)
    (howner : ∀ x ∈ xs, t.owner? x = some id)
    (hxs : ∀ x ∈ xs, t.LeafHolds db scalar picked x) : t.LinkedHold db scalar a xs rows := by
  generalize hrows : t.extend db rows a y = below at h
  induction h generalizing rows y xs with
  | @joined a below joined =>
    have hjoined : ∀ x ∈ xs, t.anchorAt? a x = none :=
      fun x hx => (anchorAt?_of_owner (howner x hx) a).trans joined
    exact (linkedHold_near hjoined).2 fun x hx => ⟨y, hlinked, hrows ▸ hxs x hx⟩
  | @through a b below picked z anchored linked rest ih =>
    have hb : ∀ x ∈ xs, t.anchorAt? a x = some b :=
      fun x hx => (anchorAt?_of_owner (howner x hx) a).trans anchored
    by_cases hne : xs = []
    · subst hne
      refine linkedHold_iff.2 ⟨by simp, fun c _ _ hsome => ?_⟩
      simp [leavesAt] at hsome
    · subst hrows
      refine (linkedHold_far hne hb).2 ⟨y, hlinked, ih linked ?_ ?_ rfl⟩
      · simpa using howner
      · simpa using hxs

theorem Picks.runHolds (h : t.Picks db id scope rows picked)
    (howner : ∀ x ∈ xs, members? x = none → t.owner? x = some id)
    (hxs : ∀ x ∈ xs, members? x = none → t.LeafHolds db scalar picked x)
    (hgroups : ∀ c members, .group c members ∈ xs → t.Holds db scalar scope rows members) :
    t.RunHolds db scalar scope rows xs := by
  intro m hm
  cases hm with
  | group hx => exact hgroups _ _ hx
  | near hx hleaf hjoined =>
    rw [anchorAt?_of_owner (howner _ hx hleaf)] at hjoined
    cases h with
    | joined => exact hxs _ hx hleaf
    | through anchored => simp [hjoined] at anchored
  | @far a hsome =>
    have hleaves : ∀ x ∈ t.leavesAt scope a xs,
        t.owner? x = some id ∧ t.LeafHolds db scalar picked x := by
      intro x hx
      obtain ⟨x', hx', ha, rfl⟩ := mem_leavesAt.1 hx
      have hleaf := members?_of_anchorAt? ha
      simpa using ⟨howner x' hx' hleaf, hxs x' hx' hleaf⟩
    obtain ⟨x, hx, ha⟩ := exists_anchorAt?_of_leavesAt hsome
    rw [anchorAt?_of_owner (howner x hx (members?_of_anchorAt? ha))] at ha
    cases h with
    | joined joined => simp [joined] at ha
    | through anchored linked rest =>
      obtain rfl := Option.some.inj (ha.symm.trans anchored)
      exact rest.linkedHold linked (fun x hx => (hleaves x hx).1) fun x hx => (hleaves x hx).2

theorem Picks.runHolds_leaf (h : t.Picks db id scope rows picked) (hleaf : members? x = none)
    (howner : t.owner? x = some id) (hx : t.LeafHolds db scalar picked x) :
    t.RunHolds db scalar scope rows [x] := by
  refine h.runHolds (by simpa using fun _ => howner) (by simpa using fun _ => hx) ?_
  intro c members hmem
  rw [← List.mem_singleton.1 hmem] at hleaf
  cases hleaf

mutual

theorem Picks.runHolds_of_lets (h : t.Picks db id scope rows picked) (x : Condition)
    (hx : t.About id x) (hlets : db.Lets scalar (t.scene picked) x) :
    t.RunHolds db scalar scope rows [x] := by
  cases x with
  | group c members =>
    rw [Database.lets_group, Database.letsAll_iff, read_iff_runs] at hlets
    rw [runHolds_group, holds_iff]
    refine hlets.imp_right fun ⟨run, hrun, hall⟩ => ⟨run, hrun, ?_⟩
    have hmem : ∀ z ∈ run, z ∈ members := fun z hz => mem_of_mem_runs hrun hz
    refine h.runHolds (fun z hz hleaf => ?_) (fun z hz _ => hall z hz) fun d inner hinner => ?_
    · exact (eachLeaf_iff hleaf).1 (eachLeafOf_iff.1 hx z (hmem z hz))
    · exact runHolds_group.1 (h.runHolds_of_letsOf members hx _ (hmem _ hinner) (hall _ hinner))
  | _ => exact h.runHolds_leaf rfl hx hlets
termination_by structural x

theorem Picks.runHolds_of_letsOf (h : t.Picks db id scope rows picked) (xs : List Condition)
    (hxs : EachLeafOf (fun leaf => t.owner? leaf = some id) xs) :
    ∀ x ∈ xs, db.Lets scalar (t.scene picked) x → t.RunHolds db scalar scope rows [x] := by
  cases xs with
  | nil => simp
  | cons x rest =>
    rw [List.forall_mem_cons]
    exact ⟨h.runHolds_of_lets x hxs.1, h.runHolds_of_letsOf rest hxs.2⟩
termination_by structural xs

end

theorem exists_picks_of_linkedHold {a : Nat} (howner : t.owner? x = some id)
    (ha : t.anchor? scope id = some a) (h : t.LinkedHold db scalar a [x] rows) :
    ∃ picked, t.Picks db id scope rows picked ∧ t.LeafHolds db scalar picked x := by
  -- Each further relation to many leads to a node nearer to the one that the comparison is about.
  induction hn : id - a using Nat.strongRecOn generalizing scope a rows x with
  | ind n ih =>
    cases hb : t.anchor? a id with
    | none =>
      have hjoined : ∀ z ∈ [x], t.anchorAt? a z = none := by
        simpa using (anchorAt?_of_owner howner a).trans hb
      obtain ⟨y, hy, hholds⟩ := (linkedHold_near hjoined).1 h x List.mem_cons_self
      exact ⟨_, .through ha hy (.joined hb), hholds⟩
    | some b =>
      have hfar : ∀ z ∈ [x], t.anchorAt? a z = some b := by
        simpa using (anchorAt?_of_owner howner a).trans hb
      obtain ⟨y, hy, hbelow⟩ := (linkedHold_far (List.cons_ne_nil x []) hfar).1 h
      have hbounds := anchor?_bounds hb
      obtain ⟨picked, hpicked, hholds⟩ := ih (id - b) (by omega)
        (by rwa [owner?_withConnective]) hb hbelow rfl
      exact ⟨picked, .through ha hy hpicked, leafHolds_withConnective.1 hholds⟩

theorem exists_picks_of_leaf (hleaf : members? x = none) (howner : t.owner? x = some id)
    (h : t.RunHolds db scalar scope rows [x]) :
    ∃ picked, t.Picks db id scope rows picked ∧ t.LeafHolds db scalar picked x := by
  have hat := anchorAt?_of_owner howner scope
  cases ha : t.anchor? scope id with
  | none => exact ⟨rows, .joined ha, (runHolds_near hleaf (hat.trans ha)).1 h⟩
  | some a =>
    have hfar := (runHolds_far (List.cons_ne_nil x []) (by simpa using hat.trans ha)).1 h
    obtain ⟨picked, hpicked, hholds⟩ :=
      exists_picks_of_linkedHold (by rwa [owner?_withConnective]) ha hfar
    exact ⟨picked, hpicked, leafHolds_withConnective.1 hholds⟩

mutual

/-- A condition that holds of the scope holds of a row that can be picked, unless AND asks for
several comparisons and there are several rows. -/
theorem exists_picks (x : Condition) (hx : t.About id x) (hfull : EachGroup (· ≠ []) x)
    (hone : EachGroup JoinedByOr x ∨ t.PicksOnce db id scope rows)
    (h : t.RunHolds db scalar scope rows [x]) :
    ∃ picked, t.Picks db id scope rows picked ∧ db.Lets scalar (t.scene picked) x := by
  cases x with
  | group c members =>
    have hmembers := exists_picksOf members hx hfull.2 (hone.imp_left And.right)
    rw [runHolds_group, holds_iff] at h
    obtain ⟨run, hrun, hholds⟩ := h.resolve_left hfull.1
    have heach : ∀ z ∈ run, ∃ picked, t.Picks db id scope rows picked ∧
        db.Lets scalar (t.scene picked) z :=
      fun z hz => hmembers z (mem_of_mem_runs hrun hz) (hholds.of_subset (by simpa using hz))
    obtain ⟨z, hz⟩ := List.exists_mem_of_ne_nil _ (ne_nil_of_mem_runs hrun)
    obtain ⟨picked, hpicked, hlets⟩ := heach z hz
    refine ⟨picked, hpicked, ?_⟩
    rw [Database.lets_group, Database.letsAll_iff, read_iff_runs]
    refine .inr ⟨run, hrun, fun z' hz' => ?_⟩
    rcases hone with hor | honce
    · obtain ⟨y, rest, rfl⟩ := List.exists_cons_of_ne_nil hfull.1
      have hrest : ∀ w ∈ rest, w.connective = .or := hor.1
      rw [runs_of_or hrest] at hrun
      obtain ⟨w, -, rfl⟩ := List.mem_map.1 hrun
      rw [List.mem_singleton] at hz hz'
      rwa [hz', ← hz]
    · obtain ⟨picked', hpicked', hlets'⟩ := heach z' hz'
      rwa [honce picked picked' hpicked hpicked']
  | _ => exact exists_picks_of_leaf rfl hx h
termination_by structural x

theorem exists_picksOf (xs : List Condition)
    (hxs : EachLeafOf (fun leaf => t.owner? leaf = some id) xs)
    (hfull : EachGroupOf (· ≠ []) xs)
    (hone : EachGroupOf JoinedByOr xs ∨ t.PicksOnce db id scope rows) :
    ∀ x ∈ xs, t.RunHolds db scalar scope rows [x] →
      ∃ picked, t.Picks db id scope rows picked ∧ db.Lets scalar (t.scene picked) x := by
  cases xs with
  | nil => simp
  | cons x rest =>
    rw [List.forall_mem_cons]
    exact ⟨exists_picks x hxs.1 hfull.1 (hone.imp_left And.left),
      exists_picksOf rest hxs.2 hfull.2 (hone.imp_left And.right)⟩
termination_by structural xs

end

theorem Picks.holds (h : t.Picks db id scope rows picked) (hx : t.About id x)
    (hlets : db.Lets scalar (t.scene picked) x) : t.Holds db scalar scope rows [x] :=
  holds_single.2 (h.runHolds_of_lets x hx hlets)

theorem holds_iff_exists_picks (hx : t.About id x) (hfull : EachGroup (· ≠ []) x)
    (hone : EachGroup JoinedByOr x ∨ t.PicksOnce db id scope rows) :
    t.Holds db scalar scope rows [x] ↔
      ∃ picked, t.Picks db id scope rows picked ∧ db.Lets scalar (t.scene picked) x :=
  ⟨fun h => exists_picks x hx hfull hone (holds_single.1 h),
    fun ⟨_, hpicked, hlets⟩ => hpicked.holds hx hlets⟩

/-- Joined by AND, comparisons are divided over the rows that the last relation to many links: each
of them holds of some row. -/
theorem holds_divided {c : Connective} {a : Nat} (hne : xs ≠ [])
    (howner : ∀ x ∈ xs, t.owner? x = some id) (hand : ∀ x ∈ xs.drop 1, x.connective = .and)
    (ha : t.anchor? scope id = some a) (hlast : t.anchor? a id = none) :
    t.Holds db scalar scope rows [.group c xs] ↔ ∀ x ∈ xs, ∃ y ∈ t.rowsAt db rows a,
      t.LeafHolds db scalar (t.extend db rows a y) x := by
  have hfar : ∀ x ∈ xs, t.anchorAt? scope x = some a :=
    fun x hx => (anchorAt?_of_owner (howner x hx) scope).trans ha
  have hnear : ∀ x ∈ xs.map (·.withConnective .and), t.anchorAt? a x = none := by
    rw [List.forall_mem_map]
    intro x hx
    rw [anchorAt?_withConnective, anchorAt?_of_owner (howner x hx), hlast]
  rw [holds_single, runHolds_group, holds_of_and hand, runHolds_far hne hfar, linkedHold_near hnear]
  simp

end PathQuery.JoinTree
