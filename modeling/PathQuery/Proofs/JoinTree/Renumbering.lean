import PathQuery.Proofs.JoinTree.Parts
import PathQuery.Proofs.JoinTree.Twins

/-!
What conditions ask of the rows at the nodes of a tree does not depend on how the nodes are
numbered: where two trees of one model have the same rows at twins, conditions that speak of the
nodes of both hold in one tree where they hold in the other.
-/

set_option autoImplicit false

namespace PathQuery.JoinTree

open Condition

variable {E : Engine} {s : Schema} {t u : JoinTree} {i j a b : Nat} {db : Database E}
  {scalar : Database.Scalar E} {rows rows' : Nat → Tuple E}

def RowsAgree (t u : JoinTree) (rows rows' : Nat → Tuple E) : Prop :=
  ∀ i j, Twin t u i j → rows i = rows' j

theorem RowsAgree.symm (h : RowsAgree t u rows rows') : RowsAgree u t rows' rows :=
  fun i j htwin => (h j i htwin.symm).symm

structure NormalIn (t u : JoinTree) (x : Condition) : Prop where
  leaf : members? x = none
  left : t.IsNormal x
  right : u.IsNormal x

theorem NormalIn.symm {x : Condition} (h : NormalIn t u x) : NormalIn u t x :=
  ⟨h.leaf, h.right, h.left⟩

theorem NormalIn.shared {x : Condition} (h : NormalIn t u x) : Shared t u x :=
  shared_of_isNormal h.leaf h.left h.right

theorem NormalIn.withConnective {x : Condition} (h : NormalIn t u x) (c : Connective) :
    NormalIn t u (x.withConnective c) :=
  ⟨by rw [members?_withConnective, h.leaf], isNormal_withConnective.2 h.left,
    isNormal_withConnective.2 h.right⟩

namespace Kin

variable (k : Kin s t u)

include k

theorem followAt_eq (h : Twin t u i j) (x : Tuple E) : t.followAt db x i = u.followAt db x j := by
  rw [followAt, followAt, k.relation_eq h]

theorem foldl_followAt {path path' : List Nat} (h : List.Forall₂ (Twin t u) path path')
    (x : Tuple E) : path.foldl (t.followAt db) x = path'.foldl (u.followAt db) x := by
  induction h generalizing x with
  | nil => rfl
  | cons hnode _ ih => rw [List.foldl_cons, List.foldl_cons, k.followAt_eq hnode, ih]

theorem all_isToMany {path path' : List Nat} (h : List.Forall₂ (Twin t u) path path') :
    (path.all fun n => !(t.node n).isToMany) = path'.all fun n => !(u.node n).isToMany := by
  induction h with
  | nil => rfl
  | cons hnode _ ih => rw [List.all_cons, List.all_cons, k.isToMany_eq hnode, ih]

theorem rowsAgree_extend (hrows : RowsAgree t u rows rows') (h : Twin t u i j) (y : Tuple E) :
    RowsAgree t u (t.extend db rows i y) (u.extend db rows' j y) := by
  intro a b hab
  have hpaths := k.pathBetween? h hab
  rw [extend, extend]
  generalize t.pathBetween? i a = path at hpaths ⊢
  generalize u.pathBetween? j b = path' at hpaths ⊢
  cases hpaths with
  | none => exact hrows a b hab
  | some hpath =>
    simp only [k.all_isToMany hpath, k.foldl_followAt hpath, hrows a b hab]

theorem rowsAt_eq (hrows : RowsAgree t u rows rows') (h : Twin t u i j) :
    t.rowsAt db rows i = u.rowsAt db rows' j := by
  by_cases hi : i = rootId
  · have hj := (k.eq_iff h k.root).1 hi
    rw [rowsAt, rowsAt, hi, hj, k.left.rootRelation, k.right.rootRelation]
  · obtain ⟨p, q, r, e, e', hparents⟩ := k.edges h hi
    rw [rowsAt, rowsAt]
    simp only [e.relation, e.parent, e'.relation, e'.parent, hrows p q hparents]

theorem leafHolds {x : Condition} (hx : NormalIn t u x) (hrows : RowsAgree t u rows rows') :
    t.LeafHolds db scalar rows x ↔ u.LeafHolds db scalar rows' x := by
  have hat : ∀ {o : Option Nat} {o' : Option Nat} {id : Nat}, Option.Rel (Twin t u) o o' →
      o = some id → u.scene rows' (t.node id).tableAlias = rows id := by
    intro o o' id hrel ho
    obtain ⟨id', -, htwin⟩ := rel_some_left hrel ho
    have hid := k.right.idOfAlias?_alias k.schemaRight k.names htwin.right
    rw [htwin.tableAlias, JoinTree.scene, hid, hrows id id' htwin]
    rfl
  refine (lets_leaf hx.left hx.leaf fun id hid => ?_).symm
  rcases hid with hid | hid
  · exact hat hx.shared.owner hid
  · exact hat hx.shared.right hid

theorem anchorAt?_eq_none (h : Twin t u i j) {x : Condition} (hx : NormalIn t u x)
    (hnone : u.anchorAt? j x = none) : t.anchorAt? i x = none := by
  have hanchor := k.anchorAt? h hx.shared
  rw [hnone] at hanchor
  generalize t.anchorAt? i x = o at hanchor ⊢
  cases hanchor
  rfl

theorem anchorAt?_eq_some_iff (h : Twin t u i j) {x : Condition} (hx : NormalIn t u x)
    (hab : Twin t u a b) : t.anchorAt? i x = some a ↔ u.anchorAt? j x = some b := by
  have hanchor := k.anchorAt? h hx.shared
  constructor
  · intro ha
    obtain ⟨b', hb', htwin⟩ := rel_some_left hanchor ha
    rw [hb', k.right_unique htwin hab]
  · intro hb
    obtain ⟨a', ha', htwin⟩ := rel_some_left (rel_symm hanchor fun _ _ => Twin.symm) hb
    rw [ha', k.left_unique htwin.symm hab]

theorem leavesAt (h : Twin t u i j) {xs : List Condition}
    (hxs : ∀ x ∈ xs, members? x = none → NormalIn t u x) (hab : Twin t u a b) :
    t.leavesAt i a xs = u.leavesAt j b xs := by
  rw [JoinTree.leavesAt, JoinTree.leavesAt]
  congr 1
  refine List.filter_congr fun x hx => ?_
  cases hm : members? x with
  | none => exact decide_eq_decide.2 (k.anchorAt?_eq_some_iff h (hxs x hx hm) hab)
  | some members =>
    obtain ⟨c, rfl⟩ := exists_members hm
    rfl

/-- Conditions collected somewhere in one tree are collected at its twin in the other. -/
theorem exists_collected (h : Twin t u i j) {xs : List Condition}
    (hxs : ∀ x ∈ xs, members? x = none → NormalIn t u x) (hsome : u.leavesAt j b xs ≠ []) :
    ∃ a, i < a ∧ a < t.size ∧ Twin t u a b ∧ t.leavesAt i a xs = u.leavesAt j b xs := by
  obtain ⟨x, hx, hb⟩ := exists_anchorAt?_of_leavesAt hsome
  have hleaf : members? x = none := by
    cases hm : members? x with
    | none => rfl
    | some members =>
      obtain ⟨c, rfl⟩ := exists_members hm
      simp at hb
  obtain ⟨a, ha, htwin⟩ := rel_some_left
    (rel_symm (k.anchorAt? h (hxs x hx hleaf).shared) fun _ _ => Twin.symm) hb
  obtain ⟨hlt, hsize⟩ := bounds_of_anchorAt? ha
  exact ⟨a, hlt, hsize, htwin.symm, k.leavesAt h hxs htwin.symm⟩

omit k in
theorem normalIn_leavesAt {xs : List Condition}
    (hxs : ∀ x ∈ xs, members? x = none → NormalIn t u x) :
    ∀ x ∈ t.leavesAt i a xs, NormalIn t u x := by
  intro x hx
  obtain ⟨y, hy, ha, rfl⟩ := mem_leavesAt.1 hx
  cases hm : members? y with
  | none => exact (hxs y hy hm).withConnective .and
  | some members =>
    obtain ⟨c, rfl⟩ := exists_members hm
    simp at ha

theorem linkedHold (h : Twin t u i j) {leaves : List Condition}
    (hleaves : ∀ x ∈ leaves, NormalIn t u x) (hrows : RowsAgree t u rows rows')
    (hholds : t.LinkedHold db scalar i leaves rows) : u.LinkedHold db scalar j leaves rows' := by
  -- The nodes below a node have larger numbers, so the induction is on the distance to the last.
  induction hn : t.size - i using Nat.strongRecOn generalizing i j leaves rows rows' with
  | ind n ih =>
    obtain ⟨hnear, hfar⟩ := linkedHold_iff.1 hholds
    have hmembers : ∀ x ∈ leaves, members? x = none → NormalIn t u x := fun x hx _ => hleaves x hx
    rw [linkedHold_iff, ← k.rowsAt_eq hrows h]
    refine ⟨fun x hx hnone => ?_, fun b _ _ hsome => ?_⟩
    · obtain ⟨y, hy, hleaf⟩ := hnear x hx (k.anchorAt?_eq_none h (hleaves x hx) hnone)
      exact ⟨y, hy, (k.leafHolds (hleaves x hx) (k.rowsAgree_extend hrows h y)).1 hleaf⟩
    · obtain ⟨a, hlt, hsize, hab, hsame⟩ := k.exists_collected h hmembers hsome
      rw [← hsame] at hsome ⊢
      obtain ⟨y, hy, hbelow⟩ := hfar a hlt hsize hsome
      refine ⟨y, hy, ih (t.size - a) (by omega) hab (normalIn_leavesAt hmembers)
        (k.rowsAgree_extend hrows h y) hbelow rfl⟩

theorem holds (h : Twin t u i j) (hrows : RowsAgree t u rows rows') {xs : List Condition}
    (hxs : t.AreNormal xs) (hxs' : u.AreNormal xs) (hholds : t.Holds db scalar i rows xs) :
    u.Holds db scalar j rows' xs := by
  induction hholds with
  | nothing => exact .nothing
  | @run xs run mem _ near far ih =>
    have hall : ∀ x ∈ run, t.IsNormal x ∧ u.IsNormal x := fun x hx =>
      have hmem := mem_of_mem_runs mem hx
      ⟨areNormal_iff.1 hxs x hmem, areNormal_iff.1 hxs' x hmem⟩
    have hnormal : ∀ x ∈ run, members? x = none → NormalIn t u x := fun x hx hleaf =>
      ⟨hleaf, (hall x hx).1, (hall x hx).2⟩
    refine .run mem (fun c members hx => ?_) (fun x hx hleaf hnone => ?_) fun b hsome => ?_
    · exact ih c members hx (hall _ hx).1 (hall _ hx).2
    · have hleft := near x hx hleaf (k.anchorAt?_eq_none h (hnormal x hx hleaf) hnone)
      exact (k.leafHolds (hnormal x hx hleaf) hrows).1 hleft
    · obtain ⟨a, -, -, hab, hsame⟩ := k.exists_collected h hnormal hsome
      rw [← hsame] at hsome ⊢
      exact k.linkedHold hab (normalIn_leavesAt hnormal) hrows (far a hsome)

theorem holds_iff_of_root (x : Tuple E) {xs : List Condition} (hxs : t.AreNormal xs)
    (hxs' : u.AreNormal xs) :
    t.Holds db scalar rootId (t.extend db (fun _ => nullRow) rootId x) xs ↔
      u.Holds db scalar rootId (u.extend db (fun _ => nullRow) rootId x) xs := by
  have hagree : ∀ {t u : JoinTree} (k : Kin s t u), RowsAgree t u
      (t.extend db (fun _ => nullRow) rootId x) (u.extend db (fun _ => nullRow) rootId x) :=
    fun k => k.rowsAgree_extend (fun _ _ _ => rfl) k.root x
  exact ⟨k.holds k.root (hagree k) hxs hxs', k.symm.holds k.symm.root (hagree k.symm) hxs' hxs⟩

end Kin

end PathQuery.JoinTree
