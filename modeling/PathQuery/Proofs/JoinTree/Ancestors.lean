import Mathlib.Data.List.Chain
import Mathlib.Data.List.Flatten
import Mathlib.Data.List.Sort
import Mathlib.Logic.Relation
import PathQuery.Proofs.JoinTree.Calls

/-!
What the walks of a tree find. The way from one node down to another exists where the first is the
other or above it, and steps from parent to child; marks reach the nodes above a node and no others;
the walk down lists what is below a node, each parent before its children and these in the order in
which they were made.
-/

set_option autoImplicit false

namespace PathQuery.JoinTree

variable {t u : JoinTree} {s n p c d : Nat}

def ParentOf (t : JoinTree) (p id : Nat) : Prop :=
  (t.node id).parent = some p

theorem WellFormed.exists_path_iff (ht : t.WellFormed) {scope id : Nat} :
    (∃ path, t.pathBetween? scope id = some path) ↔
      Relation.ReflTransGen t.ParentOf scope id := by
  constructor
  · induction id using Nat.strongRecOn with
    | ind id ih =>
      rintro ⟨path, hpath⟩
      rcases pathBetween?_eq_some hpath with ⟨rfl, -⟩ | ⟨p, q, hp, hlt, -, hq, -⟩
      · exact .refl
      · exact (ih p hlt ⟨q, hq⟩).tail hp
  · intro h
    induction h with
    | refl => exact ⟨[], pathBetween?_self t scope⟩
    | @tail p id _ hp ih =>
      obtain ⟨q, hq⟩ := ih
      by_cases hid : id = scope
      · exact ⟨[], by rw [hid, pathBetween?_self]⟩
      · refine ⟨q ++ [id], ?_⟩
        rw [pathBetween?_of_parent hid hp (ht.parent_lt hp).1, hq, Option.map_some]

theorem WellFormed.le_of_reflTransGen (h : t.WellFormed)
    (habove : Relation.ReflTransGen t.ParentOf s n) : s ≤ n := by
  obtain ⟨path, hpath⟩ := h.exists_path_iff.2 habove
  exact (t.pathBetween?_bounds s n path hpath).1

/-- The nodes below `s` down to `n`, each the parent of the next and `s` that of the first. -/
structure IsWay (t : JoinTree) (s n : Nat) (path : List Nat) : Prop where
  parents : (s :: path).IsChain t.ParentOf
  last : (s :: path).getLast? = some n

theorem isWay_of_path {path : List Nat} (h : t.pathBetween? s n = some path) :
    t.IsWay s n path := by
  induction n using Nat.strongRecOn generalizing path with
  | ind n ih =>
    rcases pathBetween?_eq_some h with ⟨rfl, rfl⟩ | ⟨p, q, hp, hlt, -, hq, rfl⟩
    · exact ⟨.singleton _, rfl⟩
    · obtain ⟨hparents, hlast⟩ := ih p hlt hq
      have hstep : ∀ x ∈ (s :: q).getLast?, ∀ y ∈ [n].head?, t.ParentOf x y := by
        rw [hlast]
        rintro x ⟨⟩ y ⟨⟩
        exact hp
      have hchain := List.isChain_append.2 ⟨hparents, .singleton n, hstep⟩
      have hlast' : (s :: q ++ [n]).getLast? = some n := List.getLast?_concat
      exact ⟨hchain, hlast'⟩

theorem anchor?_eq_some_iff {a : Nat} : t.anchor? s n = some a ↔
    ∃ before behind, t.pathBetween? s n = some (before ++ a :: behind) ∧
      (t.node a).isToMany = true ∧ ∀ m ∈ before, (t.node m).isToMany = false := by
  rw [anchor?, Option.bind_eq_some_iff]
  constructor
  · rintro ⟨path, hpath, hfind⟩
    obtain ⟨hmany, before, behind, rfl, hbefore⟩ := List.find?_eq_some_iff_append.1 hfind
    exact ⟨before, behind, hpath, hmany, by simpa using hbefore⟩
  · rintro ⟨before, behind, hpath, hmany, hbefore⟩
    exact ⟨_, hpath, List.find?_eq_some_iff_append.2
      ⟨hmany, before, behind, rfl, by simpa using hbefore⟩⟩

theorem WellFormed.mem_lineage_iff (h : t.WellFormed) {id : Nat} :
    id ∈ t.lineage n ↔ Relation.ReflTransGen t.ParentOf id n := by
  constructor
  · intro hid
    induction n using Nat.strongRecOn with
    | ind n ih =>
      rw [lineage, List.mem_cons] at hid
      rcases hid with rfl | hid
      · exact .refl
      · split at hid
        · next p hp =>
          split at hid
          · next hlt => exact .tail (ih p hlt hid) hp
          · cases hid
        · cases hid
  · intro habove
    induction habove using Relation.ReflTransGen.head_induction_on with
    | refl => exact mem_lineage_self t n
    | head hp _ ih => exact h.parent_mem_lineage ih hp

/-- The second tree is the first with `mark` put on a node and all above it, and on no other. -/
structure MarkedFrom (n : Nat) (mark : Node → Node) (t u : JoinTree) : Prop where
  schema : u.schema = t.schema
  rootTable : u.rootTable = t.rootTable
  size : u.size = t.size
  marked : ∀ id, Relation.ReflTransGen t.ParentOf id n → u.node id = mark (t.node id)
  others : ∀ id, ¬ Relation.ReflTransGen t.ParentOf id n → u.node id = t.node id

theorem WellFormed.markedFrom (h : t.WellFormed) (hn : n < t.size) (mark : Node → Node) :
    MarkedFrom n mark t (t.modifyAll (t.lineage n) mark) where
  schema := rfl
  rootTable := rfl
  size := size_modifyAll t _ mark
  marked id habove := by
    have hlt : id < t.size := Nat.lt_of_le_of_lt (h.le_of_reflTransGen habove) hn
    rw [node_modifyAll, if_pos ⟨h.mem_lineage_iff.2 habove, hlt⟩]
  others id habove := by
    rw [node_modifyAll, if_neg fun hid => habove (h.mem_lineage_iff.1 hid.1)]

def childIds (t : JoinTree) (id : Nat) : List Nat :=
  (t.node id).children.map Prod.snd

def ChildrenInOrder (t : JoinTree) : Prop :=
  ∀ id, (t.childIds id).Pairwise (· < ·)

theorem WellFormed.mem_childIds (h : t.WellFormed) : c ∈ t.childIds p ↔ t.ParentOf p c := by
  constructor
  · intro hc
    obtain ⟨entry, hentry, rfl⟩ := List.mem_map.1 hc
    exact (h.child p entry.1 entry.2 hentry).2.2.1
  · intro hp
    obtain ⟨hlt, hsize⟩ := h.parent_lt hp
    obtain ⟨p', r, e⟩ := h.edge c (Nat.zero_lt_of_lt hlt) hsize
    obtain rfl : p' = p := Option.some.inj (e.parent.symm.trans hp)
    exact List.mem_map.2 ⟨_, e.listed, rfl⟩

theorem SameShape.childrenInOrder (h : SameShape t u) (ht : t.ChildrenInOrder) :
    u.ChildrenInOrder := by
  intro id
  rw [childIds, h.children]
  exact ht id

theorem childrenInOrder_grow (h : t.WellFormed) (ht : t.ChildrenInOrder) (p : Nat) (name : String)
    (r : Relation) : (t.grow p name r).ChildrenInOrder := by
  intro id
  by_cases hid : id = t.size
  · rw [childIds, hid, node_grow_size]
    exact .nil
  · rw [childIds, node_grow_ne_size t p name r hid, List.map_append, List.pairwise_append]
    refine ⟨ht id, ?_, fun a ha b hb => ?_⟩
    · split
      · exact List.pairwise_singleton _ _
      · exact .nil
    · -- The new child has the largest number of all.
      have hlt : a < t.size := (h.parent_lt (h.mem_childIds.1 ha)).2
      split at hb
      · obtain rfl : b = t.size := by simpa using hb
        exact hlt
      · cases hb

theorem Step.childrenInOrder (hstep : Step t u) (h : t.WellFormed) (ht : t.ChildrenInOrder) :
    u.ChildrenInOrder := by
  cases hstep with
  | child p name =>
    rcases child_cases t p name with hsame | ⟨r, -, hgrow⟩
    · rwa [hsame]
    · rw [hgrow]
      exact childrenInOrder_grow h ht p name r
  | attach id leaf => exact (sameShape_attach t id leaf).childrenInOrder ht
  | joinPath id => exact (sameShape_joinPath t id).childrenInOrder ht
  | select id => exact (sameShape_select t id).childrenInOrder ht
  | require id => exact (sameShape_require t id).childrenInOrder ht

theorem Reached.childrenInOrder (hreached : Reached t u) (h : t.WellFormed)
    (ht : t.ChildrenInOrder) : u.ChildrenInOrder := by
  induction hreached with
  | start => exact ht
  | step hreached hstep ih => exact hstep.childrenInOrder (hreached.grown.wellFormed h) ih

theorem Planted.childrenInOrder {schema : Schema} (h : Planted schema t) : t.ChildrenInOrder := by
  intro id
  obtain ⟨model, hmodel⟩ := h.node id
  rw [childIds, hmodel]
  exact .nil

theorem WellFormed.offspring_eq (h : t.WellFormed) (id : Nat) :
    t.offspring id = (t.childIds id).flatMap t.preorder := by
  rw [offspring, childIds, List.flatMap_map]
  refine List.flatMap_congr fun entry hentry => if_pos ?_
  exact h.parent_lt (h.child id entry.1 entry.2 hentry).2.2.1

theorem WellFormed.preorder_eq_flatMap (h : t.WellFormed) (id : Nat) :
    t.preorder id = id :: (t.childIds id).flatMap t.preorder := by
  rw [preorder_eq, h.offspring_eq]

/-- What is below a node that a walk meets comes right behind it. -/
theorem WellFormed.infix_preorder (h : t.WellFormed) (hn : n ∈ t.preorder s) :
    t.preorder n <:+: t.preorder s := by
  induction hsize : t.size - s using Nat.strongRecOn generalizing s with
  | ind k ih =>
    have hblocks := h.preorder_eq_flatMap s
    rw [hblocks] at hn
    rcases List.mem_cons.1 hn with rfl | hn
    · exact List.infix_rfl
    · obtain ⟨c, hc, hn⟩ := List.mem_flatMap.1 hn
      obtain ⟨hlt, hcsize⟩ := h.parent_lt (h.mem_childIds.1 hc)
      have hbelow := ih (t.size - c) (by omega) hn rfl
      have hchild := List.infix_flatMap_of_mem hc t.preorder
      rw [hblocks]
      exact (hbelow.trans hchild).trans (List.infix_cons List.infix_rfl)

theorem WellFormed.parent_before (h : t.WellFormed) (hp : p ∈ t.preorder s)
    (hc : t.ParentOf p c) : [p, c].Sublist (t.preorder s) := by
  refine List.Sublist.trans ?_ (h.infix_preorder hp).sublist
  rw [h.preorder_eq_flatMap p]
  refine .cons_cons p (List.singleton_sublist.2 (List.mem_flatMap.2 ⟨c, h.mem_childIds.2 hc, ?_⟩))
  exact self_mem_preorder t c

theorem WellFormed.sibling_before (h : t.WellFormed) (ht : t.ChildrenInOrder)
    (hp : p ∈ t.preorder s) (hc : t.ParentOf p c) (hd : t.ParentOf p d) (hlt : c < d) :
    [c, d].Sublist (t.preorder s) := by
  have hchildren : [c, d].Sublist (t.childIds p) := by
    have hpair : [c, d].Pairwise (· < ·) := by simpa using hlt
    have hsubset : [c, d] ⊆ t.childIds p := by simp [h.mem_childIds, hc, hd]
    exact List.sublist_of_subperm_of_pairwise
      (List.subperm_of_subset (hpair.imp Nat.ne_of_lt) hsubset) hpair (ht p)
  have hheads : ([c] ++ [d]).Sublist ([c, d].flatMap t.preorder) := by
    simpa using (List.singleton_sublist.2 (self_mem_preorder t c)).append
      (List.singleton_sublist.2 (self_mem_preorder t d))
  refine (hheads.trans (hchildren.flatMap t.preorder)).trans ?_
  refine List.Sublist.trans ?_ (h.infix_preorder hp).sublist
  rw [h.preorder_eq_flatMap p]
  exact List.sublist_cons_self _ _

theorem WellFormed.mem_preorder_iff (h : t.WellFormed) (hs : s < t.size) :
    n ∈ t.preorder s ↔ Relation.ReflTransGen t.ParentOf s n := by
  rw [← h.exists_path_iff]
  constructor
  · exact h.exists_path_of_mem_preorder
  · rintro ⟨path, hpath⟩
    have hn : n < t.size := by
      rcases pathBetween?_eq_some hpath with ⟨rfl, -⟩ | ⟨p, q, hp, -, -, -, -⟩
      · exact hs
      · exact (h.parent_lt hp).2
    exact h.mem_preorder hn hpath

/-- The nodes at or below `s`, each once and with all below it right behind it, parents before their
children and the children of a node in the order in which they were made. -/
structure ListsSubtree (t : JoinTree) (s : Nat) (ids : List Nat) : Prop where
  once : ids.Nodup
  mem : ∀ id, id ∈ ids ↔ Relation.ReflTransGen t.ParentOf s id
  together : ∀ id ∈ ids, t.preorder id <:+: ids
  parents : ∀ p c, p ∈ ids → t.ParentOf p c → [p, c].Sublist ids
  siblings : ∀ p c d, p ∈ ids → t.ParentOf p c → t.ParentOf p d → c < d → [c, d].Sublist ids

theorem WellFormed.listsSubtree (h : t.WellFormed) (ht : t.ChildrenInOrder) (hs : s < t.size) :
    t.ListsSubtree s (t.preorder s) where
  once := h.nodup_preorder s
  mem _ := h.mem_preorder_iff hs
  together _ hid := h.infix_preorder hid
  parents _ _ hp hc := h.parent_before hp hc
  siblings _ _ _ hp hc hd hlt := h.sibling_before ht hp hc hd hlt

end PathQuery.JoinTree
