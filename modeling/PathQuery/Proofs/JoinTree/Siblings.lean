import PathQuery.Proofs.JoinTree.Joined
import PathQuery.Proofs.JoinTree.Kin
import PathQuery.Proofs.Relation.Siblings

/-!
The joins below a scope, in two trees of one model. They are joins of the same nodes, taken in the
order of a walk down; as the children of a node may stand in another order in the other tree, so may
the branches that hang on it.
-/

set_option autoImplicit false

namespace PathQuery.JoinTree

open Join

variable {t : JoinTree} {scope : Nat} {w : Nat → Bool}

/-- Nodes below a scope that hang together, each reached by a relation to one row. -/
structure Hanging (t : JoinTree) (scope : Nat) (w : Nat → Bool) : Prop where
  below : ∀ n, w n = true → scope < n ∧ n < t.size
  one : ∀ n, w n = true → (t.node n).isToMany = false
  up : ∀ n p, w n = true → (t.node n).parent = some p → p = scope ∨ w p = true

def branch (t : JoinTree) (w : Nat → Bool) (n : Nat) : List Join :=
  ((t.preorder n).filter w).flatMap fun id => t.joinsFor id .left

def below (t : JoinTree) (w : Nat → Bool) (n : Nat) : List Join :=
  ((t.offspring n).filter w).flatMap fun id => t.joinsFor id .left

theorem branch_of_wanted {n : Nat} (hn : w n = true) :
    t.branch w n = t.joinsFor n .left ++ t.below w n := by
  rw [branch, below, preorder_eq, List.filter_cons_of_pos hn, List.flatMap_cons]

theorem mem_branch {n : Nat} {j : Join} :
    j ∈ t.branch w n ↔ ∃ id ∈ t.preorder n, w id = true ∧ j ∈ t.joinsFor id .left := by
  simp [branch, and_assoc]

theorem joinsWithin_eq_below (t : JoinTree) (scope : Nat) (targets : List Nat) :
    t.joinsWithin scope targets = t.below (t.isWanted scope targets) scope := by
  rw [joinsWithin_eq, preorder_eq, List.filter_cons_of_neg (by simp [isWanted]), below]

theorem hanging_isWanted {targets : List Nat}
    (htargets : ∀ id ∈ targets, id < t.size ∧ t.anchor? scope id = none) :
    t.Hanging scope (t.isWanted scope targets) where
  below n hn := by
    obtain ⟨hlt, hsize, -⟩ := joinedFrom_of_isWanted htargets hn
    exact ⟨hlt, hsize⟩
  one n hn := (joinedFrom_of_isWanted htargets hn).2.2.1
  up _ _ hn hp := parent_of_isWanted hn hp

namespace Hanging

variable (hw : t.Hanging scope w)

include hw

theorem edge (ht : t.WellFormed) {n : Nat} (hn : w n = true) :
    ∃ p r, t.Edge p n r ∧ r.isToMany = false := by
  obtain ⟨hlt, hsize⟩ := hw.below n hn
  obtain ⟨p, r, e⟩ := ht.edge n (Nat.zero_lt_of_lt hlt) hsize
  exact ⟨p, r, e, by rw [← isToMany_of_edge e, hw.one n hn]⟩

theorem wanted_of_mem_preorder (ht : t.WellFormed) {n id : Nat} (hn : scope < n)
    (hid : id ∈ t.preorder n) (hwanted : w id = true) : w n = true := by
  induction id using Nat.strongRecOn with
  | ind id ih =>
    by_cases hne : id = n
    · exact hne ▸ hwanted
    · rw [preorder_eq, List.mem_cons] at hid
      obtain ⟨p, hp, hmem⟩ := ht.parent_of_mem_offspring (hid.resolve_left hne)
      have hle := le_of_mem_preorder hmem
      exact ih p (ht.parent_lt hp).1 hmem ((hw.up id p hwanted hp).resolve_left (by omega))

theorem below_eq (ht : t.WellFormed) {n : Nat} (hn : scope ≤ n) : t.below w n =
    (((t.node n).children.filter fun entry => w entry.2).map fun entry =>
      t.branch w entry.2).flatten := by
  have hentry : ∀ entry ∈ (t.node n).children,
      n < entry.2 ∧ entry.2 < t.size ∧ (w entry.2 = false → t.branch w entry.2 = []) := by
    intro entry hmem
    obtain ⟨-, hlt, hparent, -⟩ := ht.child n entry.1 entry.2 hmem
    have hbelow := (ht.parent_lt hparent).1
    refine ⟨hbelow, hlt, fun hnot => List.eq_nil_iff_forall_not_mem.2 fun j hj => ?_⟩
    obtain ⟨id, hid, hwanted, -⟩ := mem_branch.1 hj
    have hcontra := hw.wanted_of_mem_preorder ht (Nat.lt_of_le_of_lt hn hbelow) hid hwanted
    rw [hnot] at hcontra
    cases hcontra
  rw [JoinTree.below, offspring]
  generalize (t.node n).children = entries at hentry ⊢
  induction entries with
  | nil => rfl
  | cons entry rest ih =>
    rw [List.forall_mem_cons] at hentry
    obtain ⟨⟨hlt, hsize, hnot⟩, hrest⟩ := hentry
    rw [List.flatMap_cons, if_pos ⟨hlt, hsize⟩, List.filter_append, List.flatMap_append, ih hrest]
    change t.branch w entry.2 ++ _ = _
    rw [List.filter_cons]
    cases hc : w entry.2 with
    | true => rfl
    | false => simp [hnot hc]

theorem of_mem_joinsFor (ht : t.WellFormed) {n : Nat} (hn : w n = true) {j : Join}
    (hj : j ∈ t.joinsFor n .left) : j.tableAlias = (t.node n).tableAlias ∧
      ∀ p, (t.node n).parent = some p → ∀ a, j.TiedTo a ↔ a = (t.node p).tableAlias := by
  obtain ⟨p, r, e, hone⟩ := hw.edge ht hn
  rw [joinsFor_one e hone, List.mem_singleton] at hj
  subst hj
  refine ⟨rfl, fun p' hp' a => ?_⟩
  obtain rfl : p = p' := by simpa [e.parent] using hp'
  simp only [TiedTo, List.mem_singleton, exists_eq_left, JoinTest.equal]
  exact eq_comm

theorem hang (ht : t.WellFormed) {known ids : List Nat} (hfirst : t.ParentsFirst known ids)
    (hids : ∀ id ∈ ids, w id = true) :
    Hang (known.map fun n => (t.node n).tableAlias)
      (ids.flatMap fun id => t.joinsFor id .left) := by
  induction ids generalizing known with
  | nil => trivial
  | cons id rest ih =>
    rw [List.forall_mem_cons] at hids
    obtain ⟨⟨p, hp, hparent⟩, hrest⟩ := hfirst
    obtain ⟨p', r, e, hone⟩ := hw.edge ht hids.1
    have hjoin := joinsFor_one e hone .left
    obtain ⟨halias, htied⟩ := hw.of_mem_joinsFor ht hids.1 (hjoin ▸ List.mem_singleton.2 rfl)
    rw [List.flatMap_cons, hjoin, List.singleton_append]
    refine ⟨⟨_, List.mem_map_of_mem hp, (htied p hparent _).2 rfl⟩, ?_⟩
    rw [halias]
    exact ih hrest hids.2

theorem isBranch (ht : t.WellFormed) {p n : Nat} (hn : w n = true)
    (hp : (t.node n).parent = some p) : IsBranch (t.node p).tableAlias (t.branch w n) := by
  obtain ⟨p', r, e, hone⟩ := hw.edge ht hn
  have hjoin := joinsFor_one e hone .left
  obtain ⟨halias, htied⟩ := hw.of_mem_joinsFor ht hn (hjoin ▸ List.mem_singleton.2 rfl)
  have hbelow : t.ParentsFirst [n] ((t.offspring n).filter w) := by
    refine (ht.parentsFirst_offspring n).filter n (fun id hid p hwanted hp => ?_) [n]
      List.mem_cons_self fun _ hm _ => hm
    obtain ⟨p', hp', hmem⟩ := ht.parent_of_mem_offspring hid
    obtain rfl : p' = p := by simpa [hp] using hp'.symm
    have hle := le_of_mem_preorder hmem
    have hlt := (hw.below n hn).1
    exact .inr ((hw.up id p' hwanted hp).resolve_left (by omega))
  rw [branch_of_wanted hn, hjoin, List.singleton_append]
  refine .mk ((htied p hp _).2 rfl) ?_
  rw [halias]
  exact hw.hang ht hbelow fun id hid => (List.mem_filter.1 hid).2

/-- Branches of two children have nothing to do with one another. -/
theorem apart (ht : t.WellFormed) {s : Schema} (hs : t.schema = some s) (hnames : s.UndottedNames)
    {n c d : Nat} (hc : (t.node c).parent = some n) (hd : (t.node d).parent = some n)
    (hne : c ≠ d) : Apart (t.branch w c) (t.branch w d) := by
  intro j hj k hk htied
  obtain ⟨id, hid, hwanted, hj⟩ := mem_branch.1 hj
  obtain ⟨id', hid', hwanted', hk⟩ := mem_branch.1 hk
  obtain ⟨p, r, e, -⟩ := hw.edge ht hwanted
  rw [(hw.of_mem_joinsFor ht hwanted hj).2 p e.parent,
    (hw.of_mem_joinsFor ht hwanted' hk).1] at htied
  have hp : p < t.size := Nat.lt_trans e.lt (hw.below id hwanted).2
  obtain rfl := ht.alias_injective hs hnames (hw.below id' hwanted').2 hp htied
  have hle := le_of_mem_preorder hid'
  have hlt := (ht.parent_lt hd).1
  rw [preorder_eq, List.mem_cons] at hid
  rcases hid with rfl | hid
  · obtain rfl : id' = n := by simpa [e.parent] using hc
    omega
  · obtain ⟨p', hp', hmem⟩ := ht.parent_of_mem_offspring hid
    obtain rfl : p' = id' := by simpa [e.parent] using hp'.symm
    exact hne (ht.eq_of_mem_preorder hc hd hmem hid')

end Hanging

def sprouts (t : JoinTree) (w : Nat → Bool) (n : Nat) : List (String × Nat) :=
  (t.node n).children.filter fun entry => w entry.2

section Sprouts

variable (ht : t.WellFormed)

include ht

theorem WellFormed.nodup_sprouts (n : Nat) : ((t.sprouts w n).map Prod.fst).Nodup :=
  (ht.distinct n).sublist (List.filter_sublist.map _)

theorem WellFormed.of_mem_sprouts {n : Nat} {entry : String × Nat} (h : entry ∈ t.sprouts w n) :
    (t.node entry.2).parent = some n ∧ w entry.2 = true ∧
      ∃ r, t.Edge n entry.2 r ∧ r.name = entry.1 := by
  obtain ⟨hentry, hwanted⟩ := List.mem_filter.1 h
  exact ⟨(ht.child n entry.1 entry.2 hentry).2.2.1, hwanted, ht.edge_of_child hentry⟩

theorem Hanging.pairwise_sprouts (hw : t.Hanging scope w) {s : Schema} (hs : t.schema = some s)
    (hnames : s.UndottedNames) (n : Nat) :
    ((t.sprouts w n).map fun entry => t.branch w entry.2).Pairwise SiblingOrder.Unrelated := by
  rw [List.pairwise_map]
  refine (List.pairwise_map.1 (ht.nodup_sprouts n)).imp_of_mem
    fun {entry entry'} hentry hentry' hne => ?_
  obtain ⟨hparent, -, r, e, hname⟩ := ht.of_mem_sprouts hentry
  obtain ⟨hparent', -, r', e', hname'⟩ := ht.of_mem_sprouts hentry'
  have hdiffer : entry.2 ≠ entry'.2 := by
    intro heq
    have hrelation := e.relation
    rw [heq, e'.relation] at hrelation
    exact hne (by rw [← hname, ← hname', Option.some.inj hrelation])
  exact ⟨hw.apart ht hs hnames hparent hparent' hdiffer,
    hw.apart ht hs hnames hparent' hparent hdiffer.symm⟩

end Sprouts

variable {s : Schema} {u : JoinTree} {w' : Nat → Bool} {scope' n m : Nat}

structure TwinSets (t u : JoinTree) (w w' : Nat → Bool) : Prop where
  right : ∀ i, w i = true → ∃ j, Twin t u i j ∧ w' j = true
  left : ∀ j, w' j = true → ∃ i, Twin t u i j ∧ w i = true

theorem TwinSets.symm (h : TwinSets t u w w') : TwinSets u t w' w where
  right j hj := by
    obtain ⟨i, hij, hi⟩ := h.left j hj
    exact ⟨i, hij.symm, hi⟩
  left i hi := by
    obtain ⟨j, hij, hj⟩ := h.right i hi
    exact ⟨j, hij.symm, hj⟩

namespace Kin

variable (k : Kin s t u)

include k

theorem mem_names (hsets : TwinSets t u w w') (h : Twin t u n m) {name : String}
    (hname : name ∈ (t.sprouts w n).map Prod.fst) : name ∈ (u.sprouts w' m).map Prod.fst := by
  obtain ⟨entry, hentry, rfl⟩ := List.mem_map.1 hname
  obtain ⟨-, hwanted, r, e, hr⟩ := k.left.of_mem_sprouts hentry
  obtain ⟨d, hd, hwanted'⟩ := hsets.right entry.2 hwanted
  obtain ⟨p, q, r', e', e'', hparents⟩ := k.edges hd (Nat.ne_of_gt (Nat.zero_lt_of_lt e.lt))
  obtain rfl : p = n := by simpa [e.parent] using e'.parent.symm
  obtain rfl : r' = r := by simpa [e.relation] using e'.relation.symm
  obtain rfl := k.right_unique hparents h
  exact List.mem_map.2 ⟨(r'.name, d), List.mem_filter.2 ⟨e''.listed, hwanted'⟩, hr⟩

/-- Children that are joined have the same names at twins, in some order. -/
theorem exists_matched (hsets : TwinSets t u w w') (h : Twin t u n m) :
    ∃ entries, List.Forall₂ (fun e e' => e.1 = e'.1) (t.sprouts w n) entries ∧
      entries.Perm (u.sprouts w' m) := by
  have hperm : ((t.sprouts w n).map Prod.fst).Perm ((u.sprouts w' m).map Prod.fst) :=
    (List.perm_ext_iff_of_nodup (k.left.nodup_sprouts n) (k.right.nodup_sprouts m)).2 fun name =>
      ⟨k.mem_names hsets h, k.symm.mem_names hsets.symm h.symm⟩
  have hnames : List.Forall₂ (fun name (entry : String × Nat) => name = entry.1)
      ((u.sprouts w' m).map Prod.fst) (u.sprouts w' m) := by
    rw [List.forall₂_map_left_iff]
    exact List.forall₂_same.2 fun _ _ => rfl
  obtain ⟨entries, hentries, hsame⟩ := List.perm_comp_forall₂ hperm hnames
  exact ⟨entries, List.forall₂_map_left_iff.1 hentries, hsame⟩

omit k in
theorem exists_twin {path path' : Option (List Nat)}
    (h : Option.Rel (List.Forall₂ (Twin t u)) path path') {way : List Nat} (hway : path = some way)
    {i : Nat} (hi : i ∈ way) : ∃ way' j, path' = some way' ∧ j ∈ way' ∧ Twin t u i j := by
  subst hway
  cases h with
  | some hrel =>
    obtain ⟨j, hj, hij⟩ := exists_of_mem_left hrel hi
    exact ⟨_, j, rfl, hj, hij⟩

theorem exists_twin_wanted (h : Twin t u scope scope') {targets targets' : List Nat}
    (htargets : List.Forall₂ (Twin t u) targets targets') {i : Nat}
    (hi : t.isWanted scope targets i = true) :
    ∃ j, Twin t u i j ∧ u.isWanted scope' targets' j = true := by
  obtain ⟨hne, target, htarget, way, hway, hmem⟩ := isWanted_iff.1 hi
  obtain ⟨target', htarget', htwin⟩ := exists_of_mem_left htargets htarget
  obtain ⟨way', j, hway', hj, hij⟩ := exists_twin (k.pathBetween? h htwin) hway hmem
  exact ⟨j, hij, isWanted_iff.2 ⟨fun heq => hne ((k.eq_iff hij h).2 heq), target', htarget', way',
    hway', hj⟩⟩

theorem twinSets_isWanted (h : Twin t u scope scope') {targets targets' : List Nat}
    (htargets : List.Forall₂ (Twin t u) targets targets') :
    TwinSets t u (t.isWanted scope targets) (u.isWanted scope' targets') where
  right _ hi := k.exists_twin_wanted h htargets hi
  left _ hj := by
    obtain ⟨i, hji, hi⟩ := k.symm.exists_twin_wanted h.symm
      (htargets.flip.imp fun _ _ h => h.symm) hj
    exact ⟨i, hji.symm, hi⟩

theorem siblings_below (hw : t.Hanging scope w) (hw' : u.Hanging scope' w')
    (hsets : TwinSets t u w w') (h : Twin t u n m) (hn : scope ≤ n) (hm : scope' ≤ m) :
    SiblingOrder (t.below w n) (u.below w' m) := by
  induction hsize : t.size - n using Nat.strongRecOn generalizing n m with
  | ind size ih =>
    obtain ⟨entries, hmatched, hperm⟩ := k.exists_matched hsets h
    rw [hw.below_eq k.left hn, hw'.below_eq k.right hm]
    have hbranches : List.Forall₂ SiblingOrder
        ((t.sprouts w n).map fun entry => t.branch w entry.2)
        (entries.map fun entry => u.branch w' entry.2) := by
      rw [List.forall₂_map_left_iff, List.forall₂_map_right_iff]
      refine forall₂_imp_of_mem hmatched fun entry hentry entry' hentry' hname => ?_
      obtain ⟨hparent, hwanted, r, e, hr⟩ := k.left.of_mem_sprouts hentry
      obtain ⟨hparent', hwanted', r', e', hr'⟩ := k.right.of_mem_sprouts (hperm.mem_iff.1 hentry')
      have hlt := (hw.below _ hwanted).2
      have htwin := k.twin_of_edges h e e' hlt (hw'.below _ hwanted').2
        (by rw [hr, hname, hr'])
      have hn' := e.lt
      have hm' := e'.lt
      rw [branch_of_wanted hwanted, branch_of_wanted hwanted', k.joinsFor_eq htwin]
      exact (ih _ (by omega) htwin (by omega) (by omega) rfl).append_left _
    refine (SiblingOrder.flatten hbranches
      (hw.pairwise_sprouts k.left k.schemaLeft k.names n)).trans ?_
    have hbranch : ∀ b ∈ entries.map fun entry => u.branch w' entry.2,
        IsBranch (u.node m).tableAlias b := by
      rw [List.forall_mem_map]
      intro entry hentry
      obtain ⟨hparent, hwanted, -⟩ := k.right.of_mem_sprouts (hperm.mem_iff.1 hentry)
      exact hw'.isBranch k.right hwanted hparent
    exact SiblingOrder.of_perm (hperm.map _) hbranch (((hperm.map _).pairwise_iff And.symm).2
      (hw'.pairwise_sprouts k.right k.schemaRight k.names m))

/-- The joins inside tests at twins are the same up to the order of siblings. -/
theorem siblings_joinsWithin (h : Twin t u scope scope') {targets targets' : List Nat}
    (htargets : List.Forall₂ (Twin t u) targets targets')
    (hone : ∀ id ∈ targets, id < t.size ∧ t.anchor? scope id = none)
    (hone' : ∀ id ∈ targets', id < u.size ∧ u.anchor? scope' id = none) :
    SiblingOrder (t.joinsWithin scope targets) (u.joinsWithin scope' targets') := by
  rw [joinsWithin_eq_below, joinsWithin_eq_below]
  exact k.siblings_below (hanging_isWanted hone) (hanging_isWanted hone')
    (k.twinSets_isWanted h htargets) h (Nat.le_refl _) (Nat.le_refl _)

end Kin

end PathQuery.JoinTree
