import PathQuery.Proofs.JoinTree.Shape

/-!
Walks in a well-formed tree: the path from a scope down to a node, the first relation to many on it,
and the order in which a walk down meets the nodes, parents before their children.
-/

set_option autoImplicit false

namespace PathQuery.JoinTree

variable {t u : JoinTree}

theorem lineage_congr (hparent : ∀ id, (u.node id).parent = (t.node id).parent) (i : Nat) :
    u.lineage i = t.lineage i := by
  induction i using Nat.strongRecOn with
  | ind i ih =>
    rw [lineage, lineage, hparent]
    cases (t.node i).parent with
    | none => rfl
    | some p =>
      by_cases hp : p < i
      · simp only [hp, if_true, ih p hp]
      · simp only [hp, if_false]

theorem pathBetween?_congr (hparent : ∀ id, (u.node id).parent = (t.node id).parent)
    (scope i : Nat) : u.pathBetween? scope i = t.pathBetween? scope i := by
  induction i using Nat.strongRecOn with
  | ind i ih =>
    rw [pathBetween?, pathBetween?, hparent]
    cases (t.node i).parent with
    | none => rfl
    | some p =>
      by_cases hp : p < i
      · simp only [hp, if_true, ih p hp]
      · simp only [hp, if_false]

theorem pathBetween?_self (t : JoinTree) (id : Nat) : t.pathBetween? id id = some [] := by
  rw [pathBetween?, if_pos rfl]

theorem pathBetween?_of_parent {scope id p : Nat} (hne : id ≠ scope)
    (hp : (t.node id).parent = some p) (hlt : p < id) :
    t.pathBetween? scope id = (t.pathBetween? scope p).map (· ++ [id]) := by
  rw [pathBetween?, if_neg hne]
  simp [hp, hlt]

/-- A path that is not empty comes down from the parent of its last node. -/
theorem pathBetween?_eq_some {scope id : Nat} {path : List Nat}
    (h : t.pathBetween? scope id = some path) :
    (id = scope ∧ path = []) ∨ ∃ p q, (t.node id).parent = some p ∧ p < id ∧ id ≠ scope ∧
      t.pathBetween? scope p = some q ∧ path = q ++ [id] := by
  by_cases hid : id = scope
  · rw [hid, pathBetween?_self] at h
    exact .inl ⟨hid, (Option.some.inj h).symm⟩
  · rw [pathBetween?, if_neg hid] at h
    cases hp : (t.node id).parent with
    | none => simp [hp] at h
    | some p =>
      by_cases hlt : p < id
      · obtain ⟨q, hq, rfl⟩ : ∃ q, t.pathBetween? scope p = some q ∧ q ++ [id] = path := by
          simpa [hp, hlt] using h
        exact .inr ⟨p, q, rfl, hlt, hid, hq, rfl⟩
      · simp [hp, hlt] at h

theorem WellFormed.parent_lt (h : t.WellFormed) {id p : Nat} (hp : (t.node id).parent = some p) :
    p < id ∧ id < t.size := by
  have hid : id < t.size := by
    by_contra hge
    rw [node_of_size_le (Nat.le_of_not_lt hge)] at hp
    simp [Node.root] at hp
  rcases Nat.eq_zero_or_pos id with rfl | hpos
  · rw [show (t.node 0).parent = none from h.rootParent] at hp
    cases hp
  · obtain ⟨p', r, e⟩ := h.edge id hpos hid
    rw [e.parent] at hp
    obtain rfl := Option.some.inj hp
    exact ⟨e.lt, hid⟩

theorem WellFormed.exists_path (h : t.WellFormed) {id : Nat} (hid : id < t.size) :
    ∃ path, t.pathBetween? rootId id = some path := by
  induction id using Nat.strongRecOn with
  | ind id ih =>
    by_cases hroot : id = rootId
    · exact ⟨[], by rw [hroot, pathBetween?_self]⟩
    · have hpos : 0 < id := Nat.pos_of_ne_zero hroot
      obtain ⟨p, r, e⟩ := h.edge id hpos hid
      obtain ⟨q, hq⟩ := ih p e.lt (Nat.lt_trans e.lt hid)
      exact ⟨q ++ [id], by rw [pathBetween?_of_parent hroot e.parent e.lt, hq, Option.map_some]⟩

theorem pathBetween?_cut {scope id a : Nat} {above below : List Nat}
    (h : t.pathBetween? scope id = some (above ++ a :: below)) :
    ∃ p, (t.node a).parent = some p ∧ p < a ∧ t.pathBetween? scope p = some above ∧
      t.pathBetween? a id = some below := by
  induction id using Nat.strongRecOn generalizing below with
  | ind id ih =>
    rcases pathBetween?_eq_some h with ⟨-, hnil⟩ | ⟨p, q, hp, hlt, hne, hq, hpath⟩
    · simp at hnil
    · rcases List.eq_nil_or_concat below with rfl | ⟨init, last, rfl⟩
      · obtain ⟨rfl, rfl⟩ : above = q ∧ a = id := by
          simpa using List.append_inj' hpath rfl
        exact ⟨p, hp, hlt, hq, pathBetween?_self t a⟩
      · rw [List.concat_eq_append, ← List.cons_append, ← List.append_assoc] at hpath
        obtain ⟨hinit, hlast⟩ := List.append_inj' hpath rfl
        obtain rfl : last = id := by simpa using hlast
        subst hinit
        obtain ⟨p', hp', hlt', habove, hbelow⟩ := ih p hlt hq
        have hle := ((t.pathBetween?_bounds scope p _ hq).2 a (by simp)).2
        refine ⟨p', hp', hlt', habove, ?_⟩
        rw [pathBetween?_of_parent (by omega) hp hlt, hbelow]
        simp

theorem pathBetween?_through {scope c id : Nat} {path : List Nat}
    (hp : (t.node c).parent = some scope) (hlt : scope < c)
    (h : t.pathBetween? c id = some path) : t.pathBetween? scope id = some (c :: path) := by
  induction id using Nat.strongRecOn generalizing path with
  | ind id ih =>
    rcases pathBetween?_eq_some h with ⟨rfl, rfl⟩ | ⟨p, q, hparent, hpid, -, hq, rfl⟩
    · rw [pathBetween?_of_parent (by omega) hp hlt, pathBetween?_self]
      rfl
    · have hle := (t.pathBetween?_bounds c p q hq).1
      rw [pathBetween?_of_parent (by omega) hparent hpid, ih p hpid hq]
      rfl

theorem parent_of_mem_path {scope id n : Nat} {path : List Nat}
    (h : t.pathBetween? scope id = some path) (hn : n ∈ path) :
    ∃ p, (t.node n).parent = some p ∧ p < n ∧ (p = scope ∨ p ∈ path) := by
  obtain ⟨above, below, rfl⟩ := List.append_of_mem hn
  obtain ⟨p, hp, hlt, habove, -⟩ := pathBetween?_cut h
  refine ⟨p, hp, hlt, ?_⟩
  rcases pathBetween?_eq_some habove with ⟨hscope, -⟩ | ⟨p', q, -, -, -, -, hq⟩
  · exact .inl hscope
  · exact .inr (by simp [hq])

/-- The node is reached from the scope by relations to one row. -/
structure JoinedFrom (t : JoinTree) (scope id : Nat) (path : List Nat) : Prop where
  down : t.pathBetween? scope id = some path
  one : ∀ n ∈ path, (t.node n).isToMany = false

theorem JoinedFrom.self (t : JoinTree) (id : Nat) : t.JoinedFrom id id [] where
  down := pathBetween?_self t id
  one := by simp

theorem JoinedFrom.anchor?_eq {scope id : Nat} {path : List Nat}
    (h : t.JoinedFrom scope id path) : t.anchor? scope id = none := by
  rw [anchor?, h.down, Option.bind_some, List.find?_eq_none]
  simpa using h.one

theorem anchor?_self (t : JoinTree) (scope : Nat) : t.anchor? scope scope = none := by
  rw [anchor?, pathBetween?_self, Option.bind_some, List.find?_nil]

theorem joinedFrom_of_anchor? {scope id : Nat} {path : List Nat}
    (hpath : t.pathBetween? scope id = some path) (h : t.anchor? scope id = none) :
    t.JoinedFrom scope id path where
  down := hpath
  one := by
    rw [anchor?, hpath, Option.bind_some, List.find?_eq_none] at h
    simpa using h

theorem JoinedFrom.of_append {scope id p : Nat} {path : List Nat}
    (h : t.JoinedFrom scope id path) (hp : (t.node id).parent = some p) (hlt : p < id)
    (hne : id ≠ scope) : ∃ q, path = q ++ [id] ∧ t.JoinedFrom scope p q := by
  rcases pathBetween?_eq_some h.down with ⟨hid, -⟩ | ⟨p', q, hp', -, -, hq, rfl⟩
  · exact absurd hid hne
  · obtain rfl : p' = p := by simpa [hp] using hp'.symm
    exact ⟨q, rfl, hq, fun n hn => h.one n (by simp [hn])⟩

theorem JoinedFrom.of_mem {scope id n : Nat} {path : List Nat} (h : t.JoinedFrom scope id path)
    (hn : n ∈ path) : scope < n ∧ n ≤ id ∧ ∃ q, t.JoinedFrom scope n q := by
  have hbounds := (t.pathBetween?_bounds scope id path h.down).2 n hn
  obtain ⟨above, below, rfl⟩ := List.append_of_mem hn
  obtain ⟨p, hp, hlt, habove, -⟩ := pathBetween?_cut h.down
  refine ⟨hbounds.1, hbounds.2, above ++ [n], ?_, fun m hm => h.one m ?_⟩
  · rw [pathBetween?_of_parent (by omega) hp hlt, habove, Option.map_some]
  · rcases List.mem_append.1 hm with hm | hm
    · exact List.mem_append_left _ hm
    · exact List.mem_append_right _ (by simp_all)

/-- Down to the first relation to many the way is joined; the rest of the way starts behind it. -/
theorem anchor?_eq_some {scope id a : Nat} (h : t.anchor? scope id = some a) :
    ∃ p above below, (t.node a).parent = some p ∧ p < a ∧ (t.node a).isToMany = true ∧
      t.JoinedFrom scope p above ∧ t.pathBetween? a id = some below := by
  obtain ⟨path, hpath, hfind⟩ := Option.bind_eq_some_iff.1 h
  obtain ⟨hmany, above, below, rfl, habove⟩ := List.find?_eq_some_iff_append.1 hfind
  obtain ⟨p, hp, hlt, hpabove, hbelow⟩ := pathBetween?_cut hpath
  exact ⟨p, above, below, hp, hlt, hmany, ⟨hpabove, by simpa using habove⟩, hbelow⟩

/-- Each node of a list comes after its parent, or the parent is known. -/
def ParentsFirst (t : JoinTree) (known : List Nat) : List Nat → Prop
  | [] => True
  | id :: rest => (∃ p ∈ known, (t.node id).parent = some p) ∧ ParentsFirst t (id :: known) rest

theorem ParentsFirst.mono {known known' ids : List Nat} (h : t.ParentsFirst known ids)
    (hsub : ∀ n ∈ known, n ∈ known') : t.ParentsFirst known' ids := by
  induction ids generalizing known known' with
  | nil => trivial
  | cons id rest ih =>
    obtain ⟨⟨p, hp, hparent⟩, hrest⟩ := h
    refine ⟨⟨p, hsub p hp, hparent⟩, ih hrest fun n hn => ?_⟩
    rcases List.mem_cons.1 hn with rfl | hn
    · exact List.mem_cons_self
    · exact List.mem_cons_of_mem _ (hsub n hn)

theorem ParentsFirst.append {known xs ys : List Nat} (h : t.ParentsFirst known xs)
    (h' : t.ParentsFirst known ys) : t.ParentsFirst known (xs ++ ys) := by
  induction xs generalizing known with
  | nil => exact h'
  | cons id rest ih =>
    exact ⟨h.1, ih h.2 (h'.mono fun n hn => List.mem_cons_of_mem _ hn)⟩

theorem parentsFirst_flatMap {α : Type} {known : List Nat} {xs : List α} {f : α → List Nat}
    (h : ∀ x ∈ xs, t.ParentsFirst known (f x)) : t.ParentsFirst known (xs.flatMap f) := by
  induction xs with
  | nil => trivial
  | cons x xs ih =>
    rw [List.flatMap_cons]
    exact (h x List.mem_cons_self).append (ih fun y hy => h y (List.mem_cons_of_mem _ hy))

theorem ParentsFirst.split {known before after : List Nat} {id : Nat}
    (h : t.ParentsFirst known (before ++ id :: after)) :
    ∃ p, (t.node id).parent = some p ∧ (p ∈ known ∨ p ∈ before) := by
  induction before generalizing known with
  | nil =>
    obtain ⟨p, hp, hparent⟩ := h.1
    exact ⟨p, hparent, .inl hp⟩
  | cons first rest ih =>
    obtain ⟨p, hparent, hp⟩ := ih h.2
    refine ⟨p, hparent, ?_⟩
    rcases hp with hp | hp
    · rcases List.mem_cons.1 hp with rfl | hp
      · exact .inr List.mem_cons_self
      · exact .inl hp
    · exact .inr (List.mem_cons_of_mem _ hp)

/-- Leaving nodes out keeps the order if the parents of those that stay do stay. -/
theorem ParentsFirst.filter {known ids : List Nat} {keep : Nat → Bool}
    (h : t.ParentsFirst known ids) (scope : Nat)
    (hkeep : ∀ n ∈ ids, ∀ p, keep n = true → (t.node n).parent = some p →
      p = scope ∨ keep p = true) :
    ∀ known', scope ∈ known' → (∀ n ∈ known, keep n = true → n ∈ known') →
      t.ParentsFirst known' (ids.filter keep) := by
  induction ids generalizing known with
  | nil => exact fun _ _ _ => trivial
  | cons id rest ih =>
    intro known' hscope hknown
    rw [List.forall_mem_cons] at hkeep
    obtain ⟨⟨p, hp, hparent⟩, hrest⟩ := h
    cases hk : keep id with
    | false =>
      rw [List.filter_cons_of_neg (by simp [hk])]
      refine ih hrest hkeep.2 known' hscope fun n hn hstay => ?_
      rcases List.mem_cons.1 hn with rfl | hn
      · simp [hk] at hstay
      · exact hknown n hn hstay
    | true =>
      rw [List.filter_cons_of_pos hk]
      have hp' : p ∈ known' := by
        rcases hkeep.1 p hk hparent with rfl | hstay
        · exact hscope
        · exact hknown p hp hstay
      refine ⟨⟨p, hp', hparent⟩, ih hrest hkeep.2 _ (List.mem_cons_of_mem _ hscope)
        fun n hn hstay => ?_⟩
      rcases List.mem_cons.1 hn with rfl | hn
      · exact List.mem_cons_self
      · exact List.mem_cons_of_mem _ (hknown n hn hstay)

def offspring (t : JoinTree) (id : Nat) : List Nat :=
  (t.node id).children.flatMap fun entry =>
    if id < entry.2 ∧ entry.2 < t.size then t.preorder entry.2 else []

theorem preorder_eq (t : JoinTree) (id : Nat) : t.preorder id = id :: t.offspring id := by
  rw [preorder]
  rfl

theorem self_mem_preorder (t : JoinTree) (id : Nat) : id ∈ t.preorder id := by
  rw [preorder_eq]
  exact List.mem_cons_self

theorem WellFormed.parentsFirst_offspring (h : t.WellFormed) (id : Nat) :
    t.ParentsFirst [id] (t.offspring id) := by
  induction hn : t.size - id using Nat.strongRecOn generalizing id with
  | ind n ih =>
    have hblock : ∀ entry ∈ (t.node id).children, t.ParentsFirst [id]
        (if id < entry.2 ∧ entry.2 < t.size then t.preorder entry.2 else []) := by
      intro entry hentry
      split
      · next hlt =>
        rw [preorder_eq]
        refine ⟨⟨id, by simp, (h.child id entry.1 entry.2 hentry).2.2.1⟩, ?_⟩
        exact (ih (t.size - entry.2) (by omega) entry.2 rfl).mono (by simp)
      · trivial
    exact parentsFirst_flatMap hblock

theorem mem_preorder_bounds {scope id : Nat} (h : id ∈ t.preorder scope) :
    id = scope ∨ (scope < id ∧ id < t.size) := by
  induction hn : t.size - scope using Nat.strongRecOn generalizing scope with
  | ind n ih =>
    rw [preorder_eq, List.mem_cons] at h
    rcases h with rfl | h
    · exact .inl rfl
    · obtain ⟨entry, -, hid⟩ := List.mem_flatMap.1 h
      split at hid
      · next hlt =>
        rcases ih (t.size - entry.2) (by omega) hid rfl with rfl | hbounds
        · exact .inr hlt
        · exact .inr ⟨by omega, hbounds.2⟩
      · cases hid

theorem WellFormed.exists_path_of_mem_preorder (h : t.WellFormed) {scope id : Nat}
    (hid : id ∈ t.preorder scope) : ∃ path, t.pathBetween? scope id = some path := by
  induction hn : t.size - scope using Nat.strongRecOn generalizing scope with
  | ind n ih =>
    rw [preorder_eq, List.mem_cons] at hid
    rcases hid with rfl | hid
    · exact ⟨[], pathBetween?_self t id⟩
    · obtain ⟨entry, hentry, hid⟩ := List.mem_flatMap.1 hid
      split at hid
      · next hlt =>
        obtain ⟨path, hpath⟩ := ih (t.size - entry.2) (by omega) hid rfl
        have hparent := (h.child scope entry.1 entry.2 hentry).2.2.1
        exact ⟨_, pathBetween?_through hparent hlt.1 hpath⟩
      · cases hid

theorem mem_preorder_trans {a b c : Nat} (h : b ∈ t.preorder a) (h' : c ∈ t.preorder b) :
    c ∈ t.preorder a := by
  induction hn : t.size - a using Nat.strongRecOn generalizing a with
  | ind n ih =>
    rw [preorder_eq, List.mem_cons] at h
    rcases h with rfl | h
    · exact h'
    · obtain ⟨entry, hentry, hb⟩ := List.mem_flatMap.1 h
      split at hb
      · next hlt =>
        have hc := ih (t.size - entry.2) (by omega) hb rfl
        rw [preorder_eq, List.mem_cons]
        refine .inr (List.mem_flatMap.2 ⟨entry, hentry, ?_⟩)
        rwa [if_pos hlt]
      · simp at hb

theorem WellFormed.mem_preorder (h : t.WellFormed) {scope id : Nat} {path : List Nat}
    (hid : id < t.size) (hpath : t.pathBetween? scope id = some path) : id ∈ t.preorder scope := by
  induction id using Nat.strongRecOn generalizing path with
  | ind id ih =>
    rcases pathBetween?_eq_some hpath with ⟨rfl, -⟩ | ⟨p, q, hp, hlt, -, hq, -⟩
    · exact self_mem_preorder t id
    · refine mem_preorder_trans (ih p hlt (Nat.lt_trans hlt hid) hq) ?_
      obtain ⟨p', r, e⟩ := h.edge id (by omega) hid
      obtain rfl : p' = p := by simpa [e.parent] using hp
      rw [preorder_eq, List.mem_cons]
      refine .inr (List.mem_flatMap.2 ⟨(r.name, id), e.listed, ?_⟩)
      rw [if_pos ⟨e.lt, hid⟩]
      exact self_mem_preorder t id

theorem WellFormed.parent_of_mem_offspring (ht : t.WellFormed) {n id : Nat}
    (hid : id ∈ t.offspring n) :
    ∃ p, (t.node id).parent = some p ∧ p ∈ t.preorder n := by
  obtain ⟨before, after, hsplit⟩ := List.append_of_mem hid
  obtain ⟨p, hp, hmem⟩ := (hsplit ▸ ht.parentsFirst_offspring n).split
  refine ⟨p, hp, ?_⟩
  rw [preorder_eq, hsplit, List.mem_cons]
  rcases hmem with hmem | hmem
  · exact .inl (List.mem_singleton.1 hmem)
  · exact .inr (List.mem_append_left _ hmem)

theorem le_of_mem_preorder {n id : Nat} (h : id ∈ t.preorder n) : n ≤ id := by
  rcases mem_preorder_bounds h with rfl | hbounds
  · exact Nat.le_refl _
  · exact Nat.le_of_lt hbounds.1

/-- No node is below two children of one node. -/
theorem WellFormed.eq_of_mem_preorder (ht : t.WellFormed) {n c d id : Nat}
    (hc : (t.node c).parent = some n) (hd : (t.node d).parent = some n)
    (hidc : id ∈ t.preorder c) (hidd : id ∈ t.preorder d) : c = d := by
  obtain ⟨path, hpath⟩ := ht.exists_path_of_mem_preorder hidc
  obtain ⟨path', hpath'⟩ := ht.exists_path_of_mem_preorder hidd
  have h := pathBetween?_through hc (ht.parent_lt hc).1 hpath
  rw [pathBetween?_through hd (ht.parent_lt hd).1 hpath'] at h
  exact (List.cons.inj (Option.some.inj h)).1.symm

theorem WellFormed.nodup_preorder (ht : t.WellFormed) (id : Nat) : (t.preorder id).Nodup := by
  induction hn : t.size - id using Nat.strongRecOn generalizing id with
  | ind n ih =>
    rw [preorder_eq, List.nodup_cons]
    refine ⟨fun hmem => ?_, List.nodup_flatMap.2 ⟨fun entry _ => ?_, ?_⟩⟩
    · obtain ⟨p, hp, hbelow⟩ := ht.parent_of_mem_offspring hmem
      have hle := le_of_mem_preorder hbelow
      have hlt := (ht.parent_lt hp).1
      omega
    · split
      · next hlt => exact ih (t.size - entry.2) (by omega) entry.2 rfl
      · exact List.nodup_nil
    · refine (List.pairwise_map.1 (ht.distinct id)).imp_of_mem fun {c d} hc hd hne => ?_
      obtain ⟨-, -, hparent, hname⟩ := ht.child id c.1 c.2 hc
      obtain ⟨-, -, hparent', hname'⟩ := ht.child id d.1 d.2 hd
      intro i hi hi'
      have hblock : ∀ entry : String × Nat,
          i ∈ (if id < entry.2 ∧ entry.2 < t.size then t.preorder entry.2 else []) →
          i ∈ t.preorder entry.2 := by
        intro entry hmem
        split at hmem
        · exact hmem
        · cases hmem
      have hsame := ht.eq_of_mem_preorder hparent hparent' (hblock c hi) (hblock d hi')
      rw [hsame, hname'] at hname
      exact hne (Option.some.inj hname).symm

end PathQuery.JoinTree
