import PathQuery.Proofs.JoinTree.Joined
import PathQuery.Proofs.JoinTree.Marks
import PathQuery.Proofs.Scope

/-!
What nodes bring into scope. The joins of a node bring in its rows and, between many and many, those
of the table between. Over a schema with plain names the aliases of these rows tell which node they
are of, so that nodes joined once are told apart.
-/

set_option autoImplicit false

namespace PathQuery.JoinTree

open PathQuery.Relation

def rowsOf (t : JoinTree) (id : Nat) : Source :=
  .table (t.table id).name (t.node id).tableAlias

def rowsBetween (t : JoinTree) (through : JoinTable) (id : Nat) : Source :=
  .table through.table (joinTableAlias (t.node id).tableAlias)

structure Sees (t : JoinTree) (scope : List Source) (id : Nat) : Prop where
  lt : id < t.size
  rows : (t.rowsOf id).SeenIn scope

/-- A join along a relation: it compares a column of the rows that it brings in with a column of
rows that stand before it. -/
inductive Along (t : JoinTree) (before : List Source) : Join → Prop
  | direct {p id : Nat} {r : Relation} {kind : JoinKind} (edge : t.Edge p id r) (lt : id < t.size)
    (single : ∀ through, r.kind ≠ .manyMany through) (behind : t.rowsOf p ∈ before) :
    Along t before {
      table := (t.table id).name, tableAlias := (t.node id).tableAlias, kind
      on := [.equal ⟨(t.node id).tableAlias, r.linked.column⟩
        ⟨(t.node p).tableAlias, r.current.column⟩] }
  | between {p id : Nat} {r : Relation} {through : JoinTable} {kind : JoinKind}
    (edge : t.Edge p id r) (lt : id < t.size) (many : r.kind = .manyMany through)
    (behind : t.rowsOf p ∈ before) :
    Along t before {
      table := through.table, tableAlias := joinTableAlias (t.node id).tableAlias, kind
      on := [.equal ⟨joinTableAlias (t.node id).tableAlias, through.fromColumn⟩
        ⟨(t.node p).tableAlias, r.current.column⟩] }
  | linked {p id : Nat} {r : Relation} {through : JoinTable} {kind : JoinKind}
    (edge : t.Edge p id r) (lt : id < t.size) (many : r.kind = .manyMany through)
    (behind : t.rowsBetween through id ∈ before) :
    Along t before {
      table := (t.table id).name, tableAlias := (t.node id).tableAlias, kind
      on := [.equal ⟨(t.node id).tableAlias, r.linked.column⟩
        ⟨joinTableAlias (t.node id).tableAlias, through.toColumn⟩] }

/-- Joins one after another, each on rows that stand before it. -/
inductive InOrder (t : JoinTree) : List Source → List Join → Prop
  | nil {before : List Source} : InOrder t before []
  | cons {before : List Source} {j : Join} {rest : List Join} (along : t.Along before j)
    (tail : InOrder t (before ++ [j.source]) rest) : InOrder t before (j :: rest)

/-- The alias of the rows of a node, or of those between it and its parent. -/
def IsAliasOf (t : JoinTree) (id : Nat) (a : String) : Prop :=
  a = (t.node id).tableAlias ∨ a = joinTableAlias (t.node id).tableAlias

theorem joinTableAlias_eq (a : String) : joinTableAlias a = a ++ "." ++ "__join" := by
  rw [String.append_assoc, joinTableAlias]
  rfl

theorem joinTableAlias_injective {a b : String} (h : joinTableAlias a = joinTableAlias b) :
    a = b := by
  rw [joinTableAlias_eq, joinTableAlias_eq] at h
  exact (joinedByDot_injective (by decide) (by decide) h).1

theorem joinTableAlias_ne_seriesAlias (a b : String) : joinTableAlias a ≠ seriesAlias b := by
  have hseries : seriesAlias b = b ++ "." ++ "__conds" := by
    rw [String.append_assoc, seriesAlias]
    rfl
  rw [joinTableAlias_eq, hseries]
  intro h
  exact absurd (joinedByDot_injective (by decide) (by decide) h).2 (by decide)

variable {t : JoinTree} {s : Schema}

theorem WellFormed.isAliasOf_injective (ht : t.WellFormed) (hs : t.schema = some s)
    (hnames : s.JoinNames) {m n : Nat} (hm : m < t.size) (hn : n < t.size) {a : String}
    (h : t.IsAliasOf m a) (h' : t.IsAliasOf n a) : m = n := by
  have hnode := fun {m n : Nat} => ht.alias_injective hs hnames.undotted (m := m) (n := n)
  rcases h with rfl | rfl <;> rcases h' with h' | h'
  · exact hnode hm hn h'
  · exact absurd h' (ht.alias_ne_joinTableAlias hs hnames hm _)
  · exact absurd h'.symm (ht.alias_ne_joinTableAlias hs hnames hn _)
  · exact hnode hm hn (joinTableAlias_injective h')

namespace Plain

variable (g : t.Plain s)

include g

theorem alias_ne_between {id : Nat} (hid : id < t.size) (b : String) :
    (t.node id).tableAlias ≠ joinTableAlias b :=
  g.wellFormed.alias_ne_joinTableAlias g.schema g.names.forJoins hid b

theorem isAliasOf_injective {m n : Nat} (hm : m < t.size) (hn : n < t.size) {a : String}
    (h : t.IsAliasOf m a) (h' : t.IsAliasOf n a) : m = n :=
  g.wellFormed.isAliasOf_injective g.schema g.names.forJoins hm hn h h'

theorem not_isAliasOf_series {id : Nat} (hid : id < t.size) (b : String) :
    ¬ t.IsAliasOf id (seriesAlias b) := by
  rintro (h | h)
  · exact g.wellFormed.alias_ne_seriesAlias g.schema g.names hid b h.symm
  · exact joinTableAlias_ne_seriesAlias _ _ h.symm

end Plain

theorem joinsFor_many {p id : Nat} {r : Relation} (e : t.Edge p id r) {through : JoinTable}
    (hmany : r.kind = .manyMany through) (kind : JoinKind) :
    t.joinsFor id kind = [{
      table := through.table, tableAlias := joinTableAlias (t.node id).tableAlias, kind
      on := [.equal ⟨joinTableAlias (t.node id).tableAlias, through.fromColumn⟩
        ⟨(t.node p).tableAlias, r.current.column⟩] },
      r.linkedJoin (t.node id).tableAlias through kind] := by
  rw [joinsFor_of_edge e, Relation.joins, hmany]
  rfl

theorem joinsFor_direct {p id : Nat} {r : Relation} (e : t.Edge p id r)
    (hdirect : ∀ through, r.kind ≠ .manyMany through) (kind : JoinKind) :
    t.joinsFor id kind = [{
      table := r.linked.table, tableAlias := (t.node id).tableAlias, kind
      on := [.equal ⟨(t.node id).tableAlias, r.linked.column⟩
        ⟨(t.node p).tableAlias, r.current.column⟩] }] := by
  rw [joinsFor_of_edge e, Relation.joins]
  split
  · next through hkind => exact absurd hkind (hdirect through)
  · rfl

theorem isAliasOf_of_mem_joinsFor {id : Nat} {kind : JoinKind} {j : Join}
    (h : j ∈ t.joinsFor id kind) : t.IsAliasOf id j.tableAlias :=
  (of_mem_joinsFor h).2

theorem Plain.rowsOf_mem_joinsFor (g : t.Plain s) {id : Nat} (hpos : 0 < id) (hid : id < t.size)
    (kind : JoinKind) : t.rowsOf id ∈ (t.joinsFor id kind).map Join.source := by
  obtain ⟨p, r, e⟩ := g.wellFormed.edge id hpos hid
  by_cases hmany : ∃ through, r.kind = .manyMany through
  · obtain ⟨through, hmany⟩ := hmany
    rw [joinsFor_many e hmany, rowsOf, ← g.linked_table e]
    simp [Join.source, linkedJoin]
  · rw [joinsFor_direct e (not_exists.1 hmany), rowsOf, ← g.linked_table e]
    simp [Join.source]

theorem WellFormed.nodup_joins (ht : t.WellFormed) (hs : t.schema = some s) (hnames : s.JoinNames)
    {ids : List Nat} (hids : ∀ id ∈ ids, 0 < id ∧ id < t.size) (kind : Nat → JoinKind)
    (hnodup : ids.Nodup) :
    ((ids.flatMap fun id => t.joinsFor id (kind id)).map Join.tableAlias).Nodup := by
  rw [List.map_flatMap, List.nodup_flatMap]
  constructor
  · intro id hid
    obtain ⟨hpos, hlt⟩ := hids id hid
    obtain ⟨p, r, e⟩ := ht.edge id hpos hlt
    by_cases hmany : ∃ through, r.kind = .manyMany through
    · obtain ⟨through, hmany⟩ := hmany
      simpa [joinsFor_many e hmany, linkedJoin] using
        (ht.alias_ne_joinTableAlias hs hnames hlt _).symm
    · simp [joinsFor_direct e (not_exists.1 hmany)]
  · refine hnodup.imp_of_mem fun {m n} hm hn hne a ha ha' => hne ?_
    obtain ⟨j, hj, rfl⟩ := List.mem_map.1 ha
    obtain ⟨j', hj', heq⟩ := List.mem_map.1 ha'
    exact ht.isAliasOf_injective hs hnames (hids m hm).2 (hids n hn).2
      (isAliasOf_of_mem_joinsFor hj)
      (heq ▸ isAliasOf_of_mem_joinsFor hj')

section Nodes

variable (g : t.Plain s) {ids : List Nat} (hids : ∀ id ∈ ids, 0 < id ∧ id < t.size)
  (kind : Nat → JoinKind)

include g hids

theorem Plain.nodup_joins (hnodup : ids.Nodup) :
    ((ids.flatMap fun id => t.joinsFor id (kind id)).map Join.tableAlias).Nodup :=
  g.wellFormed.nodup_joins g.schema g.names.forJoins hids kind hnodup

/-- The rows that nodes bring in behind those of another node are told apart. -/
theorem Plain.once_joins (hnodup : ids.Nodup) {a : Nat} (ha : a < t.size) (hnew : a ∉ ids)
    {head : List Source} (honce : (head.map Source.tableAlias).Nodup)
    (hhead : ∀ s ∈ head, t.IsAliasOf a s.tableAlias) :
    ((head ++ (ids.flatMap fun id => t.joinsFor id (kind id)).map Join.source).map
      Source.tableAlias).Nodup := by
  rw [List.map_append, Join.map_source]
  refine List.nodup_append.2 ⟨honce, g.nodup_joins hids kind hnodup, fun b hb b' hb' heq => ?_⟩
  obtain ⟨s', hs', rfl⟩ := List.mem_map.1 hb
  obtain ⟨j, hj, rfl⟩ := List.mem_map.1 hb'
  obtain ⟨n, hn, hj⟩ := List.mem_flatMap.1 hj
  have halias := hhead s' hs'
  rw [heq] at halias
  exact hnew (g.isAliasOf_injective ha (hids n hn).2 halias (isAliasOf_of_mem_joinsFor hj) ▸ hn)

theorem Plain.inOrder_joins {known : List Nat} (hfirst : t.ParentsFirst known ids)
    {before : List Source} (hknown : ∀ n ∈ known, t.rowsOf n ∈ before) :
    t.InOrder before (ids.flatMap fun id => t.joinsFor id (kind id)) := by
  induction ids generalizing known before with
  | nil => exact .nil
  | cons id rest ih =>
    rw [List.forall_mem_cons] at hids
    obtain ⟨⟨hpos, hlt⟩, hids⟩ := hids
    obtain ⟨⟨p, hp, hparent⟩, hrest⟩ := hfirst
    obtain ⟨p', r, e⟩ := g.wellFormed.edge id hpos hlt
    obtain rfl : p' = p := by simpa [e.parent] using hparent
    have hbehind := hknown p' hp
    have hgoes : ∀ before' : List Source, (∀ s ∈ before, s ∈ before') → t.rowsOf id ∈ before' →
        t.InOrder before' (rest.flatMap fun id => t.joinsFor id (kind id)) := by
      intro before' hsub hown
      refine ih hids hrest fun n hn => ?_
      rcases List.mem_cons.1 hn with rfl | hn
      · exact hown
      · exact hsub _ (hknown n hn)
    rw [List.flatMap_cons]
    by_cases hmany : ∃ through, r.kind = .manyMany through
    · obtain ⟨through, hmany⟩ := hmany
      rw [joinsFor_many e hmany, linkedJoin, g.linked_table e]
      refine .cons (.between e hlt hmany hbehind) (.cons (.linked e hlt hmany ?_) (hgoes _ ?_ ?_))
      · exact List.mem_append_right _ (List.mem_singleton.2 rfl)
      · exact fun _ h => List.mem_append_left _ (List.mem_append_left _ h)
      · exact List.mem_append_right _ (List.mem_singleton.2 rfl)
    · rw [joinsFor_direct e (not_exists.1 hmany), g.linked_table e]
      refine .cons (.direct e hlt (not_exists.1 hmany) hbehind) (hgoes _ ?_ ?_)
      · exact fun _ h => List.mem_append_left _ h
      · exact List.mem_append_right _ (List.mem_singleton.2 rfl)

end Nodes

end PathQuery.JoinTree
