import PathQuery.Proofs.JoinTree.Scopes
import PathQuery.Proofs.JoinTree.Settled
import PathQuery.Proofs.Relation.Bodies

/-!
Conditions in scope. Wherever a settled condition speaks of a node, the innermost rows under the
alias are those of that node: a statement joins the nodes that its own conditions need, and what a
semi-join brings in lies below its node, so that it hides nothing of what is needed from outside.
-/

set_option autoImplicit false

namespace PathQuery.JoinTree

open PathQuery.Relation

/-- Rows that a statement starts from: those of a node, those between it and its parent, or the
numbers that count the conditions of a test. -/
inductive Opens (t : JoinTree) : Source → Prop
  | rows {id : Nat} (lt : id < t.size) : Opens t (t.rowsOf id)
  | between {p id : Nat} {r : Relation} {through : JoinTable} (edge : t.Edge p id r)
    (lt : id < t.size) (many : r.kind = .manyMany through) : Opens t (t.rowsBetween through id)
  | series {id count : Nat} (lt : id < t.size) :
    Opens t (.series (seriesAlias (t.node id).tableAlias) count)

/-- A statement brings in each alias once. Its joins stand in order, and its clauses speak of nodes
whose rows their aliases mean. -/
structure FrameScoped (t : JoinTree) (outer : List Source) (f : Frame) : Prop where
  opening : ∀ s ∈ f.opening, t.Opens s
  once : (f.sources.map Source.tableAlias).Nodup
  joins : t.InOrder f.opening f.joins
  columns : ∀ c ∈ f.columnRefs, ∃ id,
    t.Sees (f.sources ++ outer) id ∧ c.tableAlias = (t.node id).tableAlias

/-- Every alias in a condition means, at its place, what it was resolved to. A comparison that was
given speaks of nodes; one on the linked key alone may have been moved to the table between. What
was added ties a semi-join to the row outside, or counts its conditions. A SELECT that was given is
the caller's own. -/
inductive Scoped (t : JoinTree) (given : List Condition) : List Source → Condition → Prop
  | leaf {scope : List Source} {x : Condition} (c : Connective) (inside : Condition.Inside given x)
    (speaks : x.aliases ≠ [])
    (seen : ∀ a ∈ x.aliases, ∃ id, t.Sees scope id ∧ a = (t.node id).tableAlias) :
    Scoped t given scope (x.withConnective c)
  | keyed {scope : List Source} {p id : Nat} {r : Relation} {through : JoinTable} {x : Condition}
    (c : Connective) (inside : Condition.Inside given x) (edge : t.Edge p id r) (lt : id < t.size)
    (many : r.kind = .manyMany through) (owner : x.aliases = [(t.node id).tableAlias])
    (key : x.usesOnlyKey (t.node id).tableAlias r.linked.column = true)
    (seen : (t.rowsBetween through id).SeenIn scope) :
    Scoped t given scope ((x.withConnective c).redirect (t.node id).tableAlias
      ⟨joinTableAlias (t.node id).tableAlias, through.toColumn⟩)
  | select {scope : List Source} {x : Condition} (c : Connective)
    (inside : Condition.Inside given x) (single : members? x = none)
    (select : x.hasSubquery = true) : Scoped t given scope (x.withConnective c)
  | group {scope : List Source} {c : Connective} {members : List Condition}
    (inner : ∀ x ∈ members, Scoped t given scope x) : Scoped t given scope (.group c members)
  | tie {scope : List Source} {p id : Nat} {r : Relation} {c : Connective} {own : Source}
    {column : String} (edge : t.Edge p id r) (lt : id < t.size)
    (linked : own = t.rowsOf id ∨
      ∃ through, r.kind = .manyMany through ∧ own = t.rowsBetween through id)
    (seen : own.SeenIn scope) (outside : t.Sees scope p) :
    Scoped t given scope (.columns c ⟨own.tableAlias, column⟩ .eq
      ⟨(t.node p).tableAlias, r.current.column⟩)
  | number {scope : List Source} {id count : Nat} {c : Connective} {v : Value}
    (seen : (Source.series (seriesAlias (t.node id).tableAlias) count).SeenIn scope) :
    Scoped t given scope (.compare c (seriesAlias (t.node id).tableAlias) [seriesColumn] .eq v)
  | test {scope : List Source} {c : Connective} {negated : Bool} {frame : Frame}
    {conditions : List Condition} (within : t.FrameScoped scope frame)
    (inner : ∀ x ∈ conditions, Scoped t given (frame.sources ++ scope) x) :
    Scoped t given scope (.existence c negated frame conditions)

variable {t : JoinTree} {s : Schema} {given xs : List Condition} {scope : List Source}

theorem Scoped.withConnective {x : Condition} (h : t.Scoped given scope x) (c : Connective) :
    t.Scoped given scope (x.withConnective c) := by
  cases h with
  | leaf d inside speaks seen =>
    rw [Condition.withConnective_withConnective]
    exact .leaf c inside speaks seen
  | keyed d inside edge lt many owner key seen =>
    rw [← Condition.redirect_withConnective, Condition.withConnective_withConnective]
    exact .keyed c inside edge lt many owner key seen
  | select d inside single select =>
    rw [Condition.withConnective_withConnective]
    exact .select c inside single select
  | group inner => exact .group inner
  | tie edge lt linked seen outside => exact .tie edge lt linked seen outside
  | number seen => exact .number seen
  | test within inner => exact .test within inner

theorem groupable_scoped : Condition.Groupable (t.Scoped given scope) where
  reconnected c _ h := h.withConnective c
  group _ _ _ h hrest := .group (List.forall_mem_cons.2 ⟨h, hrest⟩)

def IsBelow (t : JoinTree) (a : Nat) (s : Source) : Prop :=
  ∃ n, n < t.size ∧ t.pathBetween? a n ≠ none ∧ t.IsAliasOf n s.tableAlias

theorem isBelow_self {a : Nat} (ha : a < t.size) {s : Source} (h : t.IsAliasOf a s.tableAlias) :
    t.IsBelow a s :=
  ⟨a, ha, by simp [pathBetween?_self], h⟩

theorem Plain.sees_inside (g : t.Plain s) {a id : Nat} {own outer : List Source}
    (hown : ∀ s ∈ own, t.IsBelow a s) (h : t.Sees outer id)
    (helse : t.pathBetween? a id = none) : t.Sees (own ++ outer) id where
  lt := h.lt
  rows := h.rows.inside fun s hs heq => by
    obtain ⟨n, hn, hpath, halias⟩ := hown s hs
    obtain rfl := g.isAliasOf_injective hn h.lt halias (.inl heq)
    exact hpath helse

theorem Edge.path_eq_none {p a : Nat} {r : Relation} (e : t.Edge p a r) :
    t.pathBetween? a p = none := by
  rw [Option.eq_none_iff_forall_not_mem]
  intro path hpath
  have hle := (t.pathBetween?_bounds a p path hpath).1
  have hlt := e.lt
  omega

section Within

variable (g : t.Plain s) {a : Nat} {targets : List Nat}
  (htargets : ∀ id ∈ targets, id < t.size ∧ t.anchor? a id = none)

include htargets

theorem isBelow_joinsWithin : ∀ j ∈ t.joinsWithin a targets,
    ∃ n, a < n ∧ n < t.size ∧ t.pathBetween? a n ≠ none ∧ t.IsAliasOf n j.tableAlias := by
  intro j hj
  rw [joinsWithin_eq] at hj
  obtain ⟨n, hn, hj⟩ := List.mem_flatMap.1 hj
  obtain ⟨hlt, hsize, -, q, hq⟩ := joinedFrom_of_isWanted htargets (List.mem_filter.1 hn).2
  exact ⟨n, hlt, hsize, by simp [hq.down], isAliasOf_of_mem_joinsFor hj⟩

include g

theorem Plain.rowsOf_mem_joinsWithin {id : Nat} (hid : id ∈ targets) (hne : id ≠ a)
    (hpath : t.pathBetween? a id ≠ none) :
    t.rowsOf id ∈ (t.joinsWithin a targets).map Join.source := by
  obtain ⟨path, hpath⟩ := Option.ne_none_iff_exists'.1 hpath
  have hlt := (htargets id hid).1
  have hmem : id ∈ path := by
    rcases pathBetween?_eq_some hpath with ⟨heq, -⟩ | ⟨p, q, -, -, -, -, rfl⟩
    · exact absurd heq hne
    · simp
  have hpos : 0 < id := Nat.zero_lt_of_lt ((t.pathBetween?_bounds a id path hpath).2 id hmem).1
  obtain ⟨j, hj, hrows⟩ := List.mem_map.1 (g.rowsOf_mem_joinsFor hpos hlt .left)
  rw [joinsWithin_eq]
  refine List.mem_map.2 ⟨j, List.mem_flatMap.2 ⟨id, List.mem_filter.2 ⟨?_, ?_⟩, hj⟩, hrows⟩
  · exact g.wellFormed.mem_preorder hlt hpath
  · exact isWanted_iff.2 ⟨hne, id, hid, path, hpath, hmem⟩

theorem Plain.once_joinsWithin (ha : a < t.size) {head : List Source}
    (honce : (head.map Source.tableAlias).Nodup)
    (hhead : ∀ s ∈ head, t.IsAliasOf a s.tableAlias) :
    ((head ++ (t.joinsWithin a targets).map Join.source).map Source.tableAlias).Nodup := by
  have hwanted : ∀ n ∈ (t.preorder a).filter (t.isWanted a targets), a < n ∧ n < t.size := by
    intro n hn
    obtain ⟨hlt, hsize, -⟩ := joinedFrom_of_isWanted htargets (List.mem_filter.1 hn).2
    exact ⟨hlt, hsize⟩
  rw [joinsWithin_eq]
  refine g.once_joins (fun n hn => ?_) (fun _ => .left)
    ((g.wellFormed.nodup_preorder a).filter _) ha
    (fun hmem => ?_) honce hhead
  · exact ⟨Nat.zero_lt_of_lt (hwanted n hn).1, (hwanted n hn).2⟩
  · exact absurd (hwanted a hmem).1 (Nat.lt_irrefl a)

theorem Plain.inOrder_joinsWithin {before : List Source} (ha : t.rowsOf a ∈ before) :
    t.InOrder before (t.joinsWithin a targets) := by
  rw [joinsWithin_eq]
  refine g.inOrder_joins (fun n hn => ?_) (fun _ => .left)
    (g.wellFormed.parentsFirst_wanted a targets) (by simpa using ha)
  obtain ⟨hlt, hsize, -⟩ := joinedFrom_of_isWanted htargets (List.mem_filter.1 hn).2
  exact ⟨Nat.zero_lt_of_lt hlt, hsize⟩

end Within

structure BodyScoped (t : JoinTree) (given : List Condition) (p a : Nat) (targets : List Nat)
    (b : Body) : Prop where
  frame : ∀ outer, t.FrameScoped outer b.frame
  below : ∀ s ∈ b.frame.sources, t.IsBelow a s
  correlation : ∀ outer, t.Sees (b.frame.sources ++ outer) p →
    t.Scoped given (b.frame.sources ++ outer) b.correlation
  conditions : ∀ outer, (∀ id ∈ targets, t.pathBetween? a id = none →
    t.Sees (b.frame.sources ++ outer) id) →
    ∀ x ∈ b.conditions, t.Scoped given (b.frame.sources ++ outer) x

theorem columnRefs_frame (b : Body) : b.frame.columnRefs = [] :=
  rfl

section SemiJoin

variable (g : t.Plain s) {p a : Nat} {r : Relation} (e : t.Edge p a r) (ha : a < t.size)
  {targets : List Nat} (htargets : ∀ id ∈ targets, id < t.size ∧ t.anchor? a id = none)
  (hxs : ∀ scope, (∀ id ∈ targets, t.Sees scope id) → ∀ x ∈ xs, t.Scoped given scope x)
  (hkey : ∀ through, r.kind = .manyMany through → t.joinsWithin a targets = [] →
    Condition.useOnlyKey (t.node a).tableAlias r.linked.column xs = true →
    ∀ scope, (t.rowsBetween through a).SeenIn scope →
      ∀ x ∈ Condition.redirectAll (t.node a).tableAlias
        ⟨joinTableAlias (t.node a).tableAlias, through.toColumn⟩ xs, t.Scoped given scope x)

include g htargets

theorem Plain.sees_targets {own outer : List Source}
    (honce : (own.map Source.tableAlias).Nodup) (hself : t.rowsOf a ∈ own)
    (hjoins : ∀ s ∈ (t.joinsWithin a targets).map Join.source, s ∈ own)
    (houtside : ∀ id ∈ targets, t.pathBetween? a id = none → t.Sees (own ++ outer) id) :
    ∀ id ∈ targets, t.Sees (own ++ outer) id := by
  intro id hid
  by_cases hpath : t.pathBetween? a id = none
  · exact houtside id hid hpath
  · refine ⟨(htargets id hid).1, Source.seenIn_of_mem honce ?_⟩
    by_cases hne : id = a
    · exact hne ▸ hself
    · exact hjoins _ (g.rowsOf_mem_joinsWithin htargets hid hne hpath)

include ha

/-- The rows that a semi-join starts from and those of its joins are told apart, and all of them lie
below its node. -/
theorem Plain.brings_within (b : Body) (head : List Source)
    (honce : (head.map Source.tableAlias).Nodup) (hhead : ∀ s ∈ head, t.IsAliasOf a s.tableAlias)
    (hsources : b.frame.sources = head ++ (t.joinsWithin a targets).map Join.source)
    (hopening : t.Opens b.source) (hjoins : t.InOrder [b.source] b.joins) :
    (∀ outer, t.FrameScoped outer b.frame) ∧ (b.frame.sources.map Source.tableAlias).Nodup ∧
      ∀ s ∈ b.frame.sources, t.IsBelow a s := by
  have hnodup : (b.frame.sources.map Source.tableAlias).Nodup := by
    rw [hsources]
    exact g.once_joinsWithin htargets ha honce hhead
  refine ⟨fun outer => ⟨?_, hnodup, hjoins, ?_⟩, hnodup, fun s hs => ?_⟩
  · intro s hs
    obtain rfl := List.mem_singleton.1 hs
    exact hopening
  · simp [columnRefs_frame]
  · rw [hsources] at hs
    rcases List.mem_append.1 hs with hs | hs
    · exact isBelow_self ha (hhead s hs)
    · obtain ⟨j, hj, rfl⟩ := List.mem_map.1 hs
      obtain ⟨n, -, hn, hpath, halias⟩ := isBelow_joinsWithin htargets j hj
      exact ⟨n, hn, hpath, halias⟩

include e hxs hkey

theorem Plain.bodyScoped (division : Bool) : t.BodyScoped given p a targets
    (r.body (t.node p).tableAlias (t.node a).tableAlias (t.joinsWithin a targets) xs division) := by
  have hrows : r.linked.table = (t.table a).name := g.linked_table e
  have hself : t.IsAliasOf a (t.rowsOf a).tableAlias := .inl rfl
  have hbetween : ∀ through, t.IsAliasOf a (t.rowsBetween through a).tableAlias := fun _ => .inr rfl
  rcases r.body_cases (t.node p).tableAlias (t.node a).tableAlias (t.joinsWithin a targets) xs
    division with ⟨hdirect, hbody⟩ | ⟨through, hmany, hbody | ⟨hempty, honly, hbody⟩⟩
  · rw [hbody, hrows]
    obtain ⟨hframe, honce, hbelow⟩ := g.brings_within ha htargets
      ⟨t.rowsOf a, t.joinsWithin a targets, _, _⟩ [t.rowsOf a] (List.nodup_singleton _)
      (by simpa using hself) rfl (.rows ha) (g.inOrder_joinsWithin htargets List.mem_cons_self)
    exact {
      frame := hframe
      below := hbelow
      correlation := fun outer hp =>
        .tie e ha (.inl rfl) (Source.seenIn_of_mem honce List.mem_cons_self) hp
      conditions := fun outer houtside => hxs _ (g.sees_targets htargets honce
        List.mem_cons_self (fun _ hs => List.mem_cons_of_mem _ hs) houtside) }
  · rw [hbody, linkedJoin, hrows]
    have hnodup : ([t.rowsBetween through a, t.rowsOf a].map Source.tableAlias).Nodup := by
      simpa [rowsBetween, rowsOf, Source.tableAlias] using
        (g.alias_ne_between ha (t.node a).tableAlias).symm
    obtain ⟨hframe, honce, hbelow⟩ := g.brings_within ha htargets
      ⟨t.rowsBetween through a, ⟨(t.table a).name, (t.node a).tableAlias, .inner,
        [.equal ⟨(t.node a).tableAlias, r.linked.column⟩
          ⟨joinTableAlias (t.node a).tableAlias, through.toColumn⟩]⟩ ::
            t.joinsWithin a targets, _, _⟩
      [t.rowsBetween through a, t.rowsOf a] hnodup (by simpa using ⟨hbetween through, hself⟩) rfl
      (.between e ha hmany) (.cons (.linked e ha hmany List.mem_cons_self)
        (g.inOrder_joinsWithin htargets (List.mem_append_right _ (List.mem_singleton.2 rfl))))
    exact {
      frame := hframe
      below := hbelow
      correlation := fun outer hp => .tie e ha (.inr ⟨through, hmany, rfl⟩)
        (Source.seenIn_of_mem honce List.mem_cons_self) hp
      conditions := fun outer houtside => hxs _ (g.sees_targets htargets honce
        (List.mem_cons_of_mem _ List.mem_cons_self)
        (fun _ hs => List.mem_cons_of_mem _ (List.mem_cons_of_mem _ hs)) houtside) }
  · rw [hbody]
    obtain ⟨hframe, honce, hbelow⟩ := g.brings_within ha htargets
      ⟨t.rowsBetween through a, [], _, _⟩ [t.rowsBetween through a] (List.nodup_singleton _)
      (by simpa using hbetween through) (by rw [hempty]; rfl) (.between e ha hmany) .nil
    have hseen : ∀ outer, (t.rowsBetween through a).SeenIn ([t.rowsBetween through a] ++ outer) :=
      fun outer => Source.seenIn_of_mem honce List.mem_cons_self
    exact {
      frame := hframe
      below := hbelow
      correlation := fun outer hp => .tie e ha (.inr ⟨through, hmany, rfl⟩) (hseen outer) hp
      conditions := fun outer _ => hkey through hmany hempty honly _ (hseen outer) }

/-- What a semi-join speaks of outside must be seen there. -/
theorem Plain.scoped_semiJoin {scope : List Source} (hparent : t.Sees scope p)
    (houtside : ∀ id ∈ targets, t.pathBetween? a id = none → t.Sees scope id)
    (strategy : Strategy) (c : Connective) :
    t.Scoped given scope (r.semiJoin (t.node p).tableAlias (t.node a).tableAlias
      (t.joinsWithin a targets) xs strategy c) := by
  have hbody := g.bodyScoped e ha htargets hxs hkey
  rw [semiJoin_eq]
  split
  · have b := hbody true
    generalize r.body (t.node p).tableAlias (t.node a).tableAlias (t.joinsWithin a targets) xs true
      = body at b
    let numbers : Source := .series (seriesAlias (t.node a).tableAlias) body.conditions.length
    have hcount : ∀ id, t.Sees scope id → t.Sees ([numbers] ++ scope) id := fun id hid =>
      ⟨hid.lt, hid.rows.inside fun s hs heq => by
        obtain rfl := List.mem_singleton.1 hs
        exact g.not_isAliasOf_series hid.lt _ (.inl heq)⟩
    have hnumbers : numbers.SeenIn (body.frame.sources ++ ([numbers] ++ scope)) := by
      refine Source.SeenIn.inside ?_ fun s hs heq => ?_
      · exact Source.seenIn_of_mem (List.nodup_singleton _) List.mem_cons_self
      · obtain ⟨n, hn, -, halias⟩ := b.below s hs
        rw [heq] at halias
        exact g.not_isAliasOf_series hn _ halias
    have hinner := b.conditions ([numbers] ++ scope) fun id hid helse =>
      g.sees_inside b.below (hcount id (houtside id hid helse)) helse
    have htie := b.correlation ([numbers] ++ scope)
      (g.sees_inside b.below (hcount p hparent) e.path_eq_none)
    refine .test ⟨?_, List.nodup_singleton _, .nil, ?_⟩ fun x hx => ?_
    · intro s hs
      obtain rfl := List.mem_singleton.1 hs
      exact .series ha
    · intro c hc
      cases hc
    · obtain rfl := List.mem_singleton.1 hx
      refine .test (b.frame _) fun y hy => ?_
      rcases List.mem_cons.1 hy with rfl | hy
      · exact htie
      · obtain rfl := List.mem_singleton.1 hy
        exact .group (groupable_scoped.forall_mem_numbered (fun _ => .number hnumbers) hinner 1)
  · have b := hbody false
    refine .test (b.frame scope) fun x hx => ?_
    rcases List.mem_cons.1 hx with rfl | hx
    · exact b.correlation scope (g.sees_inside b.below hparent e.path_eq_none)
    · have hinner := b.conditions scope fun id hid helse =>
        g.sees_inside b.below (houtside id hid helse) helse
      exact groupable_scoped.forall_mem_conjoined hinner x hx

end SemiJoin

end PathQuery.JoinTree
