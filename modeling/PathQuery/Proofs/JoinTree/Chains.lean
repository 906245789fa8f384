import Mathlib.Data.List.Induction
import PathQuery.Proofs.JoinTree.Calls
import PathQuery.Proofs.JoinTree.Kept

/-!
Chains of relations. A node stands for the relations that lead to it from the root: each has one
chain, and the schema alone says what is at the end of it. A path takes the nodes of the chain that
it names, as far as the schema follows, so paths may be resolved in any order.
-/

set_option autoImplicit false

namespace PathQuery

structure Place where
  model : Option String
  relation : Option Relation
  tableAlias : String
  depth : Nat

def Node.place (n : Node) : Place :=
  ⟨n.model, n.relation, n.tableAlias, n.depth⟩

def chainAlias (names : List String) : String :=
  if names = [] then rootAlias else ".".intercalate names

def Schema.placeAt (s : Schema) (m : Model) (names : List String) : Place where
  model := (names.foldlM s.follow m).map Model.name
  relation :=
    names.getLast?.bind fun name => (names.dropLast.foldlM s.follow m).bind (·.relation? name)
  tableAlias := chainAlias names
  depth := names.length

theorem chainAlias_concat (names : List String) (name : String) : chainAlias (names ++ [name]) =
    if names = [] then name else chainAlias names ++ "." ++ name := by
  cases names with
  | nil => simp [chainAlias]
  | cons first rest =>
    simp only [chainAlias, List.cons_append, reduceCtorEq, if_false]
    rw [← List.cons_append, String.intercalate_append_of_ne_nil (by simp) (by simp),
      String.intercalate_singleton]

/-- What is followed on a path is nothing, or a first relation and what is followed from there. -/
theorem Schema.exists_prefix_cons_iff {s : Schema} {m : Model} {name : String} {rest : List String}
    {P : List String → Prop} :
    (∃ q, q <+: name :: rest ∧ (q.foldlM s.follow m).isSome ∧ P q) ↔
      P [] ∨ ∃ m', s.follow m name = some m' ∧
        ∃ q, q <+: rest ∧ (q.foldlM s.follow m').isSome ∧ P (name :: q) := by
  constructor
  · rintro ⟨q, hq, hfollow, hP⟩
    rcases List.prefix_cons_iff.1 hq with rfl | ⟨q, rfl, hrest⟩
    · exact .inl hP
    · obtain ⟨last, hlast⟩ := Option.isSome_iff_exists.1 hfollow
      obtain ⟨m', hm', hlast⟩ := Option.bind_eq_some_iff.1 hlast
      exact .inr ⟨m', hm', q, hrest, hlast ▸ rfl, hP⟩
  · rintro (hP | ⟨m', hm', q, hq, hfollow, hP⟩)
    · exact ⟨[], List.nil_prefix, rfl, hP⟩
    · refine ⟨name :: q, List.cons_prefix_cons.2 ⟨rfl, hq⟩, ?_, hP⟩
      rwa [List.foldlM_cons, hm']

namespace JoinTree

variable {s : Schema} {m : Model} {t u : JoinTree}

theorem walk?_append (t : JoinTree) (start : Nat) (names names' : List String) :
    t.walk? start (names ++ names') = (t.walk? start names).bind fun id => t.walk? id names' := by
  induction names generalizing start with
  | nil => rfl
  | cons name rest ih => simp only [List.cons_append, walk?, ih, Option.bind_assoc]

theorem walk?_concat (t : JoinTree) (start : Nat) (names : List String) (name : String) :
    t.walk? start (names ++ [name]) =
      (t.walk? start names).bind fun id => (t.node id).children.lookup name := by
  simp only [walk?_append, walk?, Option.bind_fun_some]

theorem WellFormed.edge_of_lookup (h : t.WellFormed) {p c : Nat} {name : String}
    (hl : (t.node p).children.lookup name = some c) : ∃ r, t.Edge p c r ∧ r.name = name :=
  h.edge_of_child ((lookup_eq_some_iff_mem (h.distinct p)).1 hl)

theorem WellFormed.edge_of_walk?_concat (h : t.WellFormed) {start id : Nat} {names : List String}
    {name : String} (hw : t.walk? start (names ++ [name]) = some id) :
    ∃ p r, t.walk? start names = some p ∧ t.Edge p id r ∧ r.name = name := by
  rw [walk?_concat] at hw
  obtain ⟨p, hp, hl⟩ := Option.bind_eq_some_iff.1 hw
  obtain ⟨r, e, hname⟩ := h.edge_of_lookup hl
  exact ⟨p, r, hp, e, hname⟩

theorem WellFormed.eq_nil_of_walk? (h : t.WellFormed) {names : List String}
    (hw : t.walk? rootId names = some rootId) : names = [] := by
  rcases List.eq_nil_or_concat' names with hnil | ⟨init, name, rfl⟩
  · exact hnil
  · obtain ⟨p, r, -, e, -⟩ := h.edge_of_walk?_concat hw
    exact absurd e.lt (Nat.not_lt_zero p)

theorem WellFormed.walk?_injective (h : t.WellFormed) {names names' : List String} {id : Nat}
    (hw : t.walk? rootId names = some id) (hw' : t.walk? rootId names' = some id) :
    names = names' := by
  induction names using List.reverseRecOn generalizing names' id with
  | nil =>
    obtain rfl : rootId = id := Option.some.inj hw
    exact (h.eq_nil_of_walk? hw').symm
  | append_singleton init name ih =>
    obtain ⟨p, r, hp, e, hname⟩ := h.edge_of_walk?_concat hw
    rcases List.eq_nil_or_concat' names' with rfl | ⟨init', name', rfl⟩
    · obtain rfl : rootId = id := Option.some.inj hw'
      exact absurd e.lt (Nat.not_lt_zero p)
    · obtain ⟨p', r', hp', e', hname'⟩ := h.edge_of_walk?_concat hw'
      obtain rfl : p' = p := by simpa [e.parent] using e'.parent.symm
      obtain rfl : r' = r := by simpa [e.relation] using e'.relation.symm
      rw [ih hp hp', ← hname, hname']

theorem WellFormed.exists_walk? (h : t.WellFormed) {id : Nat} (hid : id < t.size) :
    ∃ names, t.walk? rootId names = some id := by
  induction id using Nat.strongRecOn with
  | ind id ih =>
    by_cases hroot : id = rootId
    · exact ⟨[], by rw [hroot]; rfl⟩
    · obtain ⟨p, r, e⟩ := h.edge id (Nat.pos_of_ne_zero hroot) hid
      obtain ⟨names, hp⟩ := ih p e.lt (Nat.lt_trans e.lt hid)
      refine ⟨names ++ [r.name], ?_⟩
      rw [walk?_concat, hp]
      exact (lookup_eq_some_iff_mem (h.distinct p)).2 e.listed

theorem WellFormed.existsUnique_walk? (h : t.WellFormed) {id : Nat} (hid : id < t.size) :
    ∃! names, t.walk? rootId names = some id := by
  obtain ⟨names, hw⟩ := h.exists_walk? hid
  exact ⟨names, hw, fun names' hw' => h.walk?_injective hw' hw⟩

/-- A tree of relations from a model of a closed schema. -/
structure OpenedAt (t : JoinTree) (s : Schema) (m : Model) : Prop where
  wellFormed : t.WellFormed
  schema : t.schema = some s
  closed : s.Closed
  root : t.model? rootId = some m
  depth : (t.node rootId).depth = 0

theorem OpenedAt.later (h : t.OpenedAt s m) (hu : Reached t u) : u.OpenedAt s m where
  wellFormed := hu.grown.wellFormed h.wellFormed
  schema := hu.grown.schema.trans h.schema
  closed := h.closed
  root := (hu.grown.model? rootId h.wellFormed.nonempty).trans h.root
  depth := (hu.staysIn.depth rootId h.wellFormed.nonempty).trans h.depth

theorem exists_openedAt (hclosed : s.Closed) {name : String} (hm : s.model name = .ok m) :
    ∃ start, ofModel s name = .ok start ∧ start.OpenedAt s m := by
  have hopened : ofModel s name = .ok ⟨some s, m.table, [Node.root (some m.name)]⟩ := by
    rw [ofModel, hm]
    rfl
  exact ⟨_, hopened, {
    wellFormed := wellFormed_ofModel hopened
    schema := rfl
    closed := hclosed
    root := (root_of_ofModel (Schema.model_eq_ok_iff.1 hm) hopened).1
    depth := rfl }⟩

theorem model_of_model? {id : Nat} (hm : t.model? id = some m) :
    (t.node id).model = some m.name := by
  obtain ⟨s, -, hfound⟩ := Option.bind_eq_some_iff.1 hm
  obtain ⟨name, hname, hfind⟩ := Option.bind_eq_some_iff.1 hfound
  have hsame : m.name = name := by simpa using List.find?_some hfind
  rw [hname, hsame]

theorem OpenedAt.exists_model? (h : t.OpenedAt s m) {id : Nat} (hid : id < t.size) :
    ∃ m', t.model? id = some m' :=
  h.wellFormed.exists_model? h.schema h.closed h.root hid

section OpenedAt

variable (h : t.OpenedAt s m)

include h

theorem OpenedAt.model?_of_walk? {names : List String} {id : Nat}
    (hw : t.walk? rootId names = some id) : t.model? id = names.foldlM s.follow m := by
  rw [model?_descend h.wellFormed h.schema (descend_of_walk? hw), h.root]
  rfl

/-- The schema alone says what stands at the end of a chain. -/
theorem OpenedAt.place_of_walk? {names : List String} {id : Nat}
    (hw : t.walk? rootId names = some id) : (t.node id).place = s.placeAt m names := by
  induction names using List.reverseRecOn generalizing id with
  | nil =>
    obtain rfl : rootId = id := Option.some.inj hw
    rw [Node.place, model_of_model? h.root, h.wellFormed.rootRelation, h.wellFormed.rootAliased,
      h.depth]
    rfl
  | append_singleton init name ih =>
    obtain ⟨p, r, hp, e, rfl⟩ := h.wellFormed.edge_of_walk?_concat hw
    have hplace := ih hp
    have halias : (t.node p).tableAlias = chainAlias init := congrArg Place.tableAlias hplace
    have hdepth : (t.node p).depth = init.length := congrArg Place.depth hplace
    have hmodel := h.model?_of_walk? hp
    obtain ⟨m', hm', hr⟩ := Option.bind_eq_some_iff.1 e.registered
    have hroot : p = rootId ↔ init = [] := by
      refine ⟨fun hroot => h.wellFormed.eq_nil_of_walk? (hroot ▸ hp), ?_⟩
      rintro rfl
      exact (Option.some.inj hp).symm
    obtain ⟨m'', hlinked⟩ :=
      h.exists_model? (h.wellFormed.lt_size_of_walk? h.wellFormed.nonempty hw)
    rw [Node.place, Schema.placeAt, Place.mk.injEq]
    refine ⟨?_, ?_, ?_, ?_⟩
    · rw [model_of_model? hlinked, ← h.model?_of_walk? hw, hlinked, Option.map_some]
    · rw [List.getLast?_concat, List.dropLast_concat, ← hmodel, hm', e.relation]
      exact hr.symm
    · rw [chainAlias_concat, e.alias_eq, halias]
      simp only [hroot]
    · rw [e.depth, hdepth, List.length_append, List.length_singleton]

end OpenedAt

def place? (t : JoinTree) (names : List String) : Option Place :=
  (t.walk? rootId names).map fun id => (t.node id).place

theorem OpenedAt.place?_congr (h : t.OpenedAt s m) (h' : u.OpenedAt s m)
    (hsame : ∀ names, (t.walk? rootId names).isSome ↔ (u.walk? rootId names).isSome) :
    t.place? = u.place? := by
  funext names
  have hnames := hsame names
  rw [place?, place?]
  cases hw : t.walk? rootId names with
  | none => simp_all
  | some id =>
    rw [hw] at hnames
    obtain ⟨id', hw'⟩ := Option.isSome_iff_exists.1 (hnames.1 rfl)
    rw [hw', Option.map_some, Option.map_some, h.place_of_walk? hw, h'.place_of_walk? hw']

/-- What an error about a relation of a node calls the node. -/
def ownerName (t : JoinTree) (p : Nat) : String :=
  ((t.model? p).map Model.name).getD ((t.node p).model.getD t.rootTable.name)

theorem child_of_unknown {p : Nat} {name : String}
    (hfree : (t.node p).children.lookup name = none)
    (hnone : (t.model? p).bind (·.relation? name) = none) :
    t.child p name = (.error (.unknownRelation (t.ownerName p) name), t) := by
  rw [child, hfree, ownerName]
  cases hm : t.model? p with
  | none => rfl
  | some m' =>
    rw [hm, Option.bind_some] at hnone
    simp only [hnone]
    rfl

theorem unknown_of_child {p : Nat} {name : String} {e : Error}
    (h : (t.child p name).1 = .error e) :
    (t.node p).children.lookup name = none ∧ (t.model? p).bind (·.relation? name) = none := by
  cases hl : (t.node p).children.lookup name with
  | some c =>
    rw [child_of_lookup hl] at h
    cases h
  | none =>
    refine ⟨rfl, ?_⟩
    cases hm : t.model? p with
    | none => rfl
    | some m' =>
      cases hr : m'.relation? name with
      | none => rw [Option.bind_some, hr]
      | some r => simp [child, hl, hm, hr] at h

theorem lookup_of_grow {p q c : Nat} {name name' : String} {r : Relation} (hq : q < t.size)
    (hl : ((t.grow p name r).node q).children.lookup name' = some c) :
    (t.node q).children.lookup name' = some c ∨ q = p ∧ name' = name ∧ c = t.size := by
  rw [node_grow_of_lt t p name r hq] at hl
  split at hl
  · next hp =>
    rw [List.lookup_append] at hl
    rcases Option.or_eq_some_iff.1 hl with hl | ⟨-, hl⟩
    · exact .inl hl
    · rw [List.lookup_cons] at hl
      split at hl
      · next heq => exact .inr ⟨hp, by simpa using heq, (Option.some.inj hl).symm⟩
      · cases hl
  · exact .inl hl

theorem eq_nil_of_walk?_grow {p id : Nat} {name : String} {r : Relation} {names : List String}
    (hw : (t.grow p name r).walk? t.size names = some id) : names = [] := by
  cases names with
  | nil => rfl
  | cons first rest =>
    rw [walk?, node_grow_size, sprout] at hw
    cases hw

theorem WellFormed.walk?_grow (h : t.WellFormed) {p : Nat} {name : String} {r : Relation}
    {start id : Nat} (hstart : start < t.size) {names : List String}
    (hw : (t.grow p name r).walk? start names = some id) :
    t.walk? start names = some id ∨
      ∃ init, names = init ++ [name] ∧ t.walk? start init = some p := by
  induction names generalizing start with
  | nil => exact .inl hw
  | cons first rest ih =>
    obtain ⟨c, hc, hw⟩ := Option.bind_eq_some_iff.1 hw
    rcases lookup_of_grow hstart hc with hc | ⟨rfl, rfl, rfl⟩
    · obtain ⟨r', e, -⟩ := h.edge_of_lookup hc
      have hlt := (h.parent_lt e.parent).2
      rcases ih hlt hw with hw | ⟨init, rfl, hinit⟩
      · exact .inl (Option.bind_eq_some_iff.2 ⟨c, hc, hw⟩)
      · exact .inr ⟨first :: init, rfl, Option.bind_eq_some_iff.2 ⟨c, hc, hinit⟩⟩
    · obtain rfl := eq_nil_of_walk?_grow hw
      exact .inr ⟨[], rfl, rfl⟩

theorem walk?_or_eq_iff {base chain : List String} {start : Nat}
    (hbase : t.walk? rootId base = some start) :
    (t.walk? rootId chain).isSome ∨ chain = base ↔ (t.walk? rootId chain).isSome := by
  refine or_iff_left_of_imp ?_
  rintro rfl
  rw [hbase]
  rfl

section OpenedAt

variable (h : t.OpenedAt s m) {base : List String} {start : Nat} {m' : Model}
  (hbase : t.walk? rootId base = some start) (hm' : t.model? start = some m')

include h hbase hm'

/-- The next relation of a chain is followed where the schema follows it, and only there. -/
theorem OpenedAt.child_cases (name : String) :
    (∃ c v m'', s.follow m' name = some m'' ∧ t.child start name = (.ok c, v) ∧ v.OpenedAt s m ∧
      v.walk? rootId (base ++ [name]) = some c ∧ v.model? c = some m'') ∨
    (s.follow m' name = none ∧ ∃ e, t.child start name = (.error e, t)) := by
  rcases hc : t.child start name with ⟨e | c, v⟩
  · right
    have hfirst : (t.child start name).1 = .error e := by rw [hc]
    have hv := child_error hfirst
    obtain ⟨-, hnone⟩ := unknown_of_child hfirst
    rw [hm', Option.bind_some] at hnone
    rw [hc] at hv
    exact ⟨by rw [Schema.follow, hnone, Option.bind_none], e, by rw [show v = t from hv]⟩
  · left
    have hv := reached_child t start name
    rw [hc] at hv
    have hown : v.walk? rootId (base ++ [name]) = some c := by
      rw [walk?_concat, hv.walk? hbase]
      exact lookup_of_child hc
    have hfollow := model?_child h.wellFormed h.schema hc
    rw [hm', Option.bind_some] at hfollow
    obtain ⟨m'', hm''⟩ := (h.later hv).exists_model? ((h.wellFormed).lt_size_of_child hc)
    exact ⟨c, v, m'', hfollow.symm.trans hm'', rfl, h.later hv, hown, hm''⟩

theorem OpenedAt.walk?_child_iff (name : String) (chain : List String) :
    ((t.child start name).2.walk? rootId chain).isSome ↔
      (t.walk? rootId chain).isSome ∨ (s.follow m' name).isSome ∧ chain = base ++ [name] := by
  have hkept := reached_child t start name
  rcases h.child_cases hbase hm' name with ⟨c, v, m'', hfollow, hc, -, hown, -⟩ | ⟨hfollow, e, hc⟩
  · rw [hc] at hkept ⊢
    rw [hfollow]
    constructor
    · intro hw
      obtain ⟨id, hw⟩ := Option.isSome_iff_exists.1 hw
      rcases child_eq_ok hc with ⟨rfl, -⟩ | ⟨r, -, -, -, rfl⟩
      · exact .inl (hw ▸ rfl)
      · rcases h.wellFormed.walk?_grow h.wellFormed.nonempty hw with hw | ⟨init, rfl, hinit⟩
        · exact .inl (hw ▸ rfl)
        · exact .inr ⟨rfl, by rw [h.wellFormed.walk?_injective hinit hbase]⟩
    · rintro (hw | ⟨-, rfl⟩)
      · obtain ⟨id, hw⟩ := Option.isSome_iff_exists.1 hw
        rw [hkept.walk? hw]
        rfl
      · rw [hown]
        rfl
  · simp [hc, hfollow]

theorem OpenedAt.descend_ok_iff (names : List String) :
    (∃ id, (t.descend start names).1 = .ok id) ↔ (names.foldlM s.follow m').isSome := by
  induction names generalizing t base start m' with
  | nil => exact ⟨fun _ => rfl, fun _ => ⟨start, rfl⟩⟩
  | cons name rest ih =>
    rw [List.foldlM_cons]
    rcases h.child_cases hbase hm' name with
      ⟨c, v, m'', hfollow, hc, hv, hown, hm''⟩ | ⟨hfollow, e, hc⟩
    · rw [hfollow, Option.bind_eq_bind, Option.bind_some]
      simpa only [descend, hc] using ih hv hown hm''
    · simp [descend, hc, hfollow]

/-- A path adds the chains on its way as far as the schema follows it. -/
theorem OpenedAt.walk?_descend_iff (names chain : List String) :
    ((t.descend start names).2.walk? rootId chain).isSome ↔ (t.walk? rootId chain).isSome ∨
      ∃ q, q <+: names ∧ (q.foldlM s.follow m').isSome ∧ chain = base ++ q := by
  induction names generalizing t base start m' with
  | nil => simp [descend, walk?_or_eq_iff hbase]
  | cons name rest ih =>
    rw [Schema.exists_prefix_cons_iff (P := fun q => chain = base ++ q), List.append_nil,
      ← or_assoc, walk?_or_eq_iff hbase]
    rcases h.child_cases hbase hm' name with
      ⟨c, v, m'', hfollow, hc, hv, hown, hm''⟩ | ⟨hfollow, e, hc⟩
    · have hchild := h.walk?_child_iff hbase hm' name chain
      simp only [hc, hfollow, Option.isSome_some, true_and] at hchild
      have hrest := ih hv hown hm''
      simp only [List.append_assoc, List.singleton_append] at hrest
      simp only [descend, hc, hfollow, Option.some.injEq, exists_eq_left']
      -- The chain of the next node itself is followed with nothing behind it.
      rw [hrest, hchild, or_assoc, or_iff_right_of_imp (a := chain = base ++ [name])]
      rintro rfl
      exact ⟨[], List.nil_prefix, rfl, rfl⟩
    · simp [descend, hc, hfollow]

end OpenedAt

theorem child_error_later {p : Nat} {name : String} {e : Error} (hc : (t.child p name).1 = .error e)
    (hp : p < t.size) (hu : Reached t u) (hwell : u.WellFormed) :
    u.child p name = (.error e, u) := by
  obtain ⟨hfree, hnone⟩ := unknown_of_child hc
  have hmodel := hu.grown.model? p hp
  have hnone' : (u.model? p).bind (·.relation? name) = none := by rw [hmodel, hnone]
  have hfree' : (u.node p).children.lookup name = none := by
    by_contra hne
    obtain ⟨c, hl⟩ := Option.ne_none_iff_exists'.1 hne
    obtain ⟨r, edge, rfl⟩ := hwell.edge_of_lookup hl
    rw [edge.registered] at hnone'
    cases hnone'
  have howner : u.ownerName p = t.ownerName p := by
    rw [ownerName, ownerName, hmodel, (hu.lasts hp).model, hu.rootTable]
  rw [child_of_unknown hfree hnone] at hc
  rw [child_of_unknown hfree' hnone', howner, ← Except.error.inj hc]

/-- Relations that were followed once are followed to the same end ever after, and add nothing. -/
theorem WellFormed.descend_later (h : t.WellFormed) {start : Nat} (hstart : start < t.size)
    {names : List String} (hu : Reached (t.descend start names).2 u) :
    u.descend start names = ((t.descend start names).1, u) := by
  induction names generalizing t start with
  | nil => rfl
  | cons name rest ih =>
    have hchild := reached_child t start name
    rcases hc : t.child start name with ⟨e | c, v⟩
    · have hsame := child_error (show (t.child start name).1 = .error e by rw [hc])
      rw [hc] at hsame
      obtain rfl : v = t := hsame
      simp only [descend, hc] at hu ⊢
      rw [child_error_later (by rw [hc]) hstart hu (hu.grown.wellFormed h)]
    · rw [hc] at hchild
      simp only [descend, hc] at hu ⊢
      have hthere := ((reached_descend v c rest).trans hu).lookup (lookup_of_child hc)
      rw [child_of_lookup hthere]
      exact ih (hchild.grown.wellFormed h) (h.lt_size_of_child hc) hu

theorem segments_ne_nil (path : String) : segments path ≠ [] := by
  simp [segments, Text.splitOn_ne_nil]

theorem resolve_of_empty (t : JoinTree) {path : String} (h : "" ∈ segments path) :
    t.resolve path = (.error (.malformed .path (.invalidPath path)), t) := by
  have hany : (segments path).any (· == "") = true := List.any_eq_true.2 ⟨"", h, rfl⟩
  simp [resolve, resolveFrom, hany]

theorem resolve_of_nonempty (t : JoinTree) {path : String} (h : "" ∉ segments path) :
    t.resolve path =
      ((t.descend rootId (segments path).dropLast).1.map fun id =>
        (id, (segments path).getLastD ""),
        (t.descend rootId (segments path).dropLast).2) := by
  have hany : (segments path).any (· == "") = false :=
    List.any_eq_false.2 fun name hname heq => h (beq_iff_eq.1 heq ▸ hname)
  simp only [resolve, resolveFrom, hany]
  rcases t.descend rootId (segments path).dropLast with ⟨e | id, u⟩ <;> rfl

theorem WellFormed.resolve_later (h : t.WellFormed) {path : String}
    (hu : Reached (t.resolve path).2 u) : u.resolve path = ((t.resolve path).1, u) := by
  by_cases hempty : "" ∈ segments path
  · rw [resolve_of_empty t hempty, resolve_of_empty u hempty]
  · rw [resolve_of_nonempty t hempty] at hu ⊢
    have hroot : rootId < t.size := h.nonempty
    rw [resolve_of_nonempty u hempty, h.descend_later hroot hu]

theorem OpenedAt.walk?_resolve_iff (h : t.OpenedAt s m) (path : String) (chain : List String) :
    ((t.resolve path).2.walk? rootId chain).isSome ↔ (t.walk? rootId chain).isSome ∨
      "" ∉ segments path ∧ chain <+: (segments path).dropLast ∧
        (chain.foldlM s.follow m).isSome := by
  by_cases hempty : "" ∈ segments path
  · simp [resolve_of_empty t hempty, hempty]
  · have hroot : t.walk? rootId [] = some rootId := rfl
    rw [resolve_of_nonempty t hempty, h.walk?_descend_iff hroot h.root]
    simp [hempty]

/-- Paths take their chains one after another, the failing ones as far as the schema follows. -/
theorem OpenedAt.walk?_paths_iff (h : t.OpenedAt s m) (paths : List String) (chain : List String) :
    ((t.after (paths.map .resolve)).walk? rootId chain).isSome ↔
      (t.walk? rootId chain).isSome ∨ ∃ path ∈ paths, "" ∉ segments path ∧
        chain <+: (segments path).dropLast ∧ (chain.foldlM s.follow m).isSome := by
  induction paths generalizing t with
  | nil => simp [after]
  | cons path rest ih =>
    have hfirst := (Call.resolve path).reached t
    have hrest := ih (h.later hfirst)
    rw [List.map_cons, after, List.foldl_cons]
    rw [after, Call.run, h.walk?_resolve_iff, or_assoc] at hrest
    rw [Call.run, hrest]
    simp

/-- Paths from the root lead where the schema says, take the nodes on their way and no others, and
may come again and in any order. -/
structure ResolvesExactly (t : JoinTree) (s : Schema) (m : Model) : Prop where
  once : ∀ id < t.size, ∃! names, t.walk? rootId names = some id
  place : ∀ names id, t.walk? rootId names = some id → (t.node id).place = s.placeAt m names
  succeeds : ∀ path, (∃ found, (t.resolve path).1 = .ok found) ↔
    "" ∉ segments path ∧ ((segments path).dropLast.foldlM s.follow m).isSome
  found : ∀ path id name u, t.resolve path = (.ok (id, name), u) →
    u.walk? rootId (segments path).dropLast = some id ∧
      (u.node id).place = s.placeAt m (segments path).dropLast ∧
      (segments path).getLast? = some name
  malformed : ∀ path, "" ∈ segments path →
    t.resolve path = (.error (.malformed .path (.invalidPath path)), t)
  chains : ∀ path, "" ∉ segments path → ∀ names, ((t.resolve path).2.walk? rootId names).isSome ↔
    (t.walk? rootId names).isSome ∨
      names <+: (segments path).dropLast ∧ (names.foldlM s.follow m).isSome
  again : ∀ path more, ((t.resolve path).2.after more).resolve path =
    ((t.resolve path).1, (t.resolve path).2.after more)
  order : ∀ paths paths' : List String, paths.Perm paths' →
    (t.after (paths.map .resolve)).place? = (t.after (paths'.map .resolve)).place?

theorem OpenedAt.resolvesExactly (h : t.OpenedAt s m) : t.ResolvesExactly s m where
  once id hid := h.wellFormed.existsUnique_walk? hid
  place names id hw := h.place_of_walk? hw
  succeeds path := by
    have hroot : t.walk? rootId [] = some rootId := rfl
    rw [← h.descend_ok_iff hroot h.root]
    by_cases hempty : "" ∈ segments path
    · simp [resolve_of_empty t hempty, hempty]
    · rw [resolve_of_nonempty t hempty]
      cases (t.descend rootId (segments path).dropLast).1 <;> simp [Except.map, hempty]
  found path id name u hfound := by
    have hu := (Call.resolve path).reached t
    rw [Call.run, hfound] at hu
    obtain ⟨hdescend, rfl⟩ := resolveFrom_eq_ok hfound
    have hw := walk?_of_descend hdescend
    refine ⟨hw, (h.later hu).place_of_walk? hw, ?_⟩
    rw [List.getLastD_eq_getLast?, List.getLast?_eq_some_getLast (segments_ne_nil path),
      Option.getD_some]
  malformed path hempty := resolve_of_empty t hempty
  chains path hempty names := by
    rw [h.walk?_resolve_iff]
    simp [hempty]
  again path more := h.wellFormed.resolve_later (reached_after _ more)
  order paths paths' hperm := by
    refine (h.later (reached_after t _)).place?_congr (h.later (reached_after t _)) fun names => ?_
    simp only [h.walk?_paths_iff, hperm.mem_iff]

/-- In the tree of any model of a schema that resolves, after any calls, paths resolve exactly. -/
theorem resolvesExactly_after {settings : Settings} {decls : List ModelDecl}
    (hs : Schema.resolve settings decls = .ok s) {name : String} (hm : s.model name = .ok m) :
    ∃ start, ofModel s name = .ok start ∧
      ∀ calls : List Call, (start.after calls).ResolvesExactly s m := by
  obtain ⟨start, hstart, hopened⟩ := exists_openedAt (Schema.closed_of_resolve hs) hm
  exact ⟨start, hstart, fun calls => (hopened.later (reached_after start calls)).resolvesExactly⟩

theorem resolvesExactly_of_author :
    Schema.resolve {} Tagged.decls = .ok Tagged.schema ∧
      ∃ m, Tagged.schema.model "Author" = .ok m ∧
        ∃ start, ofModel Tagged.schema "Author" = .ok start ∧
        ∀ calls : List Call, (start.after calls).ResolvesExactly Tagged.schema m := by
  have hresolve : Schema.resolve {} Tagged.decls = .ok Tagged.schema := by with_unfolding_all rfl
  obtain ⟨m, hm⟩ : ∃ m, Tagged.schema.model "Author" = .ok m := ⟨_, by with_unfolding_all rfl⟩
  exact ⟨hresolve, m, hm, resolvesExactly_after hresolve hm⟩

end JoinTree

end PathQuery
