import Mathlib.Data.List.Nodup
import PathQuery.Proofs.JoinTree.Shape
import PathQuery.Relation.SemiJoin

/-!
Aliases tell the nodes of a tree apart as long as no relation is named with a dot or like one of the
aliases that statements add: the root's, and those of a semi-join's table between and series.
-/

set_option autoImplicit false

namespace PathQuery

/-- The name of a relation under which no two nodes get one alias. -/
structure UndottedName (name : String) : Prop where
  undotted : '.' ∉ name.toList
  notRoot : name ≠ rootAlias

def Schema.UndottedNames (s : Schema) : Prop :=
  ∀ m ∈ s.models, ∀ r ∈ m.relations, UndottedName r.name

/-- The name of a relation that no alias is mistaken for. -/
structure PlainName (name : String) : Prop where
  undotted : '.' ∉ name.toList
  notRoot : name ≠ rootAlias
  notBetween : name ≠ "__join"
  notSeries : name ≠ "__conds"

def Schema.PlainNames (s : Schema) : Prop :=
  ∀ m ∈ s.models, ∀ r ∈ m.relations, PlainName r.name

theorem Schema.PlainNames.undotted {s : Schema} (h : s.PlainNames) : s.UndottedNames :=
  fun m hm r hr => ⟨(h m hm r hr).undotted, (h m hm r hr).notRoot⟩

/-- The name of a relation under which no node gets the alias of a table between. -/
structure JoinName (name : String) : Prop extends UndottedName name where
  notBetween : name ≠ "__join"

def Schema.JoinNames (s : Schema) : Prop :=
  ∀ m ∈ s.models, ∀ r ∈ m.relations, JoinName r.name

theorem Schema.JoinNames.undotted {s : Schema} (h : s.JoinNames) : s.UndottedNames :=
  fun m hm r hr => (h m hm r hr).toUndottedName

theorem Schema.PlainNames.forJoins {s : Schema} (h : s.PlainNames) : s.JoinNames :=
  fun m hm r hr => ⟨h.undotted m hm r hr, (h m hm r hr).notBetween⟩

theorem append_dot_injective {a b x y : List Char} (hx : '.' ∉ x) (hy : '.' ∉ y)
    (h : a ++ '.' :: x = b ++ '.' :: y) : a = b ∧ x = y := by
  have hcut : ∀ c u v : List Char, '.' ∉ u → '.' :: u = c ++ '.' :: v → c = [] := by
    intro c u v hu hc
    cases c with
    | nil => rfl
    | cons d c =>
      obtain ⟨-, rfl⟩ : '.' = d ∧ u = c ++ '.' :: v := by simpa using hc
      simp at hu
  rcases List.append_eq_append_iff.1 h with ⟨c, rfl, hc⟩ | ⟨c, rfl, hc⟩
  · obtain rfl := hcut c x y hx hc
    simpa using hc
  · obtain rfl := hcut c y x hy hc
    simpa using hc.symm

theorem joinedByDot_injective {a b x y : String} (hx : '.' ∉ x.toList) (hy : '.' ∉ y.toList)
    (h : a ++ "." ++ x = b ++ "." ++ y) : a = b ∧ x = y := by
  have hlist := congrArg String.toList h
  simp only [String.toList_append, List.append_assoc] at hlist
  obtain ⟨hab, hxy⟩ := append_dot_injective hx hy hlist
  exact ⟨String.toList_injective hab, String.toList_injective hxy⟩

theorem dot_mem_joinedByDot (a x : String) : '.' ∈ (a ++ "." ++ x).toList := by
  simp [String.toList_append]

namespace JoinTree

variable {t : JoinTree} {s : Schema}

theorem mem_of_model? (hs : t.schema = some s) {id : Nat} {m : Model}
    (hm : t.model? id = some m) : m ∈ s.models := by
  have hfind : ((t.node id).model).bind s.model? = some m := by simpa [model?, hs] using hm
  obtain ⟨name, -, hfound⟩ := Option.bind_eq_some_iff.1 hfind
  exact List.mem_of_find?_eq_some hfound

theorem Edge.registered_in {p id : Nat} {r : Relation} (e : t.Edge p id r)
    (hs : t.schema = some s) : ∃ m ∈ s.models, r ∈ m.relations ∧ t.model? p = some m := by
  obtain ⟨m, hm, hr⟩ := Option.bind_eq_some_iff.1 e.registered
  exact ⟨m, mem_of_model? hs hm, List.mem_of_find?_eq_some hr, hm⟩

theorem Edge.alias_eq {p id : Nat} {r : Relation} (e : t.Edge p id r) : (t.node id).tableAlias =
    if p = rootId then r.name else (t.node p).tableAlias ++ "." ++ r.name :=
  e.tableAlias

/-- Nodes under one alias, of one tree or of two, hang by relations of one name below nodes under
one alias. -/
theorem Edge.eq_of_alias {u : JoinTree} {p m q n : Nat} {r r' : Relation} (e : t.Edge p m r)
    (e' : u.Edge q n r') (hr : UndottedName r.name) (hr' : UndottedName r'.name)
    (heq : (t.node m).tableAlias = (u.node n).tableAlias) :
    r.name = r'.name ∧ ((p = rootId ∧ q = rootId) ∨
      (p ≠ rootId ∧ q ≠ rootId ∧ (t.node p).tableAlias = (u.node q).tableAlias)) := by
  rw [e.alias_eq, e'.alias_eq] at heq
  by_cases hp : p = rootId <;> by_cases hq : q = rootId
  · simp only [hp, hq, if_true] at heq
    exact ⟨heq, .inl ⟨hp, hq⟩⟩
  · simp only [hp, hq, if_true, if_false] at heq
    exact absurd (heq ▸ dot_mem_joinedByDot _ _) hr.undotted
  · simp only [hp, hq, if_true, if_false] at heq
    exact absurd (heq ▸ dot_mem_joinedByDot _ _) hr'.undotted
  · simp only [hp, hq, if_false] at heq
    obtain ⟨halias, hname⟩ := joinedByDot_injective hr.undotted hr'.undotted heq
    exact ⟨hname, .inr ⟨hp, hq, halias⟩⟩

section Undotted

variable (h : t.WellFormed) (hs : t.schema = some s) (hnames : s.UndottedNames)

include hs hnames

theorem Edge.undottedName {p id : Nat} {r : Relation} (e : t.Edge p id r) :
    UndottedName r.name := by
  obtain ⟨m, hm, hr, -⟩ := e.registered_in hs
  exact hnames m hm r hr

include h

theorem WellFormed.alias_ne_root {id : Nat} (hpos : 0 < id) (hid : id < t.size) :
    (t.node id).tableAlias ≠ rootAlias := by
  obtain ⟨p, r, e⟩ := h.edge id hpos hid
  intro hroot
  rw [e.alias_eq] at hroot
  split at hroot
  · exact (e.undottedName hs hnames).notRoot hroot
  · have hdot := dot_mem_joinedByDot (t.node p).tableAlias r.name
    rw [hroot] at hdot
    simp [rootAlias] at hdot

theorem WellFormed.alias_injective {m n : Nat} (hm : m < t.size) (hn : n < t.size)
    (heq : (t.node m).tableAlias = (t.node n).tableAlias) : m = n := by
  induction m using Nat.strongRecOn generalizing n with
  | ind m ih =>
    rcases Nat.eq_zero_or_pos m with rfl | hmpos
    · rcases Nat.eq_zero_or_pos n with rfl | hnpos
      · rfl
      · exact absurd (heq.symm.trans h.rootAliased) (h.alias_ne_root hs hnames hnpos hn)
    · rcases Nat.eq_zero_or_pos n with rfl | hnpos
      · exact absurd (heq.trans h.rootAliased) (h.alias_ne_root hs hnames hmpos hm)
      · obtain ⟨p, r, e⟩ := h.edge m hmpos hm
        obtain ⟨q, r', e'⟩ := h.edge n hnpos hn
        obtain ⟨hname, hparents⟩ :=
          e.eq_of_alias e' (e.undottedName hs hnames) (e'.undottedName hs hnames) heq
        have hsame : p = q := by
          rcases hparents with ⟨hp, hq⟩ | ⟨-, -, halias⟩
          · exact hp.trans hq.symm
          · exact ih p e.lt (Nat.lt_trans e.lt hm) (Nat.lt_trans e'.lt hn) halias
        have hlisted := e'.listed
        rw [← hname, ← hsame] at hlisted
        have hentry := List.inj_on_of_nodup_map (h.distinct p) e.listed hlisted rfl
        exact (Prod.mk.inj hentry).2

theorem WellFormed.idOfAlias?_alias {id : Nat} (hid : id < t.size) :
    t.idOfAlias? (t.node id).tableAlias = some id := by
  have hget : ∀ j (hj : j < t.nodes.length), t.nodes[j] = t.node j := by
    intro j hj
    simp [node_eq, hj]
  refine List.findIdx?_eq_some_iff_getElem.2
    ⟨hid, by rw [hget id hid, beq_self_eq_true], fun j hj => ?_⟩
  have hjlt : j < t.size := Nat.lt_trans hj hid
  rw [hget]
  simp only [beq_iff_eq]
  exact fun heq => absurd (h.alias_injective hs hnames hjlt hid heq) (by omega)

theorem WellFormed.alias_ne_dotted {id : Nat} (hid : id < t.size) {suffix : String}
    (hdot : '.' ∉ suffix.toList) (hname : ∀ m ∈ s.models, ∀ r ∈ m.relations, r.name ≠ suffix)
    (b : String) : (t.node id).tableAlias ≠ b ++ "." ++ suffix := by
  intro heq
  rcases Nat.eq_zero_or_pos id with rfl | hpos
  · rw [show (t.node 0).tableAlias = rootAlias from h.rootAliased] at heq
    have hmem := dot_mem_joinedByDot b suffix
    rw [← heq] at hmem
    simp [rootAlias] at hmem
  · obtain ⟨p, r, e⟩ := h.edge id hpos hid
    have hundotted := (e.undottedName hs hnames).undotted
    obtain ⟨m, hm, hr, -⟩ := e.registered_in hs
    rw [e.alias_eq] at heq
    split at heq
    · exact absurd (heq ▸ dot_mem_joinedByDot b suffix) hundotted
    · exact hname m hm r hr (joinedByDot_injective hundotted hdot heq).2

end Undotted

theorem WellFormed.alias_ne_joinTableAlias (h : t.WellFormed) (hs : t.schema = some s)
    (hnames : s.JoinNames) {id : Nat} (hid : id < t.size) (b : String) :
    (t.node id).tableAlias ≠ Relation.joinTableAlias b := by
  have hsplit : Relation.joinTableAlias b = b ++ "." ++ "__join" := by
    rw [String.append_assoc, Relation.joinTableAlias]
    rfl
  rw [hsplit]
  exact h.alias_ne_dotted hs hnames.undotted hid (by decide)
    (fun m hm r hr => (hnames m hm r hr).notBetween) b

theorem WellFormed.alias_ne_seriesAlias (h : t.WellFormed) (hs : t.schema = some s)
    (hplain : s.PlainNames) {id : Nat} (hid : id < t.size) (b : String) :
    (t.node id).tableAlias ≠ Relation.seriesAlias b := by
  have hsplit : Relation.seriesAlias b = b ++ "." ++ "__conds" := by
    rw [String.append_assoc, Relation.seriesAlias]
    rfl
  rw [hsplit]
  exact h.alias_ne_dotted hs hplain.undotted hid (by decide)
    (fun m hm r hr => (hplain m hm r hr).notSeries) b

theorem alias_of_idOfAlias? {a : String} {id : Nat} (h : t.idOfAlias? a = some id) :
    id < t.size ∧ (t.node id).tableAlias = a := by
  obtain ⟨hlt, ha, -⟩ := List.findIdx?_eq_some_iff_getElem.1 h
  exact ⟨hlt, by simpa [node_eq, hlt] using ha⟩

end JoinTree

end PathQuery
