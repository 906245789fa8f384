import PathQuery.Proofs.JoinTree.Aliases
import PathQuery.Proofs.JoinTree.Reading
import PathQuery.Proofs.JoinTree.Walks
import PathQuery.Proofs.Schema.Closed

/-!
The outer joins of a statement put under the alias of each node the row that its relation to one row
leads to. Parents are joined before their children, and since aliases tell the nodes apart no join
disturbs an earlier one.
-/

set_option autoImplicit false

namespace PathQuery

variable {E : Engine}

/-- Relations to one row link at most one row, and tables between point at rows. -/
structure Schema.Describes (s : Schema) (db : Database E) : Prop where
  one : ∀ m ∈ s.models, ∀ r ∈ m.relations, r.isToMany = false → ∀ x ∈ db r.current.table,
    ∀ y ∈ r.linkedRows db x, ∀ y' ∈ r.linkedRows db x, y = y'
  points : ∀ m ∈ s.models, ∀ r ∈ m.relations, r.PointsAtRows db

namespace JoinTree

variable {t : JoinTree} {s : Schema} {db : Database E}

/-- The tree follows the relations of a closed schema whose names no alias is mistaken for. -/
structure Plain (t : JoinTree) (s : Schema) : Prop where
  wellFormed : t.WellFormed
  schema : t.schema = some s
  names : s.PlainNames
  closed : s.Closed

structure Grounded (t : JoinTree) (s : Schema) (db : Database E) : Prop extends t.Plain s where
  describes : s.Describes db

theorem Edge.table_eq {p id : Nat} {r : Relation} (e : t.Edge p id r) (hs : t.schema = some s)
    {m : Model} (hm : s.model? r.linked.model = some m) : t.table id = m.table := by
  have hmodel : t.model? id = some m := by simp [model?, hs, e.model, hm]
  rw [table, hmodel]
  rfl

theorem Edge.linked_table {p id : Nat} {r : Relation} (e : t.Edge p id r) (hs : t.schema = some s)
    (hclosed : s.Closed) : r.linked.table = (t.table id).name := by
  obtain ⟨m, hm, hr, -⟩ := e.registered_in hs
  obtain ⟨m', hm', htable⟩ := hclosed.linked m hm r hr
  rw [htable, e.table_eq hs hm']

def HasRow (t : JoinTree) (db : Database E) (id : Nat) (x : Tuple E) : Prop :=
  x ∈ db (t.table id).name ∨ x = nullRow

theorem Plain.alias_injective (g : t.Plain s) {m n : Nat} (hm : m < t.size) (hn : n < t.size)
    (h : (t.node m).tableAlias = (t.node n).tableAlias) : m = n :=
  g.wellFormed.alias_injective g.schema g.names.undotted hm hn h

theorem Plain.linked_table (g : t.Plain s) {p id : Nat} {r : Relation} (e : t.Edge p id r) :
    r.linked.table = (t.table id).name :=
  e.linked_table g.schema g.closed

namespace Grounded

variable (g : t.Grounded s db)

include g

theorem current_table {p id : Nat} {r : Relation} (e : t.Edge p id r) :
    r.current.table = (t.table p).name := by
  obtain ⟨m, hm, hr, hp⟩ := e.registered_in g.schema
  rw [g.closed.current m hm r hr, table, hp]
  rfl

theorem points {p id : Nat} {r : Relation} (e : t.Edge p id r) : r.PointsAtRows db := by
  obtain ⟨m, hm, hr, -⟩ := e.registered_in g.schema
  exact g.describes.points m hm r hr

theorem hasRow_follow {p id : Nat} {r : Relation} (e : t.Edge p id r) (x : Tuple E) :
    t.HasRow db id (r.follow db x) := by
  have h := r.follow_mem db x
  rwa [g.linked_table e] at h

theorem eq_follow {p id : Nat} {r : Relation} (e : t.Edge p id r) (hone : r.isToMany = false)
    {x y : Tuple E} (hx : t.HasRow db p x) (hy : y ∈ r.linkedRows db x) : y = r.follow db x := by
  obtain ⟨m, hm, hr, -⟩ := e.registered_in g.schema
  rcases hx with hx | rfl
  · rw [← g.current_table e] at hx
    unfold Relation.follow
    cases hrows : r.linkedRows db x with
    | nil => simp [hrows] at hy
    | cons z zs =>
      exact g.describes.one m hm r hr hone x hx y hy z (by simp [hrows])
  · simp [r.linkedRows_nullRow db] at hy

end Grounded

theorem isToMany_of_edge {p id : Nat} {r : Relation} (e : t.Edge p id r) :
    (t.node id).isToMany = r.isToMany := by
  simp [Node.isToMany, e.relation]

theorem joinsFor_one {p id : Nat} {r : Relation} (e : t.Edge p id r) (hone : r.isToMany = false)
    (kind : JoinKind) :
    t.joinsFor id kind = [{
      table := r.linked.table, tableAlias := (t.node id).tableAlias, kind
      on := [.equal ⟨(t.node id).tableAlias, r.linked.column⟩
        ⟨(t.node p).tableAlias, r.current.column⟩] }] := by
  unfold joinsFor
  simp only [e.relation, e.parent]
  unfold Relation.joins
  split
  · next through hkind => exact absurd hkind (Relation.kind_ne_manyMany hone through)
  · rfl

theorem Grounded.mem_joins_one (g : t.Grounded s db) {p id : Nat} {r : Relation}
    (e : t.Edge p id r) (hid : id < t.size) (hone : r.isToMany = false) {scene scene' : Scene E}
    (hrow : t.HasRow db p (scene (t.node p).tableAlias))
    (h : scene' ∈ db.joins scene (t.joinsFor id .left)) :
    scene' = scene.put (t.node id).tableAlias (r.follow db (scene (t.node p).tableAlias)) := by
  have hne : (t.node p).tableAlias ≠ (t.node id).tableAlias := fun heq =>
    absurd (g.alias_injective (Nat.lt_trans e.lt hid) hid heq) (Nat.ne_of_lt e.lt)
  have hkind := Relation.kind_ne_manyMany hone
  have hlinked : ∀ y, y ∈ (db r.linked.table).filter (fun y =>
      E.meets (y r.linked.column) (scene.cell ⟨(t.node p).tableAlias, r.current.column⟩)) ↔
      y ∈ r.linkedRows db (scene (t.node p).tableAlias) := by
    intro y
    rw [List.mem_filter, Relation.mem_linkedRows_direct hkind]
    rfl
  rw [joinsFor_one e hone, Database.joins] at h
  obtain ⟨scene₁, h, hsame⟩ := List.mem_flatMap.1 h
  obtain rfl : scene' = scene₁ := by simpa [Database.joins] using hsame
  unfold Database.join at h
  dsimp only at h
  rw [Database.found_equal db scene r.linked.table r.linked.column hne] at h
  split at h
  · next hnone =>
    obtain rfl := List.mem_singleton.1 h
    rw [Relation.follow]
    have hnil : r.linkedRows db (scene (t.node p).tableAlias) = [] := by
      refine List.eq_nil_iff_forall_not_mem.2 fun y hy => ?_
      rw [List.map_eq_nil_iff.1 hnone.2] at hlinked
      exact absurd ((hlinked y).2 hy) (by simp)
    rw [hnil, List.headD_nil]
  · obtain ⟨y, hy, rfl⟩ := List.mem_map.1 h
    rw [← g.eq_follow e hone hrow ((hlinked y).1 hy)]

/-- Rows of nodes that a scene holds under their aliases. -/
def Shows (t : JoinTree) (scene : Scene E) (rows : Nat → Tuple E) (ids : List Nat) : Prop :=
  ∀ id ∈ ids, scene (t.node id).tableAlias = rows id

theorem Grounded.shows_put (g : t.Grounded s db) {rows : Nat → Tuple E} {known : List Nat}
    {id : Nat} {scene : Scene E} (hscene : t.Shows scene rows known)
    (hknown : ∀ n ∈ known, n < t.size) (hid : id < t.size) :
    t.Shows (scene.put (t.node id).tableAlias (rows id)) rows (id :: known) := by
  intro n hn
  by_cases hsame : n = id
  · rw [hsame, Scene.put_same]
  · have hn : n ∈ known := (List.mem_cons.1 hn).resolve_left hsame
    have hne : (t.node n).tableAlias ≠ (t.node id).tableAlias := fun heq =>
      hsame (g.alias_injective (hknown n hn) hid heq)
    rw [Scene.put_other _ _ hne]
    exact hscene n hn

/-- Joining nodes one by one, parents first, brings in the row of each. -/
theorem Grounded.shows_joins (g : t.Grounded s db) (rows : Nat → Tuple E) {ids known : List Nat}
    (hfirst : t.ParentsFirst known ids)
    (hids : ∀ id ∈ ids, 0 < id ∧ id < t.size ∧ (t.node id).isToMany = false)
    (hrows : ∀ id ∈ ids, ∀ p r, t.Edge p id r → rows id = r.follow db (rows p))
    (hknown : ∀ id ∈ known, id < t.size ∧ t.HasRow db id (rows id)) {scene scene' : Scene E}
    (hscene : t.Shows scene rows known)
    (h : scene' ∈ db.joins scene (ids.flatMap fun id => t.joinsFor id .left)) :
    t.Shows scene' rows (known ++ ids) ∧
      ∀ a, (∀ id ∈ ids, a ≠ (t.node id).tableAlias) → scene' a = scene a := by
  induction ids generalizing known scene with
  | nil =>
    obtain rfl : scene' = scene := by simpa [Database.joins] using h
    exact ⟨by simpa using hscene, fun _ _ => rfl⟩
  | cons id rest ih =>
    obtain ⟨⟨p, hp, hparent⟩, hrest⟩ := hfirst
    obtain ⟨hpos, hlt, hmany⟩ := hids id List.mem_cons_self
    obtain ⟨p', r, e⟩ := g.wellFormed.edge id hpos hlt
    obtain rfl : p' = p := by simpa [e.parent] using hparent
    have hone : r.isToMany = false := by rw [← isToMany_of_edge e, hmany]
    have hrow : t.HasRow db p' (scene (t.node p').tableAlias) := by
      rw [hscene p' hp]
      exact (hknown p' hp).2
    have hid : rows id = r.follow db (rows p') := hrows id List.mem_cons_self p' r e
    rw [List.flatMap_cons, Database.joins_append] at h
    obtain ⟨scene₁, h₁, h⟩ := List.mem_flatMap.1 h
    have hput := g.mem_joins_one e hlt hone hrow h₁
    rw [hscene p' hp, ← hid] at hput
    have hshows : t.Shows scene₁ rows (id :: known) := by
      rw [hput]
      exact g.shows_put hscene (fun n hn => (hknown n hn).1) hlt
    have hknown' : ∀ n ∈ id :: known, n < t.size ∧ t.HasRow db n (rows n) := by
      intro n hn
      rcases List.mem_cons.1 hn with rfl | hn
      · exact ⟨hlt, hid ▸ g.hasRow_follow e (rows p')⟩
      · exact hknown n hn
    obtain ⟨hrestShows, hother⟩ := ih hrest (fun n hn => hids n (List.mem_cons_of_mem _ hn))
      (fun n hn => hrows n (List.mem_cons_of_mem _ hn)) hknown' hshows h
    refine ⟨fun n hn => hrestShows n ?_, fun a ha => ?_⟩
    · simp only [List.mem_append, List.mem_cons] at hn ⊢
      tauto
    · rw [hother a fun n hn => ha n (List.mem_cons_of_mem _ hn), hput,
        Scene.put_other _ _ (ha id List.mem_cons_self)]

theorem extend_of_joinedFrom {rows : Nat → Tuple E} {scope id : Nat} {y : Tuple E} {path : List Nat}
    (h : t.JoinedFrom scope id path) :
    t.extend db rows scope y id = path.foldl (t.followAt db) y := by
  have hone : (path.all fun n => !(t.node n).isToMany) = true := by
    simpa using h.one
  simp [extend, h.down, hone]

@[simp] theorem extend_self (rows : Nat → Tuple E) (scope : Nat) (y : Tuple E) :
    t.extend db rows scope y scope = y := by
  rw [extend_of_joinedFrom (JoinedFrom.self t scope), List.foldl_nil]

theorem extend_of_not_below {rows : Nat → Tuple E} {scope id : Nat} {y : Tuple E}
    (h : t.pathBetween? scope id = none) : t.extend db rows scope y id = rows id := by
  simp [extend, h]

theorem extend_child {rows : Nat → Tuple E} {scope p id : Nat} {y : Tuple E} {path : List Nat}
    {r : Relation} (h : t.JoinedFrom scope id path) (hne : id ≠ scope) (e : t.Edge p id r) :
    t.extend db rows scope y id = r.follow db (t.extend db rows scope y p) := by
  obtain ⟨q, rfl, hq⟩ := h.of_append e.parent e.lt hne
  rw [extend_of_joinedFrom h, extend_of_joinedFrom hq, List.foldl_append]
  simp [followAt, e.relation]

def isWanted (t : JoinTree) (scope : Nat) (targets : List Nat) (id : Nat) : Bool :=
  id != scope && (targets.flatMap fun target => (t.pathBetween? scope target).getD []).contains id

theorem joinsWithin_eq (t : JoinTree) (scope : Nat) (targets : List Nat) :
    t.joinsWithin scope targets = ((t.preorder scope).filter (t.isWanted scope targets)).flatMap
      fun id => t.joinsFor id .left :=
  rfl

theorem isWanted_iff {scope id : Nat} {targets : List Nat} :
    t.isWanted scope targets id = true ↔ id ≠ scope ∧
      ∃ target ∈ targets, ∃ path, t.pathBetween? scope target = some path ∧ id ∈ path := by
  rw [isWanted, Bool.and_eq_true, bne_iff_ne, List.contains_iff_mem, List.mem_flatMap]
  refine and_congr_right fun _ => exists_congr fun target => and_congr_right fun _ => ?_
  cases hpath : t.pathBetween? scope target with
  | none => simp
  | some path => simp

/-- Where relations to one row lead to all targets, they lead to all nodes that are joined. -/
theorem joinedFrom_of_isWanted {scope id : Nat} {targets : List Nat}
    (htargets : ∀ id ∈ targets, id < t.size ∧ t.anchor? scope id = none)
    (h : t.isWanted scope targets id = true) :
    scope < id ∧ id < t.size ∧ (t.node id).isToMany = false ∧ ∃ q, t.JoinedFrom scope id q := by
  obtain ⟨-, target, htarget, path, hpath, hmem⟩ := isWanted_iff.1 h
  obtain ⟨hlt, hnone⟩ := htargets target htarget
  have hjoined := joinedFrom_of_anchor? hpath hnone
  obtain ⟨hbelow, hle, hq⟩ := hjoined.of_mem hmem
  exact ⟨hbelow, Nat.lt_of_le_of_lt hle hlt, hjoined.one id hmem, hq⟩

theorem parent_of_isWanted {scope id p : Nat} {targets : List Nat}
    (h : t.isWanted scope targets id = true) (hp : (t.node id).parent = some p) :
    p = scope ∨ t.isWanted scope targets p = true := by
  obtain ⟨-, target, htarget, path, hpath, hmem⟩ := isWanted_iff.1 h
  obtain ⟨p', hp', -, hscope⟩ := parent_of_mem_path hpath hmem
  obtain rfl : p' = p := by simpa [hp] using hp'.symm
  by_cases hroot : p' = scope
  · exact .inl hroot
  · exact .inr (isWanted_iff.2 ⟨hroot, target, htarget, path, hpath, hscope.resolve_left hroot⟩)

theorem WellFormed.parentsFirst_wanted (h : t.WellFormed) (scope : Nat) (targets : List Nat) :
    t.ParentsFirst [scope] ((t.preorder scope).filter (t.isWanted scope targets)) := by
  rw [preorder_eq, List.filter_cons_of_neg (by simp [isWanted])]
  exact (h.parentsFirst_offspring scope).filter scope
    (fun _ _ _ hid hp => parent_of_isWanted hid hp) [scope] List.mem_cons_self fun _ hn _ => hn

/-- The joins below a scope show at every target the row that relations to one row lead to, and
leave the aliases of all other nodes alone. -/
theorem Grounded.shows_joinsWithin (g : t.Grounded s db) (rows : Nat → Tuple E) {scope : Nat}
    {targets : List Nat} {y : Tuple E} (hscope : scope < t.size) (hy : t.HasRow db scope y)
    (htargets : ∀ id ∈ targets, id < t.size ∧ t.anchor? scope id = none) {scene scene' : Scene E}
    (hscene : scene (t.node scope).tableAlias = y)
    (h : scene' ∈ db.joins scene (t.joinsWithin scope targets)) :
    (∀ id ∈ targets, t.pathBetween? scope id ≠ none →
      scene' (t.node id).tableAlias = t.extend db rows scope y id) ∧
    ∀ a, (∀ id path, t.pathBetween? scope id = some path → id < t.size → id ≠ scope →
      a ≠ (t.node id).tableAlias) → scene' a = scene a := by
  have hwanted : ∀ id ∈ (t.preorder scope).filter (t.isWanted scope targets), scope < id ∧
      id < t.size ∧ (t.node id).isToMany = false ∧ ∃ q, t.JoinedFrom scope id q :=
    fun id hid => joinedFrom_of_isWanted htargets (List.mem_filter.1 hid).2
  have hrows : ∀ id ∈ (t.preorder scope).filter (t.isWanted scope targets), ∀ p r, t.Edge p id r →
      t.extend db rows scope y id = r.follow db (t.extend db rows scope y p) := by
    intro id hid p r e
    obtain ⟨hlt, -, -, q, hq⟩ := hwanted id hid
    exact extend_child hq (Nat.ne_of_gt hlt) e
  rw [joinsWithin_eq] at h
  obtain ⟨hshows, hother⟩ := g.shows_joins (t.extend db rows scope y)
    (g.wellFormed.parentsFirst_wanted scope targets)
    (fun id hid => ⟨Nat.zero_lt_of_lt (hwanted id hid).1, (hwanted id hid).2.1,
      (hwanted id hid).2.2.1⟩)
    hrows (by simpa using ⟨hscope, hy⟩) (by simpa [Shows] using hscene) h
  refine ⟨fun id hid hbelow => hshows id ?_, fun a ha => hother a fun id hid => ?_⟩
  · obtain ⟨path, hpath⟩ := Option.ne_none_iff_exists'.1 hbelow
    rcases pathBetween?_eq_some hpath with ⟨rfl, -⟩ | ⟨p, q, -, -, hne, -, rfl⟩
    · simp
    · refine List.mem_append_right _ (List.mem_filter.2 ⟨?_, ?_⟩)
      · exact g.wellFormed.mem_preorder (htargets id hid).1 hpath
      · exact isWanted_iff.2 ⟨hne, id, hid, _, hpath, by simp⟩
  · obtain ⟨hlt, hsize, -, q, hq⟩ := hwanted id hid
    exact ha id q hq.down hsize (Nat.ne_of_gt hlt)

end JoinTree

end PathQuery
