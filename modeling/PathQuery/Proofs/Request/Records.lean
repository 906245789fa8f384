import PathQuery.Proofs.Request.Selected

/-!
Relations compared with records. A record stands for the values of its primary key. What belongs to
a record is compared by its own column, which points at the record as long as that is where the
record has its key; the record that one row leads to is compared by its key, and so are the records
that it leads to if the key is one column. The comparison then holds of the rows that the relation
links to the record.
-/

set_option autoImplicit false

namespace PathQuery

open JoinTree

variable {E : Engine} {db : Database E} {scalar : Database.Scalar E}

def HasKey (y : Tuple E) (columns : List String) (key : List Value) : Prop :=
  List.Forall₂ (fun column v => E.meets (y column) (E.denote v) = true) columns key

def Value.IsKey (key : List Value) : Prop :=
  ∀ v ∈ key, v.isScalar = true ∧ v.isNull = false

namespace Condition

def ofKey (a : String) (columns : List String) (key : List Value) : List Condition :=
  (columns.zip key).map fun p => ofColumn a p.1 .eq p.2

theorem ofScalar_of_key (a column : String) {v : Value}
    (h : v.isScalar = true ∧ v.isNull = false) :
    ofScalar a column .eq v = .ok (ofColumn a column .eq v) := by
  obtain ⟨hscalar, hnull⟩ := h
  have hlist : v.isList = false := by cases v <;> simp [Value.isScalar, Value.isList] at hscalar ⊢
  rw [ofScalar_of_single a column .eq hnull hlist]
  rfl

theorem connective_ofKey {a : String} {columns : List String} {key : List Value} {x : Condition}
    (h : x ∈ ofKey a columns key) : x.withConnective .and = x := by
  obtain ⟨p, -, rfl⟩ := List.mem_map.1 h
  rfl

theorem ofTuple_of_key (a : String) {columns : List String} {key : List Value}
    (hlen : key.length = columns.length) (hkey : Value.IsKey key) :
    ofTuple a columns .eq .and key = .ok (ofKey a columns key) := by
  have htests : List.Forall₂ (fun p x => ofScalar a p.1 .eq p.2 = .ok x) (columns.zip key)
      (ofKey a columns key) :=
    List.forall₂_map_right_iff.2 (List.forall₂_same.2 fun p hp =>
      ofScalar_of_key a p.1 (hkey p.2 (List.of_mem_zip hp).2))
  rw [ofTuple, if_neg (not_not.2 hlen), mapM_eq_ok_iff.2 htests]
  have hand : ∀ x ∈ ofKey a columns key, x.withConnective .and = x := fun _ => connective_ofKey
  generalize ofKey a columns key = tests at hand
  cases tests with
  | nil => rfl
  | cons x rest =>
    rw [List.forall_mem_cons] at hand
    change Except.ok (x.withConnective .and :: rest.map (withConnective .and)) = .ok (x :: rest)
    rw [hand.1, List.map_congr_left hand.2, List.map_id']

theorem ofColumns_of_key (a : String) {columns : List String} {key : List Value} {x : Condition}
    (hlen : key.length = columns.length) (hkey : Value.IsKey key)
    (h : ofColumns a .eq (Value.entity key).dereference columns = .ok x) :
    (∃ column v, columns = [column] ∧ key = [v] ∧ x = ofColumn a column .eq v) ∨
      x = .group .and (ofKey a columns key) := by
  match columns, key, hlen with
  | [], [], _ => cases h
  | [column], [v], _ =>
    change ofScalar a column .eq v = .ok x at h
    rw [ofScalar_of_key a column (hkey v List.mem_cons_self)] at h
    exact .inl ⟨column, v, rfl, rfl, (Except.ok.inj h).symm⟩
  | c :: c' :: rest, v :: v' :: vs, hlen =>
    refine .inr ?_
    have hsingle : (v :: v' :: vs).all Value.isList = false := by
      have hv := (hkey v List.mem_cons_self).1
      cases v <;> simp [Value.isScalar, Value.isList] at hv ⊢
    change ofTuples a (c :: c' :: rest) .eq (.list (v :: v' :: vs)) = .ok x at h
    rw [ofTuples_eq, tuples_list, hsingle, if_neg Bool.false_ne_true] at h
    obtain ⟨groups, hgroups, h⟩ := bind_eq_ok_iff.1
      (show ofTupleList a (c :: c' :: rest) false [v :: v' :: vs] = .ok x from h)
    obtain ⟨members, others, hmembers, hnone, rfl⟩ :=
      List.forall₂_cons_left_iff.1 (mapM_eq_ok_iff.1 hgroups)
    cases hnone
    have hmembers := hmembers.symm.trans (ofTuple_of_key a hlen hkey)
    obtain rfl := Except.ok.inj hmembers
    exact (Except.ok.inj h).symm

end Condition

namespace JoinTree

variable {t : JoinTree} {rows : Nat → Tuple E} {scope id : Nat} {a : String}

theorem leafHolds_ofColumn (ha : t.idOfAlias? a = some id) {column : String} {v : Value} :
    t.LeafHolds db scalar rows (.ofColumn a column .eq v) ↔
      E.meets (rows id column) (E.denote v) = true := by
  rw [Condition.ofColumn, leafHolds_compare ha, Engine.meets, decide_eq_true_iff]
  rfl

/-- Asked of a row that is joined, the comparison with a key holds where the row has the key. -/
theorem holds_key (ha : t.idOfAlias? a = some id) (hone : t.anchor? scope id = none)
    {columns : List String} {key : List Value} {x : Condition}
    (hlen : key.length = columns.length) (hkey : Value.IsKey key)
    (h : Condition.ofColumns a .eq (Value.entity key).dereference columns = .ok x) :
    t.Holds db scalar scope rows [x] ↔ HasKey (rows id) columns key := by
  have hnear : ∀ column v, t.anchorAt? scope (.ofColumn a column .eq v) = none := by
    intro column v
    change (t.idOfAlias? a).bind (t.anchor? scope) = none
    rw [ha, Option.bind_some, hone]
  have hsingle : ∀ column v, t.RunHolds db scalar scope rows [.ofColumn a column .eq v] ↔
      E.meets (rows id column) (E.denote v) = true := by
    intro column v
    rw [runHolds_near rfl (hnear column v), leafHolds_ofColumn ha]
  rw [holds_single]
  rcases Condition.ofColumns_of_key a hlen hkey h with ⟨column, v, rfl, rfl, rfl⟩ | rfl
  · rw [hsingle]
    simp [HasKey]
  · have hall : ∀ y ∈ Condition.ofKey a columns key, t.anchorAt? scope y = none := by
      intro y hy
      obtain ⟨p, -, rfl⟩ := List.mem_map.1 hy
      exact hnear p.1 p.2
    have hand : ∀ y ∈ (Condition.ofKey a columns key).drop 1, y.connective = .and := by
      intro y hy
      obtain ⟨p, -, rfl⟩ := List.mem_map.1 (List.mem_of_mem_drop hy)
      rfl
    rw [runHolds_group, holds_of_and hand, runHolds_iff_forall hall, HasKey, List.forall₂_iff_zip]
    simp only [Condition.ofKey, List.forall_mem_map, hsingle, Prod.forall, hlen, true_and]

theorem anchor?_of_edge {p : Nat} {r : Relation} (e : t.Edge p id r) (hmany : r.isToMany = true) :
    t.anchor? p id = some id := by
  rw [anchor?, pathBetween?_of_parent (Nat.ne_of_gt e.lt) e.parent e.lt, pathBetween?_self]
  simp [isToMany_of_edge e, hmany]

theorem joinedFrom_of_edge {p : Nat} {r : Relation} (e : t.Edge p id r)
    (hone : r.isToMany = false) : t.JoinedFrom p id [id] where
  down := by
    rw [pathBetween?_of_parent (Nat.ne_of_gt e.lt) e.parent e.lt, pathBetween?_self]
    rfl
  one := by simp [isToMany_of_edge e, hone]

/-- Asked of the rows that a relation to many links, the comparison with a key of one column holds
where one of them has it. -/
theorem holds_key_far {r : Relation} (e : t.Edge scope id r) (hmany : r.isToMany = true)
    (ha : t.idOfAlias? (t.node id).tableAlias = some id) {column : String} {v : Value} :
    t.Holds db scalar scope rows [.ofColumn (t.node id).tableAlias column .eq v] ↔
      ∃ z ∈ r.linkedRows db (rows scope), E.meets (z column) (E.denote v) = true := by
  have howner : t.owner? (.ofColumn (t.node id).tableAlias column .eq v) = some id := ha
  have hfar : ∀ x ∈ [Condition.ofColumn (t.node id).tableAlias column .eq v],
      t.anchorAt? scope x = some id := by
    intro x hx
    rw [List.mem_singleton.1 hx, anchorAt?_of_owner howner, anchor?_of_edge e hmany]
  have hnear : ∀ x ∈ [Condition.ofColumn (t.node id).tableAlias column .eq v],
      t.anchorAt? id x = none := by
    intro x hx
    rw [List.mem_singleton.1 hx, anchorAt?_of_owner howner,
      (JoinedFrom.self t id).anchor?_eq]
  rw [holds_single, runHolds_far (List.cons_ne_nil _ []) hfar]
  refine (linkedHold_near hnear).trans ?_
  simp only [List.forall_mem_singleton, leafHolds_ofColumn ha, extend_self, rowsAt_eq e]

/-- The columns that a relation of the root compares with a record: its own if the row belongs to
the record, else the key of the node that it leads to. -/
inductive Compares (t : JoinTree) (r : Relation) : String → List String → Prop
  | own (kind : r.kind = .belongsTo) : Compares t r rootAlias [r.current.column]
  | linked {id : Nat} (kind : r.kind ≠ .belongsTo) (edge : t.Edge rootId id r) (lt : id < t.size) :
    Compares t r (t.node id).tableAlias (t.table id).primaryKeyColumns

theorem WellFormed.compares_of_columnsOf (ht : t.WellFormed) {r : Relation}
    (hname : SegmentName r.name) (hr : (t.model? rootId).bind (·.relation? r.name) = some r)
    {target : Nat} {columns : List String}
    (h : Building.columnsOf rootId r.name t = .ok ((target, columns), t)) :
    t.Compares r (t.node target).tableAlias columns := by
  by_cases hkind : r.kind = .belongsTo
  · rw [Building.columnsOf_belongsTo hname.single hr hkind] at h
    obtain ⟨hp, -⟩ := Prod.mk.inj (Except.ok.inj h)
    obtain ⟨rfl, rfl⟩ := Prod.mk.inj hp
    rw [ht.rootAliased]
    exact .own hkind
  · obtain ⟨hlookup, hcolumns⟩ := Building.of_columnsOf_relation hname.single hr hkind h
    dsimp only at hlookup hcolumns
    have hmem : (r.name, target) ∈ (t.node rootId).children := by
      obtain ⟨before, after, hsplit, -⟩ := List.lookup_eq_some_iff.1 hlookup
      simp [hsplit]
    obtain ⟨r', e, hsame⟩ := ht.edge_of_child hmem
    have hr' := e.registered
    rw [hsame, hr] at hr'
    obtain rfl := Option.some.inj hr'
    rw [hcolumns]
    exact .linked hkind e (ht.child _ _ _ hmem).2.1

theorem Resolves.record {r : Relation} {key : List Value} {x : Condition} (ht : t.WellFormed)
    (hname : SegmentName r.name) (hr : (t.model? rootId).bind (·.relation? r.name) = some r)
    (hplain : (t.model? rootId).bind (·.hook? r.name) = none)
    (h : t.Resolves rootId (.compare .and r.name "=" (.entity key)) x) :
    ∃ a columns y, t.Compares r a columns ∧ x = y.withConnective .and ∧
      Condition.ofColumns a .eq (Value.entity key).dereference columns = .ok y := by
  have hat : ∀ {id : Nat} {name : String}, t.resolveFrom rootId r.name = (.ok (id, name), t) →
      id = rootId ∧ name = r.name := by
    intro id name hfound
    rw [resolveFrom_segment hname] at hfound
    simpa [eq_comm] using hfound
  cases h with
  | hooked read found hooked returned inner =>
    obtain ⟨rfl, rfl⟩ := hat found
    rw [hplain] at hooked
    cases hooked
  | compare read found plain about made =>
    obtain ⟨rfl, rfl⟩ := hat found
    rw [Operator.parse_equals] at read
    obtain rfl := Except.ok.inj read
    exact ⟨_, _, _, ht.compares_of_columnsOf hname hr about, rfl, made⟩

end JoinTree

namespace Relation

def PointsAtOwner (r : Relation) (db : Database E) : Prop :=
  r.kind = .belongsTo → ∀ x ∈ db r.current.table, x r.current.column = none ∨
    ∃ y ∈ db r.linked.table, E.meets (y r.linked.column) (x r.current.column) = true

/-- The comparison with a record is one with its key: what belongs to it points at its key, and a
relation to many rows leads to keys of one column. -/
def TellsKey (r : Relation) (columns : List String) : Prop :=
  match r.kind with
  | .belongsTo => columns = [r.linked.column]
  | .hasOne => True
  | .hasMany => ∃ column, columns = [column]
  | .manyMany _ => ∃ column, columns = [column]

theorem TellsKey.of_belongsTo {r : Relation} {columns : List String} (h : r.TellsKey columns)
    (hkind : r.kind = .belongsTo) : columns = [r.linked.column] := by
  simpa [TellsKey, hkind] using h

theorem TellsKey.of_isToMany {r : Relation} {columns : List String} (h : r.TellsKey columns)
    (hmany : r.isToMany = true) : ∃ column, columns = [column] := by
  rcases kind_of_isToMany hmany with hkind | ⟨through, hkind⟩
  · simpa [TellsKey, hkind] using h
  · simpa [TellsKey, hkind] using h

theorem hasKey_single {y : Tuple E} {column : String} {key : List Value} :
    HasKey y [column] key ↔ ∃ v, key = [v] ∧ E.meets (y column) (E.denote v) = true := by
  rw [HasKey, List.forall₂_cons_left_iff]
  constructor
  · rintro ⟨v, rest, hv, hnil, rfl⟩
    cases hnil
    exact ⟨v, rfl, hv⟩
  · rintro ⟨v, rfl, hv⟩
    exact ⟨v, [], hv, .nil, rfl⟩

theorem not_hasKey_nullRow {column : String} {columns : List String} {key : List Value} :
    ¬ HasKey (E := E) nullRow (column :: columns) key := by
  intro h
  obtain ⟨v, rest, hv, -, -⟩ := List.forall₂_cons_left_iff.1 h
  obtain ⟨b, hb, -⟩ := E.meets_iff.1 hv
  cases hb

variable {r : Relation} {x : Tuple E} {key : List Value}

theorem hasKey_own (hkind : r.kind = .belongsTo) (hpoints : r.PointsAtOwner db)
    (hx : x ∈ db r.current.table) : HasKey x [r.current.column] key ↔
      ∃ y ∈ r.linkedRows db x, HasKey y [r.linked.column] key := by
  have hdirect : ∀ through, r.kind ≠ .manyMany through := by simp [hkind]
  simp only [hasKey_single, mem_linkedRows_direct hdirect, E.meets_iff]
  constructor
  · rintro ⟨v, rfl, c, hc, hv⟩
    rcases hpoints hkind x hx with hnone | ⟨y, hy, hmeets⟩
    · simp [hnone] at hc
    · obtain ⟨d, hd, hd'⟩ := E.meets_iff.1 hmeets
      obtain rfl : c = d := by simpa [hc] using hd'
      exact ⟨y, ⟨hy, c, hd, hc⟩, v, rfl, c, hd, hv⟩
  · rintro ⟨y, ⟨hy, c, hc, hx⟩, v, rfl, d, hd, hv⟩
    obtain rfl : c = d := by simpa [hc] using hd
    exact ⟨v, rfl, c, hx, hv⟩

end Relation

namespace JoinTree

variable {t : JoinTree} {s : Schema} {r : Relation} {x : Tuple E} {id : Nat} {a : String}
  {columns : List String} {key : List Value} {y : Condition}

theorem Compares.length_eq (h : t.Compares r a columns) (hs : t.schema = some s) {m : Model}
    (hm : s.model? r.linked.model = some m) (htells : r.TellsKey m.table.primaryKeyColumns) :
    columns.length = m.table.primaryKeyColumns.length := by
  cases h with
  | own kind => rw [htells.of_belongsTo kind, List.length_singleton, List.length_singleton]
  | linked kind edge lt => rw [edge.table_eq hs hm]

/-- The row that a relation to one row leads to is there if it has a key. -/
theorem Grounded.hasKey_follow (g : t.Grounded s db) (e : t.Edge rootId id r)
    (hone : r.isToMany = false) (hx : x ∈ db (t.table rootId).name) (hne : columns ≠ []) :
    HasKey (r.follow db x) columns key ↔ ∃ z ∈ r.linkedRows db x, HasKey z columns key := by
  obtain ⟨column, rest, rfl⟩ := List.exists_cons_of_ne_nil hne
  constructor
  · intro h
    cases hrows : r.linkedRows db x with
    | nil =>
      rw [Relation.follow, hrows] at h
      exact absurd h Relation.not_hasKey_nullRow
    | cons z zs =>
      rw [Relation.follow, hrows] at h
      exact ⟨z, List.mem_cons_self, h⟩
  · rintro ⟨z, hz, h⟩
    rwa [← g.eq_follow e hone (.inl hx) hz]

theorem Grounded.holds_own (g : t.Grounded s db) (hx : x ∈ db (t.table rootId).name)
    (hr : (t.model? rootId).bind (·.relation? r.name) = some r) (hkind : r.kind = .belongsTo)
    (hpoints : r.PointsAtOwner db) (hkey : Value.IsKey key)
    (hlen : key.length = [r.current.column].length)
    (hmade : Condition.ofColumns rootAlias .eq (Value.entity key).dereference [r.current.column] =
      .ok y) :
    t.Holds db scalar rootId (t.extend db (fun _ => nullRow) rootId x) [y] ↔
      ∃ z ∈ r.linkedRows db x, HasKey z [r.linked.column] key := by
  have hroot : t.idOfAlias? rootAlias = some rootId := by
    rw [← g.wellFormed.rootAliased]
    exact g.wellFormed.idOfAlias?_alias g.schema g.names.undotted g.wellFormed.nonempty
  have hcurrent : r.current.table = (t.table rootId).name := by
    obtain ⟨n, hn, hfound⟩ := Option.bind_eq_some_iff.1 hr
    rw [g.closed.current n (mem_of_model? g.schema hn) r (List.mem_of_find?_eq_some hfound),
      table, hn]
    rfl
  rw [holds_key hroot (JoinedFrom.self t rootId).anchor?_eq hlen hkey hmade, extend_self]
  exact Relation.hasKey_own hkind hpoints (hcurrent ▸ hx)

/-- Compared by the key of the rows that its relation leads to, which is one column if these can be
many, the root holds of the rows linked to the record. -/
theorem Grounded.holds_linked (g : t.Grounded s db) (hx : x ∈ db (t.table rootId).name)
    (e : t.Edge rootId id r) (hlt : id < t.size)
    (hsingle : r.isToMany = true → ∃ column, columns = [column]) (hkey : Value.IsKey key)
    (hlen : key.length = columns.length)
    (hmade : Condition.ofColumns (t.node id).tableAlias .eq (Value.entity key).dereference columns =
      .ok y) :
    t.Holds db scalar rootId (t.extend db (fun _ => nullRow) rootId x) [y] ↔
      ∃ z ∈ r.linkedRows db x, HasKey z columns key := by
  have hat := g.wellFormed.idOfAlias?_alias g.schema g.names.undotted hlt
  by_cases hmany : r.isToMany = true
  · obtain ⟨column, rfl⟩ := hsingle hmany
    obtain ⟨v, rfl⟩ := List.length_eq_one_iff.1 hlen
    have htest := Condition.ofScalar_of_key (t.node id).tableAlias column
      (hkey v List.mem_cons_self)
    rw [Except.ok.inj (hmade.symm.trans htest), holds_key_far e hmany hat, extend_self]
    simp [Relation.hasKey_single]
  · have hone : r.isToMany = false := by simpa using hmany
    have hne : columns ≠ [] := by
      rintro rfl
      obtain rfl := List.length_eq_zero_iff.1 hlen
      cases hmade
    have hjoined := joinedFrom_of_edge e hone
    rw [holds_key hat hjoined.anchor?_eq hlen hkey hmade,
      extend_child hjoined (Nat.ne_of_gt e.lt) e, extend_self]
    exact g.hasKey_follow e hone hx hne

theorem Grounded.holds_record (g : t.Grounded s db) (hx : x ∈ db (t.table rootId).name)
    (hr : (t.model? rootId).bind (·.relation? r.name) = some r) {m : Model}
    (hlinked : s.model? r.linked.model = some m) (hpoints : r.PointsAtOwner db)
    (htells : r.TellsKey m.table.primaryKeyColumns) (hkey : Value.IsKey key)
    (hlen : key.length = m.table.primaryKeyColumns.length) (hcompares : t.Compares r a columns)
    (hmade : Condition.ofColumns a .eq (Value.entity key).dereference columns = .ok y) :
    t.Holds db scalar rootId (t.extend db (fun _ => nullRow) rootId x) [y] ↔
      ∃ z ∈ r.linkedRows db x, HasKey z m.table.primaryKeyColumns key := by
  cases hcompares with
  | own kind =>
    rw [htells.of_belongsTo kind] at hlen ⊢
    exact g.holds_own hx hr kind hpoints hkey hlen hmade
  | linked kind edge lt =>
    rw [edge.table_eq g.schema hlinked] at hmade
    exact g.holds_linked hx edge lt htells.of_isToMany hkey hlen hmade

end JoinTree

namespace Emails

def decls : List ModelDecl :=
  [{ name := "Author", table := "authors", attributes := ["id", "email"] },
    { name := "Article", table := "articles", attributes := ["id", "title", "authorId"]
      relations := [{ name := "author", form := .belongsTo, target := "Author"
                      references := some "email", inverse := some "articles" }] }]

def author : Relation :=
  { name := "author", kind := .belongsTo
    current := ⟨"Article", "articles", "authorId", "author_id"⟩
    linked := ⟨"Author", "authors", "email", "email"⟩ }

def articles : Relation :=
  author.reverse.renamed "articles"

def authors : Model where
  name := "Author"
  table := (Table.named "authors").withColumns ["id", "email"]
  relations := [articles]
  hooks := []

def posts : Model where
  name := "Article"
  table := ((Table.named "articles").withColumns ["id", "title"]).withColumn "authorId" "author_id"
  relations := [author]
  hooks := []

def schema : Schema :=
  { models := [authors, posts], settings := {} }

def writer : Tuple Engine.textual :=
  fun column => [("id", "12"), ("email", "'A'")].lookup column

def post : Tuple Engine.textual :=
  fun column => [("id", "2"), ("title", "'B'"), ("author_id", "'A'")].lookup column

def tables : Database Engine.textual :=
  fun name => match name with
    | "authors" => [writer]
    | "articles" => [post]
    | _ => []

theorem forall_relation {P : Relation → Prop} (hauthor : P author) (harticles : P articles) :
    ∀ m ∈ schema.models, ∀ r ∈ m.relations, P r := by
  simp [schema, authors, posts, hauthor, harticles]

theorem governs : schema.Governs tables where
  resolves := ⟨{}, decls, by with_unfolding_all rfl⟩
  plain := forall_relation ⟨by decide, by decide, by decide, by decide⟩
    ⟨by decide, by decide, by decide, by decide⟩
  hooks := Schema.hooksAvoidSelects_of_nil (by simp [schema, authors, posts])
  describes :=
    { one := by
        refine forall_relation (fun _ x _ y hy y' hy' => ?_) fun hone => by cases hone
        have hwriter : ∀ z ∈ author.linkedRows tables x, z = writer :=
          fun z hz => List.mem_singleton.1 (List.mem_filter.1 hz).1
        rw [hwriter y hy, hwriter y' hy']
      points := forall_relation (fun _ hkind => by cases hkind) fun _ hkind => by cases hkind }

def start : JoinTree :=
  ⟨some schema, posts.table, [Node.root (some "Article")]⟩

def named : Condition :=
  .ofColumn rootAlias "author_id" .eq (.int 12)

theorem resolves :
    start.Resolves rootId (.compare .and "author" "=" (.entity [.int 12])) named := by
  have hfound : start.resolveFrom rootId "author" = (.ok (rootId, "author"), start) :=
    resolveFrom_segment ⟨by decide, by decide +kernel, by decide⟩ start rootId
  exact Resolves.equals hfound rfl rfl rfl rfl

theorem anchorAt?_named : start.anchorAt? rootId named = none := by
  have howner : start.owner? named = some rootId := rfl
  rw [anchorAt?_of_owner howner, (JoinedFrom.self start rootId).anchor?_eq]

theorem pointsAtOwner (r : Relation) (h : r = author ∨ r = articles) :
    r.PointsAtOwner tables := by
  rcases h with rfl | rfl
  · intro _ x hx
    obtain rfl := List.mem_singleton.1 hx
    exact .inr ⟨writer, List.mem_cons_self, by decide +kernel⟩
  · intro hkind
    cases hkind

end Emails

namespace BuiltOf

variable {s : Schema} {name : String} {m m' : Model} {r : Relation} {key : List Value}
  {st : Statement} {x : Tuple E}

/-- Asked for the rows that a relation links to a record, a statement selects the rows linked to the
row with the record's key, if the comparison with the record is one with its key. -/
theorem selects_linked_to_record (scalar : Database.Scalar E) (g : s.Governs db)
    (hm : s.model? name = some m) (hr : m.relation? r.name = some r)
    (hm' : s.model? r.linked.model = some m') (hname : SegmentName r.name)
    (hplain : m.hook? r.name = none) (hpoints : r.PointsAtOwner db)
    (htells : r.TellsKey m'.table.primaryKeyColumns) (hkey : Value.IsKey key)
    (hlen : key.length = m'.table.primaryKey.length)
    (h : BuiltOf s name [.compare .and r.name "=" (.entity key)] st)
    (hx : x ∈ db m.table.name) :
    st.Selects db scalar x ↔
      ∃ y ∈ r.linkedRows db x, HasKey y m'.table.primaryKeyColumns key := by
  obtain ⟨start, u, ys, hstart, hu, hys⟩ := h.exists_tree
  have gu := g.grounded hstart hu
  obtain ⟨hroot, htable⟩ := root_of_ofModel hm hstart
  have hsize : rootId < start.size := (wellFormed_ofModel hstart).nonempty
  have hmodel : u.model? rootId = some m := by rw [hu.grown.model? rootId hsize, hroot]
  have hx' : x ∈ db (u.table rootId).name := by rwa [hu.table_eq hsize, htable]
  obtain ⟨y, ⟨⟩, hy⟩ : ∃ y, ys = [y] ∧
      u.Resolves rootId (.compare .and r.name "=" (.entity key)) y := by
    cases hys with
    | cons head tail =>
      cases tail
      exact ⟨_, rfl, head⟩
  have hrelation : (u.model? rootId).bind (·.relation? r.name) = some r := by
    rw [hmodel, Option.bind_some, hr]
  have hhook : (u.model? rootId).bind (·.hook? r.name) = none := by
    rw [hmodel, Option.bind_some, hplain]
  obtain ⟨a, columns, z, hcompares, rfl, hmade⟩ := hy.record gu.wellFormed hname hrelation hhook
  have hlen : key.length = m'.table.primaryKeyColumns.length := by
    rw [hlen, Table.primaryKeyColumns, List.length_map]
  have hwidth := hlen.trans (hcompares.length_eq gu.schema hm' htells).symm
  have hkept : st.LosesNoRow E := by
    refine h.losesNoRow g.plain.undotted hstart hu hys fun y hy => ?_
    rw [List.mem_singleton.1 hy]
    rcases Condition.ofColumns_of_key a hwidth hkey hmade with ⟨column, v, -, -, rfl⟩ | rfl
    · exact id
    · exact id
  rw [h.selects_iff g rfl hkept hstart (by rwa [htable]) hu hys, holds_single_withConnective]
  exact gu.holds_record hx' hrelation hm' hpoints htells hkey hlen hcompares hmade

/-- The authors linked to an article by their email, compared by the key of the article. -/
theorem selects_linked_to_record_of_article :
    let f := Filter.empty.eq "articles" (.entity [.int 2])
    let r : Request :=
      { target := .model Emails.schema "Author", kind := .select, options := { filter := f } }
    Emails.schema.Governs Emails.tables ∧ SegmentName Emails.articles.name ∧
      Emails.articles.PointsAtOwner Emails.tables ∧
      Emails.articles.TellsKey Emails.posts.table.primaryKeyColumns ∧ Value.IsKey [.int 2] ∧
      Emails.writer ∈ Emails.tables Emails.authors.table.name ∧
      ∃ st, r.build 1 = .ok st ∧ (st.Selects Emails.tables (fun _ _ _ => none) Emails.writer ↔
        ∃ y ∈ Emails.articles.linkedRows Emails.tables Emails.writer,
          HasKey y Emails.posts.table.primaryKeyColumns [.int 2]) := by
  intro f r
  have hopens : r.opens 1 = true := by decide +kernel
  obtain ⟨st, hst⟩ := Request.exists_build rfl hopens
  have hbuilt : BuiltOf Emails.schema "Author" f.criteria st := .of_select hst
  have hname : SegmentName Emails.articles.name :=
    ⟨by decide, by decide +kernel, by decide⟩
  have hpoints := Emails.pointsAtOwner Emails.articles (.inr rfl)
  have htells : Emails.articles.TellsKey Emails.posts.table.primaryKeyColumns := ⟨"id", rfl⟩
  have hkey : Value.IsKey [.int 2] := by simp [Value.IsKey, Value.isScalar, Value.isNull]
  have hx : Emails.writer ∈ Emails.tables Emails.authors.table.name := List.mem_cons_self
  exact ⟨Emails.governs, hname, hpoints, htells, hkey, hx, st, hst,
    selects_linked_to_record (fun _ _ _ => none) Emails.governs rfl rfl rfl hname rfl hpoints htells
      hkey rfl hbuilt hx⟩

/-- An article names its author by email. Asked for the articles of the author with the number 12,
the statement looks for an author of the email 12 and misses the article. -/
theorem record_behind_email_missed :
    let f := Filter.empty.eq "author" (.entity [.int 12])
    let r : Request :=
      { target := .model Emails.schema "Article", kind := .select, options := { filter := f } }
    Emails.schema.Governs Emails.tables ∧ Emails.author.PointsAtOwner Emails.tables ∧
      Emails.post ∈ Emails.tables Emails.posts.table.name ∧
      (∃ y ∈ Emails.author.linkedRows Emails.tables Emails.post,
        HasKey y Emails.authors.table.primaryKeyColumns [.int 12]) ∧
      ∃ st, r.build 1 = .ok st ∧
        ¬ st.Selects Emails.tables (fun _ _ _ => none) Emails.post := by
  intro f r
  have hopens : r.opens 1 = true := by decide +kernel
  obtain ⟨st, hst⟩ := Request.exists_build rfl hopens
  have hbuilt : BuiltOf Emails.schema "Article" f.criteria st := .of_select hst
  have hlinked : ∃ y ∈ Emails.author.linkedRows Emails.tables Emails.post,
      HasKey y Emails.authors.table.primaryKeyColumns [.int 12] :=
    ⟨Emails.writer, List.mem_filter.2 ⟨List.mem_cons_self, by decide +kernel⟩,
      Relation.hasKey_single.2 ⟨_, rfl, by decide +kernel⟩⟩
  have hstart : JoinTree.ofModel Emails.schema "Article" = .ok Emails.start := rfl
  have halias : Emails.start.idOfAlias? rootAlias = some rootId := rfl
  have hys := ResolvesAll.cons Emails.resolves .nil
  have hkept : st.LosesNoRow Engine.textual := by
    refine hbuilt.losesNoRow Emails.governs.plain.undotted hstart .start hys fun y hy => ?_
    rw [List.mem_singleton.1 hy]
    exact id
  refine ⟨Emails.governs, Emails.pointsAtOwner _ (.inl rfl), List.mem_cons_self, hlinked, st, hst,
    ?_⟩
  rw [hbuilt.selects_iff Emails.governs rfl hkept hstart List.mem_cons_self .start hys,
    holds_single, runHolds_near rfl Emails.anchorAt?_named, Emails.named,
    leafHolds_ofColumn halias, extend_self]
  decide +kernel

end BuiltOf

end PathQuery
