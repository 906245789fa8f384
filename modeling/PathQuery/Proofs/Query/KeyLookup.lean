import PathQuery.Proofs.Filter.Direct
import PathQuery.Proofs.Query.LifeCycle
import PathQuery.Proofs.Request.Built
import PathQuery.Proofs.Sql.WriteGuard

/-!
Records looked up by their key. A key with another number of parts than the table's is refused
before anything is built. Otherwise each part is compared with its column the way any filter
compares an attribute: a hook may put other conditions in the place of the comparison, several
values in the place of one are a test of membership, and a fragment of SQL stands as it is.
-/

set_option autoImplicit false

namespace PathQuery

def Value.parts : Value → List Value
  | .list items => items
  | .entity items => items
  | v => [v]

namespace Schema

variable {n : Nat} {key : Value}

/-- A key is taken apart, except for a list given for a key of one part. -/
theorem keyParts_eq_parts (hn : n ≠ 0) (hlist : ¬ (n = 1 ∧ key.isList = true)) :
    keyParts n key = key.parts := by
  cases key with
  | list items =>
    have hone : n ≠ 1 := fun hone => hlist ⟨hone, rfl⟩
    exact if_pos (by omega)
  | entity items => exact if_pos (Nat.pos_of_ne_zero hn)
  | _ => rfl

theorem map_compared_keyParts (hn : n ≠ 0) (hwidth : key.parts.length = n) :
    (keyParts n key).map Value.compared = key.parts.map Value.compared := by
  by_cases hlist : n = 1 ∧ key.isList = true
  · obtain ⟨rfl, hlist⟩ := hlist
    cases key with
    | list items =>
      obtain ⟨v, rfl⟩ := List.length_eq_one_iff.1 hwidth
      exact congrArg (fun w => [w]) (Value.compared_singleton v)
    | _ => cases hlist
  · rw [keyParts_eq_parts hn hlist]

theorem length_keyParts (h : n = 0 ∨ key.parts.length ≠ n ∧ ¬ (n = 1 ∧ key.isList = true)) :
    (keyParts n key).length ≠ n ∧
      (keyParts n key).length = if n = 0 then 1 else key.parts.length := by
  by_cases hn : n = 0
  · subst hn
    have hsingle : keyParts 0 key = [key] := by cases key <;> rfl
    simp [hsingle]
  · obtain ⟨hwidth, hlist⟩ := h.resolve_left hn
    rw [keyParts_eq_parts hn hlist, if_neg hn]
    exact ⟨hwidth, rfl⟩

end Schema

namespace Table

def keyTests (t : Table) (values : List Value) : List Condition :=
  (t.primaryKey.zip values).map fun p => Condition.ofKeyValue (t.columnOf p.1) p.2

def keyStatement (t : Table) (values : List Value) : Statement where
  kind := .select
  source := some (.table t.name rootAlias)
  columns := t.columns.map fun (name, column) => .column (.root column) (some name)
  limit := some 1
  conditions := t.keyTests values

def keyFilter (t : Table) (parts : List Value) : Filter :=
  { criteria := (t.primaryKey.zip parts).map fun p => .compare .and p.1 "=" p.2 }

variable {t : Table} {values : List Value} {x : Condition}

theorem mem_keyTests (h : x ∈ t.keyTests values) :
    ∃ column, ∃ v ∈ values, x = .ofKeyValue column v := by
  obtain ⟨p, hp, rfl⟩ := List.mem_map.1 h
  exact ⟨_, p.2, (List.of_mem_zip hp).2, rfl⟩

theorem exists_compare (h : x ∈ t.keyTests values) :
    ∃ column op v, x = .compare .and rootAlias [column] op v := by
  obtain ⟨column, v, -, rfl⟩ := mem_keyTests h
  obtain ⟨op, w, heq, -⟩ := Condition.isKeyTest_ofKeyValue column v
  exact ⟨column, op, w, heq⟩

theorem isKeyTest_keyTests (hwidth : values.length = t.primaryKey.length) :
    List.Forall₂ Condition.IsKeyTest t.primaryKeyColumns (t.keyTests values) := by
  have hnames : t.primaryKeyColumns = (t.primaryKey.zip values).map fun p => t.columnOf p.1 := by
    rw [← Function.comp_def, ← List.map_map, List.map_fst_zip hwidth.ge, primaryKeyColumns]
  rw [hnames, keyTests, List.forall₂_map_left_iff, List.forall₂_map_right_iff, List.forall₂_same]
  exact fun p _ => Condition.isKeyTest_ofKeyValue _ _

theorem exists_compile_keyStatement (t : Table) (hvalues : ∀ v ∈ values, v.isList = false) :
    ∃ c, (t.keyStatement values).compile (.of (t.keyStatement values)) = .ok c ∧
      Sql.isSafe c.sql = true := by
  have htests : ∀ x ∈ (t.keyStatement values).conditions,
      x.Throughout (Condition.Sound False) := by
    intro x hx
    obtain ⟨column, v, hv, rfl⟩ := mem_keyTests hx
    exact Condition.throughout_ofKeyValue column (hvalues v hv)
  have hrows : (t.keyStatement values).Complete := fun a h => by cases h
  obtain ⟨c, hc⟩ := Statement.exists_compile hrows htests (.of (t.keyStatement values))
  obtain ⟨ps, hps, rfl⟩ := map_eq_ok_iff.1 hc
  refine ⟨⟨ps⟩, hc, ?_⟩
  rw [Sql.isSafe, Compiled.sql, String.toList_ofList]
  exact Sql.isSafeText_select hps

end Table

namespace Request

open JoinTree

variable {s : Schema} {name : String} {m : Model} {t : JoinTree} {parts : List Value}

def ofKey (s : Schema) (name : String) (t : Table) (parts : List Value) : Request where
  target := .model s name
  kind := .select
  options := { filter := t.keyFilter parts, limit := some 1 }

/-- The filter of a look-up resolves at any depth, since it asks for no hook. -/
theorem resolve_keyFilter (depth : Nat) (hm : t.model? rootId = some m)
    (hroot : (t.node rootId).tableAlias = rootAlias)
    (hd : ∀ field ∈ m.table.primaryKey, m.Direct field)
    (hparts : ∀ v ∈ parts, v.compared.isList = false) :
    ∃ u, SameShape t u ∧ (m.table.keyFilter parts).resolve depth rootId t =
      .ok (m.table.keyTests (parts.map Value.compared), u) := by
  have hpairs : ∀ p ∈ m.table.primaryKey.zip parts, m.Direct p.1 ∧ p.2.compared.isList = false :=
    fun p hp => ⟨hd p.1 (List.of_mem_zip hp).1, hparts p.2 (List.of_mem_zip hp).2⟩
  rw [Table.keyTests, List.zip_map_right, List.map_map]
  cases depth with
  | zero => exact Filter.resolveAll_direct _ _ hm hroot hpairs
  | succ depth => exact Filter.resolveAll_direct _ _ hm hroot hpairs

theorem settle_keyTests (table : Table) (values : List Value)
    (halias : t.idOfAlias? rootAlias = some rootId) :
    t.settle rootId (table.keyTests values) =
      .ok ⟨table.keyTests values, (table.keyTests values).map fun _ => rootId⟩ := by
  refine settle_joined (c := .and) (fun x hx => ?_) (JoinedFrom.self t rootId).anchor?_eq
    fun x hx => ?_
  · obtain ⟨column, op, v, rfl⟩ := Table.exists_compare (List.mem_of_mem_drop hx)
    rfl
  · obtain ⟨column, op, v, rfl⟩ := Table.exists_compare hx
    exact ⟨rfl, halias, rfl⟩

theorem build_ofKey (depth : Nat) (hm : s.model? name = some m)
    (hd : ∀ field ∈ m.table.primaryKey, m.Direct field)
    (hparts : ∀ v ∈ parts, v.compared.isList = false) :
    (ofKey s name m.table parts).build depth =
      .ok (m.table.keyStatement (parts.map Value.compared)) := by
  obtain ⟨start, hstart⟩ : ∃ start, JoinTree.ofModel s name = .ok start :=
    ⟨_, by rw [JoinTree.ofModel, Schema.model_eq_ok_iff.2 hm]; rfl⟩
  have halias : start.idOfAlias? rootAlias = some rootId := by
    obtain ⟨m', -, rfl⟩ := ofModel_eq_ok hstart
    rfl
  obtain ⟨hmodel, htable⟩ := root_of_ofModel hm hstart
  obtain ⟨t, ht, hresolved⟩ :=
    resolve_keyFilter depth hmodel (wellFormed_ofModel hstart).rootAliased hd hparts
  have hmarked := ht.trans
    (sameShape_requireAll t (t.requiredBy (m.table.keyTests (parts.map Value.compared))))
  have hsettle := settle_keyTests m.table (parts.map Value.compared)
    ((hmarked.idOfAlias? rootAlias).trans halias)
  have hbuild := build_of_rooted (r := ofKey s name m.table parts) rfl hstart rfl
    ⟨rfl, rfl, rfl, rfl, rfl⟩ rfl rfl ht hresolved hsettle
  rwa [htable] at hbuild

end Request

namespace Query

variable {σ : Type} {conn : Connection σ} {depth : Nat} {request : Request} {st : Statement}
  {c : Compiled}

theorem compile_fresh (log : StatementLog) (hbuild : request.build depth = .ok st)
    (hwrite : st.compile (.of st) = .ok c) :
    Query.compile depth { request, log } =
      (.ok c,
        { request, log, stage := .compiled, statement? := some st, compiled? := some c }) := by
  have hassemble : Query.assemble depth { request, log } =
      (.ok st, { request, log, stage := .assembled, statement? := some st }) := by
    simp [assemble, restart, hbuild]
  simp only [compile, restart, reduceCtorEq, if_false, hassemble, hwrite]

/-- A query that nothing was done with yet gives the connection its statement, once. -/
theorem connection_run_fresh (log : StatementLog) (hbuild : request.build depth = .ok st)
    (hwrite : st.compile (.of st) = .ok c) (hsafe : Sql.isSafe c.sql = true) (state : σ) :
    (run conn depth state { request, log }).connection =
      (conn.execute state c.sql c.flatParams).2 := by
  simp only [run, compile_fresh log hbuild hwrite, hsafe, Bool.not_true, Bool.false_eq_true,
    if_false]
  obtain ⟨answer, state'⟩ := conn.execute state c.sql c.flatParams
  cases answer <;> rfl

end Query

namespace Schema

variable {s : Schema} {name : String} {m : Model} {key : Value} {log : StatementLog}

theorem foldl_eq (pairs : List (String × Value)) (criteria : List Criterion) :
    pairs.foldl (fun (f : Filter) (p : String × Value) => f.eq p.1 p.2) ⟨criteria, .and⟩ =
      ⟨criteria ++ pairs.map fun p => .compare .and p.1 "=" p.2, .and⟩ := by
  induction pairs generalizing criteria with
  | nil => simp
  | cons p rest ih =>
    rw [List.foldl_cons, List.map_cons, List.append_cons]
    exact ih _

theorem extend_keyFilter (t : Table) (parts : List Value) :
    Filter.empty.extend (t.keyFilter parts) = t.keyFilter parts := by
  unfold Table.keyFilter
  cases t.primaryKey.zip parts <;> rfl

theorem keyQuery_of_width (hm : s.model? name = some m)
    (hwidth : (keyParts m.table.primaryKey.length key).length = m.table.primaryKey.length)
    (hlog : StatementLog.ofSettings s.settings.log = .ok log) :
    s.keyQuery name key =
      .ok { request := .ofKey s name m.table (keyParts m.table.primaryKey.length key), log } := by
  have hquery : Query.ofModel s name .select =
      .ok { request := { target := .model s name, kind := .select }, log } := by
    rw [Query.ofModel, Request.ofModel, model_eq_ok_iff.2 hm, hlog]
    rfl
  refine bind_eq_ok_iff.2 ⟨m.table, table_of_model? hm, ?_⟩
  dsimp only
  rw [if_neg (not_not.2 hwidth), hquery]
  generalize keyParts m.table.primaryKey.length key = parts
  have hfilter : Filter.empty.extend ((m.table.primaryKey.zip parts).foldl
      (fun (f : Filter) (p : String × Value) => f.eq p.1 p.2) Filter.empty) =
        m.table.keyFilter parts :=
    (congrArg Filter.empty.extend (foldl_eq _ [])).trans (extend_keyFilter m.table parts)
  rw [Request.ofKey, ← hfilter]
  rfl

theorem keyQuery_of_other_width (hm : s.model? name = some m)
    (hwidth : (keyParts m.table.primaryKey.length key).length ≠ m.table.primaryKey.length) :
    s.keyQuery name key = .error (.malformed .key (.keyWidth m.table.name m.table.primaryKey.length
      (keyParts m.table.primaryKey.length key).length)) := by
  rw [keyQuery, table_of_model? hm]
  refine bind_eq_error_iff.2 (.inr ⟨m.table, rfl, ?_⟩)
  dsimp only
  rw [if_pos hwidth]
  rfl

section Lookup

variable {σ : Type} (conn : Connection σ) (depth : Nat) (state : σ)

theorem connection_findByKey {request : Request} {st : Statement} {c : Compiled}
    (hm : s.model? name = some m) (hquery : s.keyQuery name key = .ok { request, log })
    (hbuild : request.build depth = .ok st) (hwrite : st.compile (.of st) = .ok c)
    (hsafe : Sql.isSafe c.sql = true) :
    (s.findByKey conn depth state name key).2.1 = (conn.execute state c.sql c.flatParams).2 := by
  rw [findByKey, table_of_model? hm, hquery]
  exact Query.connection_run_fresh log hbuild hwrite hsafe state

theorem findByKey_of_other_width (hm : s.model? name = some m)
    (hwidth : (keyParts m.table.primaryKey.length key).length ≠ m.table.primaryKey.length) :
    s.findByKey conn depth state name key =
      (.error (.error (.malformed .key (.keyWidth m.table.name m.table.primaryKey.length
        (keyParts m.table.primaryKey.length key).length))), state, []) := by
  rw [findByKey, table_of_model? hm, keyQuery_of_other_width hm hwidth]

end Lookup

end Schema

namespace Named

open JoinTree

/-- Asked for its number, a tag answers by its name. The mark of a tag on an article has the numbers
of both. -/
def decls : List ModelDecl :=
  [{ name := "Tag", table := "tags", attributes := ["id", "name"]
     hooks := [("id", fun _ v => .ok (Filter.empty.eq "name" v))] },
    { name := "ArticleTag", table := "article_tags", attributes := ["articleId", "tagId"]
      primaryKey := some ["articleId", "tagId"] }]

def tags : Model where
  name := "Tag"
  table := (Table.named "tags").withColumns ["id", "name"]
  relations := []
  hooks := [("id", fun _ v => .ok (Filter.empty.eq "name" v))]

def articleTags : Model where
  name := "ArticleTag"
  table := (((Table.named "article_tags").withPrimaryKey ["articleId", "tagId"]).withColumn
    "articleId" "article_id").withColumn "tagId" "tag_id"
  relations := []
  hooks := []

def schema : Schema :=
  { models := [tags, articleTags], settings := {} }

theorem resolves : Schema.resolve {} decls = .ok schema := by
  with_unfolding_all rfl

theorem direct_articleTags : ∀ field ∈ articleTags.table.primaryKey, articleTags.Direct field :=
  List.forall_mem_cons.2 ⟨⟨⟨by decide, by decide +kernel, by decide⟩, rfl, fun _ h => by cases h⟩,
    List.forall_mem_singleton.2
      ⟨⟨by decide, by decide +kernel, by decide⟩, rfl, fun _ h => by cases h⟩⟩

theorem compared_int (n : Int64) : (Value.int n).compared = .int n := by
  rw [Value.compared, Value.dereference, Value.innermost]
  all_goals simp

def connection : Connection Unit where
  execute _ _ _ := (.ok (.ofRows []), ())
  lastInsertId? _ := none

def test : Condition :=
  .group .and [.ofKeyValue "name" (.int 1)]

def statement : Statement :=
  { tags.table.keyStatement [.int 1] with conditions := [test] }

theorem builds : (Request.ofKey schema "Tag" tags.table [.int 1]).build 1 = .ok statement := by
  let start : JoinTree := ⟨some schema, tags.table, [Node.root (some "Tag")]⟩
  have hm : start.model? rootId = some tags := rfl
  have hname : tags.Direct "name" :=
    ⟨⟨by decide, by decide +kernel, by decide⟩, rfl, fun _ h => by cases h⟩
  have hid : SegmentName "id" := ⟨by decide, by decide +kernel, by decide⟩
  have hvalue : (Value.int 1).compared.isList = false := by
    rw [compared_int]
    rfl
  obtain ⟨u, hu, hinner⟩ := Filter.resolveAll_direct (fun _ _ => throw .endless)
    [("name", .int 1)] hm rfl (List.forall_mem_singleton.2 ⟨hname, hvalue⟩)
  have hcompare : Filter.resolveCompare (Filter.resolve 0) rootId .and "id" "=" (.int 1) start =
      .ok (test, u) := Filter.resolveCompare_hooked hm hid rfl rfl hinner
  have hresolved : (tags.table.keyFilter [.int 1]).resolve 1 rootId start = .ok ([test], u) := by
    change (Filter.resolveCompare (Filter.resolve 0) rootId .and "id" "=" (.int 1) >>= _) start = _
    rw [Building.bind_run hcompare]
    rfl
  have halias := (hu.trans (sameShape_requireAll u (u.requiredBy [test]))).idOfAlias? rootAlias
  have hleaf := settle_singleton (x := .ofKeyValue "name" (.int 1)) rfl halias
    (JoinedFrom.self _ rootId).anchor?_eq rfl
  exact Request.build_of_rooted (r := Request.ofKey schema "Tag" tags.table [.int 1]) rfl rfl rfl
    ⟨rfl, rfl, rfl, rfl, rfl⟩ rfl rfl hu hresolved (settle_group hleaf)

def tag (number : String) : Scene Engine.textual :=
  fun _ column => [("id", number), ("name", "1")].lookup column

theorem lets_test {number : String} (hnumber : number = "1" ∨ number = "2") :
    Database.Lets (fun _ => []) (fun _ _ _ => none) (tag number) test := by
  change Database.eval (fun _ => []) (fun _ _ _ => none) (tag number) test = .holds
  rcases hnumber with rfl | rfl <;> decide +kernel

theorem not_passesOne_test : ¬ test.PassesOne "id" := by
  intro h
  have hsame : ("1" : String) = "2" := h Engine.textual (fun _ => []) (fun _ _ _ => none) (tag "1")
    (tag "2") "1" "2" (lets_test (.inl rfl)) (lets_test (.inr rfl)) rfl rfl
  revert hsame
  decide

end Named

namespace Schema

variable {s : Schema} {name : String} {m : Model}

/-- A look-up refuses a key of another number of parts than the table's, and gives the connection
nothing then. Otherwise, if each part is one value and each attribute of the key is compared by its
own column, it gives the connection one statement: the SELECT with one test for each column of the
key, in key order. Lists that are given for a key of one part are left out, save those of one
value. -/
theorem findByKey_one_full_key {σ : Type} (conn : Connection σ) (depth : Nat) (state : σ)
    (given : List (String × List Value)) (hm : s.model? name = some m) (key : Value) :
    let n := m.table.primaryKey.length
    let st := m.table.keyStatement (key.parts.map Value.compared)
    let found := s.findByKey conn.recorded depth (state, given) name key
    (n = 0 ∨ key.parts.length ≠ n ∧ ¬ (n = 1 ∧ key.isList = true) →
      found = (.error (.error (.malformed .key (.keyWidth m.table.name n
        (if n = 0 then 1 else key.parts.length)))), (state, given), [])) ∧
    (n ≠ 0 → key.parts.length = n → (∀ v ∈ key.parts, v.compared.isList = false) →
      (∀ field ∈ m.table.primaryKey, m.Direct field) →
      ∀ log, StatementLog.ofSettings s.settings.log = .ok log →
        List.Forall₂ Condition.IsKeyTest m.table.primaryKeyColumns st.conditions ∧
        ∃ c, st.compile (.of st) = .ok c ∧ found.2.1.2 = given ++ [(c.sql, c.flatParams)]) := by
  intro n st found
  refine ⟨fun hother => ?_, fun hn hwidth hparts hd log hlog => ⟨?_, ?_⟩⟩
  · obtain ⟨hne, hlength⟩ := length_keyParts hother
    rw [← hlength]
    exact findByKey_of_other_width conn.recorded depth (state, given) hm hne
  · exact Table.isKeyTest_keyTests (by rw [List.length_map, hwidth])
  · have hsame := map_compared_keyParts hn hwidth
    have hwidth' : (keyParts n key).length = n := by
      rw [← List.length_map Value.compared, hsame, List.length_map, hwidth]
    have hvalues : ∀ v ∈ (keyParts n key).map Value.compared, v.isList = false := by
      rw [hsame]
      exact List.forall_mem_map.2 hparts
    have hbuild := Request.build_ofKey depth hm hd (List.forall_mem_map.1 hvalues)
    rw [hsame] at hbuild hvalues
    obtain ⟨c, hc, hsafe⟩ := m.table.exists_compile_keyStatement hvalues
    have hgiven := connection_findByKey conn.recorded depth (state, given) hm
      (keyQuery_of_width hm hwidth' hlog) hbuild hc hsafe
    exact ⟨c, hc, by rw [hgiven]; rfl⟩

theorem findByKey_one_full_key_of_articleTags :
    let look key := Named.schema.findByKey Named.connection.recorded 1 ((), []) "ArticleTag" key
    let st := Named.articleTags.table.keyStatement ([.int 1, .int 2].map Value.compared)
    Schema.resolve {} Named.decls = .ok Named.schema ∧
      look (.list [.int 5]) =
        (.error (.error (.malformed .key (.keyWidth "article_tags" 2 1))), ((), []), []) ∧
      List.Forall₂ Condition.IsKeyTest ["article_id", "tag_id"] st.conditions ∧
      ∃ c, st.compile (.of st) = .ok c ∧
        (look (.list [.int 1, .int 2])).2.1.2 = [(c.sql, c.flatParams)] := by
  intro look st
  have hm : Named.schema.model? "ArticleTag" = some Named.articleTags := rfl
  obtain ⟨hrefused, -⟩ := findByKey_one_full_key Named.connection 1 () [] hm (.list [.int 5])
  obtain ⟨-, hgiven⟩ :=
    findByKey_one_full_key Named.connection 1 () [] hm (.list [.int 1, .int 2])
  have hvalues : ∀ v ∈ [Value.int 1, .int 2], v.compared.isList = false := by
    simp [Named.compared_int, Value.isList]
  exact ⟨Named.resolves, hrefused (.inr ⟨by decide, by decide⟩),
    hgiven (by decide) rfl hvalues Named.direct_articleTags {} rfl⟩

/-- Where the number of a tag has a hook that asks for the name, a look-up by the number gives the
connection a statement that two tags of different numbers pass. -/
theorem hooked_key_passes_several :
    let found := Named.schema.findByKey Named.connection.recorded 1 ((), []) "Tag" (.int 1)
    Schema.resolve {} Named.decls = .ok Named.schema ∧
      Named.tags.table.primaryKeyColumns = ["id"] ∧
      ∃ c, Named.statement.compile (.of Named.statement) = .ok c ∧
        c.sql = "SELECT `id`,`name` FROM `tags` WHERE (`name` = ?) LIMIT 1" ∧
        found.2.1.2 = [(c.sql, c.flatParams)] ∧
        ∃ x ∈ Named.statement.conditions, ¬ x.PassesOne "id" := by
  intro found
  have hm : Named.schema.model? "Tag" = some Named.tags := rfl
  have hwritten : (Named.statement.compile (.of Named.statement)).toOption.map Compiled.sql =
      some "SELECT `id`,`name` FROM `tags` WHERE (`name` = ?) LIMIT 1" := by decide +kernel
  cases hc : Named.statement.compile (.of Named.statement) with
  | error e =>
    rw [hc] at hwritten
    cases hwritten
  | ok c =>
    rw [hc] at hwritten
    have hsql : c.sql = "SELECT `id`,`name` FROM `tags` WHERE (`name` = ?) LIMIT 1" :=
      Option.some.inj hwritten
    have hsafe : Sql.isSafe c.sql = true := by
      rw [hsql]
      decide +kernel
    have hquery : Named.schema.keyQuery "Tag" (.int 1) =
        .ok { request := .ofKey Named.schema "Tag" Named.tags.table [.int 1], log := {} } :=
      keyQuery_of_width hm rfl rfl
    have hgiven := connection_findByKey Named.connection.recorded 1 ((), []) hm hquery
      Named.builds hc hsafe
    exact ⟨Named.resolves, rfl, c, rfl, hsql, congrArg Prod.snd hgiven, Named.test,
      List.mem_singleton.2 rfl, Named.not_passesOne_test⟩

end Schema

end PathQuery
