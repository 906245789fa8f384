import PathQuery.Proofs.Schema.Linked

/-!
A schema that resolves is closed: every relation, declared or inverse, leads from the table of its
model to the table of a model of the schema. What statements take from it, queries never check
again: resolution has accepted every name that reaches SQL.
-/

set_option autoImplicit false

namespace PathQuery

/-- Every relation leads from the table of its model to the table of a model. -/
structure Schema.Closed (s : Schema) : Prop where
  current : ∀ m ∈ s.models, ∀ r ∈ m.relations, r.current.table = m.table.name
  linked : ∀ m ∈ s.models, ∀ r ∈ m.relations,
    ∃ m', s.model? r.linked.model = some m' ∧ r.linked.table = m'.table.name

theorem Schema.ResolvesTo.closed {naming : Naming} {decls : List ModelDecl}
    {tables : List (String × Table)} {s : Schema} (h : s.ResolvesTo naming decls tables) :
    s.Closed where
  current m hm r hr := by
    obtain ⟨table, name, ht, hcurrent⟩ := ((h.linked_of_mem hm).2 r hr).endsIn.current
    obtain ⟨m', hm', -, -, rfl⟩ := h.exists_model ht
    obtain rfl : m = m' := Option.some.inj ((h.model?_name hm).symm.trans hm')
    rw [hcurrent, relationEnd]
  linked m hm r hr := by
    obtain ⟨model, table, name, ht, hlinked⟩ := ((h.linked_of_mem hm).2 r hr).endsIn.linked
    obtain ⟨m', hm', -, -, rfl⟩ := h.exists_model ht
    exact ⟨m', by rw [hlinked, relationEnd, hm'], by rw [hlinked, relationEnd]⟩

theorem Schema.closed_of_resolve {settings : Settings} {decls : List ModelDecl} {s : Schema}
    (h : Schema.resolve settings decls = .ok s) : s.Closed := by
  obtain ⟨tables, htables⟩ := resolvesTo_of_resolve h
  exact htables.closed

/-- The side of a relation that stands at a model: its column is the one mapped to its attribute, or
else follows the naming settings. -/
structure RelationEnd.At (naming : Naming) (model : String) (t : Table)
    (e : RelationEnd) : Prop where
  model : e.model = model
  table : e.table = t.name
  column : e.column = (t.column? e.name).getD (naming.columnFor e.name)

structure Table.Checked (t : Table) : Prop where
  name : IsIdent t.name
  columns : ∀ entry ∈ t.columns, IsIdent entry.2
  primaryKey : ∀ column ∈ t.primaryKeyColumns, IsIdent column

structure Relation.Checked (r : Relation) : Prop where
  current : IsIdent r.current.column
  linked : IsIdent r.linked.column
  through : ∀ j, r.kind = .manyMany j →
    IsIdent j.table ∧ IsIdent j.fromColumn ∧ IsIdent j.toColumn

/-- What queries rely on: each declared model stands for itself, and what is reached from it stands
for a declared model. -/
structure Schema.Sound (naming : Naming) (decls : List ModelDecl) (s : Schema) : Prop where
  names : s.models.map Model.name = decls.map ModelDecl.name
  distinct : (s.models.map Model.name).Nodup
  tables : ∀ m ∈ s.models, m.table.Checked
  relations : ∀ owner name r, s.relation owner name = .ok r → r.name = name ∧ r.Checked ∧
    ∃ current linked, s.table owner = .ok current ∧ s.table r.linked.model = .ok linked ∧
      r.current.At naming owner current ∧ r.linked.At naming r.linked.model linked
  declared : ∀ d ∈ decls, ∀ rd ∈ d.relations,
    ∃ current linked, s.table d.name = .ok current ∧ s.table rd.target = .ok linked ∧
      s.relation d.name rd.name = .ok (relationOf naming d.name rd current linked)

theorem Table.checked_of_sqlNames {t : Table} (h : ∀ name ∈ t.sqlNames, IsIdent name) :
    t.Checked where
  name := h _ (by simp [sqlNames])
  columns entry hentry := h _ (by simp [sqlNames, List.mem_map_of_mem hentry])
  primaryKey column hcolumn := h _ (by simp [sqlNames, hcolumn])

theorem Relation.checked_of_names {r : Relation}
    (h : ∀ name ∈ Schema.relationNames r, IsIdent name) :
    r.Checked where
  current := h _ (by simp [Schema.relationNames])
  linked := h _ (by simp [Schema.relationNames])
  through j hj := by
    refine ⟨h _ ?_, h _ ?_, h _ ?_⟩ <;> simp [Schema.relationNames, hj]

theorem at_relationEnd (naming : Naming) (model : String) (t : Table) (name : String) :
    (Schema.relationEnd naming model t name).At naming model t :=
  ⟨rfl, rfl, rfl⟩

namespace Schema

variable {naming : Naming} {decls : List ModelDecl} {tables : List (String × Table)} {s : Schema}

theorem model_eq_ok_iff {name : String} {m : Model} :
    s.model name = .ok m ↔ s.model? name = some m := by
  unfold model
  split
  · next heq => rw [heq, Except.ok.injEq, Option.some.injEq]
  · next heq => simp [heq]

theorem table_of_model? {name : String} {m : Model} (h : s.model? name = some m) :
    s.table name = .ok m.table := by
  rw [table, model, h]
  rfl

theorem relation_eq_ok {owner name : String} {r : Relation} (h : s.relation owner name = .ok r) :
    ∃ m, s.model? owner = some m ∧ m ∈ s.models ∧ m.name = owner ∧ r ∈ m.relations ∧
      r.name = name := by
  unfold relation model at h
  split at h
  · next m hm =>
    obtain ⟨_, hm', h⟩ := bind_eq_ok_iff.1 h
    obtain rfl := Except.ok.inj hm'
    split at h
    · next r' hr =>
      obtain rfl := pure_eq_ok_iff.1 h
      exact ⟨_, hm, List.mem_of_find?_eq_some hm, by simpa using List.find?_some hm,
        List.mem_of_find?_eq_some hr, by simpa using List.find?_some hr⟩
    · cases h
  · cases h

theorem relation_of_model? {owner name : String} {m : Model} {r : Relation}
    (hm : s.model? owner = some m) (hr : m.relation? name = some r) :
    s.relation owner name = .ok r := by
  refine bind_eq_ok_iff.2 ⟨m, model_eq_ok_iff.2 hm, ?_⟩
  rw [hr]
  rfl

theorem relation_of_mem {owner : String} {m : Model} {r : Relation} (hm : s.model? owner = some m)
    (hdistinct : (m.relations.map Relation.name).Nodup) (hr : r ∈ m.relations) :
    s.relation owner r.name = .ok r :=
  relation_of_model? hm ((find?_key_eq_some_iff hdistinct).2 ⟨hr, rfl⟩)

theorem ResolvesTo.sound (h : s.ResolvesTo naming decls tables) : s.Sound naming decls where
  names := h.names
  distinct := h.names ▸ h.distinct
  tables m hm := by
    obtain ⟨⟨d, -, hd⟩, -⟩ := h.linked_of_mem hm
    exact Table.checked_of_sqlNames (ModelDecl.isIdent_of_resolveTable hd.table)
  relations owner name r hr := by
    obtain ⟨m, hm, hmem, rfl, hr, hname⟩ := relation_eq_ok hr
    have hlinked := (h.linked_of_mem hmem).2 r hr
    obtain ⟨⟨current, a, hcurrent, ha⟩, model, linked, b, hmodel, hb⟩ := hlinked.endsIn
    obtain ⟨m₁, hm₁, -, -, rfl⟩ := h.exists_model hcurrent
    obtain ⟨m₂, hm₂, -, -, rfl⟩ := h.exists_model hmodel
    refine ⟨hname, Relation.checked_of_names hlinked.isIdent, m₁.table, m₂.table,
      table_of_model? hm₁, ?_, ?_, ?_⟩
    · rw [hb]
      exact table_of_model? hm₂
    · rw [ha]
      exact at_relationEnd ..
    · rw [hb]
      exact at_relationEnd ..
  declared d hd rd hrd := by
    obtain ⟨m, hm, hdeclares⟩ := exists_of_mem_left h.models hd
    obtain ⟨r, hr, hname, hresolved⟩ := hdeclares.relations.declared rd hrd
    obtain ⟨current, linked, hcurrent, hlinked, rfl, -⟩ := resolveRelation_eq_ok hresolved
    obtain ⟨m₁, hm₁, -, -, rfl⟩ := h.exists_model hcurrent
    obtain ⟨m₂, hm₂, -, -, rfl⟩ := h.exists_model hlinked
    refine ⟨m₁.table, m₂.table, table_of_model? hm₁, table_of_model? hm₂, ?_⟩
    have hfound := relation_of_mem (h.model?_name hm) hdeclares.relations.distinct hr
    rwa [hdeclares.name, hname] at hfound

/-- Whatever is declared, a schema that resolves is sound. -/
theorem sound_of_resolve {settings : Settings} (h : Schema.resolve settings decls = .ok s) :
    s.Sound settings.naming decls := by
  obtain ⟨tables, htables⟩ := resolvesTo_of_resolve h
  exact htables.sound

end Schema

namespace Tagged

def decls : List ModelDecl :=
  [{ name := "Tag", table := "tags", attributes := ["id"] },
    { name := "Author", table := "authors", attributes := ["id"]
      relations := [{ name := "articles", form := .hasOne, target := "Article" }] },
    { name := "Article", table := "articles", attributes := ["id", "authorId"]
      columns := [("authorId", "writer")]
      relations := [
        { name := "author", form := .belongsTo, target := "Author", inverse := some "articles" },
        { name := "tags", form := .manyMany, target := "Tag", inverse := some "articles" }] }]

def author : RelationEnd := ⟨"Author", "authors", "id", "id"⟩

def writer : RelationEnd := ⟨"Article", "articles", "authorId", "writer"⟩

def tag : RelationEnd := ⟨"Tag", "tags", "id", "id"⟩

def article : RelationEnd := ⟨"Article", "articles", "id", "id"⟩

/-- The tag gets the inverse that the article asks for; the author keeps its own relation. -/
def schema : Schema :=
  { models := [
      { name := "Tag", table := (Table.named "tags").withColumns ["id"], hooks := []
        relations := [{ name := "articles", current := tag, linked := article
                        kind := .manyMany ⟨"articles_tags", "tag_id", "article_id"⟩ }] },
      { name := "Author", table := (Table.named "authors").withColumns ["id"], hooks := []
        relations :=
          [{ name := "articles", kind := .hasOne, current := author, linked := writer }] },
      { name := "Article", hooks := []
        table := ((Table.named "articles").withColumns ["id"]).withColumn "authorId" "writer"
        relations := [
          { name := "author", kind := .belongsTo, current := writer, linked := author },
          { name := "tags", current := article, linked := tag
            kind := .manyMany ⟨"articles_tags", "article_id", "tag_id"⟩ }] }]
    settings := {} }

end Tagged

theorem Schema.sound_of_tagged :
    Schema.resolve {} Tagged.decls = .ok Tagged.schema ∧
      Tagged.schema.Sound ({} : Settings).naming Tagged.decls := by
  have hresolve : Schema.resolve {} Tagged.decls = .ok Tagged.schema := by with_unfolding_all rfl
  exact ⟨hresolve, Schema.sound_of_resolve hresolve⟩

end PathQuery
