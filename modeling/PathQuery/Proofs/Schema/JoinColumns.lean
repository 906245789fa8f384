import PathQuery.Proofs.Relation.LinkedRows
import PathQuery.Proofs.Schema.Order

/-!
The two columns of a join table. They come from independent defaults, from the declaration, or from
the other side of an inverse, and nothing compares them: whether they differ is decided by the
declaration that a relation comes from. Where they are one column, a row is linked only to rows of
its own key.
-/

set_option autoImplicit false

namespace PathQuery

/-- Rows with different keys can be linked exactly where the two columns differ. -/
theorem Relation.links_across_iff (E : Engine) {r : Relation} {j : JoinTable}
    (hj : r.kind = .manyMany j) :
    (∃ (db : Database E) (x y : Tuple E), y ∈ r.linkedRows db x ∧
      E.meets (y r.linked.column) (x r.current.column) = false) ↔ j.fromColumn ≠ j.toColumn := by
  constructor
  · rintro ⟨db, x, y, hy, hkeys⟩ hsame
    obtain ⟨-, between, -, hfrom, hto⟩ := (mem_linkedRows_between hj).1 hy
    obtain ⟨key, hbetween, hx⟩ := E.meets_iff.1 hfrom
    obtain ⟨key', hlinked, hbetween'⟩ := E.meets_iff.1 hto
    rw [← hsame, hbetween] at hbetween'
    obtain rfl := Option.some.inj hbetween'
    rw [E.meets_iff.2 ⟨key, hlinked, hx⟩] at hkeys
    cases hkeys
  · intro hne
    -- One row between, whose two columns hold the numbers 0 and 1.
    let x : Tuple E := fun _ => some (E.number 0)
    let y : Tuple E := fun _ => some (E.number 1)
    let between : Tuple E := fun c =>
      if c = j.fromColumn then some (E.number 0) else some (E.number 1)
    have hfrom : E.meets (between j.fromColumn) (x r.current.column) = true :=
      E.meets_iff.2 ⟨_, if_pos rfl, rfl⟩
    have hto : E.meets (y r.linked.column) (between j.toColumn) = true :=
      E.meets_iff.2 ⟨_, rfl, if_neg hne.symm⟩
    refine ⟨fun _ => [between, y], x, y, (mem_linkedRows_between hj).2
      ⟨by simp, between, by simp, hfrom, hto⟩, ?_⟩
    rw [Bool.eq_false_iff, Ne, E.meets_iff]
    rintro ⟨a, hone, hzero⟩
    exact absurd (E.number_injective (Option.some.inj (hone.trans hzero.symm))) (by decide)

/-- The declaration gives two columns, or leaves them to the names of two models that are not alike
in lower-case words. -/
def RelationDecl.NamesTwoColumns (owner : String) (d : RelationDecl) : Prop :=
  match d.through with
  | some j => j.fromColumn ≠ j.toColumn
  | none => Text.snakeCase owner.toList ≠ Text.snakeCase d.target.toList

theorem Naming.foreignKeyColumn_eq_iff (naming : Naming) (a b : String) :
    naming.foreignKeyColumn a = naming.foreignKeyColumn b ↔
      Text.snakeCase a.toList = Text.snakeCase b.toList := by
  rw [foreignKeyColumn, foreignKeyColumn, ← String.toList_inj]
  simp

namespace Schema

variable {naming : Naming} {owner : String} {rd : RelationDecl} {current linked : Table}

theorem joinTableOf_columns_ne_iff (naming : Naming) (owner : String) (rd : RelationDecl)
    (current linked : Table) :
    (joinTableOf naming owner rd current linked).fromColumn ≠
      (joinTableOf naming owner rd current linked).toColumn ↔ rd.NamesTwoColumns owner := by
  rw [joinTableOf, RelationDecl.NamesTwoColumns]
  cases rd.through with
  | some j => rfl
  | none => exact not_congr (naming.foreignKeyColumn_eq_iff owner rd.target)

theorem kind_relationOf_eq_manyMany_iff {j : JoinTable} :
    (relationOf naming owner rd current linked).kind = .manyMany j ↔
      rd.form = .manyMany ∧ j = joinTableOf naming owner rd current linked := by
  cases hform : rd.form <;> simp [relationOf, hform, eq_comm]

/-- An inverse has the two columns of the relation that it turns round. -/
theorem kind_reverse_eq_manyMany_iff {r : Relation} {name : String} {j : JoinTable} :
    (r.reverse.renamed name).kind = .manyMany j ↔
      r.kind = .manyMany ⟨j.table, j.toColumn, j.fromColumn⟩ := by
  cases hkind : r.kind with
  | manyMany through =>
    obtain ⟨table, fromColumn, toColumn⟩ := j
    obtain ⟨table', fromColumn', toColumn'⟩ := through
    simp [Relation.reverse, Relation.renamed, hkind]
    tauto
  | _ => simp [Relation.reverse, Relation.renamed, hkind]

/-- A relation that a model declares, or the inverse that one of another model asks for. -/
inductive ComesFrom (naming : Naming) (decls : List ModelDecl) : String → Relation → Prop
  | declared {d : ModelDecl} {rd : RelationDecl} (hd : d ∈ decls) (hrd : rd ∈ d.relations)
    (current linked : Table) :
    ComesFrom naming decls d.name (relationOf naming d.name rd current linked)
  | inverse {d : ModelDecl} {rd : RelationDecl} {name : String} (hd : d ∈ decls)
    (hrd : rd ∈ d.relations) (asked : rd.inverse = some name) (current linked : Table) :
    ComesFrom naming decls rd.target
      ((relationOf naming d.name rd current linked).reverse.renamed name)

variable {decls : List ModelDecl} {tables : List (String × Table)}

theorem mem_foldl_addInverse {inverses : List (String × Relation)}
    {owned : List (String × List Relation)} {entry : String × List Relation}
    (h : entry ∈ inverses.foldl addInverse owned) {r : Relation} (hr : r ∈ entry.2) :
    (∃ rs, (entry.1, rs) ∈ owned ∧ r ∈ rs) ∨ (entry.1, r) ∈ inverses := by
  induction inverses generalizing owned with
  | nil => exact .inl ⟨entry.2, h, hr⟩
  | cons inverse rest ih =>
    rcases ih h with ⟨rs, hrs, hr⟩ | hrest
    · obtain ⟨⟨model, relations⟩, hmem, heq⟩ := List.mem_map.1 hrs
      dsimp only at heq
      split at heq
      · next htaken =>
        obtain ⟨rfl, rfl⟩ := Prod.mk.inj heq
        rcases List.mem_append.1 hr with hr | hr
        · exact .inl ⟨relations, hmem, hr⟩
        · rw [List.mem_singleton.1 hr, htaken.1]
          exact .inr List.mem_cons_self
      · obtain ⟨rfl, rfl⟩ := Prod.mk.inj heq
        exact .inl ⟨relations, hmem, hr⟩
    · exact .inr (List.mem_cons_of_mem _ hrest)

theorem comesFrom_of_resolveRelations {owned : List (String × List Relation)}
    (h : resolveRelations naming tables decls = .ok owned) {entry : String × List Relation}
    (hentry : entry ∈ owned) {r : Relation} (hr : r ∈ entry.2) :
    ComesFrom naming decls entry.1 r := by
  obtain ⟨links, hlinks, h⟩ := bind_eq_ok_iff.1 h
  obtain rfl := pure_eq_ok_iff.1 h
  obtain ⟨-, rfl⟩ := (foldlM_eq_ok_iff addModel_eq_ok_iff ..).1 hlinks
  rw [foldl_withModel] at hentry
  rcases mem_foldl_addInverse hentry hr with ⟨rs, hrs, hr⟩ | hinverse
  · rw [List.nil_append] at hrs
    obtain ⟨d, hd, heq⟩ := List.mem_map.1 hrs
    obtain ⟨hname, rfl⟩ := Prod.mk.inj heq
    obtain ⟨rd, hrd, rfl⟩ := List.mem_map.1 hr
    rw [← hname]
    exact .declared hd hrd _ _
  · rw [List.nil_append] at hinverse
    obtain ⟨d, hd, hinverse⟩ := List.mem_flatMap.1 hinverse
    obtain ⟨rd, hrd, hinverse⟩ := List.mem_filterMap.1 hinverse
    obtain ⟨name, hname, heq⟩ := Option.map_eq_some_iff.1 hinverse
    obtain ⟨htarget, rfl⟩ := Prod.mk.inj heq
    rw [← htarget]
    exact .inverse hd hrd hname _ _

theorem comesFrom_of_resolve {settings : Settings} {s : Schema}
    (h : resolve settings decls = .ok s) {m : Model} (hm : m ∈ s.models) {r : Relation}
    (hr : r ∈ m.relations) : ComesFrom settings.naming decls m.name r := by
  obtain ⟨tables, -, h⟩ := bind_eq_ok_iff.1 h
  obtain ⟨owned, howned, h⟩ := bind_eq_ok_iff.1 h
  obtain rfl := pure_eq_ok_iff.1 h
  obtain ⟨d, hd, rfl⟩ := List.mem_map.1 hm
  cases hlookup : owned.lookup d.name with
  | none => simp [hlookup] at hr
  | some rs =>
    obtain ⟨before, after, rfl, -⟩ := List.lookup_eq_some_iff.1 hlookup
    have hmem : (d.name, rs) ∈ before ++ (d.name, rs) :: after := by simp
    exact comesFrom_of_resolveRelations howned hmem (by simpa [hlookup] using hr)

/-- Whether a join table keeps its sides apart is decided by the declaration of the relation, or of
the one that it is the inverse of: the two columns differ exactly where that declaration gives two
columns, or gives none and the names of its two models, in lower-case words, are not the same. Each
declaration between many and many has its relation in the schema. -/
theorem joinColumns_differ_iff {settings : Settings} {s : Schema}
    (h : resolve settings decls = .ok s) :
    (∀ m ∈ s.models, ∀ r ∈ m.relations, ∀ j, r.kind = .manyMany j →
      ∃ d ∈ decls, ∃ rd ∈ d.relations, rd.form = .manyMany ∧
        (m.name = d.name ∧ r.name = rd.name ∨ m.name = rd.target ∧ rd.inverse = some r.name) ∧
        (j.fromColumn ≠ j.toColumn ↔ rd.NamesTwoColumns d.name)) ∧
    ∀ d ∈ decls, ∀ rd ∈ d.relations, rd.form = .manyMany →
      ∃ r j, s.relation d.name rd.name = .ok r ∧ r.kind = .manyMany j ∧
        (j.fromColumn ≠ j.toColumn ↔ rd.NamesTwoColumns d.name) := by
  constructor
  · intro m hm r hr j hj
    generalize howner : m.name = owner
    have horigin := howner ▸ comesFrom_of_resolve h hm hr
    cases horigin with
    | @declared d rd hd hrd current linked =>
      obtain ⟨hform, rfl⟩ := kind_relationOf_eq_manyMany_iff.1 hj
      exact ⟨d, hd, rd, hrd, hform, .inl ⟨rfl, (relationOf_ends ..).1⟩,
        joinTableOf_columns_ne_iff ..⟩
    | @inverse d rd name hd hrd asked current linked =>
      obtain ⟨hform, heq⟩ := kind_relationOf_eq_manyMany_iff.1 (kind_reverse_eq_manyMany_iff.1 hj)
      refine ⟨d, hd, rd, hrd, hform, .inr ⟨rfl, asked⟩, ?_⟩
      rw [← joinTableOf_columns_ne_iff settings.naming d.name rd current linked, ← heq]
      exact ne_comm
  · intro d hd rd hrd hform
    obtain ⟨current, linked, -, -, hr⟩ := (sound_of_resolve h).declared d hd rd hrd
    exact ⟨_, _, hr, kind_relationOf_eq_manyMany_iff.2 ⟨hform, rfl⟩,
      joinTableOf_columns_ne_iff ..⟩

end Schema

namespace Acquainted

def person : ModelDecl where
  name := "Person"
  table := "people"
  attributes := ["name"]
  relations := [
    { name := "follows", form := .manyMany, target := "Person", inverse := some "followers"
      through := some ⟨"follows", "follower_id", "followed_id"⟩ },
    { name := "friends", form := .manyMany, target := "Person" }]

def key : RelationEnd :=
  ⟨"Person", "people", "id", "id"⟩

def schema : Schema where
  models := [
    { name := "Person"
      table := { name := "people", tableAlias := "people", primaryKey := ["id"]
                 columns := [("id", "id"), ("name", "name")] }
      relations := [
        ⟨"follows", .manyMany ⟨"follows", "follower_id", "followed_id"⟩, key, key⟩,
        ⟨"friends", .manyMany ⟨"people_people", "person_id", "person_id"⟩, key, key⟩,
        ⟨"followers", .manyMany ⟨"follows", "followed_id", "follower_id"⟩, key, key⟩]
      hooks := [] }]
  settings := {}

theorem resolve_person : Schema.resolve {} [person] = .ok schema := by
  with_unfolding_all rfl

end Acquainted

open Acquainted

theorem Schema.joinColumns_differ_iff_of_people :
    Schema.resolve {} [person] = .ok schema ∧
      (∀ m ∈ schema.models, ∀ r ∈ m.relations, ∀ j, r.kind = .manyMany j →
        ∃ d ∈ [person], ∃ rd ∈ d.relations, rd.form = .manyMany ∧
          (m.name = d.name ∧ r.name = rd.name ∨ m.name = rd.target ∧ rd.inverse = some r.name) ∧
          (j.fromColumn ≠ j.toColumn ↔ rd.NamesTwoColumns d.name)) ∧
      ∀ d ∈ [person], ∀ rd ∈ d.relations, rd.form = .manyMany →
        ∃ r j, schema.relation d.name rd.name = .ok r ∧ r.kind = .manyMany j ∧
          (j.fromColumn ≠ j.toColumn ↔ rd.NamesTwoColumns d.name) :=
  ⟨resolve_person, Schema.joinColumns_differ_iff resolve_person⟩

/-- The friends of a person are left to the settings, which name both columns after the one model: a
schema resolves that links each person to itself alone. -/
theorem Schema.friends_link_themselves :
    Schema.resolve {} [person] = .ok schema ∧
      ∃ m ∈ schema.models, ∃ r ∈ m.relations, ∃ j, r.kind = .manyMany j ∧
        j.fromColumn = j.toColumn ∧
        ∀ (E : Engine) (db : Database E) (x y : Tuple E), y ∈ r.linkedRows db x →
          E.meets (y "id") (x "id") = true := by
  let j : JoinTable := ⟨"people_people", "person_id", "person_id"⟩
  let friends : Relation := ⟨"friends", .manyMany j, key, key⟩
  refine ⟨resolve_person, _, List.mem_cons_self, friends, by simp [friends, j], j, rfl, rfl, ?_⟩
  intro E db x y hy
  by_contra hkeys
  have hdiffer := (Relation.links_across_iff E (r := friends) (j := j) rfl).1
    ⟨db, x, y, hy, Bool.eq_false_iff.2 hkeys⟩
  exact hdiffer rfl

end PathQuery
