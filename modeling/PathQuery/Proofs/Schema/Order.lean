import Mathlib.Data.List.Nodup
import Mathlib.Data.List.Perm.Basic
import PathQuery.Proofs.Schema.Closed

/-!
Declarations in any order. A schema resolves where every declaration is in order by itself and no
name is given twice. A model then has the relations that it declares and, behind them, the inverses
that find their names free. As long as no two inverses ask for one name on one model, nothing in
this hangs on which model is declared first.
-/

set_option autoImplicit false

namespace PathQuery

section Keys

variable {α : Type}

theorem find?_key_perm {key : α → String} {xs ys : List α} (hperm : xs.Perm ys)
    (h : (xs.map key).Nodup) (k : String) : xs.find? (key · == k) = ys.find? (key · == k) := by
  have hys : (ys.map key).Nodup := (hperm.map key).nodup_iff.1 h
  ext x
  rw [find?_key_eq_some_iff h, find?_key_eq_some_iff hys, hperm.mem_iff]

theorem lookup_perm {entries entries' : List (String × α)} (hperm : entries.Perm entries')
    (h : (entries.map Prod.fst).Nodup) (k : String) : entries.lookup k = entries'.lookup k := by
  have h' : (entries'.map Prod.fst).Nodup := (hperm.map Prod.fst).nodup_iff.1 h
  ext a
  rw [lookup_eq_some_iff_mem h, lookup_eq_some_iff_mem h', hperm.mem_iff]

end Keys

/-- Two models offer the same. Relations are looked up by name, so their order does not count. -/
structure Model.Alike (m m' : Model) : Prop where
  name : m.name = m'.name
  table : m.table = m'.table
  relations : m.relations.Perm m'.relations
  relation? : ∀ name, m.relation? name = m'.relation? name
  hooks : m.hooks = m'.hooks

/-- Under every name two schemas know models that offer the same, or know none. -/
structure Schema.Alike (s s' : Schema) : Prop where
  settings : s.settings = s'.settings
  models : ∀ name, Option.Rel Model.Alike (s.model? name) (s'.model? name)

namespace Schema

variable {naming : Naming} {tables tables' : List (String × Table)}
  {decls decls' : List ModelDecl} {s s' : Schema}

def tableOf (naming : Naming) (d : ModelDecl) : Table :=
  (d.resolveTable naming).toOption.getD default

def tablesOf (naming : Naming) (decls : List ModelDecl) : List (String × Table) :=
  decls.map fun d => (d.name, tableOf naming d)

def relationAt (naming : Naming) (tables : List (String × Table)) (owner : String)
    (d : RelationDecl) : Relation :=
  relationOf naming owner d ((tables.lookup owner).getD default)
    ((tables.lookup d.target).getD default)

def declaredOf (naming : Naming) (tables : List (String × Table)) (d : ModelDecl) : List Relation :=
  d.relations.map (relationAt naming tables d.name)

def inverseAt (naming : Naming) (tables : List (String × Table)) (owner : String)
    (d : RelationDecl) : Option (String × Relation) :=
  d.inverse.map fun name => (d.target, (relationAt naming tables owner d).reverse.renamed name)

def inversesOf (naming : Naming) (tables : List (String × Table)) (d : ModelDecl) :
    List (String × Relation) :=
  d.relations.filterMap (inverseAt naming tables d.name)

/-- No relation of the model is declared twice, and each of them resolves. -/
structure Links.Accepts (naming : Naming) (tables : List (String × Table))
    (d : ModelDecl) : Prop where
  distinct : (d.relations.map RelationDecl.name).Nodup
  resolve : ∀ rd ∈ d.relations, ∃ r, resolveRelation naming tables d.name rd = .ok r

/-- Each declaration is in order by itself, and no model is declared twice. -/
structure InOrder (naming : Naming) (decls : List ModelDecl) : Prop where
  distinct : (decls.map ModelDecl.name).Nodup
  tables : ∀ d ∈ decls, ∃ t, d.resolveTable naming = .ok t
  relations : ∀ d ∈ decls, Links.Accepts naming (tablesOf naming decls) d

theorem names_tablesOf (naming : Naming) (decls : List ModelDecl) :
    (tablesOf naming decls).map Prod.fst = decls.map ModelDecl.name := by
  simp [tablesOf]

theorem tableOf_eq {d : ModelDecl} {t : Table} (h : d.resolveTable naming = .ok t) :
    tableOf naming d = t := by
  rw [tableOf, h]
  rfl

theorem resolveTables_eq_ok_iff :
    resolveTables naming decls = .ok tables ↔ (decls.map ModelDecl.name).Nodup ∧
      (∀ d ∈ decls, ∃ t, d.resolveTable naming = .ok t) ∧ tables = tablesOf naming decls := by
  have hstep : ∀ (acc : List (String × Table)) (d : ModelDecl) (acc' : List (String × Table)),
      (do
        if (acc.lookup d.name).isSome then throw (.invalid (.modelTwice d.name))
        return acc ++ [(d.name, ← d.resolveTable naming)] : Except Error _) = .ok acc' ↔
      d.name ∉ acc.map Prod.fst ∧ (∃ t, d.resolveTable naming = .ok t) ∧
        acc' = acc ++ [(d.name, tableOf naming d)] := by
    intro acc d acc'
    have hseen : (acc.lookup d.name).isSome = true ↔ d.name ∈ acc.map Prod.fst := by simp
    constructor
    · intro h
      dsimp only at h
      split at h
      · cases h
      · next hfree =>
        obtain ⟨t, ht, h⟩ := bind_eq_ok_iff.1 h
        exact ⟨fun hmem => hfree (hseen.2 hmem), ⟨t, ht⟩, by
          rw [← pure_eq_ok_iff.1 h, tableOf_eq ht]⟩
    · rintro ⟨hfree, ⟨t, ht⟩, rfl⟩
      dsimp only
      rw [if_neg fun h => hfree (hseen.1 h)]
      exact bind_eq_ok_iff.2 ⟨t, ht, by rw [tableOf_eq ht]; rfl⟩
  have hfold : decls.foldl (fun acc d => acc ++ [(d.name, tableOf naming d)]) [] =
      tablesOf naming decls := by
    rw [List.foldl_append_eq_append, List.nil_append, ← List.flatMap_def]
    exact List.map_eq_flatMap.symm
  rw [resolveTables, foldlM_fresh_eq_ok_iff hstep (fun acc d => by simp), hfold]
  simp

theorem name_relationAt (owner : String) (rd : RelationDecl) :
    (relationAt naming tables owner rd).name = rd.name :=
  (relationOf_ends naming owner rd _ _).1

theorem relationAt_eq {owner : String} {rd : RelationDecl} {r : Relation}
    (h : resolveRelation naming tables owner rd = .ok r) :
    relationAt naming tables owner rd = r := by
  obtain ⟨current, linked, hcurrent, hlinked, rfl, -⟩ := resolveRelation_eq_ok h
  rw [relationAt, hcurrent, hlinked]
  rfl

def Links.withModel (naming : Naming) (tables : List (String × Table)) (links : Links)
    (d : ModelDecl) : Links :=
  { owned := links.owned ++ [(d.name, declaredOf naming tables d)]
    inverses := links.inverses ++ inversesOf naming tables d }

theorem addModel_eq_ok_iff (links : Links) (d : ModelDecl) (links' : Links) :
    links.addModel naming tables d = .ok links' ↔
      Links.Accepts naming tables d ∧ links' = links.withModel naming tables d := by
  let add (acc : List Relation × List (String × Relation)) (rd : RelationDecl) :=
    (acc.1 ++ [relationAt naming tables d.name rd],
      acc.2 ++ (inverseAt naming tables d.name rd).toList)
  have hstep : ∀ (acc : List Relation × List (String × Relation)) (rd : RelationDecl)
      (acc' : List Relation × List (String × Relation)),
      (do
        if acc.1.any (·.name == rd.name) then throw (.invalid (.relationTwice rd.name d.name))
        let r ← resolveRelation naming tables d.name rd
        let inverse := rd.inverse.map fun name => (rd.target, r.reverse.renamed name)
        return (acc.1 ++ [r], acc.2 ++ inverse.toList) : Except Error _) = .ok acc' ↔
      rd.name ∉ acc.1.map Relation.name ∧
        (∃ r, resolveRelation naming tables d.name rd = .ok r) ∧ acc' = add acc rd := by
    intro acc rd acc'
    have hseen : acc.1.any (·.name == rd.name) = true ↔ rd.name ∈ acc.1.map Relation.name := by
      simp
    constructor
    · intro h
      dsimp only at h
      split at h
      · cases h
      · next hfree =>
        obtain ⟨r, hr, h⟩ := bind_eq_ok_iff.1 h
        refine ⟨fun hmem => hfree (hseen.2 hmem), ⟨r, hr⟩, ?_⟩
        rw [← pure_eq_ok_iff.1 h]
        simp only [add, inverseAt, relationAt_eq hr]
    · rintro ⟨hfree, ⟨r, hr⟩, rfl⟩
      dsimp only
      rw [if_neg fun h => hfree (hseen.1 h)]
      refine bind_eq_ok_iff.2 ⟨r, hr, pure_eq_ok_iff.2 ?_⟩
      simp only [add, inverseAt, relationAt_eq hr]
  have hfold : ∀ (rds : List RelationDecl) acc, rds.foldl add acc =
      (acc.1 ++ rds.map (relationAt naming tables d.name),
        acc.2 ++ rds.filterMap (inverseAt naming tables d.name)) := by
    intro rds
    induction rds with
    | nil => simp
    | cons rd rds ih =>
      intro acc
      rw [List.foldl_cons, ih]
      cases h : inverseAt naming tables d.name rd <;> simp [add, h]
  have hresolved := foldlM_fresh_eq_ok_iff hstep
    (fun acc rd => by simp [add, name_relationAt]) d.relations ([], links.inverses)
  simp only [List.map_nil, List.not_mem_nil, not_false_eq_true, implies_true, true_and,
    hfold] at hresolved
  unfold Links.addModel
  rw [bind_eq_ok_iff]
  constructor
  · rintro ⟨acc, hacc, h⟩
    obtain ⟨hdistinct, hresolve, rfl⟩ := (hresolved acc).1 hacc
    exact ⟨⟨hdistinct, hresolve⟩, (pure_eq_ok_iff.1 h).symm⟩
  · rintro ⟨⟨hdistinct, hresolve⟩, rfl⟩
    exact ⟨_, (hresolved _).2 ⟨hdistinct, hresolve, rfl⟩, rfl⟩

/-- The inverses that a model takes: those asked for on it whose names it does not declare. -/
def freeInverses (owner : String) (relations : List Relation)
    (inverses : List (String × Relation)) :
    List Relation :=
  (inverses.filter fun inverse =>
    decide (owner = inverse.1) && !relations.any (·.name == inverse.2.name)).map Prod.snd

def inverseKey (inverse : String × Relation) : String × String :=
  (inverse.1, inverse.2.name)

/-- Where no two inverses share a name and a target, a model takes each that its own names leave. -/
theorem foldl_addInverse {inverses : List (String × Relation)}
    (h : (inverses.map inverseKey).Nodup) (owned : List (String × List Relation)) :
    inverses.foldl addInverse owned = owned.map fun entry =>
      (entry.1, entry.2 ++ freeInverses entry.1 entry.2 inverses) := by
  induction inverses generalizing owned with
  | nil => simp [freeInverses]
  | cons inverse rest ih =>
    rw [List.map_cons, List.nodup_cons] at h
    rw [List.foldl_cons, ih h.2, addInverse, List.map_map]
    refine List.map_congr_left fun entry _ => ?_
    obtain ⟨owner, relations⟩ := entry
    by_cases htaken : owner = inverse.1 ∧ !relations.any (·.name == inverse.2.name)
    · have hrest : freeInverses owner (relations ++ [inverse.2]) rest =
          freeInverses owner relations rest := by
        unfold freeInverses
        congr 1
        refine List.filter_congr fun other hother => ?_
        by_cases howner : owner = other.1
        · have hname : inverse.2.name ≠ other.2.name := fun hname => h.1 <| by
            refine List.mem_map.2 ⟨other, hother, ?_⟩
            rw [inverseKey, inverseKey, ← howner, htaken.1, hname]
          simp [List.any_append, beq_eq_false_iff_ne.2 hname]
        · simp [howner]
      simp only [Function.comp_apply, if_pos htaken, hrest]
      simp [freeInverses, htaken.1, htaken.2]
    · have hskipped : (decide (owner = inverse.1) &&
          !relations.any (·.name == inverse.2.name)) = false := by
        simpa [Bool.eq_false_iff] using htaken
      simp only [Function.comp_apply, if_neg htaken]
      rw [freeInverses, freeInverses, List.filter_cons_of_neg (by rw [hskipped]; decide)]

def relationsOf (naming : Naming) (tables : List (String × Table)) (decls : List ModelDecl)
    (d : ModelDecl) : List Relation :=
  declaredOf naming tables d ++ freeInverses d.name (declaredOf naming tables d)
    (decls.flatMap (inversesOf naming tables))

def modelOf (naming : Naming) (decls : List ModelDecl) (d : ModelDecl) : Model :=
  { name := d.name
    table := tableOf naming d
    relations := relationsOf naming (tablesOf naming decls) decls d
    hooks := d.hooks }

def inverseNames (decls : List ModelDecl) : List (String × String) :=
  decls.flatMap fun d => d.relations.filterMap fun rd => rd.inverse.map (rd.target, ·)

theorem map_inverseKey (naming : Naming) (tables : List (String × Table)) (decls : List ModelDecl) :
    (decls.flatMap (inversesOf naming tables)).map inverseKey = inverseNames decls := by
  rw [List.map_flatMap, inverseNames]
  refine List.flatMap_congr fun d _ => ?_
  rw [inversesOf, List.map_filterMap]
  refine List.filterMap_congr fun rd _ => ?_
  rw [inverseAt, Option.map_map]
  rfl

theorem foldl_withModel (decls : List ModelDecl) (links : Links) :
    decls.foldl (Links.withModel naming tables) links =
      ⟨links.owned ++ decls.map fun d => (d.name, declaredOf naming tables d),
        links.inverses ++ decls.flatMap (inversesOf naming tables)⟩ := by
  induction decls generalizing links with
  | nil => simp
  | cons d decls ih => simp [ih, Links.withModel]

theorem resolveRelations_eq_ok_iff (h : (inverseNames decls).Nodup)
    {owned : List (String × List Relation)} :
    resolveRelations naming tables decls = .ok owned ↔
      (∀ d ∈ decls, Links.Accepts naming tables d) ∧
        owned = decls.map fun d => (d.name, relationsOf naming tables decls d) := by
  rw [← map_inverseKey naming tables] at h
  unfold resolveRelations
  simp only [bind_eq_ok_iff, pure_eq_ok_iff, foldlM_eq_ok_iff addModel_eq_ok_iff, foldl_withModel,
    List.nil_append]
  constructor
  · rintro ⟨_, ⟨haccepts, rfl⟩, rfl⟩
    exact ⟨haccepts, by rw [foldl_addInverse h, List.map_map]; rfl⟩
  · rintro ⟨haccepts, rfl⟩
    exact ⟨_, ⟨haccepts, rfl⟩, by rw [foldl_addInverse h, List.map_map]; rfl⟩

theorem lookup_tablesOf (h : (decls.map ModelDecl.name).Nodup) {d : ModelDecl} (hd : d ∈ decls) :
    (tablesOf naming decls).lookup d.name = some (tableOf naming d) := by
  rw [← names_tablesOf naming] at h
  exact (lookup_eq_some_iff_mem h).2 (List.mem_map_of_mem hd)

/-- A schema resolves exactly from declarations that are in order. -/
theorem resolve_eq_ok_iff {settings : Settings} (h : (inverseNames decls).Nodup) :
    resolve settings decls = .ok s ↔ InOrder settings.naming decls ∧
      s = ⟨decls.map (modelOf settings.naming decls), settings⟩ := by
  have hmodels : (decls.map ModelDecl.name).Nodup → decls.map (fun d =>
      { name := d.name
        table := ((tablesOf settings.naming decls).lookup d.name).getD (Table.named d.table)
        relations := ((decls.map fun d => (d.name, relationsOf settings.naming
          (tablesOf settings.naming decls) decls d)).lookup d.name).getD []
        hooks := d.hooks }) = decls.map (modelOf settings.naming decls) := by
    intro hdistinct
    refine List.map_congr_left fun d hd => ?_
    have hrelations : (decls.map fun d => (d.name, relationsOf settings.naming
        (tablesOf settings.naming decls) decls d)).lookup d.name =
        some (relationsOf settings.naming (tablesOf settings.naming decls) decls d) := by
      refine (lookup_eq_some_iff_mem ?_).2 (List.mem_map_of_mem hd)
      rwa [List.map_map]
    rw [lookup_tablesOf hdistinct hd, hrelations]
    rfl
  unfold resolve
  simp only [bind_eq_ok_iff, pure_eq_ok_iff, resolveTables_eq_ok_iff, resolveRelations_eq_ok_iff h]
  constructor
  · rintro ⟨_, ⟨hdistinct, htables, rfl⟩, _, ⟨haccepts, rfl⟩, rfl⟩
    exact ⟨⟨hdistinct, htables, haccepts⟩, by rw [hmodels hdistinct]⟩
  · rintro ⟨hd, rfl⟩
    exact ⟨_, ⟨hd.distinct, hd.tables, rfl⟩, _, ⟨hd.relations, rfl⟩, by rw [hmodels hd.distinct]⟩

theorem resolveRelation_congr (h : ∀ name, tables.lookup name = tables'.lookup name)
    (owner : String) (rd : RelationDecl) :
    resolveRelation naming tables owner rd = resolveRelation naming tables' owner rd := by
  rw [resolveRelation, resolveRelation, h, h]

theorem relationAt_congr (h : ∀ name, tables.lookup name = tables'.lookup name) :
    relationAt naming tables = relationAt naming tables' := by
  funext owner rd
  rw [relationAt, relationAt, h, h]

theorem relationsOf_congr (h : ∀ name, tables.lookup name = tables'.lookup name) :
    relationsOf naming tables = relationsOf naming tables' := by
  have hinverse : inverseAt naming tables = inverseAt naming tables' := by
    funext owner rd
    rw [inverseAt, inverseAt, relationAt_congr h]
  have hinverses : inversesOf naming tables = inversesOf naming tables' := by
    funext d
    rw [inversesOf, inversesOf, hinverse]
  funext decls d
  simp only [relationsOf, declaredOf, relationAt_congr h, hinverses]

section Permuted

variable (hperm : decls.Perm decls')

include hperm

theorem lookup_tablesOf_perm (h : (decls.map ModelDecl.name).Nodup) (name : String) :
    (tablesOf naming decls).lookup name = (tablesOf naming decls').lookup name := by
  refine lookup_perm (hperm.map _) ?_ name
  rwa [← tablesOf, names_tablesOf]

theorem InOrder.perm (h : InOrder naming decls) : InOrder naming decls' where
  distinct := (hperm.map ModelDecl.name).nodup_iff.1 h.distinct
  tables d hd := h.tables d (hperm.mem_iff.2 hd)
  relations d hd := by
    obtain ⟨hdistinct, hresolve⟩ := h.relations d (hperm.mem_iff.2 hd)
    refine ⟨hdistinct, fun rd hrd => ?_⟩
    rw [← resolveRelation_congr (lookup_tablesOf_perm hperm h.distinct)]
    exact hresolve rd hrd

theorem relationsOf_perm (tables : List (String × Table)) (d : ModelDecl) :
    (relationsOf naming tables decls d).Perm (relationsOf naming tables decls' d) :=
  (((hperm.flatMap_right _).filter _).map _).append_left _

theorem modelOf_alike (h : (decls.map ModelDecl.name).Nodup) {d : ModelDecl}
    (hnames : ((modelOf naming decls d).relations.map Relation.name).Nodup) :
    (modelOf naming decls d).Alike (modelOf naming decls' d) := by
  have hrelations :
      (modelOf naming decls d).relations.Perm (modelOf naming decls' d).relations := by
    rw [modelOf, modelOf, ← relationsOf_congr (lookup_tablesOf_perm hperm h)]
    exact relationsOf_perm hperm _ d
  exact {
    name := rfl
    table := rfl
    relations := hrelations
    relation? := find?_key_perm hrelations hnames
    hooks := rfl }

end Permuted

theorem model?_eq_some_iff (naming : Naming) (settings : Settings)
    (h : (decls.map ModelDecl.name).Nodup) (name : String) (m : Model) :
    (Schema.mk (decls.map (modelOf naming decls)) settings).model? name = some m ↔
      ∃ d ∈ decls, d.name = name ∧ m = modelOf naming decls d := by
  have hnames : ((decls.map (modelOf naming decls)).map Model.name).Nodup := by
    rw [List.map_map]
    exact h
  rw [model?, find?_key_eq_some_iff hnames, List.mem_map]
  constructor
  · rintro ⟨⟨d, hd, rfl⟩, rfl⟩
    exact ⟨d, hd, rfl, rfl⟩
  · rintro ⟨d, hd, rfl, rfl⟩
    exact ⟨⟨d, hd, rfl⟩, rfl⟩

/-- Unless two inverses ask for one name on one model, declarations resolve in every order or in
none, and what they resolve to offers the same models. -/
theorem resolve_perm {settings : Settings} (hperm : decls.Perm decls')
    (hinverses : (inverseNames decls).Nodup) :
    ((∃ s, resolve settings decls = .ok s) ↔ ∃ s', resolve settings decls' = .ok s') ∧
      ∀ s s', resolve settings decls = .ok s → resolve settings decls' = .ok s' → s.Alike s' := by
  have hinverses' : (inverseNames decls').Nodup := (hperm.flatMap_right _).nodup_iff.1 hinverses
  refine ⟨⟨?_, ?_⟩, fun s s' h h' => ?_⟩
  · rintro ⟨s, h⟩
    exact ⟨_, (resolve_eq_ok_iff hinverses').2
      ⟨((resolve_eq_ok_iff hinverses).1 h).1.perm hperm, rfl⟩⟩
  · rintro ⟨s, h⟩
    exact ⟨_, (resolve_eq_ok_iff hinverses).2
      ⟨((resolve_eq_ok_iff hinverses').1 h).1.perm hperm.symm, rfl⟩⟩
  · obtain ⟨tables, hresolves⟩ := resolvesTo_of_resolve h
    obtain ⟨horder, rfl⟩ := (resolve_eq_ok_iff hinverses).1 h
    obtain ⟨horder', rfl⟩ := (resolve_eq_ok_iff hinverses').1 h'
    have hfound := model?_eq_some_iff settings.naming settings horder.distinct
    have hfound' := model?_eq_some_iff settings.naming settings horder'.distinct
    refine ⟨rfl, fun name => ?_⟩
    cases hm : (Schema.mk (decls.map (modelOf settings.naming decls)) settings).model? name with
    | some m =>
      obtain ⟨d, hd, rfl, rfl⟩ := (hfound name m).1 hm
      rw [(hfound' d.name _).2 ⟨d, hperm.mem_iff.1 hd, rfl, rfl⟩]
      obtain ⟨⟨_, -, hdeclares⟩, -⟩ := hresolves.linked_of_mem (List.mem_map_of_mem hd)
      exact .some (modelOf_alike hperm horder.distinct hdeclares.relations.distinct)
    | none =>
      cases hm' : (Schema.mk (decls'.map (modelOf settings.naming decls')) settings).model?
          name with
      | none => exact .none
      | some m =>
        obtain ⟨d, hd, rfl, rfl⟩ := (hfound' name m).1 hm'
        rw [(hfound d.name _).2 ⟨d, hperm.mem_iff.2 hd, rfl, rfl⟩] at hm
        cases hm

/-- The model of the articles, whose inverses land on both others, is declared last or first. -/
theorem resolve_perm_of_tagged :
    Tagged.decls.Perm Tagged.decls.reverse ∧ (inverseNames Tagged.decls).Nodup ∧
      resolve {} Tagged.decls = .ok Tagged.schema ∧
        ∃ s, resolve {} Tagged.decls.reverse = .ok s ∧ Tagged.schema.Alike s := by
  have hperm : Tagged.decls.Perm Tagged.decls.reverse := (List.reverse_perm _).symm
  have hinverses : (inverseNames Tagged.decls).Nodup := by decide
  have hresolve : resolve {} Tagged.decls = .ok Tagged.schema := by with_unfolding_all rfl
  obtain ⟨hboth, halike⟩ := @resolve_perm _ _ {} hperm hinverses
  obtain ⟨s, hs⟩ := hboth.1 ⟨_, hresolve⟩
  exact ⟨hperm, hinverses, hresolve, s, hs, halike _ _ hresolve hs⟩

end Schema

end PathQuery
