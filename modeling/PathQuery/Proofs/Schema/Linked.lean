import Mathlib.Data.List.Nodup
import PathQuery.Proofs.Outcome
import PathQuery.Schema

/-!
What resolving a schema comes to. Each declared model gets its table and its relations: those that
it declares, each under a name of its own, and behind them inverses of relations that lead to it, as
long as their names are free. All else about a resolved schema follows from this.
-/

set_option autoImplicit false

namespace PathQuery

section Keys

variable {α : Type}

theorem find?_key_eq_some_iff {key : α → String} {xs : List α} (h : (xs.map key).Nodup) {k : String}
    {x : α} : xs.find? (key · == k) = some x ↔ x ∈ xs ∧ key x = k := by
  constructor
  · intro hx
    exact ⟨List.mem_of_find?_eq_some hx, by simpa using List.find?_some hx⟩
  · rintro ⟨hx, rfl⟩
    obtain ⟨y, hy⟩ : ∃ y, xs.find? (key · == key x) = some y :=
      Option.isSome_iff_exists.1 (List.find?_isSome.2 ⟨x, hx, beq_self_eq_true _⟩)
    have hkey : key y = key x := by simpa using List.find?_some hy
    rw [hy, List.inj_on_of_nodup_map h (List.mem_of_find?_eq_some hy) hx hkey]

theorem lookup_eq_some_iff_mem {entries : List (String × α)} (h : (entries.map Prod.fst).Nodup)
    {k : String} {a : α} : entries.lookup k = some a ↔ (k, a) ∈ entries := by
  constructor
  · intro ha
    obtain ⟨before, after, rfl, -⟩ := List.lookup_eq_some_iff.1 ha
    simp
  · intro ha
    obtain ⟨before, after, rfl⟩ := List.append_of_mem ha
    refine List.lookup_eq_some_iff.2 ⟨before, after, rfl, fun entry hentry => ?_⟩
    rw [List.map_append, List.nodup_append] at h
    have hne := h.2.2 entry.1 (List.mem_map_of_mem hentry) k (by simp)
    simpa using hne.symm

end Keys

def IsIdent (name : String) : Prop :=
  ∃ i, Ident.parse name = .ok i

theorem isIdent_of_read {name : String}
    (h : (do discard (Ident.read name) : Except Error Unit) = .ok ()) : IsIdent name := by
  cases hp : Ident.parse name with
  | ok i => exact ⟨i, hp⟩
  | error fault =>
    rw [Ident.read, hp] at h
    cases h

theorem isIdent_of_forM {names : List String}
    (h : names.forM (fun name => do discard (Ident.read name)) = (.ok () : Except Error Unit)) :
    ∀ name ∈ names, IsIdent name :=
  fun name hname => isIdent_of_read (forM_eq_ok_iff.1 h name hname)

theorem ModelDecl.isIdent_of_resolveTable {d : ModelDecl} {naming : Naming} {t : Table}
    (h : d.resolveTable naming = .ok t) : ∀ name ∈ t.sqlNames, IsIdent name := by
  obtain ⟨_, hvalid, rfl⟩ := map_eq_ok_iff.1 h
  exact isIdent_of_forM hvalid

namespace Schema

variable {naming : Naming} {tables : List (String × Table)} {decls : List ModelDecl}

/-- The relation leads from a column of the table of one model to a column of the table of another.
-/
structure EndsIn (naming : Naming) (tables : List (String × Table)) (owner : String)
    (r : Relation) : Prop where
  current : ∃ table name, tables.lookup owner = some table ∧
    r.current = relationEnd naming owner table name
  linked : ∃ model table name, tables.lookup model = some table ∧
    r.linked = relationEnd naming model table name

theorem relationOf_ends (naming : Naming) (owner : String) (d : RelationDecl)
    (current linked : Table) :
    let r := relationOf naming owner d current linked
    r.name = d.name ∧ (∃ name, r.current = relationEnd naming owner current name) ∧
      ∃ name, r.linked = relationEnd naming d.target linked name := by
  cases h : d.form <;> simp [relationOf, h]

theorem resolveRelation_eq_ok {owner : String} {d : RelationDecl} {r : Relation}
    (h : resolveRelation naming tables owner d = .ok r) :
    ∃ current linked, tables.lookup owner = some current ∧
      tables.lookup d.target = some linked ∧ r = relationOf naming owner d current linked ∧
      ∀ name ∈ relationNames r, IsIdent name := by
  unfold resolveRelation at h
  split at h
  · cases h
  · cases h
  · next current linked hcurrent hlinked =>
    obtain ⟨_, hnames, h⟩ := bind_eq_ok_iff.1 h
    obtain rfl := pure_eq_ok_iff.1 h
    exact ⟨current, linked, hcurrent, hlinked, rfl, isIdent_of_forM hnames⟩

/-- What becomes a relation of a model: one that it declares, or the inverse of one that leads to
it. -/
inductive Linked (naming : Naming) (tables : List (String × Table)) : String → Relation → Prop
  | declared {owner : String} {d : RelationDecl} {r : Relation}
    (resolved : resolveRelation naming tables owner d = .ok r) : Linked naming tables owner r
  | inverse {owner : String} {d : RelationDecl} {r : Relation} (name : String)
    (resolved : resolveRelation naming tables owner d = .ok r) :
    Linked naming tables d.target (r.reverse.renamed name)

theorem Linked.endsIn {owner : String} {r : Relation} (h : Linked naming tables owner r) :
    EndsIn naming tables owner r := by
  cases h with
  | declared resolved =>
    obtain ⟨current, linked, hcurrent, hlinked, rfl, -⟩ := resolveRelation_eq_ok resolved
    obtain ⟨-, ⟨a, ha⟩, b, hb⟩ := relationOf_ends naming owner _ current linked
    exact ⟨⟨current, a, hcurrent, ha⟩, _, linked, b, hlinked, hb⟩
  | inverse name resolved =>
    obtain ⟨current, linked, hcurrent, hlinked, rfl, -⟩ := resolveRelation_eq_ok resolved
    obtain ⟨-, ⟨a, ha⟩, b, hb⟩ := relationOf_ends naming _ _ current linked
    exact ⟨⟨linked, b, hlinked, hb⟩, _, current, a, hcurrent, ha⟩

theorem mem_relationNames_reverse {r : Relation} {name column : String}
    (h : column ∈ relationNames (r.reverse.renamed name)) : column ∈ relationNames r := by
  cases hkind : r.kind with
  | manyMany through =>
    simp only [relationNames, Relation.renamed, Relation.reverse, hkind] at h ⊢
    simp only [List.mem_append, List.mem_cons, List.not_mem_nil, or_false] at h ⊢
    tauto
  | _ =>
    simp only [relationNames, Relation.renamed, Relation.reverse, hkind] at h ⊢
    simp only [List.nil_append, List.mem_cons, List.not_mem_nil, or_false] at h ⊢
    exact h.symm

theorem Linked.isIdent {owner : String} {r : Relation} (h : Linked naming tables owner r) :
    ∀ name ∈ relationNames r, IsIdent name := by
  cases h with
  | declared resolved =>
    obtain ⟨-, -, -, -, -, hnames⟩ := resolveRelation_eq_ok resolved
    exact hnames
  | inverse name resolved =>
    obtain ⟨-, -, -, -, -, hnames⟩ := resolveRelation_eq_ok resolved
    exact fun column hcolumn => hnames column (mem_relationNames_reverse hcolumn)

/-- The relations of a model hold those that it declares, and no two have one name. -/
structure LinkedOf (naming : Naming) (tables : List (String × Table)) (owner : String)
    (declared : List RelationDecl) (relations : List Relation) : Prop where
  origin : ∀ r ∈ relations, Linked naming tables owner r
  declared : ∀ d ∈ declared, ∃ r ∈ relations, r.name = d.name ∧
    resolveRelation naming tables owner d = .ok r
  distinct : (relations.map Relation.name).Nodup

theorem LinkedOf.append {owner : String} {declared more : List RelationDecl}
    {relations : List Relation} {r : Relation}
    (h : LinkedOf naming tables owner declared relations) (hr : Linked naming tables owner r)
    (hmore : ∀ d ∈ more, r.name = d.name ∧ resolveRelation naming tables owner d = .ok r)
    (hfree : ¬ relations.any (·.name == r.name) = true) :
    LinkedOf naming tables owner (declared ++ more) (relations ++ [r]) where
  origin r' hr' := by
    rcases List.mem_append.1 hr' with hr' | hr'
    · exact h.origin r' hr'
    · rw [List.mem_singleton.1 hr']
      exact hr
  declared d hd := by
    rcases List.mem_append.1 hd with hd | hd
    · obtain ⟨r', hr', hname, hresolved⟩ := h.declared d hd
      exact ⟨r', List.mem_append_left _ hr', hname, hresolved⟩
    · exact ⟨r, by simp, hmore d hd⟩
  distinct := by
    rw [List.map_append, List.nodup_append]
    refine ⟨h.distinct, List.nodup_singleton _, ?_⟩
    intro a ha b hb hab
    obtain ⟨r', hr', rfl⟩ := List.mem_map.1 ha
    obtain rfl := List.mem_singleton.1 hb
    exact hfree (List.any_eq_true.2 ⟨r', hr', by simpa using hab⟩)

theorem LinkedOf.addInverse {owner : String} {declared : List RelationDecl}
    {relations : List Relation} {r : Relation}
    (h : LinkedOf naming tables owner declared relations) (hr : Linked naming tables owner r)
    (hfree : ¬ relations.any (·.name == r.name) = true) :
    LinkedOf naming tables owner declared (relations ++ [r]) := by
  have hmore : LinkedOf naming tables owner (declared ++ []) (relations ++ [r]) :=
    h.append hr (by simp) hfree
  rwa [List.append_nil] at hmore

abbrev Keyed {α : Type} (R : ModelDecl → α → Prop) (decls : List ModelDecl)
    (entries : List (String × α)) : Prop :=
  List.Forall₂ (fun d entry => entry.1 = d.name ∧ R d entry.2) decls entries

theorem Keyed.append {α : Type} {R : ModelDecl → α → Prop} {entries : List (String × α)}
    {d : ModelDecl} {a : α} (h : Keyed R decls entries) (ha : R d a) :
    Keyed R (decls ++ [d]) (entries ++ [(d.name, a)]) :=
  List.rel_append h (.cons ⟨rfl, ha⟩ .nil)

theorem Keyed.names {α : Type} {R : ModelDecl → α → Prop} {entries : List (String × α)}
    (h : Keyed R decls entries) : entries.map Prod.fst = decls.map ModelDecl.name := by
  induction h with
  | nil => rfl
  | cons hentry _ ih => rw [List.map_cons, List.map_cons, hentry.1, ih]

theorem Keyed.of_lookup {α : Type} {R : ModelDecl → α → Prop} {entries : List (String × α)}
    (h : Keyed R decls entries) {name : String} {a : α} (ha : entries.lookup name = some a) :
    ∃ d ∈ decls, d.name = name ∧ R d a := by
  obtain ⟨before, after, rfl, -⟩ := List.lookup_eq_some_iff.1 ha
  obtain ⟨d, hd, hname, hR⟩ := exists_of_mem_right h (z := (name, a)) (by simp)
  exact ⟨d, hd, hname.symm, hR⟩

theorem Keyed.lookup {α : Type} {R : ModelDecl → α → Prop} {entries : List (String × α)}
    (h : Keyed R decls entries) (hdistinct : (decls.map ModelDecl.name).Nodup) {d : ModelDecl}
    (hd : d ∈ decls) : ∃ a, entries.lookup d.name = some a ∧ R d a := by
  obtain ⟨⟨name, a⟩, hmem, hname, hR⟩ := exists_of_mem_left h hd
  obtain rfl : name = d.name := hname
  rw [← h.names] at hdistinct
  exact ⟨a, (lookup_eq_some_iff_mem hdistinct).2 hmem, hR⟩

theorem resolveTables_eq_ok (h : resolveTables naming decls = .ok tables) :
    Keyed (fun d table => d.resolveTable naming = .ok table) decls tables ∧
      (decls.map ModelDecl.name).Nodup := by
  refine foldlM_invariant_done (P := fun done tables =>
    Keyed (fun d table => d.resolveTable naming = .ok table) done tables ∧
      (done.map ModelDecl.name).Nodup) ⟨.nil, List.nodup_nil⟩ ?_ h
  intro done d _ tables tables' ⟨hkeyed, hdistinct⟩ hstep
  dsimp only at hstep
  split at hstep
  · cases hstep
  · next hfree =>
    obtain ⟨table, htable, hstep⟩ := bind_eq_ok_iff.1 hstep
    obtain rfl := pure_eq_ok_iff.1 hstep
    refine ⟨hkeyed.append htable, ?_⟩
    rw [List.map_append, List.nodup_append]
    refine ⟨hdistinct, List.nodup_singleton _, fun a ha b hb hab => hfree ?_⟩
    obtain rfl := List.mem_singleton.1 hb
    rw [← hkeyed.names] at ha
    obtain ⟨entry, hentry, hname⟩ := List.mem_map.1 ha
    rw [Option.isSome_iff_ne_none, Ne, List.lookup_eq_none_iff]
    exact fun hnone => by simpa [hname, hab] using hnone entry hentry

structure Links.Sound (naming : Naming) (tables : List (String × Table)) (done : List ModelDecl)
    (links : Links) : Prop where
  owned : Keyed (fun d relations => LinkedOf naming tables d.name d.relations relations) done
    links.owned
  inverses : ∀ entry ∈ links.inverses, Linked naming tables entry.1 entry.2

theorem Links.Sound.addModel {done : List ModelDecl} {links links' : Links} {d : ModelDecl}
    (h : links.Sound naming tables done) (hd : links.addModel naming tables d = .ok links') :
    links'.Sound naming tables (done ++ [d]) := by
  unfold Links.addModel at hd
  obtain ⟨⟨relations, inverses⟩, hfold, hd⟩ := bind_eq_ok_iff.1 hd
  obtain rfl := pure_eq_ok_iff.1 hd
  have hmodel := foldlM_invariant_done
    (P := fun declared (acc : List Relation × List (String × Relation)) =>
      LinkedOf naming tables d.name declared acc.1 ∧
        ∀ entry ∈ acc.2, Linked naming tables entry.1 entry.2)
    (b := ([], links.inverses))
    ⟨{ origin := by simp, declared := by simp, distinct := List.nodup_nil }, h.inverses⟩ ?_ hfold
  · exact ⟨h.owned.append hmodel.1, hmodel.2⟩
  · intro declared rd _ acc acc' hacc hstep
    obtain ⟨relations, inverses⟩ := acc
    dsimp only at hstep
    split at hstep
    · cases hstep
    · next hfree =>
      obtain ⟨r, hr, hstep⟩ := bind_eq_ok_iff.1 hstep
      obtain rfl := pure_eq_ok_iff.1 hstep
      have hname : r.name = rd.name := by
        obtain ⟨current, linked, -, -, rfl, -⟩ := resolveRelation_eq_ok hr
        exact (relationOf_ends naming d.name rd current linked).1
      refine ⟨hacc.1.append (.declared hr) (by simpa using ⟨hname, hr⟩) (by rwa [hname]), ?_⟩
      intro entry hentry
      rcases List.mem_append.1 hentry with hentry | hentry
      · exact hacc.2 entry hentry
      · obtain ⟨name, -, rfl⟩ : ∃ name, rd.inverse = some name ∧
            (rd.target, r.reverse.renamed name) = entry := by simpa using hentry
        exact .inverse name hr

theorem keyed_addInverse {owned : List (String × List Relation)} {inverse : String × Relation}
    (h : Keyed (fun d relations => LinkedOf naming tables d.name d.relations relations) decls owned)
    (hinverse : Linked naming tables inverse.1 inverse.2) :
    Keyed (fun d relations => LinkedOf naming tables d.name d.relations relations) decls
      (addInverse owned inverse) := by
  refine List.forall₂_map_right_iff.2 (List.Forall₂.imp
    (fun d entry hentry => ?_) h)
  obtain ⟨model, relations⟩ := entry
  obtain ⟨hname, hlinked⟩ := hentry
  dsimp only at hname hlinked ⊢
  split
  · next hfree =>
    refine ⟨hname, hlinked.addInverse ?_ (by simpa using hfree.2)⟩
    rwa [← hname, hfree.1]
  · exact ⟨hname, hlinked⟩

theorem resolveRelations_eq_ok {owned : List (String × List Relation)}
    (h : resolveRelations naming tables decls = .ok owned) :
    Keyed (fun d relations => LinkedOf naming tables d.name d.relations relations) decls owned := by
  obtain ⟨links, hlinks, h⟩ := bind_eq_ok_iff.1 h
  obtain rfl := pure_eq_ok_iff.1 h
  have hsound : links.Sound naming tables decls := foldlM_invariant_done
    (P := fun done links => links.Sound naming tables done) ⟨.nil, by simp⟩
    (fun _ _ _ _ _ hacc hd => hacc.addModel hd) hlinks
  obtain ⟨howned, hinverses⟩ := hsound
  generalize links.inverses = inverses at hinverses
  generalize links.owned = owned at howned
  induction inverses generalizing owned with
  | nil => exact howned
  | cons inverse rest ih =>
    rw [List.forall_mem_cons] at hinverses
    exact ih hinverses.2 _ (keyed_addInverse howned hinverses.1)

structure Declares (naming : Naming) (tables : List (String × Table)) (d : ModelDecl)
    (m : Model) : Prop where
  name : m.name = d.name
  table : d.resolveTable naming = .ok m.table
  listed : tables.lookup d.name = some m.table
  relations : LinkedOf naming tables d.name d.relations m.relations

/-- The tables of the declared models, and the models as they are declared. -/
structure ResolvesTo (naming : Naming) (decls : List ModelDecl) (tables : List (String × Table))
    (s : Schema) : Prop where
  keyed : Keyed (fun d table => d.resolveTable naming = .ok table) decls tables
  distinct : (decls.map ModelDecl.name).Nodup
  models : List.Forall₂ (Declares naming tables) decls s.models

theorem resolvesTo_of_resolve {settings : Settings} {s : Schema}
    (h : Schema.resolve settings decls = .ok s) :
    ∃ tables, s.ResolvesTo settings.naming decls tables := by
  obtain ⟨tables, htables, h⟩ := bind_eq_ok_iff.1 h
  obtain ⟨relations, hrelations, h⟩ := bind_eq_ok_iff.1 h
  obtain rfl := pure_eq_ok_iff.1 h
  obtain ⟨hkeyed, hdistinct⟩ := resolveTables_eq_ok htables
  have howned := resolveRelations_eq_ok hrelations
  refine ⟨tables, hkeyed, hdistinct, ?_⟩
  refine List.forall₂_map_right_iff.2 (List.forall₂_same.2 fun d hd => ?_)
  obtain ⟨table, hlookup, htable⟩ := hkeyed.lookup hdistinct hd
  obtain ⟨rs, hfound, hlinked⟩ := howned.lookup hdistinct hd
  exact {
    name := rfl
    table := by rw [htable, hlookup, Option.getD_some]
    listed := by rw [hlookup, Option.getD_some]
    relations := by
      rw [hfound, Option.getD_some]
      exact hlinked }

namespace ResolvesTo

variable {s : Schema} (h : s.ResolvesTo naming decls tables)

include h

theorem names : s.models.map Model.name = decls.map ModelDecl.name := by
  rw [← List.forall₂_eq_eq_eq, List.forall₂_map_left_iff, List.forall₂_map_right_iff]
  exact List.Forall₂.imp (fun m d hm => hm.name) h.models.flip

theorem model?_name {m : Model} (hm : m ∈ s.models) : s.model? m.name = some m := by
  have hdistinct := h.distinct
  rw [← h.names] at hdistinct
  exact (find?_key_eq_some_iff hdistinct).2 ⟨hm, rfl⟩

theorem exists_model {name : String} {table : Table} (ht : tables.lookup name = some table) :
    ∃ m, s.model? name = some m ∧ m ∈ s.models ∧ m.name = name ∧ m.table = table := by
  obtain ⟨d, hd, rfl, -⟩ := h.keyed.of_lookup ht
  obtain ⟨m, hm, hdeclares⟩ := exists_of_mem_left h.models hd
  have hsame := hdeclares.listed.symm.trans ht
  refine ⟨m, ?_, hm, hdeclares.name, Option.some.inj hsame⟩
  rw [← hdeclares.name]
  exact h.model?_name hm

theorem linked_of_mem {m : Model} (hm : m ∈ s.models) :
    (∃ d ∈ decls, Declares naming tables d m) ∧
      ∀ r ∈ m.relations, Linked naming tables m.name r := by
  obtain ⟨d, hd, hdeclares⟩ := exists_of_mem_right h.models hm
  refine ⟨⟨d, hd, hdeclares⟩, fun r hr => ?_⟩
  rw [hdeclares.name]
  exact hdeclares.relations.origin r hr

end ResolvesTo

end Schema

end PathQuery
