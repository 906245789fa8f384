import Mathlib.Data.List.Induction
import PathQuery.Proofs.Schema.Linked

/-!
The attributes of a table. A model is declared call by call; an attribute may be declared again, be
given one column after another, or be named in a key only. What its table lists is read off the
calls alone: each attribute once, in the order in which it is declared first, with the last of its
columns.
-/

set_option autoImplicit false

namespace PathQuery

section FirstOccurrences

variable {α : Type} [BEq α] [LawfulBEq α] {xs ys : List α}

theorem eraseDups_concat_of_mem {x : α} (h : x ∈ xs) : (xs ++ [x]).eraseDups = xs.eraseDups := by
  rw [List.eraseDups_append]
  simp [List.removeAll, h]

theorem eraseDups_concat_of_notMem {x : α} (h : x ∉ xs) :
    (xs ++ [x]).eraseDups = xs.eraseDups ++ [x] := by
  rw [List.eraseDups_append]
  simp [List.removeAll, h, List.eraseDups_cons]

theorem nodup_eraseDups (xs : List α) : xs.eraseDups.Nodup := by
  induction xs using List.reverseRecOn with
  | nil => exact List.nodup_nil
  | append_singleton xs x ih =>
    by_cases hx : x ∈ xs
    · rwa [eraseDups_concat_of_mem hx]
    · rw [eraseDups_concat_of_notMem hx, List.nodup_append]
      refine ⟨ih, List.nodup_singleton x, fun a ha b hb hab => hx ?_⟩
      rw [← List.mem_singleton.1 hb, ← hab]
      exact List.mem_eraseDups.1 ha

theorem mem_iff_of_eraseDups_eq (h : xs.eraseDups = ys.eraseDups) (a : α) : a ∈ xs ↔ a ∈ ys := by
  rw [← List.mem_eraseDups, h, List.mem_eraseDups]

/-- For what stands behind it counts what is in front, not how often. -/
theorem eraseDups_append_congr (h : xs.eraseDups = ys.eraseDups) (zs : List α) :
    (xs ++ zs).eraseDups = (ys ++ zs).eraseDups := by
  have hrest : zs.removeAll xs = zs.removeAll ys := by
    refine List.filter_congr fun a _ => ?_
    rw [Bool.eq_iff_iff]
    simp [mem_iff_of_eraseDups_eq h a]
  rw [List.eraseDups_append, List.eraseDups_append, h, hrest]

theorem eraseDups_append_of_disjoint (h : ∀ a ∈ ys, a ∉ xs) :
    (xs ++ ys).eraseDups = xs.eraseDups ++ ys.eraseDups := by
  rw [List.eraseDups_append, List.removeAll, List.filter_eq_self.2 (by simpa using h)]

end FirstOccurrences

/-- What a reversed list has under a key is what stands last under it. -/
theorem lookup_reverse {α : Type} (entries : List (String × α)) (name : String) :
    entries.reverse.lookup name = ((entries.filter (·.1 == name)).getLast?).map Prod.snd := by
  rw [List.getLast?_filter]
  induction entries.reverse with
  | nil => rfl
  | cons entry rest ih =>
    rw [List.lookup_cons, List.find?_cons, Bool.beq_comm]
    split
    · rfl
    · exact ih

namespace Table

variable {column : String → String}

theorem assign_of_mem {names : List String} {name : String} (h : name ∈ names) :
    assign (names.map fun n => (n, column n)) name (column name) =
      names.map fun n => (n, column n) := by
  induction names with
  | nil => cases h
  | cons n rest ih =>
    rw [List.map_cons, assign]
    split
    · next heq =>
      obtain rfl : n = name := heq
      rfl
    · next hne => rw [ih ((List.mem_cons.1 h).resolve_left (Ne.symm hne))]

theorem assign_of_notMem {columns : List (String × String)} {name : String}
    (h : name ∉ columns.map Prod.fst) (c : String) :
    assign columns name c = columns ++ [(name, c)] := by
  induction columns with
  | nil => rfl
  | cons entry rest ih =>
    rw [List.map_cons, List.mem_cons, not_or] at h
    rw [assign, if_neg (Ne.symm h.1), ih h.2, List.cons_append]

/-- A column that hangs on the attribute alone is assigned where the attribute comes first. -/
theorem foldl_assign (column : String → String) (names : List String) :
    names.foldl (fun columns name => assign columns name (column name)) [] =
      names.eraseDups.map fun name => (name, column name) := by
  induction names using List.reverseRecOn with
  | nil => rfl
  | append_singleton names name ih =>
    rw [List.foldl_concat, ih]
    by_cases hname : name ∈ names
    · rw [eraseDups_concat_of_mem hname, assign_of_mem (List.mem_eraseDups.2 hname)]
    · rw [eraseDups_concat_of_notMem hname, assign_of_notMem (by simpa using hname),
        List.map_append, List.map_singleton]

theorem columns_foldl_withColumn (column : String → String) (names : List String) (t : Table) :
    (names.foldl (fun t name => t.withColumn name (column name)) t).columns =
      names.foldl (fun columns name => assign columns name (column name)) t.columns := by
  induction names generalizing t with
  | nil => rfl
  | cons name rest ih => exact ih _

theorem primaryKey_foldl_withColumn (column : String → String) (names : List String) (t : Table) :
    (names.foldl (fun t name => t.withColumn name (column name)) t).primaryKey = t.primaryKey := by
  induction names generalizing t with
  | nil => rfl
  | cons name rest ih => exact ih _

end Table

namespace ModelDecl

inductive Call where
  | attributes (names : List String)
  | column (name column : String)
  | primaryKey (names : List String)

namespace Call

def run (d : ModelDecl) : Call → ModelDecl
  | .attributes names => d.withAttributes names
  | .column name c => d.withColumn name c
  | .primaryKey names => d.withPrimaryKey names

def names : Call → List String
  | .attributes names => names
  | .column name _ => [name]
  | .primaryKey _ => []

def given? : Call → Option (String × String)
  | .column name c => some (name, c)
  | _ => none

def key? : Call → Option (List String)
  | .primaryKey names => some names
  | _ => none

end Call

def declaredBy (calls : List Call) : List String :=
  calls.flatMap Call.names

def lastColumn? (calls : List Call) (name : String) : Option String :=
  ((calls.filterMap Call.given?).filter (·.1 == name)).getLast?.map Prod.snd

def lastKey? (calls : List Call) : Option (List String) :=
  (calls.filterMap Call.key?).getLast?

def after (d : ModelDecl) (calls : List Call) : ModelDecl :=
  calls.foldl Call.run d

/-- The declaration holds what the calls have told it, and nothing else about attributes. -/
structure Told (calls : List Call) (d : ModelDecl) : Prop where
  attributes : d.attributes.eraseDups = (declaredBy calls).eraseDups
  columns : d.columns = calls.filterMap Call.given?
  primaryKey : d.primaryKey = lastKey? calls

theorem Told.run {calls : List Call} {d : ModelDecl} (h : Told calls d) (call : Call) :
    Told (calls ++ [call]) (call.run d) := by
  have hdeclared : declaredBy (calls ++ [call]) = declaredBy calls ++ call.names := by
    simp [declaredBy]
  have hgiven : (calls ++ [call]).filterMap Call.given? = d.columns ++ call.given?.toList := by
    rw [List.filterMap_append, h.columns]
    cases call <;> rfl
  have hkey : lastKey? (calls ++ [call]) = call.key?.or d.primaryKey := by
    rw [lastKey?, List.filterMap_append, h.primaryKey]
    cases call <;> simp [Call.key?, lastKey?]
  cases call with
  | attributes names =>
    exact {
      attributes := by rw [hdeclared]; exact eraseDups_append_congr h.attributes names
      columns := by rw [hgiven]; exact (List.append_nil _).symm
      primaryKey := hkey.symm }
  | column name column =>
    refine { attributes := ?_, columns := hgiven.symm, primaryKey := hkey.symm }
    rw [hdeclared, Call.names, ← eraseDups_append_congr h.attributes [name]]
    simp only [Call.run, withColumn]
    split
    · next hmem => rw [eraseDups_concat_of_mem (by simpa using hmem)]
    · rfl
  | primaryKey names =>
    exact {
      attributes := by rw [hdeclared, Call.names, List.append_nil]; exact h.attributes
      columns := by rw [hgiven]; exact (List.append_nil _).symm
      primaryKey := hkey.symm }

theorem told_after (name table : String) (calls : List Call) :
    Told calls (after { name, table } calls) := by
  induction calls using List.reverseRecOn with
  | nil => exact ⟨rfl, rfl, rfl⟩
  | append_singleton calls call ih =>
    rw [after, List.foldl_concat]
    exact ih.run call

variable {naming : Naming} {d : ModelDecl} {t : Table}

theorem columns_of_resolveTable (h : d.resolveTable naming = .ok t) :
    t.columns = (d.allAttributes naming).eraseDups.map fun name =>
      (name, d.columnFor naming name) := by
  obtain ⟨_, -, rfl⟩ := map_eq_ok_iff.1 h
  rw [Table.columns_foldl_withColumn]
  exact Table.foldl_assign _ _

theorem primaryKey_of_resolveTable (h : d.resolveTable naming = .ok t) :
    t.primaryKey = d.keyNames naming := by
  obtain ⟨_, -, rfl⟩ := map_eq_ok_iff.1 h
  exact Table.primaryKey_foldl_withColumn _ _ _

namespace Told

variable {calls : List Call}

theorem keyNames (h : Told calls d) (naming : Naming) :
    d.keyNames naming = (lastKey? calls).getD [naming.primaryKey] := by
  rw [ModelDecl.keyNames, h.primaryKey]

theorem columnFor (h : Told calls d) (naming : Naming) (name : String) :
    d.columnFor naming name = (lastColumn? calls name).getD (naming.columnFor name) := by
  rw [ModelDecl.columnFor, lookup_reverse, h.columns, lastColumn?]

theorem mem_attributes (h : Told calls d) (name : String) :
    name ∈ d.attributes ↔ name ∈ declaredBy calls :=
  mem_iff_of_eraseDups_eq h.attributes name

theorem allAttributes (h : Told calls d) (naming : Naming) :
    (d.allAttributes naming).eraseDups =
      ((d.keyNames naming).filter (· ∉ declaredBy calls)).eraseDups ++
        (declaredBy calls).eraseDups := by
  have hkey : (d.keyNames naming).filter (! d.attributes.contains ·) =
      (d.keyNames naming).filter (· ∉ declaredBy calls) := by
    refine List.filter_congr fun name _ => ?_
    rw [Bool.eq_iff_iff]
    simp [h.mem_attributes name]
  rw [ModelDecl.allAttributes, hkey, eraseDups_append_of_disjoint, h.attributes]
  intro name hname
  simp [(h.mem_attributes name).1 hname]

end Told

theorem names_of_resolveTable (h : d.resolveTable naming = .ok t) :
    t.columns.map Prod.fst = (d.allAttributes naming).eraseDups := by
  rw [columns_of_resolveTable h, List.map_map]
  exact List.map_id _

theorem nodup_of_resolveTable (h : d.resolveTable naming = .ok t) :
    (t.columns.map Prod.fst).Nodup := by
  rw [names_of_resolveTable h]
  exact nodup_eraseDups _

theorem mem_columns_of_mem_primaryKey (h : d.resolveTable naming = .ok t) {key : String}
    (hkey : key ∈ t.primaryKey) : (key, t.columnOf key) ∈ t.columns := by
  rw [primaryKey_of_resolveTable h] at hkey
  have hall : key ∈ d.allAttributes naming := by
    rw [allAttributes, List.mem_append]
    by_cases hdeclared : key ∈ d.attributes
    · exact .inr hdeclared
    · exact .inl (List.mem_filter.2 ⟨hkey, by simpa using hdeclared⟩)
  have hmem : (key, d.columnFor naming key) ∈ t.columns := by
    rw [columns_of_resolveTable h]
    exact List.mem_map_of_mem (List.mem_eraseDups.2 hall)
  have hcolumn : t.columnOf key = d.columnFor naming key := by
    rw [Table.columnOf, Table.column?,
      (lookup_eq_some_iff_mem (nodup_of_resolveTable h)).2 hmem, Option.getD_some]
  rwa [hcolumn]

/-- A model that any calls have declared, in any order and as often as they like: its table lists
each attribute once, those that are named in the key alone first, in the order of the key, and then
those that are declared, in the order of their first declaration. The column of an attribute is the
last one given to it, or else follows the naming settings. The key is the last one declared, and
each of its attributes has its column in the table. -/
theorem resolveTable_lists_attributes (naming : Naming) (name table : String) (calls : List Call)
    (t : Table) (h : (after { name, table } calls).resolveTable naming = .ok t) :
    t.columns.map Prod.fst =
        (t.primaryKey.filter (· ∉ declaredBy calls)).eraseDups ++ (declaredBy calls).eraseDups ∧
      (t.columns.map Prod.fst).Nodup ∧
      (∀ entry ∈ t.columns,
        entry.2 = (lastColumn? calls entry.1).getD (naming.columnFor entry.1)) ∧
      t.primaryKey = (lastKey? calls).getD [naming.primaryKey] ∧
      List.Forall₂ (fun key column => (key, column) ∈ t.columns) t.primaryKey
        t.primaryKeyColumns := by
  have htold := told_after name table calls
  have hcolumns := columns_of_resolveTable h
  have hkey := primaryKey_of_resolveTable h
  refine ⟨?_, nodup_of_resolveTable h, ?_, ?_, ?_⟩
  · rw [names_of_resolveTable h, htold.allAttributes, hkey]
  · intro entry hentry
    rw [hcolumns] at hentry
    obtain ⟨name', -, rfl⟩ := List.mem_map.1 hentry
    exact htold.columnFor naming name'
  · rw [hkey, htold.keyNames]
  · refine List.forall₂_map_right_iff.2 (List.forall₂_same.2 fun key hmem => ?_)
    exact mem_columns_of_mem_primaryKey h hmem

def articleCalls : List Call :=
  [.attributes ["title", "authorId", "title"], .column "title" "headline", .primaryKey ["id"],
    .primaryKey ["blogId", "authorId", "blogId"], .column "views" "hits", .attributes ["views"],
    .column "title" "name"]

def articleTable : Table where
  name := "articles"
  tableAlias := "articles"
  columns :=
    [("blogId", "blog_id"), ("title", "name"), ("authorId", "author_id"), ("views", "hits")]
  primaryKey := ["blogId", "authorId", "blogId"]

theorem resolveTable_lists_attributes_of_article :
    (after { name := "Article", table := "articles" } articleCalls).resolveTable {} =
        .ok articleTable ∧
      articleTable.columns.map Prod.fst =
        (articleTable.primaryKey.filter (· ∉ declaredBy articleCalls)).eraseDups ++
          (declaredBy articleCalls).eraseDups ∧
      (articleTable.columns.map Prod.fst).Nodup ∧
      (∀ entry ∈ articleTable.columns,
        entry.2 = (lastColumn? articleCalls entry.1).getD (Naming.columnFor {} entry.1)) ∧
      articleTable.primaryKey = (lastKey? articleCalls).getD ["id"] ∧
      List.Forall₂ (fun key column => (key, column) ∈ articleTable.columns) articleTable.primaryKey
        articleTable.primaryKeyColumns := by
  have h : (after { name := "Article", table := "articles" } articleCalls).resolveTable {} =
      .ok articleTable := by with_unfolding_all rfl
  exact ⟨h, resolveTable_lists_attributes {} "Article" "articles" articleCalls articleTable h⟩

end ModelDecl

end PathQuery
