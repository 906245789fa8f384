import PathQuery.Proofs.Filter.Resolved
import PathQuery.Proofs.Schema.Closed
import PathQuery.Proofs.Schema.HookCalls

/-!
How resolving a filter fails. Besides errors, which a caller is told about, there is what the calls
of hooks come to and one comparison that has no test: that of a key without columns with an empty
list.
-/

set_option autoImplicit false

namespace PathQuery

def Failure.IsError (e : Failure) : Prop :=
  ∃ err, e = .error err

namespace Condition

variable {a column : String} {op : Operator} {v : Value} {e : Failure}

theorem isError_of_nullTest (h : nullTest a column op = .error e) : e.IsError := by
  unfold nullTest at h
  split at h
  all_goals cases h
  exact ⟨_, rfl⟩

theorem isError_of_ofScalar (h : ofScalar a column op v = .error e) : e.IsError := by
  fun_induction ofScalar a column op v with
  | case7 _ _ _ v ih => exact ih h
  | _ => first
    | exact isError_of_nullTest h
    | cases h <;> exact ⟨_, rfl⟩

theorem isError_of_ofTuple {columns : List String} {inner : Connective} {values : List Value}
    (h : ofTuple a columns op inner values = .error e) : e.IsError := by
  unfold ofTuple at h
  split at h
  · cases h
    exact ⟨_, rfl⟩
  · rcases bind_eq_error_iff.1 h with h | ⟨tests, -, h⟩
    · obtain ⟨⟨column, v⟩, -, h⟩ := mapM_eq_error h
      exact isError_of_ofScalar h
    · cases h

theorem tupleSense_cases (op : Operator) :
    (∃ negated, tupleSense op = .ok negated ∧ op ∈ [.eq, .isIn, .ne, .notIn]) ∨
      ∃ err, tupleSense op = .error (.error err) := by
  cases op
  case eq | isIn | ne | notIn => exact .inl ⟨_, rfl, by simp⟩
  all_goals exact .inr ⟨_, rfl⟩

theorem failure_of_ofTupleList {columns : List String} {negated : Bool} {ts : List (List Value)}
    (h : ofTupleList a columns negated ts = .error e) :
    e.IsError ∨ e = .keyless ∧ columns = [] ∧ ts = [] := by
  cases ts with
  | nil =>
    cases columns with
    | nil => exact .inr ⟨(Except.error.inj h).symm, rfl, rfl⟩
    | cons column rest => cases h
  | cons values rest =>
    rcases bind_eq_error_iff.1 h with h | ⟨groups, -, h⟩
    · obtain ⟨values, -, h⟩ := mapM_eq_error h
      exact .inl (isError_of_ofTuple h)
    · split at h <;> cases h

theorem tuples_eq_nil (h : tuples v = []) : v = .list [] := by
  cases v with
  | list items =>
    cases items with
    | nil => rfl
    | cons v rest =>
      rw [tuples_list] at h
      split at h <;> simp at h
  | _ => simp [tuples] at h

/-- Only a comparison of no column with an empty list fails with no error. -/
theorem failure_of_ofColumns {columns : List String} (h : ofColumns a op v columns = .error e) :
    e.IsError ∨
      e = .keyless ∧ columns = [] ∧ v = .list [] ∧ op ∈ [.eq, .isIn, .ne, .notIn] := by
  unfold ofColumns at h
  split at h
  · exact .inl (isError_of_ofScalar h)
  · rw [ofTuples_eq] at h
    rcases tupleSense_cases op with ⟨negated, hsense, hop⟩ | ⟨err, herr⟩
    · rw [hsense] at h
      rcases failure_of_ofTupleList h with herror | ⟨hkeyless, hcolumns, htuples⟩
      · exact .inl herror
      · exact .inr ⟨hkeyless, hcolumns, tuples_eq_nil htuples, hop⟩
    · rw [herr] at h
      cases h
      exact .inl ⟨err, rfl⟩

end Condition

namespace Building

open JoinTree

variable {F : Failure → Prop} {α β : Type} {t : JoinTree}

def Fails (F : Failure → Prop) (m : Building α) (t : JoinTree) : Prop :=
  ∀ e, m t = .error e → F e

theorem fails_pure (a : α) : Fails F (pure a) t := by
  intro e he
  cases he

theorem fails_throw {e : Failure} (h : F e) : Fails F (throw e : Building α) t := by
  intro e' he
  obtain rfl : e = e' := Except.error.inj he
  exact h

theorem fails_get {f : JoinTree → Building β} (h : Fails F (f t) t) : Fails F (get >>= f) t :=
  h

theorem Fails.bind {m : Building α} {f : α → Building β} (h : Fails F m t)
    (hf : ∀ a u, m t = .ok (a, u) → Fails F (f a) u) : Fails F (m >>= f) t := by
  intro e he
  change (m t >>= fun p => f p.1 p.2) = .error e at he
  rcases bind_eq_error_iff.1 he with he | ⟨p, hp, he⟩
  · exact h e he
  · exact hf p.1 p.2 hp e he

theorem Fails.mono {G : Failure → Prop} {m : Building α} (h : Fails F m t) (hFG : ∀ e, F e → G e) :
    Fails G m t :=
  fun e he => hFG e (h e he)

theorem Fails.congr {m n : Building α} (h : m t = n t) (hn : Fails F n t) : Fails F m t := by
  intro e he
  rw [h] at he
  exact hn e he

theorem fails_lift {x : Except Failure α} (h : ∀ e, x = .error e → F e) :
    Fails F (liftM x : Building α) t := by
  cases x with
  | error e => exact fails_throw (h e rfl)
  | ok a => exact fails_pure a

theorem fails_modify (f : JoinTree → JoinTree) : Fails F (modify f : Building Unit) t := by
  intro e he
  cases he

section Errors

variable (herror : ∀ err, F (.error err))

include herror

theorem fails_step (f : JoinTree → Except Error α × JoinTree) : Fails F (step f) t := by
  intro e he
  rcases hf : f t with ⟨err | a, u⟩
  · simp only [step, hf] at he
    obtain rfl := Except.error.inj he
    exact herror err
  · simp [step, hf] at he

theorem fails_ofExcept (x : Except Error α) : Fails F (ofExcept x) t := by
  cases x with
  | error err => exact fails_throw (herror err)
  | ok a => exact fails_pure a

theorem fails_columnsOf (id : Nat) (name : String) : Fails F (columnsOf id name) t := by
  by_cases hcomma : name.toList.contains ',' = true
  · exact Fails.congr (columnsOf_list hcomma) (fails_pure _)
  cases hr : (t.model? id).bind (·.relation? name) with
  | none => exact Fails.congr (columnsOf_attribute hcomma hr) (fails_pure _)
  | some r =>
    by_cases hkind : r.kind = .belongsTo
    · exact Fails.congr (columnsOf_belongsTo hcomma hr hkind) (fails_pure _)
    · refine Fails.congr (columnsOf_relation hcomma hr hkind) ?_
      exact (fails_step herror _).bind fun _ _ _ => fails_get (fails_pure _)

theorem fails_target (scope : Nat) (path : String) : Fails F (target scope path) t :=
  (fails_step herror _).bind fun p _ _ => fails_columnsOf herror p.1 p.2

end Errors

end Building

namespace Schema

/-- The comparison asks whether an empty list holds the key of what a relation leads to, and the key
there has no columns. -/
inductive AsksNoKey (s : Schema) (m : Model) (x : Comparison) : Prop
  | intro {op : Operator} {m' linked : Model} {name : String} {r : Relation}
    (read : Operator.parse x.operator = .ok op)
    (equality : op ∈ [.eq, .isIn, .ne, .notIn])
    (ends : s.pathEnd? m x.path = some (m', name))
    (plain : m'.hook? name = none)
    (single : ¬ name.toList.contains ',' = true)
    (relation : m'.relation? name = some r)
    (away : r.kind ≠ .belongsTo)
    (leads : s.model? r.linked.model = some linked)
    (keyless : linked.table.primaryKey = [])
    (empty : x.value.dereference = .list [])

def LeadsToNoKey (s : Schema) (c : Model × Filter) : Prop :=
  ∃ c', s.LeadsTo c c' ∧ ∃ x ∈ c'.2.comparisons, s.AsksNoKey c'.1 x

theorem LeadsToNoKey.of_call {s : Schema} {c c' : Model × Filter} (hc : c' ∈ s.calls c)
    (h : s.LeadsToNoKey c') : s.LeadsToNoKey c := by
  obtain ⟨c'', hleads, hx⟩ := h
  exact ⟨c'', .head hc hleads, hx⟩

end Schema

namespace JoinTree

variable {s : Schema} {t : JoinTree}

/-- Columns are missing only where a relation leads to a model with an empty key. -/
theorem Over.columnsOf_nil (h : t.Over s) (hclosed : s.Closed) {id target : Nat} {name : String}
    (hcolumns : Building.columnsOf id name t = .ok ((target, []), t)) :
    ∃ m r linked, t.model? id = some m ∧ ¬ name.toList.contains ',' = true ∧
      m.relation? name = some r ∧ r.kind ≠ .belongsTo ∧ s.model? r.linked.model = some linked ∧
      linked.table.primaryKey = [] := by
  by_cases hcomma : name.toList.contains ',' = true
  · rw [Building.columnsOf_list hcomma] at hcolumns
    simp [Building.listed, Text.splitOn_ne_nil] at hcolumns
  cases hr : (t.model? id).bind (·.relation? name) with
  | none =>
    rw [Building.columnsOf_attribute hcomma hr] at hcolumns
    simp at hcolumns
  | some r =>
    by_cases hkind : r.kind = .belongsTo
    · rw [Building.columnsOf_belongsTo hcomma hr hkind] at hcolumns
      simp at hcolumns
    obtain ⟨m, hm, hrelation⟩ := Option.bind_eq_some_iff.1 hr
    obtain ⟨hchild, hkey⟩ := Building.of_columnsOf_relation hcomma hr hkind hcolumns
    have hschema := h.schema_eq hm
    obtain ⟨linked, hlinked, -⟩ := hclosed.linked m (mem_of_model? hschema hm) r
      (List.mem_of_find?_eq_some hrelation)
    have htarget : t.model? target = some linked := by
      rw [model?_child h.wellFormed hschema (child_of_lookup hchild), hm, Option.bind_some,
        Schema.follow, hrelation, Option.bind_some, hlinked]
    refine ⟨m, r, linked, hm, hcomma, hrelation, hkind, hlinked, ?_⟩
    have hempty : linked.table.primaryKeyColumns = [] := by
      rw [table, htarget] at hkey
      exact hkey.symm
    simpa [Table.primaryKeyColumns] using hempty

end JoinTree

namespace Filter

open Building JoinTree

variable {s : Schema} {F : Failure → Prop} {expand : Expansion} {scope : Nat} {t : JoinTree}

structure Allows (s : Schema) (F : Failure → Prop) (expand : Expansion) (m : Model)
    (x : Comparison) : Prop where
  hooked : ∀ c, s.call? m x = some c → ∀ id u, u.Over s → id < u.size → u.model? id = some c.1 →
    Fails F (expand id c.2) u
  keyless : s.AsksNoKey m x → F .keyless

theorem fails_resolveCompare (hclosed : s.Closed) (herror : ∀ err, F (.error err)) (ht : t.Over s)
    (hscope : scope < t.size) (c : Connective) (path operator : String) (v : Value)
    (hallows : ∀ m, t.model? scope = some m → Allows s F expand m ⟨path, operator, v⟩) :
    Fails F (resolveCompare expand scope c path operator v) t := by
  have htell : ∀ {e : Failure}, e.IsError → F e := by
    rintro e ⟨err, rfl⟩
    exact herror err
  rw [resolveCompare_eq]
  refine (fails_ofExcept herror _).bind fun op _ hop => ?_
  obtain ⟨-, -, hread, hsame⟩ := leads_ofExcept (P := fun _ _ => True) _ op _ hop
  rw [hsame]
  refine (fails_step herror _).bind fun p u hp => ?_
  obtain ⟨id, name⟩ := p
  obtain ⟨hu, -, hid, hfound⟩ :=
    leads_resolveFrom (P := fun _ _ => True) ht.wellFormed hscope path _ u hp
  have hover := ht.later hu
  have hends : ∀ m', u.model? id = some m' →
      ∃ m, t.model? scope = some m ∧ s.pathEnd? m path = some (m', name) := by
    intro m' hm'
    obtain ⟨m, hm, hend⟩ := hover.pathEnd? hfound hm'
    exact ⟨m, by rwa [← hu.grown.model? scope hscope], hend⟩
  refine fails_get ?_
  cases hhook : (u.model? id).bind (·.hook? name) with
  | some hook =>
    obtain ⟨m', hm', hnamed⟩ := Option.bind_eq_some_iff.1 hhook
    obtain ⟨m, hm, hend⟩ := hends m' hm'
    refine (fails_ofExcept herror _).bind fun f _ hf => ?_
    obtain ⟨-, -, hf, hsame⟩ := leads_ofExcept (P := fun _ _ => True) _ f _ hf
    rw [hsame]
    have hcall := Schema.call?_eq_some (x := ⟨path, operator, v⟩) hread hend hnamed hf
    exact ((hallows m hm).hooked _ hcall id _ hover hid hm').bind fun xs _ _ => fails_pure _
  | none =>
    refine (fails_columnsOf herror id name).bind fun q w hq => ?_
    obtain ⟨target, columns⟩ := q
    obtain ⟨hw, -, -, hagain⟩ :=
      leads_columnsOf (P := fun _ _ => True) hover.wellFormed hid name _ w hq
    refine Fails.bind (m := aliasOf target) (fails_get (fails_pure _)) fun a _ _ => ?_
    have hmade : ∀ e, Condition.ofColumns a op v.dereference columns = .error e → F e := by
      intro e he
      rcases Condition.failure_of_ofColumns he with herr | ⟨rfl, rfl, hempty, hequality⟩
      · exact htell herr
      obtain ⟨m', r, linked, hm', hsingle, hrelation, haway, hlinked, hkey⟩ :=
        (hover.later hw).columnsOf_nil hclosed (hagain w .start)
      rw [hw.grown.model? id hid] at hm'
      obtain ⟨m, hm, hend⟩ := hends m' hm'
      have hplain : m'.hook? name = none := by simpa [hm'] using hhook
      exact (hallows m hm).keyless (.intro hread hequality hend hplain hsingle hrelation haway
        hlinked hkey hempty)
    refine (fails_lift hmade).bind fun x _ _ => ?_
    exact (fails_modify _).bind fun _ _ _ => fails_pure _

theorem fails_resolveMembership (herror : ∀ err, F (.error err)) (c : Connective) (path : String)
    (values : List Value) (negated : Bool) :
    Fails F (resolveMembership scope c path values negated) t := by
  refine (fails_target herror scope path).bind fun p u _ => ?_
  obtain ⟨id, columns⟩ := p
  match columns with
  | [column] =>
    refine (fails_get (fails_pure _)).bind fun a _ _ => ?_
    exact (fails_modify _).bind fun _ _ _ => fails_pure _
  | [] => exact fails_throw (herror _)
  | _ :: _ :: _ => exact fails_throw (herror _)

theorem fails_resolveColumns (herror : ∀ err, F (.error err)) (c : Connective)
    (left operator right : String) :
    Fails F (resolveColumns scope c left operator right) t := by
  refine (fails_ofExcept herror _).bind fun op _ _ => ?_
  refine (fails_target herror scope left).bind fun l _ _ => ?_
  refine (fails_target herror scope right).bind fun r _ _ => ?_
  obtain ⟨leftId, leftColumns⟩ := l
  obtain ⟨rightId, rightColumns⟩ := r
  match leftColumns, rightColumns with
  | [leftColumn], [rightColumn] =>
    refine (fails_get (fails_pure _)).bind fun a _ _ => ?_
    refine (fails_get (fails_pure _)).bind fun b _ _ => ?_
    exact (fails_modify _).bind fun _ _ _ => fails_pure _
  | [], _ => exact fails_throw (herror _)
  | _ :: _ :: _, _ => exact fails_throw (herror _)
  | [_], [] => exact fails_throw (herror _)
  | [_], _ :: _ :: _ => exact fails_throw (herror _)

mutual

theorem fails_resolveCriterion (hclosed : s.Closed) (herror : ∀ err, F (.error err))
    (hexpand : Expands (fun _ _ => True) expand) (x : Criterion) (t : JoinTree) (ht : t.Over s)
    (hscope : scope < t.size)
    (hallows : ∀ m, t.model? scope = some m → ∀ y ∈ x.comparisons, Allows s F expand m y) :
    Fails F (resolveCriterion expand scope x) t := by
  cases x with
  | compare c path op v =>
    exact fails_resolveCompare hclosed herror ht hscope c path op v fun m hm =>
      hallows m hm _ (by simp [Criterion.comparisons])
  | group c members =>
    exact (fails_resolveAll hclosed herror hexpand members t ht hscope hallows).bind
      fun _ _ _ => fails_pure _
  | membership c path values negated => exact fails_resolveMembership herror c path values negated
  | columns c left op right => exact fails_resolveColumns herror c left op right
  | existence c query negated => exact fails_pure _
  | subquery c query operator v =>
    exact (fails_ofExcept herror _).bind fun _ _ _ => fails_pure _
termination_by structural x

theorem fails_resolveAll (hclosed : s.Closed) (herror : ∀ err, F (.error err))
    (hexpand : Expands (fun _ _ => True) expand) (xs : List Criterion) (t : JoinTree)
    (ht : t.Over s) (hscope : scope < t.size)
    (hallows : ∀ m, t.model? scope = some m → ∀ y ∈ Criterion.comparisonsOf xs,
      Allows s F expand m y) : Fails F (resolveAll expand scope xs) t := by
  cases xs with
  | nil => exact fails_pure _
  | cons x rest =>
    refine (fails_resolveCriterion hclosed herror hexpand x t ht hscope fun m hm y hy =>
      hallows m hm y (List.mem_append_left _ hy)).bind fun c u hu => ?_
    have hreached : Reached t u :=
      (leads_resolveCriterion hexpand x t ht.wellFormed hscope c u hu).1
    refine (fails_resolveAll hclosed herror hexpand rest u (ht.later hreached)
      (hreached.lt_size hscope) fun m hm y hy =>
        hallows m ?_ y (List.mem_append_right _ hy)).bind fun _ _ _ => fails_pure _
    rwa [← hreached.grown.model? scope hscope]
termination_by structural xs

end

/-- A filter fails without an error, short of the depth, only where it leads to a key without
columns. -/
theorem fails_resolve_keyless (hclosed : s.Closed) (depth scope : Nat) (f : Filter) (t : JoinTree)
    (ht : t.Over s) (hscope : scope < t.size) :
    Fails (fun e => e = .keyless → ∃ m, t.model? scope = some m ∧ s.LeadsToNoKey (m, f))
      (resolve depth scope f) t := by
  induction depth generalizing scope f t with
  | zero =>
    refine fails_resolveAll hclosed (fun _ he => by cases he) (fun _ _ _ _ _ => leads_throw _)
      f.criteria t ht hscope fun m hm x hx => ⟨fun c hc id u hu hid hmodel => ?_, fun hasks _ => ?_⟩
    · exact fails_throw fun he => by cases he
    · exact ⟨m, hm, (m, f), .refl, x, hx, hasks⟩
  | succ depth ih =>
    refine fails_resolveAll hclosed (fun _ he => by cases he) (expands_resolve depth)
      f.criteria t ht hscope fun m hm x hx => ⟨fun c hc id u hu hid hmodel => ?_, fun hasks _ => ?_⟩
    · refine (ih id c.2 u hu hid).mono fun e hkeyless he => ?_
      obtain ⟨m', hm', hleads⟩ := hkeyless he
      obtain rfl : c.1 = m' := Option.some.inj (hmodel.symm.trans hm')
      exact ⟨m, hm, hleads.of_call (Schema.mem_calls (c := (m, f)) hx hc)⟩
    · exact ⟨m, hm, (m, f), .refl, x, hx, hasks⟩

/-- Over a schema that resolved, at any node of any tree and at any depth, no list of columns turns
out empty where its first is asked for, unless the filter leads to a comparison of an empty list
with a key that has no columns. -/
theorem resolve_ne_keyless {settings : Settings} {decls : List ModelDecl} {start : JoinTree}
    (hresolve : Schema.resolve settings decls = .ok s) (hstart : Planted s start)
    (ht : Reached start t) (hscope : scope < t.size) {f : Filter}
    (hkeys : ∀ m, t.model? scope = some m → ¬ s.LeadsToNoKey (m, f)) (depth : Nat) :
    resolve depth scope f t ≠ .error .keyless := by
  intro h
  have hclosed := Schema.closed_of_resolve hresolve
  obtain ⟨m, hm, hleads⟩ :=
    fails_resolve_keyless hclosed depth scope f t (hstart.over.later ht) hscope _ h rfl
  exact hkeys m hm hleads

/-- Where every model has a key, no filter leads to one without parts. -/
theorem not_leadsToNoKey (hkeys : ∀ m ∈ s.models, m.table.primaryKey ≠ []) (c : Model × Filter) :
    ¬ s.LeadsToNoKey c := by
  rintro ⟨c', -, x, -, hasks⟩
  cases hasks with
  | intro read equality ends plain single relation away leads keyless empty =>
    exact hkeys _ (List.mem_of_find?_eq_some leads) keyless

namespace Keyless

def decls : List ModelDecl :=
  [{ name := "Author", table := "authors", attributes := ["id", "name"]
     relations := [{ name := "articles", form := .hasMany, target := "Article" }] },
    { name := "Article", table := "articles", attributes := ["title", "authorId"]
      primaryKey := some [] }]

def articles : Relation :=
  { name := "articles", kind := .hasMany, current := ⟨"Author", "authors", "id", "id"⟩
    linked := ⟨"Article", "articles", "authorId", "author_id"⟩ }

def author : Model :=
  { name := "Author", table := (Table.named "authors").withColumns ["id", "name"]
    relations := [articles], hooks := [] }

def article : Model :=
  { name := "Article", relations := [], hooks := []
    table := (({ Table.named "articles" with primaryKey := [] }).withColumns ["title"]).withColumn
      "authorId" "author_id" }

def schema : Schema :=
  { models := [author, article], settings := {} }

theorem resolves : Schema.resolve {} decls = .ok schema := by
  with_unfolding_all rfl

def root : JoinTree :=
  ⟨some schema, (Table.named "authors").withColumns ["id", "name"], [Node.root (some "Author")]⟩

theorem opens : JoinTree.ofModel schema "Author" = .ok root := by
  with_unfolding_all rfl

theorem resolveCompare_articles (expand : Expansion) :
    resolveCompare expand rootId .and "articles" "=" (.list []) root = .error .keyless := by
  have hpath : Building.resolveFrom rootId "articles" root = .ok ((rootId, "articles"), root) :=
    Building.resolveFrom_segment ⟨by decide, by decide +kernel, by decide⟩ root rootId
  have hop : Building.ofExcept (Operator.parse "=") root = .ok (.eq, root) := by
    with_unfolding_all rfl
  rw [resolveCompare, Building.bind_run hop, Building.bind_run hpath]
  rfl

end Keyless

/-- The title of an article has a column, though its key has none. -/
theorem resolve_ne_keyless_of_titled :
    let f := Filter.empty.eq "articles/title" (.text "A")
    Schema.resolve {} Keyless.decls = .ok Keyless.schema ∧ Planted Keyless.schema Keyless.root ∧
      rootId < Keyless.root.size ∧
      (∀ m, Keyless.root.model? rootId = some m → ¬ Keyless.schema.LeadsToNoKey (m, f)) ∧
      ∀ depth, resolve depth rootId f Keyless.root ≠ .error .keyless := by
  intro f
  have hplanted : Planted Keyless.schema Keyless.root := .model Keyless.opens
  have hsize : rootId < Keyless.root.size := by decide
  have hkeys : ∀ m, Keyless.root.model? rootId = some m → ¬ Keyless.schema.LeadsToNoKey (m, f) := by
    rintro m hm ⟨c, hleads, x, hx, hasks⟩
    obtain rfl : Keyless.author = m := Option.some.inj hm
    have hcalls : Keyless.schema.calls (Keyless.author, f) = [] := by decide +kernel
    rcases hleads.cases_head with rfl | ⟨c', hc', -⟩
    · obtain rfl : x = ⟨"articles/title", "=", .text "A"⟩ := List.mem_singleton.1 hx
      cases hasks with
      | intro read equality ends plain single relation away leads keyless empty => cases empty
    · rw [hcalls] at hc'
      cases hc'
  exact ⟨Keyless.resolves, hplanted, hsize, hkeys,
    resolve_ne_keyless Keyless.resolves hplanted .start hsize hkeys⟩

/-- Authors whose articles are compared with an empty list: at no depth is there an answer. -/
theorem empty_list_of_keyless_unanswered :
    Schema.resolve {} Keyless.decls = .ok Keyless.schema ∧
      JoinTree.ofModel Keyless.schema "Author" = .ok Keyless.root ∧
      ∀ depth, resolve depth rootId (Filter.empty.eq "articles" (.list [])) Keyless.root =
        .error .keyless := by
  refine ⟨Keyless.resolves, Keyless.opens, fun depth => ?_⟩
  have hcompare : ∀ expand, resolveAll expand rootId [.compare .and "articles" "=" (.list [])]
      Keyless.root = .error .keyless := by
    intro expand
    rw [resolveAll, resolveCriterion]
    exact bind_error (Keyless.resolveCompare_articles expand)
  cases depth with
  | zero =>
    rw [resolve]
    exact hcompare _
  | succ depth =>
    rw [resolve]
    exact hcompare _

end Filter

end PathQuery
