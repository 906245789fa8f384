import PathQuery.Proofs.Filter.Failures

/-!
How deep filters are resolved. The filter that a hook returns may call hooks again, and nothing but
the hooks themselves bounds how long that goes on. What is found at some depth is found at every
greater one; if no chain of calls goes on for ever some depth is enough, and a hook that asks for
its own attribute finds no end at any depth.
-/

set_option autoImplicit false

namespace PathQuery

namespace Building

open JoinTree

variable {α β : Type} {t : JoinTree}

def Extends (m m' : Building α) (t : JoinTree) : Prop :=
  m t ≠ .error .endless → m' t = m t

theorem Extends.refl (m : Building α) (t : JoinTree) : Extends m m t :=
  fun _ => rfl

theorem extends_endless (m : Building α) (t : JoinTree) : Extends (throw .endless) m t :=
  fun h => absurd rfl h

theorem Extends.bind {m m' : Building α} {f f' : α → Building β} (h : Extends m m' t)
    (hf : ∀ a u, Extends (f a) (f' a) u) : Extends (m >>= f) (m' >>= f') t := by
  intro hends
  have hsame := h fun he => hends (bind_error he)
  cases hmt : m t with
  | error e =>
    change (m' t >>= fun p => f' p.1 p.2) = (m t >>= fun p => f p.1 p.2)
    rw [hsame, hmt]
    rfl
  | ok p =>
    rw [bind_run hmt] at hends
    rw [bind_run hmt, bind_run (hsame.trans hmt)]
    exact hf p.1 p.2 hends

end Building

namespace Filter

open Building JoinTree

variable {s : Schema} {scope : Nat} {t : JoinTree}

variable {expand expand' : Expansion}

theorem extends_resolveCompare (hexpand : ∀ id f u, Extends (expand id f) (expand' id f) u)
    (c : Connective) (path operator : String) (v : Value) (t : JoinTree) :
    Extends (resolveCompare expand scope c path operator v)
      (resolveCompare expand' scope c path operator v) t := by
  refine (Extends.refl _ t).bind fun op u => (Extends.refl _ u).bind fun p u => ?_
  refine (Extends.refl _ u).bind fun w u => ?_
  cases (w.model? p.1).bind (·.hook? p.2) with
  | some hook =>
    refine (Extends.refl _ u).bind fun f u => ?_
    exact (hexpand p.1 f u).bind fun xs u => .refl _ u
  | none => exact .refl _ u

mutual

theorem extends_resolveCriterion (hexpand : ∀ id f u, Extends (expand id f) (expand' id f) u)
    (x : Criterion) (t : JoinTree) :
    Extends (resolveCriterion expand scope x) (resolveCriterion expand' scope x) t := by
  cases x with
  | compare c path op v => exact extends_resolveCompare hexpand c path op v t
  | group c members => exact (extends_resolveAll hexpand members t).bind fun _ u => .refl _ u
  | membership c path values negated => exact .refl _ t
  | columns c left op right => exact .refl _ t
  | existence c query negated => exact .refl _ t
  | subquery c query op v => exact .refl _ t
termination_by structural x

theorem extends_resolveAll (hexpand : ∀ id f u, Extends (expand id f) (expand' id f) u)
    (xs : List Criterion) (t : JoinTree) :
    Extends (resolveAll expand scope xs) (resolveAll expand' scope xs) t := by
  cases xs with
  | nil => exact .refl _ t
  | cons x rest =>
    refine (extends_resolveCriterion hexpand x t).bind fun y u => ?_
    exact (extends_resolveAll hexpand rest u).bind fun _ u => .refl _ u
termination_by structural xs

end

theorem extends_resolve_succ (depth scope : Nat) (f : Filter) (t : JoinTree) :
    Extends (resolve depth scope f) (resolve (depth + 1) scope f) t := by
  induction depth generalizing scope f t with
  | zero => exact extends_resolveAll (fun id f u => extends_endless _ u) f.criteria t
  | succ depth ih => exact extends_resolveAll ih f.criteria t

/-- What is found within some depth is found within every greater one. -/
theorem resolve_eq_of_le {depth d : Nat} (h : depth ≤ d) (f : Filter)
    (hends : resolve depth scope f t ≠ .error .endless) :
    resolve d scope f t = resolve depth scope f t := by
  induction d, h using Nat.le_induction with
  | base => rfl
  | succ d _ ih => rw [extends_resolve_succ d scope f t (ih ▸ hends), ih]

/-- The depth is not enough only where hooks call hooks beyond it. -/
theorem fails_resolve_endless (hclosed : s.Closed) (depth scope : Nat) (f : Filter) (t : JoinTree)
    (ht : t.Over s) (hscope : scope < t.size) :
    Fails (fun e => e = .endless → ∃ m, t.model? scope = some m ∧ s.CallsOn (depth + 1) (m, f))
      (resolve depth scope f) t := by
  induction depth generalizing scope f t with
  | zero =>
    refine fails_resolveAll hclosed (fun _ he => by cases he) (fun _ _ _ _ _ => leads_throw _)
      f.criteria t ht hscope fun m hm x hx => ⟨fun c hc id u hu hid hmodel => ?_, fun _ he => ?_⟩
    · exact fails_throw fun _ => ⟨m, hm, c, Schema.mem_calls (c := (m, f)) hx hc, trivial⟩
    · cases he
  | succ depth ih =>
    refine fails_resolveAll hclosed (fun _ he => by cases he) (expands_resolve depth)
      f.criteria t ht hscope fun m hm x hx => ⟨fun c hc id u hu hid hmodel => ?_, fun _ he => ?_⟩
    · refine (ih id c.2 u hu hid).mono fun e hcalls he => ?_
      obtain ⟨m', hm', hcalls⟩ := hcalls he
      obtain rfl : c.1 = m' := Option.some.inj (hmodel.symm.trans hm')
      exact ⟨m, hm, c, Schema.mem_calls (c := (m, f)) hx hc, hcalls⟩
    · cases he

/-- Over a schema that resolved, at any node of any tree, resolving a filter comes to an end if no
chain of hook calls that starts with it goes on for ever: from some depth on the depth makes no
difference. -/
theorem resolve_ends {settings : Settings} {decls : List ModelDecl} {start : JoinTree}
    (hresolve : Schema.resolve settings decls = .ok s) (hstart : Planted s start)
    (ht : Reached start t) (hscope : scope < t.size) {f : Filter}
    (hends : ∀ m, t.model? scope = some m → s.HooksEnd (m, f)) :
    ∃ depth, resolve depth scope f t ≠ .error .endless ∧
      ∀ d, depth ≤ d → resolve d scope f t = resolve depth scope f t := by
  have hclosed := Schema.closed_of_resolve hresolve
  have hcalls : ∃ depth, ∀ m, t.model? scope = some m → ¬ s.CallsOn depth (m, f) := by
    cases hm : t.model? scope with
    | none => exact ⟨0, fun m h => by cases h⟩
    | some m =>
      obtain ⟨depth, hdepth⟩ := (hends m hm).exists_not_callsOn
      exact ⟨depth, fun m' h => Option.some.inj h ▸ hdepth⟩
  obtain ⟨depth, hdepth⟩ := hcalls
  have henough : resolve depth scope f t ≠ .error .endless := by
    intro h
    obtain ⟨m, hm, hcalls⟩ :=
      fails_resolve_endless hclosed depth scope f t (hstart.over.later ht) hscope _ h rfl
    exact hdepth m hm (hcalls.of_le (Nat.le_succ depth))
  exact ⟨depth, henough, fun d hd => resolve_eq_of_le hd f henough⟩

namespace Layered

def decls : List ModelDecl :=
  [{ name := "Author", table := "authors", attributes := ["id", "name"]
     hooks := [("label", fun op v => .ok (Filter.empty.compare "name" op.sql v))] },
    { name := "Article", table := "articles", attributes := ["id", "authorId"]
      relations := [{ name := "author", form := .belongsTo, target := "Author" }]
      hooks := [("label", fun op v => .ok (Filter.empty.compare "author/label" op.sql v))] }]

def author : Model :=
  { name := "Author", table := (Table.named "authors").withColumns ["id", "name"], relations := []
    hooks := [("label", fun op v => .ok (Filter.empty.compare "name" op.sql v))] }

def article : Model :=
  { name := "Article"
    table := ((Table.named "articles").withColumns ["id"]).withColumn "authorId" "author_id"
    relations := [{ name := "author", kind := .belongsTo
                    current := ⟨"Article", "articles", "authorId", "author_id"⟩
                    linked := ⟨"Author", "authors", "id", "id"⟩ }]
    hooks := [("label", fun op v => .ok (Filter.empty.compare "author/label" op.sql v))] }

def schema : Schema :=
  { models := [author, article], settings := {} }

def root : JoinTree :=
  ⟨some schema, article.table, [Node.root (some "Article")]⟩

theorem resolves : Schema.resolve {} decls = .ok schema := by
  with_unfolding_all rfl

theorem opens : JoinTree.ofModel schema "Article" = .ok root := by
  with_unfolding_all rfl

theorem pathEnd?_label : schema.pathEnd? article "label" = some (article, "label") := by
  have hsegments : segments "label" = ["label"] := by decide +kernel
  rw [Schema.pathEnd?, hsegments]
  rfl

theorem pathEnd?_authorLabel :
    schema.pathEnd? article "author/label" = some (author, "label") := by
  have hsegments : segments "author/label" = ["author", "label"] := by decide +kernel
  rw [Schema.pathEnd?, hsegments]
  rfl

theorem call?_name (v : Value) : schema.call? author ⟨"name", "=", v⟩ = none := by
  have hsegments : segments "name" = ["name"] := by decide +kernel
  have hend : schema.pathEnd? author "name" = some (author, "name") := by
    rw [Schema.pathEnd?, hsegments]
    rfl
  rw [Schema.call?, Operator.parse_equals, hend]
  rfl

/-- The hook of the article calls that of the author, which calls none. -/
theorem hooksEnd (v : Value) : schema.HooksEnd (article, Filter.empty.eq "label" v) := by
  have harticle : schema.call? article ⟨"label", "=", v⟩ =
      some (article, Filter.empty.eq "author/label" v) :=
    Schema.call?_eq_some Operator.parse_equals pathEnd?_label rfl rfl
  have hauthor : schema.call? article ⟨"author/label", "=", v⟩ =
      some (author, Filter.empty.eq "name" v) :=
    Schema.call?_eq_some Operator.parse_equals pathEnd?_authorLabel rfl rfl
  refine .of_calls fun c hc => ?_
  obtain rfl : c = _ := by simpa [Schema.calls_equal, harticle] using hc
  refine .of_calls fun c hc => ?_
  obtain rfl : c = _ := by simpa [Schema.calls_equal, hauthor] using hc
  exact .of_calls fun c hc => by simp [Schema.calls_equal, call?_name] at hc

end Layered

theorem resolve_ends_of_label :
    let f := Filter.empty.eq "label" (.text "A")
    Schema.resolve {} Layered.decls = .ok Layered.schema ∧ Planted Layered.schema Layered.root ∧
      rootId < Layered.root.size ∧
      (∀ m, Layered.root.model? rootId = some m → Layered.schema.HooksEnd (m, f)) ∧
      ∃ depth, resolve depth rootId f Layered.root ≠ .error .endless ∧
        ∀ d, depth ≤ d → resolve d rootId f Layered.root = resolve depth rootId f Layered.root := by
  intro f
  have hplanted : Planted Layered.schema Layered.root := .model Layered.opens
  have hsize : rootId < Layered.root.size := by decide
  have hends : ∀ m, Layered.root.model? rootId = some m → Layered.schema.HooksEnd (m, f) := by
    intro m hm
    obtain rfl : Layered.article = m := Option.some.inj hm
    exact Layered.hooksEnd (.text "A")
  exact ⟨Layered.resolves, hplanted, hsize, hends,
    resolve_ends Layered.resolves hplanted .start hsize hends⟩

namespace Circular

def hook : Hook := fun op v =>
  .ok (Filter.empty.compare "title" op.sql v)

def decls : List ModelDecl :=
  [{ name := "Article", table := "articles", attributes := ["id", "title"]
     hooks := [("title", hook)] }]

def schema : Schema :=
  { models := [{ name := "Article", table := (Table.named "articles").withColumns ["id", "title"]
                 relations := [], hooks := [("title", hook)] }]
    settings := {} }

def root : JoinTree :=
  ⟨some schema, (Table.named "articles").withColumns ["id", "title"],
    [Node.root (some "Article")]⟩

def titled : Filter :=
  Filter.empty.eq "title" (.text "A")

theorem resolves : Schema.resolve {} decls = .ok schema := by
  with_unfolding_all rfl

theorem opens : JoinTree.ofModel schema "Article" = .ok root := by
  with_unfolding_all rfl

theorem resolveCompare_title (expand : Expansion) :
    resolveCompare expand rootId .and "title" "=" (.text "A") root =
      (expand rootId titled >>= fun xs => pure (.group .and xs)) root := by
  have hpath : Building.resolveFrom rootId "title" root = .ok ((rootId, "title"), root) :=
    Building.resolveFrom_segment ⟨by decide, by decide +kernel, by decide⟩ root rootId
  have hop : Building.ofExcept (Operator.parse "=") root = .ok (.eq, root) := by
    with_unfolding_all rfl
  rw [resolveCompare, Building.bind_run hop, Building.bind_run hpath]
  rfl

end Circular

/-- A hook that asks for its own attribute: at every depth the answer is still out. -/
theorem circular_hook_unanswered :
    Schema.resolve {} Circular.decls = .ok Circular.schema ∧
      JoinTree.ofModel Circular.schema "Article" = .ok Circular.root ∧
      ∀ depth, resolve depth rootId Circular.titled Circular.root = .error .endless := by
  refine ⟨Circular.resolves, Circular.opens, fun depth => ?_⟩
  have hcalls : ∀ expand : Expansion,
      expand rootId Circular.titled Circular.root = .error .endless →
      resolveAll expand rootId Circular.titled.criteria Circular.root = .error .endless := by
    intro expand h
    exact bind_error ((Circular.resolveCompare_title expand).trans (bind_error h))
  induction depth with
  | zero => exact hcalls _ rfl
  | succ depth ih => exact hcalls (resolve depth) ih

end Filter

end PathQuery
