import PathQuery.Proofs.Filter.Comparisons
import PathQuery.Proofs.JoinTree.Leads

/-!
What filters resolve to, read off the finished tree. A resolved path is still there when a later
step has grown the tree, so every condition can be traced to its criterion in the tree that the
statement ends with: a comparison to the columns that its path leads to, a hooked attribute to the
criteria that its hook returned.
-/

set_option autoImplicit false

namespace PathQuery

theorem Operator.parse_equals : Operator.parse "=" = .ok .eq := by
  with_unfolding_all rfl

namespace JoinTree

variable {t u : JoinTree}

mutual

/-- What a criterion at a node resolves to in a tree that has all nodes on its paths. -/
inductive Resolves (t : JoinTree) : Nat → Criterion → Condition → Prop
  | compare {scope id target : Nat} {c : Connective} {path operator name : String} {v : Value}
    {op : Operator} {columns : List String} {x : Condition}
    (read : Operator.parse operator = .ok op)
    (found : t.resolveFrom scope path = (.ok (id, name), t))
    (plain : (t.model? id).bind (·.hook? name) = none)
    (about : Building.columnsOf id name t = .ok ((target, columns), t))
    (made : Condition.ofColumns (t.node target).tableAlias op v.dereference columns = .ok x) :
    Resolves t scope (.compare c path operator v) (x.withConnective c)
  | hooked {scope id : Nat} {c : Connective} {path operator name : String} {v : Value}
    {op : Operator} {hook : Hook} {f : Filter} {xs : List Condition}
    (read : Operator.parse operator = .ok op)
    (found : t.resolveFrom scope path = (.ok (id, name), t))
    (hooked : (t.model? id).bind (·.hook? name) = some hook)
    (returned : hook op v = .ok f)
    (inner : ResolvesAll t id f.criteria xs) :
    Resolves t scope (.compare c path operator v) (.group c xs)
  | group {scope : Nat} {c : Connective} {members : List Criterion} {xs : List Condition}
    (inner : ResolvesAll t scope members xs) :
    Resolves t scope (.group c members) (.group c xs)
  | membership {scope target : Nat} {c : Connective} {path column : String} {values : List Value}
    {negated : Bool}
    (about : Building.target scope path t = .ok ((target, [column]), t)) :
    Resolves t scope (.membership c path values negated)
      (.membership c ⟨(t.node target).tableAlias, column⟩ (Value.dereferenceAll values) negated)
  | columns {scope l r : Nat} {c : Connective} {left operator right leftColumn rightColumn : String}
    {op : Operator}
    (read : Operator.parse operator = .ok op)
    (about : Building.target scope left t = .ok ((l, [leftColumn]), t))
    (against : Building.target scope right t = .ok ((r, [rightColumn]), t)) :
    Resolves t scope (.columns c left operator right)
      (.columns c ⟨(t.node l).tableAlias, leftColumn⟩ op ⟨(t.node r).tableAlias, rightColumn⟩)
  | existence {scope : Nat} {c : Connective} {query : Statement} {negated : Bool} :
    Resolves t scope (.existence c query negated)
      (.existence c negated query.toFrame query.conditions)
  | subquery {scope : Nat} {c : Connective} {query : Statement} {operator : String} {v : Value}
    {op : Operator} (read : Operator.parse operator = .ok op) :
    Resolves t scope (.subquery c query operator v)
      (.subquery c query.toFrame query.conditions op v.dereference)

inductive ResolvesAll (t : JoinTree) : Nat → List Criterion → List Condition → Prop
  | nil {scope : Nat} : ResolvesAll t scope [] []
  | cons {scope : Nat} {x : Criterion} {y : Condition} {xs : List Criterion} {ys : List Condition}
    (head : Resolves t scope x y) (tail : ResolvesAll t scope xs ys) :
    ResolvesAll t scope (x :: xs) (y :: ys)

end

theorem Resolves.equals {scope id target : Nat} {path name : String} {v : Value}
    {columns : List String} {x : Condition}
    (found : t.resolveFrom scope path = (.ok (id, name), t))
    (plain : (t.model? id).bind (·.hook? name) = none)
    (about : Building.columnsOf id name t = .ok ((target, columns), t))
    (made : Condition.ofColumns (t.node target).tableAlias .eq v.dereference columns = .ok x)
    (hand : x.withConnective .and = x) : t.Resolves scope (.compare .and path "=" v) x := by
  have h := Resolves.compare (c := .and) Operator.parse_equals found plain about made
  rwa [hand] at h

theorem ResolvesAll.source {scope : Nat} {xs : List Criterion} {ys : List Condition} :
    t.ResolvesAll scope xs ys → ∀ y ∈ ys, ∃ x ∈ xs, t.Resolves scope x y
  | .nil => by simp
  | .cons head tail => by
    rw [List.forall_mem_cons]
    refine ⟨⟨_, List.mem_cons_self, head⟩, fun y hy => ?_⟩
    obtain ⟨x, hx, hxy⟩ := tail.source y hy
    exact ⟨x, List.mem_cons_of_mem _ hx, hxy⟩

theorem lt_size_of_resolveFrom (ht : t.WellFormed) {scope id : Nat} {path name : String}
    (hscope : scope < t.size) (h : t.resolveFrom scope path = (.ok (id, name), t)) : id < t.size :=
  ht.lt_size_of_descend hscope (resolveFrom_eq_ok h).1

theorem columnsOf_later (ht : t.WellFormed) {id : Nat} (hid : id < t.size) {name : String}
    {p : Nat × List String} (h : Building.columnsOf id name t = .ok (p, t)) :
    p.1 < t.size ∧ ∀ v, Reached t v → Building.columnsOf id name v = .ok (p, v) :=
  (Building.leads_columnsOf (P := fun _ _ => True) ht hid name p t h).2.2

theorem target_later (ht : t.WellFormed) {scope : Nat} (hscope : scope < t.size) {path : String}
    {p : Nat × List String} (h : Building.target scope path t = .ok (p, t)) :
    p.1 < t.size ∧ ∀ v, Reached t v → Building.target scope path v = .ok (p, v) :=
  (Building.leads_target (P := fun _ _ => True) ht hscope path p t h).2.2

mutual

theorem Resolves.later (h : Reached t u) (ht : t.WellFormed) {scope : Nat} {x : Criterion}
    {y : Condition} (hscope : scope < t.size) : t.Resolves scope x y → u.Resolves scope x y
  | .compare read found plain about made => by
    have hid := lt_size_of_resolveFrom ht hscope found
    obtain ⟨htarget, hagain⟩ := columnsOf_later ht hid about
    refine .compare read (resolveFrom_again found h) ?_ (hagain u h) ?_
    · rwa [h.grown.model? _ hid]
    · rwa [h.tableAlias_eq htarget]
  | .hooked read found hooked returned inner => by
    have hid := lt_size_of_resolveFrom ht hscope found
    refine .hooked read (resolveFrom_again found h) ?_ returned (inner.later h ht hid)
    rwa [h.grown.model? _ hid]
  | .group inner => .group (inner.later h ht hscope)
  | .membership about => by
    obtain ⟨htarget, hagain⟩ := target_later ht hscope about
    rw [← h.tableAlias_eq htarget]
    exact .membership (hagain u h)
  | .columns read about against => by
    obtain ⟨hl, hleft⟩ := target_later ht hscope about
    obtain ⟨hr, hright⟩ := target_later ht hscope against
    rw [← h.tableAlias_eq hl, ← h.tableAlias_eq hr]
    exact .columns read (hleft u h) (hright u h)
  | .existence => .existence
  | .subquery read => .subquery read

theorem ResolvesAll.later (h : Reached t u) (ht : t.WellFormed) {scope : Nat}
    {xs : List Criterion} {ys : List Condition} (hscope : scope < t.size) :
    t.ResolvesAll scope xs ys → u.ResolvesAll scope xs ys
  | .nil => .nil
  | .cons head tail => .cons (head.later h ht hscope) (tail.later h ht hscope)

end

end JoinTree

namespace Filter

open Building JoinTree

variable {P : JoinTree → JoinTree → Prop} [KeptByPaths P] {t : JoinTree} {expand : Expansion}
  {scope : Nat}

def Expands (P : JoinTree → JoinTree → Prop) (expand : Expansion) : Prop :=
  ∀ id f t, t.WellFormed → id < t.size →
    Leads P (expand id f) t fun xs u => u.ResolvesAll id f.criteria xs

theorem leads_resolveCompare (hexpand : Expands P expand) (ht : t.WellFormed)
    (hscope : scope < t.size) (c : Connective) (path operator : String) (v : Value) :
    Leads P (resolveCompare expand scope c path operator v) t fun y u =>
      u.Resolves scope (.compare c path operator v) y := by
  rw [resolveCompare_eq]
  refine (leads_ofExcept _).bind fun op _ _ hop => ?_
  obtain ⟨hread, rfl⟩ := hop
  refine (leads_resolveFrom ht hscope path).bind fun p u hu hp => ?_
  obtain ⟨id, name⟩ := p
  obtain ⟨hid, hfound⟩ := hp
  have hwell := hu.grown.wellFormed ht
  refine leads_get ?_
  cases hhook : (u.model? id).bind (·.hook? name) with
  | some hook =>
    refine (leads_ofExcept _).bind fun f _ _ hf => ?_
    obtain ⟨hf, rfl⟩ := hf
    refine (hexpand id f _ hwell hid).bind fun xs w hw hxs => leads_pure ?_
    refine .hooked hread (resolveFrom_again hfound hw) ?_ hf hxs
    rw [hw.grown.model? id hid, hhook]
  | none =>
    refine (leads_columnsOf hwell hid name).bind fun q w hw hq => ?_
    obtain ⟨target, columns⟩ := q
    obtain ⟨htarget, habout⟩ := hq
    refine (leads_aliasOf target).bind fun a _ _ ha => ?_
    rw [ha.1, ha.2]
    refine (leads_lift _).bind fun x _ _ hx => ?_
    obtain ⟨hx, rfl⟩ := hx
    refine (leads_attach target _).bind fun _ w' hw' _ => leads_pure ?_
    refine .compare hread (resolveFrom_again hfound (hw.trans hw')) ?_ (habout w' hw') ?_
    · rw [(hw.trans hw').grown.model? id hid, hhook]
    · rwa [hw'.tableAlias_eq htarget]

theorem leads_resolveMembership (ht : t.WellFormed) (hscope : scope < t.size) (c : Connective)
    (path : String) (values : List Value) (negated : Bool) :
    Leads P (resolveMembership scope c path values negated) t fun y u =>
      u.Resolves scope (.membership c path values negated) y := by
  refine (leads_target ht hscope path).bind fun p u _ hp => ?_
  obtain ⟨id, columns⟩ := p
  obtain ⟨hid, hagain⟩ := hp
  match columns with
  | [column] =>
    refine (leads_aliasOf id).bind fun a _ _ ha => ?_
    obtain ⟨rfl, rfl⟩ := ha
    refine (leads_attach id _).bind fun _ w hw _ => leads_pure ?_
    rw [← hw.tableAlias_eq hid]
    exact .membership (hagain w hw)
  | [] => exact leads_throw _
  | _ :: _ :: _ => exact leads_throw _

theorem leads_resolveColumns (ht : t.WellFormed) (hscope : scope < t.size) (c : Connective)
    (left operator right : String) :
    Leads P (resolveColumns scope c left operator right) t fun y u =>
      u.Resolves scope (.columns c left operator right) y := by
  refine (leads_ofExcept _).bind fun op _ _ hop => ?_
  obtain ⟨hread, rfl⟩ := hop
  refine (leads_target ht hscope left).bind fun l u hu hl => ?_
  refine (leads_target (hu.grown.wellFormed ht) (hu.lt_size hscope) right).bind fun r v hv hr => ?_
  obtain ⟨leftId, leftColumns⟩ := l
  obtain ⟨rightId, rightColumns⟩ := r
  match leftColumns, rightColumns with
  | [leftColumn], [rightColumn] =>
    refine (leads_aliasOf leftId).bind fun a _ _ ha => ?_
    obtain ⟨rfl, rfl⟩ := ha
    refine (leads_aliasOf rightId).bind fun b _ _ hb => ?_
    obtain ⟨rfl, rfl⟩ := hb
    refine (leads_attach leftId _).bind fun _ w hw _ => leads_pure ?_
    rw [← hw.tableAlias_eq (hv.lt_size hl.1), ← hw.tableAlias_eq hr.1]
    exact .columns hread (hl.2 w (hv.trans hw)) (hr.2 w hw)
  | [], _ => exact leads_throw _
  | _ :: _ :: _, _ => exact leads_throw _
  | [_], [] => exact leads_throw _
  | [_], _ :: _ :: _ => exact leads_throw _

mutual

theorem leads_resolveCriterion (hexpand : Expands P expand) (x : Criterion) (t : JoinTree)
    (ht : t.WellFormed) (hscope : scope < t.size) :
    Leads P (resolveCriterion expand scope x) t fun y u => u.Resolves scope x y := by
  cases x with
  | compare c path op v => exact leads_resolveCompare hexpand ht hscope c path op v
  | group c members =>
    refine (leads_resolveAll hexpand members t ht hscope).bind fun ys _ _ hys => ?_
    exact leads_pure (.group hys)
  | membership c path values negated =>
    exact leads_resolveMembership ht hscope c path values negated
  | columns c left op right => exact leads_resolveColumns ht hscope c left op right
  | existence c query negated => exact leads_pure .existence
  | subquery c query operator v =>
    refine (leads_ofExcept _).bind fun op _ _ hop => ?_
    obtain ⟨hread, rfl⟩ := hop
    exact leads_pure (.subquery hread)
termination_by structural x

theorem leads_resolveAll (hexpand : Expands P expand) (xs : List Criterion) (t : JoinTree)
    (ht : t.WellFormed) (hscope : scope < t.size) :
    Leads P (resolveAll expand scope xs) t fun ys u => u.ResolvesAll scope xs ys := by
  cases xs with
  | nil => exact leads_pure .nil
  | cons x rest =>
    refine (leads_resolveCriterion hexpand x t ht hscope).bind fun y u hu hy => ?_
    have hwell := hu.grown.wellFormed ht
    refine (leads_resolveAll hexpand rest u hwell (hu.lt_size hscope)).bind fun ys v hv hys => ?_
    exact leads_pure (.cons (hy.later hv hwell (hu.lt_size hscope)) hys)
termination_by structural xs

end

theorem expands_resolve (depth : Nat) : Expands P (resolve depth) := by
  induction depth with
  | zero =>
    intro scope f t ht hscope
    exact leads_resolveAll (fun _ _ _ _ _ => leads_throw _) f.criteria t ht hscope
  | succ depth ih =>
    intro scope f t ht hscope
    exact leads_resolveAll ih f.criteria t ht hscope

end Filter

end PathQuery
