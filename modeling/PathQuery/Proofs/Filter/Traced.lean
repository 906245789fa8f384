import PathQuery.Proofs.Filter.Normal
import PathQuery.Proofs.JoinTree.Calls

/-!
Conditions traced back to nodes. A condition names its node only by the text of an alias, and what
settles conditions looks the node up again. As long as no relation is named with a dot or like the
root, aliases tell the nodes apart, and every leaf is traced to the node that its path resolved to.
-/

set_option autoImplicit false

namespace PathQuery.JoinTree

def AliasesIdentify (t : JoinTree) : Prop :=
  ∀ id, id < t.size → t.idOfAlias? (t.node id).tableAlias = some id

mutual

/-- The leaves of a condition belong to the nodes that the paths of its criterion resolve to. -/
inductive Traced (t : JoinTree) : Nat → Criterion → Condition → Prop
  | compare {scope id target : Nat} {c : Connective} {path operator name : String} {v : Value}
    {columns : List String} {x : Condition}
    (found : t.resolveFrom scope path = (.ok (id, name), t))
    (plain : (t.model? id).bind (·.hook? name) = none)
    (about : Building.columnsOf id name t = .ok ((target, columns), t))
    (owned : EachLeaf (fun leaf => t.owner? leaf = some target) x) :
    Traced t scope (.compare c path operator v) x
  | hooked {scope id : Nat} {c : Connective} {path operator name : String} {v : Value}
    {op : Operator} {hook : Hook} {f : Filter} {xs : List Condition}
    (found : t.resolveFrom scope path = (.ok (id, name), t))
    (hooked : (t.model? id).bind (·.hook? name) = some hook)
    (returned : hook op v = .ok f)
    (inner : TracedAll t id f.criteria xs) :
    Traced t scope (.compare c path operator v) (.group c xs)
  | group {scope : Nat} {c : Connective} {members : List Criterion} {xs : List Condition}
    (inner : TracedAll t scope members xs) : Traced t scope (.group c members) (.group c xs)
  | membership {scope target : Nat} {c : Connective} {path column : String} {values : List Value}
    {negated : Bool} {x : Condition}
    (about : Building.target scope path t = .ok ((target, [column]), t))
    (owned : t.owner? x = some target) : Traced t scope (.membership c path values negated) x
  | columns {scope l r : Nat} {c : Connective} {left operator right leftColumn rightColumn : String}
    {x : Condition}
    (about : Building.target scope left t = .ok ((l, [leftColumn]), t))
    (against : Building.target scope right t = .ok ((r, [rightColumn]), t))
    (owned : t.owner? x = some l) (facing : t.right? x = some r) :
    Traced t scope (.columns c left operator right) x
  | existence {scope : Nat} {c : Connective} {query : Statement} {negated : Bool} {x : Condition}
    (unowned : t.owner? x = none) : Traced t scope (.existence c query negated) x
  | subquery {scope : Nat} {c : Connective} {query : Statement} {operator : String} {v : Value}
    {x : Condition} (unowned : t.owner? x = none) :
    Traced t scope (.subquery c query operator v) x

inductive TracedAll (t : JoinTree) : Nat → List Criterion → List Condition → Prop
  | nil {scope : Nat} : TracedAll t scope [] []
  | cons {scope : Nat} {x : Criterion} {y : Condition} {xs : List Criterion} {ys : List Condition}
    (head : Traced t scope x y) (tail : TracedAll t scope xs ys) :
    TracedAll t scope (x :: xs) (y :: ys)

end

variable {s : Schema} {start t u : JoinTree}

theorem AliasesIdentify.owned_of_under (h : t.AliasesIdentify) {id : Nat} (hid : id < t.size)
    {x : Condition} (hx : EachLeaf (Condition.Under (t.node id).tableAlias) x) :
    EachLeaf (fun leaf => t.owner? leaf = some id) x := by
  refine EachLeaf.imp (fun leaf hleaf => ?_) x hx
  rw [owner?, hleaf.tableAlias?_eq]
  exact h id hid

mutual

theorem Resolves.traced (h : t.AliasesIdentify) (ht : t.WellFormed) {scope : Nat} {x : Criterion}
    {y : Condition} (hscope : scope < t.size) : t.Resolves scope x y → t.Traced scope x y
  | .compare read found plain about made => by
    have htarget := (columnsOf_later ht (lt_size_of_resolveFrom ht hscope found) about).1
    refine .compare found plain about (h.owned_of_under htarget ?_)
    exact Condition.eachLeaf_under_withConnective _ (Condition.under_ofColumns made)
  | .hooked read found hooked returned inner =>
    .hooked found hooked returned (inner.traced h ht (lt_size_of_resolveFrom ht hscope found))
  | .group inner => .group (inner.traced h ht hscope)
  | .membership about => .membership about (h _ (target_later ht hscope about).1)
  | .columns read about against =>
    .columns about against (h _ (target_later ht hscope about).1)
      (h _ (target_later ht hscope against).1)
  | .existence => .existence rfl
  | .subquery read => .subquery rfl

theorem ResolvesAll.traced (h : t.AliasesIdentify) (ht : t.WellFormed) {scope : Nat}
    {xs : List Criterion} {ys : List Condition} (hscope : scope < t.size) :
    t.ResolvesAll scope xs ys → t.TracedAll scope xs ys
  | .nil => .nil
  | .cons head tail => .cons (head.traced h ht hscope) (tail.traced h ht hscope)

end

/-- The root is the first node, so its alias leads to it whatever the others are. -/
theorem WellFormed.idOfAlias?_root (h : t.WellFormed) :
    t.idOfAlias? (t.node rootId).tableAlias = some rootId := by
  refine List.findIdx?_eq_some_iff_getElem.2
    ⟨h.nonempty, ?_, fun j hj => absurd hj (by simp [rootId])⟩
  have hlt : 0 < t.nodes.length := h.nonempty
  simp [node_eq, rootId, hlt]

theorem Planted.identify (h : Planted s start) (hnames : s.UndottedNames) (ht : Reached start t) :
    t.AliasesIdentify := by
  intro id hid
  have hwell := ht.grown.wellFormed h.wellFormed
  by_cases hroot : id = rootId
  · rw [hroot]
    exact hwell.idOfAlias?_root
  · obtain ⟨p, r, e⟩ := hwell.edge id (Nat.pos_of_ne_zero hroot) hid
    exact hwell.idOfAlias?_alias (h.schema_of_edge ht e) hnames hid

/-- After any calls each alias leads back to its node, and so it does after a filter is resolved and
any calls that follow; there each leaf is traced to the node of its path. -/
theorem Planted.leaves_traced_after (h : Planted s start) (hnames : s.UndottedNames)
    (calls : List Call) :
    (start.after calls).AliasesIdentify ∧
      ∀ depth scope f xs u, scope < (start.after calls).size →
        Filter.resolve depth scope f (start.after calls) = .ok (xs, u) →
        ∀ more, (u.after more).AliasesIdentify ∧ (u.after more).TracedAll scope f.criteria xs := by
  have ht := reached_after start calls
  refine ⟨h.identify hnames ht, fun depth scope f xs u hscope hresolve more => ?_⟩
  have hwell := ht.grown.wellFormed h.wellFormed
  obtain ⟨hu, -, hxs⟩ := Filter.expands_resolve (P := fun _ _ => True) depth scope f _ hwell hscope
    xs u hresolve
  have hmore := reached_after u more
  have hidentify := h.identify hnames ((ht.trans hu).trans hmore)
  have hlater := hxs.later hmore (hu.grown.wellFormed hwell) (hu.lt_size hscope)
  refine ⟨hidentify, hlater.traced hidentify ?_ ((hu.trans hmore).lt_size hscope)⟩
  exact (hu.trans hmore).grown.wellFormed hwell

def taggedFilter : Filter :=
  { criteria := [.compare .and "articles/tags/id" "=" (.text "A"),
      .columns .and "articles/id" "=" "articles/authorId"] }

theorem leaves_traced_of_tagged :
    Tagged.schema.UndottedNames ∧ (taggedStart.after taggedCalls).AliasesIdentify ∧
      ∃ xs u, Filter.resolve 1 rootId taggedFilter (taggedStart.after taggedCalls) = .ok (xs, u) ∧
        ∀ more, (u.after more).AliasesIdentify ∧
          (u.after more).TracedAll rootId taggedFilter.criteria xs := by
  have hopened : ofModel Tagged.schema "Author" = .ok taggedStart := by with_unfolding_all rfl
  have hnames : Tagged.schema.UndottedNames := by
    simp only [Schema.UndottedNames, Tagged.schema, List.forall_mem_cons, List.not_mem_nil,
      false_implies, implies_true, and_true]
    exact ⟨⟨by decide, by decide⟩, ⟨by decide, by decide⟩, ⟨by decide, by decide⟩,
      by decide, by decide⟩
  have hok : (Filter.resolve 1 rootId taggedFilter
      (taggedStart.after taggedCalls)).toOption.isSome = true := by decide +kernel
  obtain ⟨hidentify, hfilter⟩ := Planted.leaves_traced_after (.model hopened) hnames taggedCalls
  refine ⟨hnames, hidentify, ?_⟩
  cases hresolve : Filter.resolve 1 rootId taggedFilter (taggedStart.after taggedCalls) with
  | error fault =>
    rw [hresolve] at hok
    cases hok
  | ok found =>
    exact ⟨found.1, found.2, rfl, hfilter 1 rootId taggedFilter found.1 found.2 (by decide +kernel)
      hresolve⟩

end PathQuery.JoinTree
