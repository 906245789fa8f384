import PathQuery.Proofs.JoinTree.Loaded
import PathQuery.Proofs.Request.Built

/-!
Rows that are loaded along. A SELECT goes down every path of relations that it is given and selects
the columns of the nodes on the way, each node once: what it adds for these paths is one block of
columns for each chain, in the order in which the chains are met first.
-/

set_option autoImplicit false

namespace PathQuery

open JoinTree

/-- The chains in `visits` that are not in `seen`, each where it comes first. -/
def firstVisits (seen visits : List (List String)) : List (List String) :=
  (visits.filter (· ∉ seen)).eraseDups

theorem firstVisits_nil (visits : List (List String)) :
    firstVisits [] visits = visits.eraseDups := by
  simp [firstVisits]

theorem firstVisits_single (seen : List (List String)) (chain : List String) :
    firstVisits seen [chain] = if chain ∈ seen then [] else [chain] := by
  by_cases h : chain ∈ seen
  · simp [firstVisits, h]
  · simp [firstVisits, h, List.eraseDups_cons]

theorem firstVisits_append (seen xs ys : List (List String)) :
    firstVisits seen (xs ++ ys) = firstVisits seen xs ++ firstVisits (seen ++ xs) ys := by
  have hrest : (ys.filter (· ∉ seen)).removeAll (xs.filter (· ∉ seen)) =
      ys.filter (· ∉ seen ++ xs) := by
    rw [List.removeAll, List.filter_filter]
    refine List.filter_congr fun y _ => ?_
    by_cases hy : y ∈ seen
    · simp [hy]
    · simp [hy]
  rw [firstVisits, List.filter_append, List.eraseDups_append, hrest]
  rfl

namespace Schema

/-- The select items of the node at the end of a chain: its columns in the order of its table, each
labelled by its attribute behind the alias of the node. -/
def loadedColumns (s : Schema) (m : Model) (chain : List String) : List SelectItem :=
  match chain.foldlM s.follow m with
  | none => []
  | some linked => linked.table.columns.map fun (name, column) =>
      .column ⟨chainAlias chain, column⟩ (some (chainAlias chain ++ "." ++ name))

end Schema

variable {s : Schema} {m : Model} {start t : JoinTree} {chains : List (List String)}

theorem JoinTree.OpenedAt.columns_of_walk? (h : t.OpenedAt s m) {chain : List String} {id : Nat}
    (hw : t.walk? rootId chain = some id) :
    ((t.table id).columns.map fun (name, column) =>
      SelectItem.column ⟨(t.node id).tableAlias, column⟩
        (some ((t.node id).tableAlias ++ "." ++ name))) = s.loadedColumns m chain := by
  have hlt := h.wellFormed.lt_size_of_walk? h.wellFormed.nonempty hw
  have halias : (t.node id).tableAlias = chainAlias chain :=
    congrArg Place.tableAlias (h.place_of_walk? hw)
  obtain ⟨linked, hlinked⟩ := h.exists_model? hlt
  have hchain : chain.foldlM s.follow m = some linked := by rw [← h.model?_of_walk? hw, hlinked]
  have htable : t.table id = linked.table := by rw [table, hlinked]; rfl
  rw [Schema.loadedColumns, hchain, htable, halias]

theorem JoinTree.OpenedAt.joins_of_walk? (h : t.OpenedAt s m) {chain : List String} {id : Nat}
    (hne : chain ≠ []) (hw : t.walk? rootId chain = some id) (hjoined : (t.node id).joined = true) :
    ∃ r kind, (s.placeAt m chain).relation = some r ∧ (kind = .inner ∨ kind = .left) ∧
      r.joins (chainAlias chain.dropLast) (chainAlias chain) kind true <:+: t.statementJoins := by
  obtain ⟨init, name, rfl⟩ := List.eq_nil_or_concat' chain |>.resolve_left hne
  obtain ⟨p, r, hp, e, -⟩ := h.wellFormed.edge_of_walk?_concat hw
  have hplace := h.place_of_walk? hw
  have halias : (t.node id).tableAlias = chainAlias (init ++ [name]) :=
    congrArg Place.tableAlias hplace
  have hparent : (t.node p).tableAlias = chainAlias init :=
    congrArg Place.tableAlias (h.place_of_walk? hp)
  have hrelation : (s.placeAt m (init ++ [name])).relation = some r := by
    rw [← hplace]
    exact e.relation
  have hmem : id ∈ t.joinedNodes := h.wellFormed.mem_joinedNodes.2
    ⟨h.wellFormed.lt_size_of_walk? h.wellFormed.nonempty hw,
      Nat.ne_of_gt (Nat.zero_lt_of_lt e.lt), hjoined⟩
  obtain ⟨before, after, hsplit⟩ := List.append_of_mem hmem
  refine ⟨r, t.joinKind id, hrelation, ?_, ?_⟩
  · rw [joinKind]
    split
    · exact .inl rfl
    · exact .inr rfl
  · rw [List.dropLast_concat, ← halias, ← hparent, ← joinsFor_of_edge e, statementJoins_eq, hsplit,
      List.flatMap_append, List.flatMap_cons, ← List.append_assoc]
    exact List.infix_append _ _ _

namespace Building

theorem Leads.noting {P : JoinTree → JoinTree → Prop} {α : Type} {step : Building α}
    {Q : α → JoinTree → Prop} (h : Leads P step t Q) :
    Leads (fun _ _ => True) step t fun a u => P t u ∧ Q a u := by
  intro a u hu
  obtain ⟨hreached, hP, hQ⟩ := h a u hu
  exact ⟨hreached, trivial, hP, hQ⟩

/-- In every tree to come, the step loads the chains that it visits and gives the columns of those
that were not loaded before. -/
def LoadsChains (s : Schema) (m : Model) (start : JoinTree) (step : Building (List SelectItem))
    (visits : List (List String)) : Prop :=
  ∀ t chains, Reached start t → t.Loaded chains → Leads (fun _ _ => True) step t fun items u =>
    u.Loaded (chains ++ visits) ∧ items = (firstVisits chains visits).flatMap (s.loadedColumns m)

theorem loadsChains_eagerColumns (h : start.OpenedAt s m) {chain : List String} {id : Nat}
    (hne : chain ≠ []) (hw : start.walk? rootId chain = some id) :
    LoadsChains s m start (eagerColumns id) [chain] := by
  intro t chains ht hloaded
  have hopened := h.later ht
  have hw := ht.walk? hw
  have hmark := hloaded.selected chain id hw hne
  refine leads_get (leads_ite (fun hselected => leads_pure ?_) fun hselected => ?_)
  · have hmem : chain ∈ chains := hmark.1 hselected
    refine ⟨hloaded.congr fun c => ?_, by simp [firstVisits_single, hmem]⟩
    rw [List.mem_append, List.mem_singleton, or_iff_left_iff_imp]
    rintro rfl
    exact hmem
  · have hmem : chain ∉ chains := fun hmem => hselected (hmark.2 hmem)
    refine (leads_modify (.select id) trivial).bind fun _ u hu heq => ?_
    obtain rfl := heq
    refine (leads_aliasOf id).bind fun a _ _ ha => leads_get ?_
    obtain ⟨rfl, rfl⟩ := ha
    refine leads_pure ⟨hloaded.select hopened.wellFormed hw, ?_⟩
    rw [firstVisits_single, if_neg hmem, List.flatMap_singleton]
    exact (hopened.later hu).columns_of_walk? (hu.walk? hw)

theorem leads_mapM_loads {α : Type} {f : α → Building (List SelectItem)}
    {visits : α → List (List String)} (as : List α)
    (hf : ∀ a ∈ as, LoadsChains s m start (f a) (visits a)) (ht : Reached start t)
    (hloaded : t.Loaded chains) : Leads (fun _ _ => True) (as.mapM f) t fun lists u =>
      u.Loaded (chains ++ as.flatMap visits) ∧
        lists.flatten = (firstVisits chains (as.flatMap visits)).flatMap (s.loadedColumns m) := by
  induction as generalizing t chains with
  | nil => exact leads_pure ⟨by simpa using hloaded, by simp [firstVisits]⟩
  | cons a as ih =>
    rw [List.forall_mem_cons] at hf
    rw [List.mapM_cons]
    refine (hf.1 t chains ht hloaded).bind fun items u hu hitems => ?_
    obtain ⟨hloaded, rfl⟩ := hitems
    refine (ih hf.2 (ht.trans hu) hloaded).bind fun lists v _ hlists => leads_pure ?_
    obtain ⟨hloaded, hlists⟩ := hlists
    rw [List.flatMap_cons, List.flatten_cons, hlists, firstVisits_append, List.flatMap_append,
      ← List.append_assoc]
    exact ⟨hloaded, rfl⟩

theorem loadsChains_eagerPath (h : start.OpenedAt s m) (path : String) :
    LoadsChains s m start (eagerPath path) (chainsOf (segments path)) := by
  intro t chains ht hloaded
  have hwell := (h.later ht).wellFormed
  refine ((leads_resolveRelations (P := NotMarked Node.selected) hwell hwell.nonempty
    path).noting).bind fun last u hu hlast => leads_get ?_
  obtain ⟨hmarks, -, hlast⟩ := hlast
  have hopened := h.later (ht.trans hu)
  have hw : u.walk? rootId (segments path) = some last := (walk?_of_descendPath hlast).2
  rw [hopened.wellFormed.pathBetween?_of_walk? hw]
  simp only [Option.getD_some, List.mapM_map]
  have hsteps : ∀ chain ∈ chainsOf (segments path), LoadsChains s m u
      ((eagerColumns ∘ fun chain => (u.walk? rootId chain).getD rootId) chain) [chain] := by
    intro chain hchain
    obtain ⟨hne, hprefix⟩ := mem_chainsOf.1 hchain
    obtain ⟨id, hid⟩ := exists_walk?_of_prefix hw hprefix
    rw [Function.comp_apply, hid]
    exact loadsChains_eagerColumns hopened hne hid
  have hvisits : (chainsOf (segments path)).flatMap (fun chain => [chain]) =
      chainsOf (segments path) := by simp
  refine (leads_mapM_loads _ hsteps .start (hloaded.later hwell hu hmarks)).bind
    fun lists v _ hlists => leads_pure ?_
  rwa [hvisits] at hlists

end Building

namespace Options

open Building

def eagerVisits (o : Options) : List (List String) :=
  o.eager.flatMap fun path => chainsOf (segments path)

theorem mem_eagerVisits {o : Options} {chain : List String} :
    chain ∈ o.eagerVisits ↔ ∃ path ∈ o.eager, chain ≠ [] ∧ chain <+: segments path := by
  simp only [eagerVisits, List.mem_flatMap, mem_chainsOf]

variable {o : Options} {depth : Nat} {st : Statement} {u : JoinTree}

/-- What the eager paths add to a SELECT stands between its fields and its grouping columns, and
what they load is still loaded when the statement is done. -/
theorem loaded_of_select (hstart : start.OpenedAt s m) (hfresh : Unmarked Node.selected start)
    (h : o.select depth start = .ok (st, u)) :
    ∃ fields t, ∃ groups : List (ColumnRef × SelectItem),
      o.fieldItems start = .ok (fields, t) ∧ st.groupBy = groups.map Prod.fst ∧
      st.columns = fields ++ o.eagerVisits.eraseDups.flatMap (s.loadedColumns m) ++
        (if o.fields.isEmpty && !o.aggregates.isEmpty then groups.map Prod.snd else []) ∧
      st.joins = u.statementJoins ∧ u.OpenedAt s m ∧
      ∀ chain ∈ o.eagerVisits, ∃ id, u.walk? rootId chain = some id ∧
        (u.node id).joined = true := by
  obtain ⟨fields, t₁, eager, t₂, groups, t₃, aggregates, t₄, orderBy, t₅, limit, offset,
    ys, hfields, heager, hgroups, haggregates, horder, hys, rfl⟩ := select_eq_ok h
  have hall : ¬ o.Bare → KeptByClauses fun _ _ => True := fun _ => inferInstance
  obtain ⟨h₁, hmarks, -⟩ := leads_fieldItems (P := NotMarked Node.selected)
    (fun _ => inferInstance) hstart.wellFormed _ _ hfields
  have hplain : Unmarked Node.selected t₁ := by
    intro id hid hm
    obtain ⟨hlt, hm⟩ := hmarks id hid hm
    exact hfresh id hlt hm
  have o₁ := hstart.later h₁
  obtain ⟨h₂, -, hloaded, hcolumns⟩ := leads_mapM_loads o.eager
    (fun path _ => loadsChains_eagerPath o₁ path) .start
      (loaded_nil o₁.wellFormed hplain) _ _ heager
  have o₂ := o₁.later h₂
  obtain ⟨h₃, -, -⟩ := leads_groups hall o₂.wellFormed _ _ hgroups
  have o₃ := o₂.later h₃
  obtain ⟨h₄, -, -⟩ := leads_aggregates hall o₃.wellFormed _ _ haggregates
  have o₄ := o₃.later h₄
  obtain ⟨h₅, -, -⟩ := leads_orderings hall o₄.wellFormed _ _ horder
  have o₅ := o₄.later h₅
  obtain ⟨v, xs, ⟨hv, -⟩, -, hsettled⟩ := conditions_eq_ok (P := fun _ _ => True) o₅.wellFormed hys
  have hlast : Reached t₂ u :=
    (((h₃.trans h₄).trans h₅).trans hv).trans (reached_settleRoot hsettled)
  rw [firstVisits_nil] at hcolumns
  refine ⟨fields, t₁, groups, hfields, rfl, ?_, rfl, o₂.later hlast, fun chain hchain => ?_⟩
  · rw [hcolumns]
    rfl
  · obtain ⟨id, hw, hjoined⟩ := hloaded.joined chain hchain
    have hlt := o₂.wellFormed.lt_size_of_walk? o₂.wellFormed.nonempty hw
    exact ⟨id, hlast.walk? hw, (hlast.lasts hlt).joined hjoined⟩

end Options

namespace Request

variable {settings : Settings} {decls : List ModelDecl} {name : String} {r : Request} {depth : Nat}
  {st : Statement}

/-- Eager loading. Behind the fields, as they are selected without it, and before the grouping
columns a SELECT lists the columns of each chain of relations down the eager paths, once and in the
order of the first visit; each of these chains leads to a model and is joined. -/
theorem eager_chains_selected_once (hresolve : Schema.resolve settings decls = .ok s)
    (htarget : r.target = .model s name) (hkind : r.kind = .select)
    (h : r.build depth = .ok st) :
    ∃ m start fields t, ∃ groups : List (ColumnRef × SelectItem),
      s.model name = .ok m ∧ JoinTree.ofModel s name = .ok start ∧
      r.options.fieldItems start = .ok (fields, t) ∧ st.groupBy = groups.map Prod.fst ∧
      st.columns = fields ++ r.options.eagerVisits.eraseDups.flatMap (s.loadedColumns m) ++
        (if r.options.fields.isEmpty && !r.options.aggregates.isEmpty then groups.map Prod.snd
          else []) ∧
      ∀ path ∈ r.options.eager, ∀ chain, chain ≠ [] → chain <+: segments path →
        (∃ linked, chain.foldlM s.follow m = some linked) ∧
        ∃ relation kind, (s.placeAt m chain).relation = some relation ∧
          (kind = .inner ∨ kind = .left) ∧
          relation.joins (chainAlias chain.dropLast) (chainAlias chain) kind true <:+:
            st.joins := by
  obtain ⟨start, u, hstart, hrun⟩ := run_of_build htarget h
  rw [hkind] at hrun
  obtain ⟨m, hm, -⟩ := ofModel_eq_ok hstart
  obtain ⟨start', hstart', hopened⟩ := exists_openedAt (Schema.closed_of_resolve hresolve) hm
  obtain rfl : start' = start := Except.ok.inj (hstart'.symm.trans hstart)
  have hfresh : Unmarked Node.selected start' :=
    unmarked_of_notMarked hstart (KeptByPaths.refl start')
  obtain ⟨fields, t, groups, hfields, hgroups, hcolumns, hjoins, hlast, hloaded⟩ :=
    Options.loaded_of_select hopened hfresh hrun
  refine ⟨m, start', fields, t, groups, hm, hstart, hfields, hgroups, hcolumns,
    fun path hpath chain hne hprefix => ?_⟩
  obtain ⟨id, hw, hjoined⟩ := hloaded chain
    (Options.mem_eagerVisits.2 ⟨path, hpath, hne, hprefix⟩)
  obtain ⟨linked, hlinked⟩ :=
    hlast.exists_model? (hlast.wellFormed.lt_size_of_walk? hlast.wellFormed.nonempty hw)
  rw [hjoins]
  exact ⟨⟨linked, by rw [← hlast.model?_of_walk? hw, hlinked]⟩,
    hlast.joins_of_walk? hne hw hjoined⟩

/-- The paths share beginnings, one comes twice and one leads back to the author, whose node a field
has made before. -/
theorem eager_chains_selected_once_of_article :
    let r : Request := {
      target := .model Tagged.schema "Article"
      kind := .select
      options := {
        fields := ["author/id"]
        eager := ["author/articles/author", "tags", " author / articles ",
          "tags/articles", "tags"] } }
    Schema.resolve {} Tagged.decls = .ok Tagged.schema ∧ ∃ st m fields, r.build 1 = .ok st ∧
      Tagged.schema.model "Article" = .ok m ∧
      st.columns = fields ++ [["author"], ["author", "articles"], ["author", "articles", "author"],
        ["tags"], ["tags", "articles"]].flatMap (Tagged.schema.loadedColumns m) := by
  intro r
  have hresolve : Schema.resolve {} Tagged.decls = .ok Tagged.schema := by with_unfolding_all rfl
  have hopens : r.opens 1 = true := by decide +kernel
  have hvisits : r.options.eagerVisits.eraseDups = [["author"], ["author", "articles"],
      ["author", "articles", "author"], ["tags"], ["tags", "articles"]] := by decide +kernel
  obtain ⟨st, hst⟩ := exists_build rfl hopens
  obtain ⟨m, start, fields, t, groups, hm, -, -, -, hcolumns, -⟩ :=
    eager_chains_selected_once hresolve rfl rfl hst
  rw [hvisits] at hcolumns
  exact ⟨hresolve, st, m, fields, hst, hm, hcolumns.trans (List.append_nil _)⟩

end Request

end PathQuery
