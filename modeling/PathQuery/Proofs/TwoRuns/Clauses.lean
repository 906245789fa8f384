import PathQuery.Proofs.TwoRuns.Filters
import PathQuery.Proofs.TwoRuns.Settling

/-!
Statements built from options that are alike but for their filters. Everything besides the
conditions, the assignments and the rows is built from what both runs have in common, so it comes
out the same, whatever relates the conditions that the filters come to.
-/

set_option autoImplicit false

namespace PathQuery

structure Statement.AlikeOver (ρ : Value → Value → Prop)
    (R : List Condition → List Condition → Prop) (s s' : Statement) : Prop where
  frame : s.toFrame.Alike ρ s'.toFrame
  conditions : R s.conditions s'.conditions

/-- Options that are alike but for their filters, which come to conditions in some relation. -/
structure Options.AlikeOver (ρ : Value → Value → Prop) (g : Target)
    (R : List Condition → List Condition → Prop) (depth : Nat) (o o' : Options) : Prop where
  rest : { o with filter := {}, assignments := [], rows := [] } =
    { o' with filter := {}, assignments := [], rows := [] }
  empty : o.filter.isEmpty = o'.filter.isEmpty
  assignments : List.Forall₂ (AssignmentAlike ρ) o.assignments o'.assignments
  rows : List.Forall₂ (List.Forall₂ (Value.Alike ρ)) o.rows o'.rows
  conditions : Building.Related g R (o.conditions depth) (o'.conditions depth)

variable {ρ : Value → Value → Prop} {g : Target}

namespace Building

theorem related_rootTable : Related g Eq rootTable rootTable :=
  related_get fun _ _ ht => related_pure (ht.table_eq _)

theorem related_joinPath (id : Nat) :
    Related g Eq (modify (·.joinPath id) : Building Unit) (modify (·.joinPath id)) :=
  related_modify fun _ _ ht =>
    ht.step (f := (·.joinPath id)) (fun t => (JoinTree.sameShape_joinPath t id).grown)
      fun t => JoinTree.clear_joinPath t id

theorem related_select (id : Nat) :
    Related g Eq (modify (·.select id) : Building Unit) (modify (·.select id)) :=
  related_modify fun _ _ ht =>
    ht.step (f := (·.select id)) (fun t => (JoinTree.sameShape_select t id).grown)
      fun t => JoinTree.clear_select t id

theorem related_columnAt (clause : Clause) (path : String) :
    Related g Eq (columnAt clause path) (columnAt clause path) := by
  unfold columnAt
  refine related_bind (related_step ?_ ?_) fun p _ hp => ?_
  · intro t
    rw [JoinTree.resolve, JoinTree.resolve, JoinTree.resolveFrom_clear]
    rcases t.resolveFrom JoinTree.rootId path with ⟨e | found, u⟩ <;> rfl
  · intro t found u h
    rw [JoinTree.resolve] at h
    rcases hr : t.resolveFrom JoinTree.rootId path with ⟨e | ⟨id, name⟩, v⟩
    · simp [hr] at h
    · obtain ⟨rfl, rfl⟩ : (id, name) = found ∧ v = u := by simpa [hr] using h
      exact JoinTree.grown_descend (JoinTree.resolveFrom_eq_ok hr).1
  subst hp
  refine related_get fun t t' ht => ?_
  rw [ht.table_eq]
  refine related_bind (related_discard (related_ofExcept _)) fun _ _ _ => ?_
  refine related_bind (related_joinPath p.1) fun _ _ _ => ?_
  refine related_bind (related_aliasOf p.1) fun a _ ha => ?_
  exact related_pure (by rw [ha])

theorem related_labelOf (id : Nat) (name : String) :
    Related g Eq (labelOf id name) (labelOf id name) := by
  unfold labelOf
  split
  · exact related_pure rfl
  · exact related_bind (related_aliasOf id) fun a _ ha => related_pure (by rw [ha])

theorem related_rootColumn (clause : Clause) (name : String) :
    Related g Eq (rootColumn clause name) (rootColumn clause name) := by
  unfold rootColumn
  refine related_bind related_rootTable fun table _ htable => ?_
  subst htable
  split
  · exact related_throw _
  · exact related_bind (related_discard (related_ofExcept _)) fun _ _ _ => related_pure rfl

theorem related_selectedField (path : String) :
    Related g Eq (selectedField path) (selectedField path) := by
  refine related_bind (related_columnAt _ path) fun p _ hp => ?_
  subst hp
  exact related_bind (related_labelOf _ _) fun l _ hl => related_pure (by rw [hl])

theorem related_eagerColumns (id : Nat) :
    Related g Eq (eagerColumns id) (eagerColumns id) := by
  refine related_get fun t t' ht => ?_
  have hselected := ht.eq (f := fun t => (t.node id).selected) fun u => by rw [u.node_clear]; rfl
  rw [hselected]
  split
  · exact related_pure rfl
  · refine related_bind (related_select id) fun _ _ _ => ?_
    refine related_bind (related_aliasOf id) fun a _ ha => ?_
    refine related_get fun u u' hu => related_pure ?_
    rw [ha, hu.table_eq]

theorem related_eagerPath (path : String) : Related g Eq (eagerPath path) (eagerPath path) := by
  have hlast : Related g Eq (step (·.resolveRelations JoinTree.rootId path))
      (step (·.resolveRelations JoinTree.rootId path)) :=
    related_step (fun t => t.descendPath_clear path _ _) fun _ _ _ h =>
      JoinTree.grown_descendPath h
  refine related_bind hlast fun last _ hlast => ?_
  subst hlast
  refine related_get fun t t' ht => ?_
  have hids := ht.eq (f := fun t => t.pathBetween? JoinTree.rootId last)
    fun u => u.pathBetween?_clear _ _
  rw [hids]
  refine related_bind (related_mapM_eq related_eagerColumns) fun items _ hitems => ?_
  exact related_pure (by rw [hitems])

theorem related_grouping (path : String) : Related g Eq (grouping path) (grouping path) := by
  refine related_bind (related_columnAt _ path) fun p _ hp => ?_
  subst hp
  exact related_bind (related_labelOf _ _) fun l _ hl => related_pure (by rw [hl])

theorem related_aggregate (a : AggregateRequest) : Related g Eq (aggregate a) (aggregate a) := by
  unfold aggregate
  cases a.path with
  | none => exact related_pure rfl
  | some path =>
    exact related_bind (related_columnAt _ path) fun p _ hp => related_pure (by rw [hp])

theorem related_ordering (spec : String) : Related g Eq (ordering spec) (ordering spec) := by
  refine related_bind (related_ofExcept _) fun p _ hp => ?_
  subst hp
  exact related_bind (related_columnAt _ _) fun q _ hq => related_pure (by rw [hq])

end Building

namespace Options

open Building

theorem related_rootSource : Related g Eq rootSource rootSource :=
  related_bind related_rootTable fun table _ htable => related_pure (by rw [htable])

/-- Settling goes on from whatever relates the conditions that two filters resolve to. -/
theorem related_conditions {Q R : List Condition → List Condition → Prop} {depth : Nat}
    {o o' : Options}
    (hresolve : Related g Q (o.filter.resolve depth JoinTree.rootId)
      (o'.filter.resolve depth JoinTree.rootId))
    (hsettle : ∀ t t' : JoinTree, ∀ xs ys, t.clear = t'.clear → Q xs ys →
      Agree (fun p q => R p.1 q.1 ∧ p.2.clear = q.2.clear ∧ t.Grown p.2) (t.settleRoot xs)
        (t'.settleRoot ys)) :
    Related g R (o.conditions depth) (o'.conditions depth) := by
  refine related_bind hresolve fun xs ys hxy => ?_
  intro t t' ht
  refine (hsettle t t' xs ys ht.clear hxy).mono fun p q hpq => ?_
  exact ⟨hpq.1, ht.grown hpq.2.2 hpq.2.1⟩

theorem related_fieldItems (o : Options) : Related g Eq o.fieldItems o.fieldItems := by
  unfold fieldItems
  split
  · exact related_mapM_eq related_selectedField
  · split
    · exact related_bind related_rootTable fun table _ htable => related_pure (by rw [htable])
    · exact related_pure rfl

variable {R : List Condition → List Condition → Prop} {depth : Nat} {o o' : Options}

theorem AlikeOver.exists_eq (h : o.AlikeOver ρ g R depth o') :
    ∃ filter assignments rows, o' = { o with filter, assignments, rows } := by
  refine ⟨o'.filter, o'.assignments, o'.rows, ?_⟩
  have hrest := h.rest
  cases o
  cases o'
  simp only [Options.mk.injEq, true_and, and_true] at hrest ⊢
  simp [hrest]

theorem alikeOver_of_conditions {f : Frame} {xs ys : List Condition}
    (hassignments : f.assignments = []) (hrows : f.rows = []) (h : R xs ys) :
    Statement.AlikeOver ρ R { toFrame := f, conditions := xs }
      { toFrame := f, conditions := ys } where
  frame := Frame.alike_refl hassignments hrows
  conditions := h

theorem related_select (h : o.AlikeOver ρ g R depth o') :
    Related g (Statement.AlikeOver ρ R) (o.select depth) (o'.select depth) := by
  have hconditions := h.conditions
  obtain ⟨filter, assignments, rows, rfl⟩ := h.exists_eq
  unfold select
  refine related_bind related_rootSource fun source _ hsource => ?_
  subst hsource
  refine related_bind (related_fieldItems o) fun fields _ hfields => ?_
  subst hfields
  refine related_get fun t t' ht => ?_
  rw [ht.eq (f := JoinTree.hasModel) JoinTree.hasModel_clear]
  refine related_ite _ ?_ ?_
  · refine related_bind related_rootTable fun table _ htable => ?_
    subst htable
    exact related_fail_bind _
  · refine related_bind (related_mapM_eq related_eagerPath) fun eager _ heager => ?_
    subst heager
    refine related_bind (related_mapM_eq related_grouping) fun groups _ hgroups => ?_
    subst hgroups
    refine related_bind (related_mapM_eq related_aggregate) fun aggregates _ haggregates => ?_
    subst haggregates
    refine related_bind (related_mapM_eq related_ordering) fun orderBy _ horderBy => ?_
    subst horderBy
    refine related_bind (related_ofExcept _) fun limit _ hlimit => ?_
    subst hlimit
    refine related_bind (related_ofExcept _) fun offset _ hoffset => ?_
    subst hoffset
    refine related_bind hconditions fun xs ys hxy => ?_
    refine related_get fun t t' ht => related_pure ?_
    rw [ht.statementJoins_eq]
    exact alikeOver_of_conditions rfl rfl hxy

theorem checkRows_eq {rows rows' : List (List Value)}
    (h : List.Forall₂ (List.Forall₂ (Value.Alike ρ)) rows rows') (width number : Nat) :
    checkRows width number rows = checkRows width number rows' := by
  induction h generalizing number with
  | nil => rfl
  | cons hrow _ ih => rw [checkRows, checkRows, hrow.length_eq, ih]

theorem insertion_alike (h : o.AlikeOver ρ g R depth o') :
    o.insertion.1 = o'.insertion.1 ∧
      List.Forall₂ (List.Forall₂ (Value.Alike ρ)) o.insertion.2 o'.insertion.2 := by
  have hfields : o.fields = o'.fields := (congrArg Options.fields h.rest :)
  unfold insertion
  rw [isEmpty_eq_of_forall₂ h.rows]
  split
  · have hnames := List.rel_map (P := Eq) (fun (a b : String × Value) h => h.1)
      h.assignments
    rw [List.forall₂_eq_eq_eq] at hnames
    have hvalues := List.rel_map (P := Value.Alike ρ)
      (fun (a b : String × Value) h => h.2) h.assignments
    exact ⟨hnames, .cons hvalues .nil⟩
  · exact ⟨hfields, h.rows⟩

theorem related_insert (h : o.AlikeOver ρ g R depth o') (hnone : R [] []) :
    Related g (Statement.AlikeOver ρ R) o.insert o'.insert := by
  obtain ⟨hnames, hrows⟩ := insertion_alike h
  unfold insert
  rw [h.empty]
  refine related_ite _ (related_fail_bind _) ?_
  generalize o.insertion = i at hnames hrows
  generalize o'.insertion = i' at hnames hrows
  obtain ⟨names, rows⟩ := i
  obtain ⟨names', rows'⟩ := i'
  obtain rfl : names = names' := hnames
  refine related_ite _ (related_fail_bind _) ?_
  refine related_bind (related_mapM_eq (related_rootColumn _)) fun columns _ hcolumns => ?_
  subst hcolumns
  dsimp only at hrows ⊢
  rw [checkRows_eq hrows]
  refine related_bind (related_ofExcept _) fun _ _ _ => ?_
  refine related_bind related_rootTable fun table _ htable => related_pure ?_
  subst htable
  exact { frame := ⟨rfl, .nil, hrows⟩, conditions := hnone }

theorem related_assignment {a b : String × Value} (h : AssignmentAlike ρ a b) :
    Related g (AssignmentAlike ρ) (assignment a) (assignment b) := by
  unfold assignment
  rw [h.1]
  exact related_bind (related_rootColumn _ _) fun c _ hc => related_pure ⟨by rw [hc], h.2⟩

theorem related_update (h : o.AlikeOver ρ g R depth o') :
    Related g (Statement.AlikeOver ρ R) (o.update depth) (o'.update depth) := by
  unfold update
  rw [isEmpty_eq_of_forall₂ h.assignments]
  refine related_ite _ (related_fail_bind _) ?_
  refine related_bind related_rootSource fun source _ hsource => ?_
  subst hsource
  have hassignments := related_mapM (g := g) h.assignments fun _ _ => related_assignment
  refine related_bind hassignments fun as bs hab => ?_
  refine related_bind h.conditions fun xs ys hxy => ?_
  refine related_get fun t t' ht => related_pure ?_
  rw [ht.statementJoins_eq]
  exact { frame := ⟨rfl, hab, .nil⟩, conditions := hxy }

/-- Whether a DELETE names several sources depends on the SELECTs in its conditions. -/
theorem related_delete (h : o.AlikeOver ρ g R depth o')
    (hsubquery : ∀ xs ys, R xs ys → Condition.anySubquery xs = Condition.anySubquery ys) :
    Related g (Statement.AlikeOver ρ R) (o.delete depth) (o'.delete depth) := by
  unfold delete
  refine related_bind related_rootSource fun source _ hsource => ?_
  subst hsource
  refine related_bind h.conditions fun xs ys hxy => ?_
  refine related_bind related_rootTable fun table _ htable => ?_
  subst htable
  refine related_get fun t t' ht => related_pure ?_
  dsimp only
  rw [ht.statementJoins_eq]
  have hs : Statement.AlikeOver ρ R
      { kind := .delete, deleteFrom := some table.name, source := some source
        joins := t'.statementJoins, conditions := xs }
      { kind := .delete, deleteFrom := some table.name, source := some source
        joins := t'.statementJoins, conditions := ys } :=
    alikeOver_of_conditions rfl rfl hxy
  rw [Statement.needsAliases_eq hs.frame (hsubquery xs ys hxy)]
  split
  · exact alikeOver_of_conditions rfl rfl hxy
  · exact hs

theorem related_statement (kind : StatementKind) (h : o.AlikeOver ρ g R depth o') (hnone : R [] [])
    (hsubquery : ∀ xs ys, R xs ys → Condition.anySubquery xs = Condition.anySubquery ys) :
    Related g (Statement.AlikeOver ρ R) (o.statement depth kind) (o'.statement depth kind) := by
  cases kind with
  | select => exact related_select h
  | insert => exact related_insert h hnone
  | update => exact related_update h
  | delete => exact related_delete h hsubquery

end Options

namespace Request

theorem agree_joinTree {r : Request} {t : JoinTree} (h : r.joinTree = .ok t) :
    Twins r.target t t := by
  obtain ⟨target, kind, options⟩ := r
  cases target with
  | table table =>
    obtain rfl : JoinTree.ofTable table = t := by simpa [joinTree] using h
    exact ⟨rfl, JoinTree.wellFormed_ofTable table, rfl, rfl⟩
  | model s name =>
    have hof : JoinTree.ofModel s name = .ok t := h
    obtain ⟨m, hm, rfl⟩ := map_eq_ok_iff.1 hof
    have hfind : s.model? name = some m := by
      unfold Schema.model at hm
      cases hs : s.model? name with
      | none => simp [hs] at hm
      | some m' => simpa [hs] using hm
    have hname : m.name = name := by simpa using List.find?_some hfind
    refine ⟨rfl, JoinTree.wellFormed_ofModel hof, rfl, ?_⟩
    simp [JoinTree.model?, JoinTree.node_eq, JoinTree.rootId, Node.root, hname, Target.model?]

theorem agree_build_over {R : List Condition → List Condition → Prop} {depth : Nat} (r : Request)
    {o : Options} (h : r.options.AlikeOver ρ r.target R depth o) (hnone : R [] [])
    (hsubquery : ∀ xs ys, R xs ys → Condition.anySubquery xs = Condition.anySubquery ys) :
    Agree (Statement.AlikeOver ρ R) (r.build depth) ({ r with options := o }.build depth) := by
  have htree : { r with options := o }.joinTree = r.joinTree := rfl
  unfold build
  rw [htree]
  cases ht : r.joinTree with
  | error e => exact .error _
  | ok t =>
    have hs := Options.related_statement r.kind h hnone hsubquery t t (agree_joinTree ht)
    exact hs.map fun _ _ hpq => hpq.1

end Request

end PathQuery
