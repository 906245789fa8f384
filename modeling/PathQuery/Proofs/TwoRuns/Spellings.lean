import PathQuery.Proofs.Filter.Resolved
import PathQuery.Proofs.Relation.Unified
import PathQuery.Proofs.Schema.HookCalls
import PathQuery.Proofs.TwoRuns.Filters

/-!
Filters in which one criterion stands in place of another. All around it is the same in both runs,
hooks included, and resolves to the same conditions. A membership and a comparison by `IN` of the
same column resolve to conditions that are one condition in one spelling.
-/

set_option autoImplicit false

namespace PathQuery

namespace Criterion

/-- A position for a criterion: among others of a list, or inside a group among others. -/
inductive Position where
  | here (before after : List Criterion)
  | inside (before : List Criterion) (connective : Connective) (inner : Position)
    (after : List Criterion)

def Position.fill : Position → Criterion → List Criterion
  | .here before after, x => before ++ x :: after
  | .inside before c inner after, x => before ++ .group c (inner.fill x) :: after

theorem Position.isEmpty_fill (p : Position) (x : Criterion) : (p.fill x).isEmpty = false := by
  cases p <;> simp [fill]

end Criterion

namespace Schema

variable (s : Schema) (m : Model)

def columnsOf? (name : String) : Option (List String) :=
  if name.toList.contains ',' then some ((Building.listed name).map m.table.columnOf)
  else
    match m.relation? name with
    | some r =>
      if r.kind = .belongsTo then some [r.current.column]
      else (s.follow m name).map (·.table.primaryKeyColumns)
    | none => some [m.table.columnOf name]

def columnsAt? (path : String) : Option (List String) :=
  (s.pathEnd? m path).bind fun last => s.columnsOf? last.1 last.2

end Schema

namespace JoinTree

variable {s : Schema} {m : Model} {t u v : JoinTree} {path name : String} {id : Nat}
  {p : Nat × List String}

/-- The path resolves from the root to a single column, of an attribute without a hook. -/
def NamesColumn (t : JoinTree) (path column : String) : Prop :=
  ∃ id name u target v, t.resolveFrom rootId path = (.ok (id, name), u) ∧
    (u.model? id).bind (·.hook? name) = none ∧
    Building.columnsOf id name u = .ok ((target, [column]), v)

theorem columnsOf?_of_columnsOf (hclosed : s.Closed) (ht : t.WellFormed) (hs : t.schema = some s)
    (hm : t.model? id = some m) (h : Building.columnsOf id name t = .ok (p, u)) :
    s.columnsOf? m name = some p.2 := by
  have htable : t.table id = m.table := by simp [table, hm]
  have hrelation : (t.model? id).bind (·.relation? name) = m.relation? name := by rw [hm]; rfl
  unfold Schema.columnsOf?
  by_cases hcomma : name.toList.contains ',' = true
  · rw [Building.columnsOf_list hcomma, htable] at h
    rw [if_pos hcomma, ← (Prod.mk.inj (Except.ok.inj h)).1]
  rw [if_neg hcomma]
  cases hr : m.relation? name with
  | none =>
    rw [Building.columnsOf_attribute hcomma (hrelation.trans hr), htable] at h
    rw [← (Prod.mk.inj (Except.ok.inj h)).1]
  | some r =>
    dsimp only
    by_cases hkind : r.kind = .belongsTo
    · rw [Building.columnsOf_belongsTo hcomma (hrelation.trans hr) hkind] at h
      rw [if_pos hkind, ← (Prod.mk.inj (Except.ok.inj h)).1]
    · rw [Building.columnsOf_relation hcomma (hrelation.trans hr) hkind] at h
      obtain ⟨⟨linked, v⟩, hchild, h⟩ := bind_eq_ok_iff.1 h
      obtain ⟨rfl, -⟩ := Prod.mk.inj (Except.ok.inj h)
      obtain ⟨last, hlast, -⟩ := hclosed.linked m (mem_of_model? hs hm) r
        (List.mem_of_find?_eq_some hr)
      have hfollow : s.follow m name = some last := by rw [Schema.follow, hr]; exact hlast
      have hmodel : v.model? linked = some last := by
        rw [model?_child ht hs (Building.of_step hchild), hm]
        exact hfollow
      rw [if_neg hkind, hfollow]
      simp [table, hmodel]

theorem columnsAt?_of_columnsOf (hclosed : s.Closed) (ht : t.WellFormed) (hs : t.schema = some s)
    (hm : t.model? rootId = some m) (hfound : t.resolveFrom rootId path = (.ok (id, name), u))
    (h : Building.columnsOf id name u = .ok (p, v)) : s.columnsAt? m path = some p.2 := by
  obtain ⟨hd, -⟩ := resolveFrom_eq_ok hfound
  have hgrown := grown_descend hd
  have hu := hgrown.wellFormed ht
  have hschema : u.schema = some s := hgrown.schema.trans hs
  have hroot : u.model? rootId = some m := (hgrown.model? rootId ht.nonempty).trans hm
  obtain ⟨last, hlast⟩ :=
    hu.exists_model? hschema hclosed hroot (ht.lt_size_of_descend ht.nonempty hd)
  obtain ⟨m', hm', hend⟩ := Over.pathEnd? ⟨ht, .inl hs⟩ hfound hlast
  obtain rfl : m = m' := Option.some.inj (hm.symm.trans hm')
  rw [Schema.columnsAt?, hend]
  exact columnsOf?_of_columnsOf hclosed hu hschema hlast h

end JoinTree

namespace Filter

open Building

variable {g : Target} {expand : Expansion}

def SameExpansions (g : Target) (expand : Expansion) : Prop :=
  ∀ id f, Related g Eq (expand id f) (expand id f)

theorem related_resolveCompare_self (hexpand : SameExpansions g expand) (scope : Nat)
    (c : Connective) (path operator : String) (v : Value) :
    Related g Eq (resolveCompare expand scope c path operator v)
      (resolveCompare expand scope c path operator v) := by
  rw [resolveCompare_eq]
  refine related_bind (related_ofExcept _) fun op _ hop => ?_
  subst hop
  refine related_bind (related_resolveFrom scope path) fun p _ hp => ?_
  subst hp
  refine related_get fun t t' ht => ?_
  rw [ht.model?_eq]
  cases (t'.model? p.1).bind (·.hook? p.2) with
  | some hook =>
    refine related_bind (related_ofExcept _) fun f _ hf => ?_
    subst hf
    exact related_bind (hexpand p.1 f) fun xs _ hxs => related_pure (by rw [hxs])
  | none =>
    exact related_compareAttribute c p.1 p.2 (fun _ _ => .refl _) fun _ _ hxy => by rw [hxy]

mutual

theorem related_resolveCriterion_self (hexpand : SameExpansions g expand) (scope : Nat)
    (x : Criterion) :
    Related g Eq (resolveCriterion expand scope x) (resolveCriterion expand scope x) := by
  cases x with
  | compare c path op v => exact related_resolveCompare_self hexpand scope c path op v
  | group c members =>
    exact related_bind (related_resolveAll_self hexpand scope members) fun xs _ hxs =>
      related_pure (by rw [hxs])
  | membership c path vs negated =>
    exact related_resolveMembership scope c path negated fun _ => rfl
  | columns c left op right =>
    exact related_resolveColumns scope c left op right fun _ _ _ => rfl
  | existence c query negated => exact related_pure rfl
  | subquery c query op v =>
    exact related_bind (related_ofExcept _) fun op' _ hop => related_pure (by rw [hop])
termination_by structural x

theorem related_resolveAll_self (hexpand : SameExpansions g expand) (scope : Nat)
    (xs : List Criterion) :
    Related g Eq (resolveAll expand scope xs) (resolveAll expand scope xs) := by
  cases xs with
  | nil => exact related_pure rfl
  | cons x rest =>
    refine related_bind (related_resolveCriterion_self hexpand scope x) fun y _ hy => ?_
    refine related_bind (related_resolveAll_self hexpand scope rest) fun ys _ hys => ?_
    exact related_pure (by rw [hy, hys])
termination_by structural xs

end

theorem sameExpansions_resolve (g : Target) (depth : Nat) : SameExpansions g (resolve depth) := by
  induction depth with
  | zero => exact fun id f => related_resolveAll_self (fun _ _ => related_throw _) id f.criteria
  | succ depth ih => exact fun id f => related_resolveAll_self ih id f.criteria

theorem resolveAll_append (scope : Nat) (xs ys : List Criterion) :
    resolveAll expand scope (xs ++ ys) = do
      return (← resolveAll expand scope xs) ++ (← resolveAll expand scope ys) := by
  induction xs with
  | nil => simp [resolveAll]
  | cons x rest ih => simp [resolveAll, ih]

variable {scope : Nat}

theorem related_among (hexpand : SameExpansions g expand) (before after : List Criterion)
    {x y : Criterion}
    (h : Related g Condition.SameTest (resolveCriterion expand scope x)
      (resolveCriterion expand scope y)) :
    Related g Condition.SameTests (resolveAll expand scope (before ++ x :: after))
      (resolveAll expand scope (before ++ y :: after)) := by
  rw [resolveAll_append, resolveAll_append]
  refine related_bind (related_resolveAll_self hexpand scope before) fun as _ has => ?_
  subst has
  have hrest : Related g Condition.SameTests (resolveAll expand scope (x :: after))
      (resolveAll expand scope (y :: after)) := by
    refine related_bind h fun a b hab => ?_
    refine related_bind (related_resolveAll_self hexpand scope after) fun bs _ hbs => ?_
    subst hbs
    exact related_pure (by rw [Condition.SameTests, List.map_cons, List.map_cons, hab])
  refine related_bind hrest fun xs ys hxy => related_pure ?_
  rw [Condition.SameTests, List.map_append, List.map_append, hxy]

/-- The place of a criterion does not matter, nor what is around it. -/
theorem related_fill (hexpand : SameExpansions g expand) (p : Criterion.Position) {x y : Criterion}
    (h : Related g Condition.SameTest (resolveCriterion expand scope x)
      (resolveCriterion expand scope y)) :
    Related g Condition.SameTests (resolveAll expand scope (p.fill x))
      (resolveAll expand scope (p.fill y)) := by
  induction p with
  | here before after => exact related_among hexpand before after h
  | inside before c inner after ih =>
    refine related_among hexpand before after ?_
    refine related_bind ih fun xs ys hxy => related_pure ?_
    rw [Condition.SameTest, Condition.unified_group, Condition.unified_group, hxy]

theorem parse_in : Operator.parse "IN" = .ok .isIn := by
  with_unfolding_all rfl

theorem ofScalar_isIn (a column : String) (values : List Value) :
    Condition.ofScalar a column .isIn (.list values) =
      .ok (Condition.ofColumn a column .isIn (.list values)) := by
  rw [Condition.ofScalar_list]
  rfl

/-- Equality with several values is `IN`, for one column and for tuples. -/
theorem ofColumns_equals_list (a : String) (columns : List String) {values : List Value}
    (h : 2 ≤ values.length) :
    Condition.ofColumns a .eq (.list values) columns =
      Condition.ofColumns a .isIn (.list values) columns := by
  match columns with
  | [column] =>
    match values, h with
    | _ :: _ :: _, _ => rfl
  | [] => rfl
  | _ :: _ :: _ => rfl

theorem length_dereferenceAll (values : List Value) :
    (Value.dereferenceAll values).length = values.length := by
  induction values with
  | nil => rfl
  | cons v rest ih => rw [Value.dereferenceAll, List.length_cons, List.length_cons, ih]

variable (expand) {path : String} (c : Connective) (values : List Value)

theorem related_equals_list (hfree : g.hookAt? path = none) (h : 2 ≤ values.length) :
    Related g Eq
      (resolveCriterion expand JoinTree.rootId (.compare c path "IN" (.list values)))
      (resolveCriterion expand JoinTree.rootId (.compare c path "=" (.list values))) := by
  refine related_resolveCompare (P := fun op op' => op = .isIn ∧ op' = .eq) expand expand c ?_ ?_
    (fun _ _ hxy => by rw [hxy]) hfree
  · rw [parse_in, Operator.parse_equals]
    exact .ok ⟨rfl, rfl⟩
  · rintro _ _ ⟨rfl, rfl⟩ a columns
    have hlength : 2 ≤ (Value.dereferenceAll values).length := by rwa [length_dereferenceAll]
    rw [Value.dereference, ofColumns_equals_list a columns hlength]
    exact .refl _

theorem resolveMembership_eq (scope : Nat) (path : String) (negated : Bool) :
    resolveMembership scope c path values negated = (do
      let (id, name) ← resolveFrom scope path
      match ← columnsOf id name with
      | (id, [column]) => do
        let leaf := .membership c ⟨← aliasOf id, column⟩ (Value.dereferenceAll values) negated
        attach id leaf
        return leaf
      | _ => fail (.malformed .conditions (.compoundMembership path))) := by
  unfold resolveMembership target
  exact bind_assoc _ _ _

/-- Where one column stands at the end of the path, the two spellings come to one condition. -/
theorem related_membership {s : Schema} {m : Model} (hclosed : s.Closed)
    (hschema : g.schema? = some s) (hmodel : g.model? = some m) (hfree : g.hookAt? path = none)
    {column : String} (hcolumn : s.columnsAt? m path = some [column]) :
    Related g Condition.SameTest
      (resolveCriterion expand JoinTree.rootId (.compare c path "IN" (.list values)))
      (resolveCriterion expand JoinTree.rootId (.membership c path values false)) := by
  have hread : Building.ofExcept (Operator.parse "IN") = pure Operator.isIn := by rw [parse_in]; rfl
  rw [resolveCriterion, resolveCriterion, resolveCompare_eq, resolveMembership_eq, hread, pure_bind]
  intro t t' ht
  refine agree_bind (related_resolveFrom _ path) ht fun p q u u' hp hpq hu => ?_
  obtain ⟨id, name⟩ := p
  obtain rfl : (id, name) = q := hpq
  have hfound := of_step hp
  have hnone := (ht.hook?_resolveFrom hfound).trans hfree
  have hget : (get : Building JoinTree) u = .ok (u, u) := rfl
  dsimp only
  rw [bind_run hget]
  simp only [hnone]
  refine agree_bind (related_columnsOf id name) hu fun p q w w' hq hpq hw => ?_
  obtain ⟨target, columns⟩ := p
  obtain rfl : (target, columns) = q := hpq
  have hcolumns := JoinTree.columnsAt?_of_columnsOf hclosed ht.wellFormed (ht.schema.trans hschema)
    (ht.root.trans hmodel) hfound hq
  obtain rfl : columns = [column] := Option.some.inj (hcolumns.symm.trans hcolumn)
  refine related_bind (related_aliasOf target) (fun a _ ha => ?_) w w' hw
  subst ha
  have hleaf : (liftM (Condition.ofColumns a .isIn (Value.list values).dereference [column]) :
      Building Condition) =
      pure (.ofColumn a column .isIn (.list (Value.dereferenceAll values))) := by
    rw [Condition.ofColumns, Value.dereference, ofScalar_isIn]
    rfl
  rw [hleaf, pure_bind]
  exact related_bind (related_attach target _ _) fun _ _ _ => related_pure rfl

end Filter

end PathQuery
