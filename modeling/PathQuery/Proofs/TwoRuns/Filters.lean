import PathQuery.Filter.Resolve
import PathQuery.Proofs.TwoRuns.Comparisons
import PathQuery.Proofs.TwoRuns.Steps

/-!
Filters that are alike, resolved against a target. A hook may look at the value that it is asked
about, so no criterion compares an attribute with one. All other criteria become conditions that
are alike, and the paths in them grow the trees of both runs in the same way.
-/

set_option autoImplicit false

namespace PathQuery

def Target.hookAt? (g : Target) (path : String) : Option Hook := do
  let s ← g.schema?
  let m ← g.model?
  let last ← (JoinTree.segments path).dropLast.foldlM s.follow m
  last.hook? ((JoinTree.segments path).getLastD "")

mutual

def Criterion.avoidsHooks (g : Target) : Criterion → Bool
  | .compare _ path _ _ => (g.hookAt? path).isNone
  | .group _ members => avoidHooks g members
  | _ => true
termination_by structural x => x

def Criterion.avoidHooks (g : Target) : List Criterion → Bool
  | [] => true
  | x :: rest => x.avoidsHooks g && avoidHooks g rest
termination_by structural xs => xs

end

def Filter.avoidsHooks (g : Target) (f : Filter) : Bool :=
  Criterion.avoidHooks g f.criteria

variable {ρ : Value → Value → Prop} {g : Target}

theorem Twins.hook?_resolveFrom {t t' u : JoinTree} (h : Twins g t t') {path name : String}
    {id : Nat} (hr : t.resolveFrom JoinTree.rootId path = (.ok (id, name), u)) :
    (u.model? id).bind (·.hook? name) = g.hookAt? path := by
  obtain ⟨hd, rfl⟩ := JoinTree.resolveFrom_eq_ok hr
  cases hs : t.schema with
  | none =>
    have hu : u.schema = none := (JoinTree.grown_descend hd).schema.trans hs
    have hg : g.schema? = none := h.schema.symm.trans hs
    simp [JoinTree.model?, hu, Target.hookAt?, hg]
  | some s =>
    have hg : g.schema? = some s := h.schema.symm.trans hs
    rw [JoinTree.model?_descend h.wellFormed hs hd, h.root]
    simp [Target.hookAt?, hg, Option.bind_assoc]

namespace Filter

open Building

theorem resolveFrom_of_building {t u : JoinTree} {start : Nat} {path : String} {p : Nat × String}
    (h : Building.resolveFrom start path t = .ok (p, u)) :
    t.resolveFrom start path = (.ok p, u) := by
  rcases hr : t.resolveFrom start path with ⟨e | found, v⟩
  · simp [Building.resolveFrom, step, hr] at h
  · simpa [Building.resolveFrom, step, hr] using h

theorem related_compareAttribute {R : Condition → Condition → Prop} (c : Connective) (id : Nat)
    (name : String) {op op' : Operator} {v w : Value}
    (hmade : ∀ a columns, Agree R (Condition.ofColumns a op v.dereference columns)
      (Condition.ofColumns a op' w.dereference columns))
    (hconnective : ∀ x y, R x y → R (x.withConnective c) (y.withConnective c)) :
    Related g R (compareAttribute c id name op v) (compareAttribute c id name op' w) := by
  refine related_bind (related_columnsOf id name) fun p _ hp => ?_
  subst hp
  refine related_bind (related_aliasOf p.1) fun a _ ha => ?_
  subst ha
  refine related_bind (related_lift (hmade a p.2)) fun x y hxy => ?_
  exact related_bind (related_attach p.1 _ _) fun _ _ _ => related_pure (hconnective x y hxy)

/-- Where no hook waits at the end of the path, both runs compare the attribute itself. -/
theorem related_resolveCompare {P : Operator → Operator → Prop} {R : Condition → Condition → Prop}
    (expand expand' : Expansion) (c : Connective) {path operator operator' : String} {v w : Value}
    (hread : Agree P (Operator.parse operator) (Operator.parse operator'))
    (hmade : ∀ op op', P op op' → ∀ a columns,
      Agree R (Condition.ofColumns a op v.dereference columns)
        (Condition.ofColumns a op' w.dereference columns))
    (hconnective : ∀ x y, R x y → R (x.withConnective c) (y.withConnective c))
    (hfree : g.hookAt? path = none) :
    Related g R (resolveCompare expand JoinTree.rootId c path operator v)
      (resolveCompare expand' JoinTree.rootId c path operator' w) := by
  rw [resolveCompare_eq, resolveCompare_eq]
  refine related_bind (related_ofExcept_of hread) fun op op' hop => ?_
  intro t t' ht
  refine agree_bind (related_resolveFrom _ path) ht fun p q u u' hp hpq hu => ?_
  obtain ⟨id, name⟩ := p
  obtain rfl : (id, name) = q := hpq
  have hnone := (ht.hook?_resolveFrom (resolveFrom_of_building hp)).trans hfree
  have hnone' : (u'.model? id).bind (·.hook? name) = none := hu.model?_eq id ▸ hnone
  refine agree_get ?_
  simp only [hnone, hnone']
  exact related_compareAttribute c id name (hmade op op' hop) hconnective u u' hu

theorem forall₂_dereferenceAll {vs ws : List Value} (h : List.Forall₂ (Value.Alike ρ) vs ws) :
    List.Forall₂ (Value.Alike ρ) (Value.dereferenceAll vs) (Value.dereferenceAll ws) :=
  Value.allAlike_iff.1 (Value.dereferenceAll_alike vs (Value.allAlike_iff.2 h))

theorem related_resolveMembership {R : Condition → Condition → Prop} (scope : Nat) (c : Connective)
    (path : String) {vs ws : List Value} (negated : Bool)
    (hleaf : ∀ column, R (.membership c column (Value.dereferenceAll vs) negated)
      (.membership c column (Value.dereferenceAll ws) negated)) :
    Related g R (resolveMembership scope c path vs negated)
      (resolveMembership scope c path ws negated) := by
  unfold resolveMembership
  refine related_bind (related_target scope path) fun p _ hp => ?_
  subst hp
  obtain ⟨id, columns⟩ := p
  match columns with
  | [column] =>
    refine related_bind (related_aliasOf id) fun a _ ha => ?_
    subst ha
    exact related_bind (related_attach id _ _) fun _ _ _ => related_pure (hleaf _)
  | [] => exact related_throw _
  | _ :: _ :: _ => exact related_throw _

theorem related_resolveColumns {R : Condition → Condition → Prop} (scope : Nat) (c : Connective)
    (left operator right : String)
    (hleaf : ∀ l op r, R (.columns c l op r) (.columns c l op r)) :
    Related g R (resolveColumns scope c left operator right)
      (resolveColumns scope c left operator right) := by
  unfold resolveColumns
  refine related_bind (related_ofExcept _) fun op _ hop => ?_
  subst hop
  refine related_bind (related_target scope left) fun l _ hl => ?_
  subst hl
  refine related_bind (related_target scope right) fun r _ hr => ?_
  subst hr
  obtain ⟨leftId, leftColumns⟩ := l
  obtain ⟨rightId, rightColumns⟩ := r
  match leftColumns, rightColumns with
  | [leftColumn], [rightColumn] =>
    refine related_bind (related_aliasOf leftId) fun a _ ha => ?_
    subst ha
    refine related_bind (related_aliasOf rightId) fun b _ hb => ?_
    subst hb
    exact related_bind (related_attach leftId _ _) fun _ _ _ => related_pure (hleaf _ _ _)
  | [], _ => exact related_throw _
  | _ :: _ :: _, _ => exact related_throw _
  | [_], [] => exact related_throw _
  | [_], _ :: _ :: _ => exact related_throw _

mutual

theorem related_resolveCriterion (expand expand' : Expansion) (x : Criterion) {y : Criterion}
    (h : x.Alike ρ y) (hfree : x.avoidsHooks g) :
    Related g (Condition.Alike ρ) (resolveCriterion expand JoinTree.rootId x)
      (resolveCriterion expand' JoinTree.rootId y) := by
  cases x with
  | compare c path op v =>
    obtain ⟨w, rfl, hv⟩ := h
    have hnone : g.hookAt? path = none := by simpa [Criterion.avoidsHooks] using hfree
    refine related_resolveCompare expand expand' c (.refl _) (fun op _ hop a columns => ?_)
      (fun _ _ hxy => hxy.withConnective c) hnone
    subst hop
    exact Condition.agree_ofColumns a op columns (Value.dereference_alike v hv)
  | group c xs =>
    obtain ⟨ys, rfl, hys⟩ := h
    refine related_bind (related_resolveAll expand expand' xs hys
      (by simpa [Criterion.avoidsHooks] using hfree)) fun _ _ hconditions => ?_
    exact related_pure (Condition.alike_group c hconditions)
  | membership c path vs negated =>
    obtain ⟨ws, rfl, hws⟩ := h
    exact related_resolveMembership JoinTree.rootId c path negated fun _ =>
      ⟨_, rfl, forall₂_dereferenceAll hws⟩
  | columns c left op right =>
    obtain rfl := h
    exact related_resolveColumns JoinTree.rootId c left op right fun _ _ _ => rfl
  | existence c s negated =>
    obtain ⟨s', rfl, hs⟩ := h
    exact related_pure ⟨_, _, rfl, hs.frame, Condition.allAlike_iff.2 hs.conditions⟩
  | subquery c s op v =>
    obtain ⟨s', w, rfl, hs, hv⟩ := h
    refine related_bind (related_ofExcept _) fun op' _ hop => ?_
    subst hop
    exact related_pure ⟨_, _, _, rfl, hs.frame, Condition.allAlike_iff.2 hs.conditions,
      Value.dereference_alike v hv⟩
termination_by structural x

theorem related_resolveAll (expand expand' : Expansion) (xs : List Criterion)
    {ys : List Criterion} (h : Criterion.AllAlike ρ xs ys) (hfree : Criterion.avoidHooks g xs) :
    Related g (List.Forall₂ (Condition.Alike ρ)) (resolveAll expand JoinTree.rootId xs)
      (resolveAll expand' JoinTree.rootId ys) := by
  cases xs with
  | nil =>
    obtain rfl := h
    exact related_pure .nil
  | cons x xs =>
    obtain ⟨y, ys, rfl, hx, hxs⟩ := h
    have hboth : x.avoidsHooks g ∧ Criterion.avoidHooks g xs := by
      simpa [Criterion.avoidHooks] using hfree
    refine related_bind (related_resolveCriterion expand expand' x hx hboth.1) fun _ _ hc => ?_
    refine related_bind (related_resolveAll expand expand' xs hxs hboth.2) fun _ _ hcs => ?_
    exact related_pure (.cons hc hcs)
termination_by structural xs

end

theorem related_resolve (depth : Nat) {f f' : Filter} (h : f.Alike ρ f')
    (hfree : f.avoidsHooks g) :
    Related g (List.Forall₂ (Condition.Alike ρ)) (f.resolve depth JoinTree.rootId)
      (f'.resolve depth JoinTree.rootId) := by
  have hcriteria := Criterion.allAlike_iff.2 h.criteria
  cases depth with
  | zero => exact related_resolveAll _ _ _ hcriteria hfree
  | succ depth => exact related_resolveAll _ _ _ hcriteria hfree

end Filter

end PathQuery
