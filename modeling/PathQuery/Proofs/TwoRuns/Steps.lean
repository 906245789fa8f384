import PathQuery.Proofs.TwoRuns.Trees

/-!
Two runs of the steps that build a statement. They start on join trees that agree but for the
conditions kept at nodes. Steps are related where they fail with the same error or end with related
results on such trees again.
-/

set_option autoImplicit false

namespace PathQuery

namespace Target

def schema? : Target → Option Schema
  | .model s _ => some s
  | .table _ => none

def model? : Target → Option Model
  | .model s name => s.model? name
  | .table _ => none

end Target

structure Twins (g : Target) (t t' : JoinTree) : Prop where
  clear : t.clear = t'.clear
  wellFormed : t.WellFormed
  schema : t.schema = g.schema?
  root : t.model? JoinTree.rootId = g.model?

namespace Twins

variable {g : Target} {t t' u u' : JoinTree} (h : Twins g t t')

include h

/-- What does not look at the conditions kept at nodes is the same in both runs. -/
theorem eq {α : Type} {f : JoinTree → α} (hf : ∀ t, f t.clear = f t) : f t = f t' := by
  rw [← hf t, h.clear, hf t']

theorem grown (hu : JoinTree.Grown t u) (hclear : u.clear = u'.clear) : Twins g u u' where
  clear := hclear
  wellFormed := hu.wellFormed h.wellFormed
  schema := hu.schema.trans h.schema
  root := (hu.model? _ h.wellFormed.nonempty).trans h.root

theorem step {f : JoinTree → JoinTree} (hgrown : ∀ t, JoinTree.Grown t (f t))
    (hclear : ∀ t, (f t).clear = f t.clear) : Twins g (f t) (f t') := by
  refine h.grown (hgrown t) ?_
  rw [hclear, hclear, h.clear]

theorem attach (id : Nat) (x y : Condition) : Twins g (t.attach id x) (t'.attach id y) := by
  refine h.grown (JoinTree.sameShape_attach t id x).grown ?_
  rw [JoinTree.clear_attach, JoinTree.clear_attach, h.clear]

theorem model?_eq (id : Nat) : t.model? id = t'.model? id :=
  h.eq (f := (·.model? id)) fun u => u.model?_clear id

theorem table_eq (id : Nat) : t.table id = t'.table id :=
  h.eq (f := (·.table id)) fun u => u.table_clear id

theorem statementJoins_eq : t.statementJoins = t'.statementJoins :=
  h.eq (f := JoinTree.statementJoins) JoinTree.statementJoins_clear

end Twins

namespace Building

variable {g : Target} {α β γ δ : Type} {R : α → β → Prop} {S : γ → δ → Prop}

def Related (g : Target) (R : α → β → Prop) (m : Building α) (m' : Building β) : Prop :=
  ∀ t t', Twins g t t' → Agree (fun p q => R p.1 q.1 ∧ Twins g p.2 q.2) (m t) (m' t')

theorem Related.mono {R' : α → β → Prop} {m : Building α} {m' : Building β} (h : Related g R m m')
    (hR : ∀ a b, R a b → R' a b) : Related g R' m m' :=
  fun t t' ht => (h t t' ht).mono fun _ _ hpq => ⟨hR _ _ hpq.1, hpq.2⟩

theorem related_pure {a : α} {b : β} (h : R a b) : Related g R (pure a) (pure b) :=
  fun _ _ ht => .ok ⟨h, ht⟩

theorem related_throw (e : Failure) : Related g R (throw e) (throw e) :=
  fun _ _ _ => .error e

/-- The second step may count on the trees that the first one leads to. -/
theorem agree_bind {m : Building α} {m' : Building β} {f : α → Building γ} {f' : β → Building δ}
    (h : Related g R m m') {t t' : JoinTree} (ht : Twins g t t')
    (hf : ∀ a b u u', m t = .ok (a, u) → R a b → Twins g u u' →
      Agree (fun p q => S p.1 q.1 ∧ Twins g p.2 q.2) (f a u) (f' b u')) :
    Agree (fun p q => S p.1 q.1 ∧ Twins g p.2 q.2) ((m >>= f) t) ((m' >>= f') t') := by
  have hm := h t t' ht
  change Agree _ (m t >>= fun p => f p.1 p.2) (m' t' >>= fun p => f' p.1 p.2)
  generalize hmt : m t = x at hm ⊢
  generalize m' t' = y at hm ⊢
  cases hm with
  | error e => exact .error e
  | @ok p q hpq => exact hf p.1 q.1 p.2 q.2 hmt hpq.1 hpq.2

theorem agree_get {f : JoinTree → Building γ} {f' : JoinTree → Building δ} {t t' : JoinTree}
    (h : Agree (fun p q => S p.1 q.1 ∧ Twins g p.2 q.2) (f t t) (f' t' t')) :
    Agree (fun p q => S p.1 q.1 ∧ Twins g p.2 q.2) ((get >>= f) t) ((get >>= f') t') :=
  h

theorem related_bind {m : Building α} {m' : Building β} {f : α → Building γ} {f' : β → Building δ}
    (h : Related g R m m') (hf : ∀ a b, R a b → Related g S (f a) (f' b)) :
    Related g S (m >>= f) (m' >>= f') :=
  fun _ _ ht => agree_bind h ht fun a b u u' _ hab hu => hf a b hab u u' hu

theorem related_fail_bind (e : Error) {f : α → Building γ} {f' : β → Building δ} :
    Related g S (fail e >>= f) (fail e >>= f') :=
  fun _ _ _ => .error _

theorem related_ite (c : Prop) [Decidable c] {m n : Building α} {m' n' : Building β}
    (h : Related g R m m') (h' : Related g R n n') :
    Related g R (if c then m else n) (if c then m' else n') := by
  split
  · exact h
  · exact h'

theorem related_discard {m : Building α} {m' : Building β} (h : Related g R m m') :
    Related g Eq (discard m) (discard m') :=
  fun t t' ht => (h t t' ht).bind fun _ _ hpq => .ok ⟨rfl, hpq.2⟩

theorem related_lift {x : Except Failure α} {y : Except Failure β} (h : Agree R x y) :
    Related g R (liftM x : Building α) (liftM y : Building β) := by
  intro t t' ht
  cases h with
  | error e => exact .error e
  | ok h => exact .ok ⟨h, ht⟩

theorem related_ofExcept_of {x : Except Error α} {y : Except Error β} (h : Agree R x y) :
    Related g R (ofExcept x) (ofExcept y) := by
  cases h with
  | error e => exact related_throw _
  | ok h => exact related_pure h

theorem related_ofExcept (x : Except Error α) : Related g Eq (ofExcept x) (ofExcept x) :=
  related_ofExcept_of (.refl x)

theorem related_get {f : JoinTree → Building γ} {f' : JoinTree → Building δ}
    (h : ∀ t t', Twins g t t' → Related g S (f t) (f' t')) :
    Related g S (get >>= f) (get >>= f') :=
  fun t t' ht => agree_get (h t t' ht t t' ht)

theorem related_modify {f f' : JoinTree → JoinTree}
    (h : ∀ t t', Twins g t t' → Twins g (f t) (f' t')) :
    Related g Eq (modify f : Building Unit) (modify f') :=
  fun t t' ht => .ok ⟨rfl, h t t' ht⟩

theorem related_step {f : JoinTree → Except Error α × JoinTree}
    (hclear : ∀ t, f t.clear = Prod.map id JoinTree.clear (f t))
    (hgrown : ∀ t a u, f t = (.ok a, u) → JoinTree.Grown t u) :
    Related g Eq (step f) (step f) := by
  intro t t' ht
  have heq : Prod.map id JoinTree.clear (f t) = Prod.map id JoinTree.clear (f t') := by
    rw [← hclear, ht.clear, hclear]
  rcases hu : f t with ⟨e | a, u⟩ <;> rcases hu' : f t' with ⟨e' | a', u'⟩
  · obtain ⟨rfl, _⟩ : e = e' ∧ u.clear = u'.clear := by simpa [hu, hu'] using heq
    simp only [step, hu, hu']
    exact .error _
  · simp [hu, hu'] at heq
  · simp [hu, hu'] at heq
  · obtain ⟨rfl, hc⟩ : a = a' ∧ u.clear = u'.clear := by simpa [hu, hu'] using heq
    simp only [step, hu, hu']
    exact .ok ⟨rfl, ht.grown (hgrown t a u hu) hc⟩

theorem related_mapM {f : α → Building γ} {f' : β → Building δ} {xs : List α} {ys : List β}
    (h : List.Forall₂ R xs ys) (hf : ∀ a b, R a b → Related g S (f a) (f' b)) :
    Related g (List.Forall₂ S) (xs.mapM f) (ys.mapM f') := by
  induction h with
  | nil => exact related_pure .nil
  | cons hab _ ih =>
    rw [List.mapM_cons, List.mapM_cons]
    refine related_bind (hf _ _ hab) fun _ _ hc => ?_
    exact related_bind ih fun _ _ hcs => related_pure (.cons hc hcs)

theorem related_mapM_eq {f : α → Building γ} {xs : List α}
    (hf : ∀ a, Related g Eq (f a) (f a)) : Related g Eq (xs.mapM f) (xs.mapM f) := by
  have hxs : List.Forall₂ Eq xs xs := List.forall₂_eq_eq_eq ▸ rfl
  have h := related_mapM hxs fun a b (hab : a = b) => by subst hab; exact hf a
  rwa [List.forall₂_eq_eq_eq] at h

theorem related_resolveFrom (start : Nat) (path : String) :
    Related g Eq (resolveFrom start path) (resolveFrom start path) :=
  related_step (fun t => t.resolveFrom_clear start path) fun _ ⟨_, _⟩ _ h =>
    JoinTree.grown_descend (JoinTree.resolveFrom_eq_ok h).1

theorem related_child (parent : Nat) (name : String) :
    Related g Eq (child parent name) (child parent name) :=
  related_step (fun t => t.child_clear parent name) fun _ _ _ h => JoinTree.grown_child h

theorem related_aliasOf (id : Nat) : Related g Eq (aliasOf id) (aliasOf id) := by
  refine related_get fun t t' ht => related_pure ?_
  exact ht.eq (f := fun t => (t.node id).tableAlias) fun u => by rw [u.node_clear]; rfl

theorem related_attach (id : Nat) (x y : Condition) :
    Related g Eq (attach id x) (attach id y) :=
  related_modify fun _ _ ht => ht.attach id x y

theorem related_columnsOf (id : Nat) (name : String) :
    Related g Eq (columnsOf id name) (columnsOf id name) := by
  refine related_get fun t t' ht => ?_
  rw [ht.model?_eq id, ht.table_eq id]
  split
  · exact related_pure rfl
  · cases (t'.model? id).bind (·.relation? name) with
    | none => exact related_pure rfl
    | some r =>
      simp only
      split
      · exact related_pure rfl
      · refine related_bind (related_child id name) fun linked _ hlinked => ?_
        subst hlinked
        refine related_get fun u u' hu => related_pure ?_
        rw [hu.table_eq linked]

theorem related_target (scope : Nat) (path : String) :
    Related g Eq (target scope path) (target scope path) := by
  refine related_bind (related_resolveFrom scope path) fun p _ hp => ?_
  subst hp
  exact related_columnsOf p.1 p.2

end Building

end PathQuery
