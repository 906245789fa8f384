import PathQuery.Proofs.Database.Evaluation
import PathQuery.Proofs.Scope

/-!
Which rows conditions look at. A condition that does not mention an alias, in no SELECT inside it
either, is answered alike whatever row stands under the alias.
-/

set_option autoImplicit false

namespace PathQuery

variable {E : Engine}

def Join.columnRefs (j : Join) : List ColumnRef :=
  j.on.flatMap fun t => [t.left, t.right]

namespace Frame

/-- The aliases of a SELECT outside its conditions: those it brings in and those it speaks of. -/
def mentioned (f : Frame) : List String :=
  f.sources.map Source.tableAlias ++
    (f.columnRefs ++ f.joins.flatMap Join.columnRefs).map ColumnRef.tableAlias

theorem mem_mentioned_of_join {f : Frame} {j : Join} {c : ColumnRef} (hj : j ∈ f.joins)
    (hc : c ∈ j.columnRefs) : c.tableAlias ∈ f.mentioned := by
  refine List.mem_append_right _ (List.mem_map_of_mem (List.mem_append_right _ ?_))
  exact List.mem_flatMap.2 ⟨j, hj, hc⟩

end Frame

namespace Condition

mutual

def mentioned : Condition → List String
  | .compare _ a _ _ _ => [a]
  | .group _ members => mentionedBy members
  | .existence _ _ f inner => f.mentioned ++ mentionedBy inner
  | .membership _ c _ _ => [c.tableAlias]
  | .columns _ left _ right => [left.tableAlias, right.tableAlias]
  | .subquery _ f inner _ _ => f.mentioned ++ mentionedBy inner
termination_by structural x => x

def mentionedBy : List Condition → List String
  | [] => []
  | x :: rest => x.mentioned ++ mentionedBy rest
termination_by structural xs => xs

end

end Condition

namespace Scene

/-- The same rows under all aliases but the hidden ones. -/
def AgreeOff (hidden : List String) (e e' : Scene E) : Prop :=
  ∀ a, a ∉ hidden → e a = e' a

variable {hidden : List String} {e e' : Scene E}

theorem AgreeOff.symm (h : e.AgreeOff hidden e') : e'.AgreeOff hidden e :=
  fun a ha => (h a ha).symm

theorem AgreeOff.put (h : e.AgreeOff hidden e') (b : String) (y : Tuple E) :
    (e.put b y).AgreeOff hidden (e'.put b y) := by
  intro a ha
  by_cases hb : a = b
  · subst hb
    simp
  · rw [put_other _ _ hb, put_other _ _ hb, h a ha]

theorem AgreeOff.cell (h : e.AgreeOff hidden e') {c : ColumnRef} (hc : c.tableAlias ∉ hidden) :
    e.cell c = e'.cell c := by
  rw [Scene.cell, Scene.cell, h _ hc]

theorem AgreeOff.passes (h : e.AgreeOff hidden e') {j : Join}
    (hj : ∀ c ∈ j.columnRefs, c.tableAlias ∉ hidden) : e.passes j.on = e'.passes j.on := by
  rw [Bool.eq_iff_iff, Scene.passes, Scene.passes, List.all_eq_true, List.all_eq_true]
  refine forall₂_congr fun t ht => ?_
  have hrefs : ∀ c ∈ [t.left, t.right], c.tableAlias ∉ hidden := fun c hc =>
    hj c (List.mem_flatMap.2 ⟨t, ht, hc⟩)
  rw [h.cell (hrefs t.left (by simp)), h.cell (hrefs t.right (by simp))]

end Scene

namespace Database

variable {db : Database E} {hidden : List String} {e e' : Scene E}

theorem exists_join_of_agreeOff (h : e.AgreeOff hidden e') {j : Join}
    (hj : ∀ c ∈ j.columnRefs, c.tableAlias ∉ hidden) {x : Scene E} (hx : x ∈ db.join e j) :
    ∃ x' ∈ db.join e' j, x.AgreeOff hidden x' := by
  have hfound : ∀ e : Scene E, ((db j.table).map (e.put j.tableAlias)).filter (·.passes j.on) =
      ((db j.table).filter fun y => (e.put j.tableAlias y).passes j.on).map
        (e.put j.tableAlias) := fun e => List.filter_map ..
  have hrows : ((db j.table).filter fun y => (e.put j.tableAlias y).passes j.on) =
      (db j.table).filter fun y => (e'.put j.tableAlias y).passes j.on :=
    List.filter_congr fun y _ => (h.put j.tableAlias y).passes hj
  unfold join at hx ⊢
  simp only [hfound, hrows, List.map_eq_nil_iff] at hx ⊢
  split at hx
  · next hnone =>
    rw [List.mem_singleton] at hx
    rw [if_pos hnone]
    exact ⟨_, List.mem_singleton_self _, hx ▸ h.put _ _⟩
  · next hsome =>
    obtain ⟨y, hy, rfl⟩ := List.mem_map.1 hx
    rw [if_neg hsome]
    exact ⟨_, List.mem_map_of_mem hy, h.put _ _⟩

theorem exists_joins_of_agreeOff {js : List Join} (h : e.AgreeOff hidden e')
    (hjs : ∀ j ∈ js, ∀ c ∈ j.columnRefs, c.tableAlias ∉ hidden) {x : Scene E}
    (hx : x ∈ db.joins e js) : ∃ x' ∈ db.joins e' js, x.AgreeOff hidden x' := by
  induction js generalizing e e' with
  | nil =>
    rw [joins, List.mem_singleton] at hx
    exact ⟨e', by simp [joins], hx ▸ h⟩
  | cons j js ih =>
    rw [joins, List.mem_flatMap] at hx
    obtain ⟨e₁, he₁, hx⟩ := hx
    obtain ⟨e₁', he₁', h₁⟩ := exists_join_of_agreeOff h (hjs j List.mem_cons_self) he₁
    obtain ⟨x', hx', h'⟩ := ih h₁ (fun j hj => hjs j (List.mem_cons_of_mem _ hj)) hx
    refine ⟨x', ?_, h'⟩
    rw [joins]
    exact List.mem_flatMap.2 ⟨e₁', he₁', hx'⟩

theorem exists_source_of_agreeOff (h : e.AgreeOff hidden e') (s : Source) {x : Scene E}
    (hx : x ∈ db.source e s) : ∃ x' ∈ db.source e' s, x.AgreeOff hidden x' := by
  cases s with
  | table name a =>
    obtain ⟨y, hy, rfl⟩ := List.mem_map.1 hx
    exact ⟨_, List.mem_map_of_mem hy, h.put a y⟩
  | series a count =>
    obtain ⟨k, hk, rfl⟩ := List.mem_map.1 hx
    exact ⟨_, List.mem_map_of_mem hk, h.put a _⟩

theorem exists_scene_of_agreeOff {f : Frame} (h : e.AgreeOff hidden e')
    (hf : ∀ j ∈ f.joins, ∀ c ∈ j.columnRefs, c.tableAlias ∉ hidden) {x : Scene E}
    (hx : x ∈ db.scenes e f) : ∃ x' ∈ db.scenes e' f, x.AgreeOff hidden x' := by
  obtain ⟨e₁, he₁, hx⟩ := List.mem_flatMap.1 hx
  cases hs : f.source with
  | none =>
    rw [hs, List.mem_singleton] at he₁
    obtain ⟨x', hx', h'⟩ := exists_joins_of_agreeOff (he₁ ▸ h) hf hx
    refine ⟨x', List.mem_flatMap.2 ⟨e', ?_, hx'⟩, h'⟩
    rw [hs]
    exact List.mem_singleton_self e'
  | some s =>
    rw [hs] at he₁
    obtain ⟨e₁', he₁', h₁⟩ := exists_source_of_agreeOff h s he₁
    obtain ⟨x', hx', h'⟩ := exists_joins_of_agreeOff h₁ hf hx
    refine ⟨x', List.mem_flatMap.2 ⟨e₁', ?_, hx'⟩, h'⟩
    rwa [hs]

variable {scalar : Scalar E}

/-- What a SELECT returns depends on the rows around it under the aliases that it mentions only. -/
def Scalar.IsLocal (scalar : Scalar E) : Prop :=
  ∀ (f : Frame) (inner : List Condition) (hidden : List String) (e e' : Scene E),
    (∀ a ∈ hidden, a ∉ f.mentioned ++ Condition.mentionedBy inner) → e.AgreeOff hidden e' →
      scalar e f inner = scalar e' f inner

def Overlooks (db : Database E) (scalar : Scalar E) (hidden : List String) (x : Condition) :
    Prop :=
  ∀ e e' : Scene E, e.AgreeOff hidden e' → db.eval scalar e x = db.eval scalar e' x

mutual

theorem eval_of_agreeOff (hscalar : scalar.IsLocal) {hidden : List String} :
    ∀ x : Condition, (∀ a ∈ hidden, a ∉ x.mentioned) → db.Overlooks scalar hidden x
  | .compare c a names op v, hx => fun e e' h => by
    have ha : a ∉ hidden := fun hmem => hx a hmem (by simp [Condition.mentioned])
    rw [eval, eval, h a ha]
  | .group c members, hx => fun e e' h => by
    rw [eval, eval, evalEach_of_agreeOff hscalar members hx e e' h]
  | .existence c negated f inner, hx => fun e e' h => by
    have hjoins : ∀ j ∈ f.joins, ∀ c ∈ j.columnRefs, c.tableAlias ∉ hidden :=
      fun j hj c hc hmem =>
        hx _ hmem (List.mem_append_left _ (Frame.mem_mentioned_of_join hj hc))
    have hinner : ∀ a ∈ hidden, a ∉ Condition.mentionedBy inner :=
      fun a ha hmem => hx a ha (List.mem_append_right _ hmem)
    have hany : ∀ e e' : Scene E, e.AgreeOff hidden e' →
        (db.scenes e f).any (fun e => Connective.read (evalEach db scalar e inner) = .holds) →
        (db.scenes e' f).any fun e => Connective.read (evalEach db scalar e inner) = .holds := by
      intro e e' h hsome
      obtain ⟨x, hx, hholds⟩ := List.any_eq_true.1 hsome
      obtain ⟨x', hx', h'⟩ := exists_scene_of_agreeOff h hjoins hx
      refine List.any_eq_true.2 ⟨x', hx', ?_⟩
      rwa [← evalEach_of_agreeOff hscalar inner hinner x x' h']
    rw [eval, eval, Bool.eq_iff_iff.2 ⟨hany e e' h, hany e' e h.symm⟩]
  | .membership c col vs negated, hx => fun e e' h => by
    have hcol : col.tableAlias ∉ hidden := fun hmem => hx _ hmem (by simp [Condition.mentioned])
    rw [eval, eval, h.cell hcol]
  | .columns c left op right, hx => fun e e' h => by
    have hleft : left.tableAlias ∉ hidden := fun hmem => hx _ hmem (by simp [Condition.mentioned])
    have hright : right.tableAlias ∉ hidden :=
      fun hmem => hx _ hmem (by simp [Condition.mentioned])
    rw [eval, eval, h.cell hleft, h.cell hright]
  | .subquery c f inner op v, hx => fun e e' h => by
    rw [eval, eval, hscalar f inner hidden e e' hx h]
termination_by structural x => x

theorem evalEach_of_agreeOff (hscalar : scalar.IsLocal) {hidden : List String} :
    ∀ xs : List Condition, (∀ a ∈ hidden, a ∉ Condition.mentionedBy xs) →
      ∀ e e' : Scene E, e.AgreeOff hidden e' → db.evalEach scalar e xs = db.evalEach scalar e' xs
  | [], _ => fun _ _ _ => rfl
  | x :: rest, hxs => fun e e' h => by
    have hx : ∀ a ∈ hidden, a ∉ x.mentioned :=
      fun a ha hmem => hxs a ha (List.mem_append_left _ hmem)
    have hrest : ∀ a ∈ hidden, a ∉ Condition.mentionedBy rest :=
      fun a ha hmem => hxs a ha (List.mem_append_right _ hmem)
    rw [evalEach, evalEach, eval_of_agreeOff hscalar x hx e e' h,
      evalEach_of_agreeOff hscalar rest hrest e e' h]
termination_by structural xs => xs

end

variable {xs : List Condition}

theorem letsAll_of_agreeOff (hxs : ∀ x ∈ xs, db.Overlooks scalar hidden x)
    (h : e.AgreeOff hidden e') : db.LetsAll scalar e xs ↔ db.LetsAll scalar e' xs := by
  have heq : xs.map (fun x => (x.connective, db.eval scalar e x)) =
      xs.map fun x => (x.connective, db.eval scalar e' x) :=
    List.map_congr_left fun x hx => by rw [hxs x hx e e' h]
  rw [LetsAll, LetsAll, evalEach_eq, evalEach_eq, heq]

theorem exists_joined_of_agreeOff {js : List Join} {Q : Scene E → Prop}
    (hjs : ∀ j ∈ js, ∀ c ∈ j.columnRefs, c.tableAlias ∉ hidden)
    (hQ : ∀ e e' : Scene E, e.AgreeOff hidden e' → (Q e ↔ Q e')) (h : e.AgreeOff hidden e') :
    (∃ x ∈ db.joins e js, Q x) ↔ ∃ x ∈ db.joins e' js, Q x := by
  constructor
  · rintro ⟨x, hx, hq⟩
    obtain ⟨x', hx', h'⟩ := exists_joins_of_agreeOff h hjs hx
    exact ⟨x', hx', (hQ x x' h').1 hq⟩
  · rintro ⟨x, hx, hq⟩
    obtain ⟨x', hx', h'⟩ := exists_joins_of_agreeOff h.symm hjs hx
    exact ⟨x', hx', (hQ x x' h').1 hq⟩

end Database

end PathQuery
