import PathQuery.Proofs.Database.Evaluation

/-!
Rows of NULLs. An outer join puts one where it finds nothing, and most comparisons do not hold of
its contents; where the conditions ask for a row that is there, an outer join may as well be an
inner one.
-/

set_option autoImplicit false

namespace PathQuery

variable {E : Engine}

namespace Engine

variable (E)

def IsStrict (op : Operator) : Prop :=
  ∀ y, E.relate op none y = .unknown

theorem isStrict {op : Operator} (hunary : op.isUnary = false) (his : op ≠ .is)
    (hisNot : op ≠ .isNot) : E.IsStrict op := by
  intro y
  cases op with
  | is => exact absurd rfl his
  | isNot => exact absurd rfl hisNot
  | isNull => cases hunary
  | isNotNull => cases hunary
  | _ => rfl

variable {E}

theorem IsStrict.relateAny {op : Operator} (h : E.IsStrict op) (values : List Value) :
    E.relateAny op none values = if values = [] then .fails else .unknown := by
  cases values with
  | nil => rfl
  | cons v rest =>
    rw [if_neg (List.cons_ne_nil v rest)]
    unfold Engine.relateAny
    induction rest generalizing v with
    | nil =>
      simp only [List.map_cons, List.map_nil, List.foldr_cons, List.foldr_nil, h (E.denote v)]
      rfl
    | cons w rest ih =>
      rw [List.map_cons, List.foldr_cons, ih w, h (E.denote v)]
      rfl

variable (E)

theorem within_none (low high : Value) : E.within none low high = .unknown :=
  rfl

/-- A test that holds of no content and yet counts as needing a row: that nothing is outside the
empty list, and IS and IS NOT where the value makes them so. -/
def LetsMissing : Operator → Value → Prop
  | .notIn, .list [] => True
  | .is, v => E.denote v = none
  | .isNot, v => E.denote v ≠ none
  | _, _ => False

theorem relate_none {op : Operator} (h : op.isUnary = false) {v : Value}
    (hlist : op = .notIn → v ≠ .list []) :
    E.relate op none (E.denote v) = .holds ↔ E.LetsMissing op v := by
  by_cases his : op = .is
  · subst his
    rw [relate, Truth.ofBool_eq_holds, decide_eq_true_iff, LetsMissing]
    exact eq_comm
  by_cases hisNot : op = .isNot
  · subst hisNot
    rw [relate, Truth.ofBool_eq_holds, decide_eq_true_iff, LetsMissing]
    exact ne_comm
  rw [E.isStrict h his hisNot]
  refine iff_of_false (by decide) fun hmissing => ?_
  unfold LetsMissing at hmissing
  split at hmissing
  · exact hlist rfl rfl
  · exact his rfl
  · exact hisNot rfl
  · exact hmissing

theorem compareOne_none {op : Operator} (h : op.isUnary = false) (v : Value) :
    E.compareOne op none v = .holds ↔ E.LetsMissing op v := by
  have hany : ∀ {op : Operator}, op.isUnary = false → op ≠ .is → op ≠ .isNot →
      ∀ values, E.relateAny op none values ≠ .holds := by
    intro op hunary his hisNot values
    rw [(E.isStrict hunary his hisNot).relateAny]
    split <;> decide
  unfold compareOne
  split
  · exact iff_of_false (hany rfl (by decide) (by decide) _) fun hmissing => hmissing
  · next values =>
    rw [(E.isStrict rfl (by decide) (by decide) : E.IsStrict .eq).relateAny]
    cases values with
    | nil => exact iff_of_true rfl trivial
    | cons v rest =>
      rw [if_neg (List.cons_ne_nil v rest)]
      exact iff_of_false (by decide) fun hmissing => hmissing
  · exact iff_of_false (hany rfl (by decide) (by decide) _) fun hmissing => hmissing
  · exact iff_of_false (hany rfl (by decide) (by decide) _) fun hmissing => hmissing
  · exact iff_of_false (hany rfl (by decide) (by decide) _) fun hmissing => hmissing
  · exact iff_of_false (hany rfl (by decide) (by decide) _) fun hmissing => hmissing
  · exact iff_of_false (by rw [within_none]; decide) fun hmissing => hmissing
  · exact iff_of_false (by rw [within_none]; decide) fun hmissing => hmissing
  · next _ hnotIn _ _ _ _ _ _ => exact E.relate_none h fun hop hv => hnotIn [] hop hv

end Engine

namespace Condition

def LetsMissing (E : Engine) : Condition → Prop
  | .compare _ _ _ op v => E.LetsMissing op v
  | _ => False

def IsSingle : Condition → Prop
  | .compare _ _ names _ _ => ∃ name, names = [name]
  | _ => True

end Condition

variable {db : Database E} {scalar : Database.Scalar E}

/-- What counts as needing a row does not hold of a row of NULLs, but for the exceptions. -/
theorem Database.lets_nullRow {x : Condition} (hneeds : x.needsRow = true) (hsingle : x.IsSingle)
    {scene : Scene E} {a : String} (ha : x.tableAlias? = some a) (hnull : scene a = nullRow) :
    db.Lets scalar scene x ↔ x.LetsMissing E := by
  cases x with
  | compare c b names op v =>
    obtain rfl := Option.some.inj ha
    obtain ⟨name, rfl⟩ := hsingle
    have hunary : op.isUnary = false := by
      simp only [Condition.needsRow, Bool.not_eq_true', Bool.or_eq_false_iff] at hneeds
      exact hneeds.1
    have hcell : [name].map (scene b) = [none] := by rw [hnull]; rfl
    rw [Database.Lets, Database.eval, hcell]
    exact E.compareOne_none hunary v
  | membership c column values negated =>
    obtain rfl := Option.some.inj ha
    obtain rfl : negated = false := by simpa [Condition.needsRow] using hneeds
    have hcell : scene.cell column = none := by rw [Scene.cell, hnull]; rfl
    rw [Database.Lets, Database.eval, hcell, Engine.member, if_neg Bool.false_ne_true,
      (E.isStrict rfl (by decide) (by decide) : E.IsStrict .eq).relateAny]
    refine iff_of_false ?_ fun hmissing => hmissing
    split
    · decide
    · decide
  | group c members => cases hneeds
  | existence c negated frame inner => cases hneeds
  | columns c left op right => cases hneeds
  | subquery c frame inner op v => cases hneeds

def Join.outer (j : Join) : Join :=
  { j with kind := .left }

namespace Database

variable (db) in
def found (e : Scene E) (j : Join) : List (Scene E) :=
  ((db j.table).map (e.put j.tableAlias)).filter (·.passes j.on)

theorem join_eq (e : Scene E) (j : Join) : db.join e j =
    if j.kind = .left ∧ db.found e j = [] then [e.put j.tableAlias nullRow] else db.found e j :=
  rfl

theorem join_of_found {e : Scene E} {j : Join} (h : db.found e j ≠ []) :
    db.join e j = db.found e j := by
  rw [join_eq, if_neg fun hnone => h hnone.2]

theorem join_outer_of_not_found {e : Scene E} {j : Join} (h : db.found e j = []) :
    db.join e j.outer = [e.put j.tableAlias nullRow] := by
  rw [join_eq, if_pos ⟨rfl, h⟩]
  rfl

variable (db scalar) in
/-- What a statement sees: each row of its joins that its conditions let through. -/
def answers (e : Scene E) (js : List Join) (xs : List Condition) : List (Scene E) :=
  (db.joins e js).filter fun e' => Connective.read (db.evalEach scalar e' xs) = .holds

theorem mem_answers {e e' : Scene E} {js : List Join} {xs : List Condition} :
    e' ∈ db.answers scalar e js xs ↔ e' ∈ db.joins e js ∧ db.LetsAll scalar e' xs := by
  rw [answers, List.mem_filter, decide_eq_true_iff, LetsAll]

theorem answers_cons (e : Scene E) (j : Join) (js : List Join) (xs : List Condition) :
    db.answers scalar e (j :: js) xs =
      (db.join e j).flatMap fun e' => db.answers scalar e' js xs := by
  rw [answers, joins, List.filter_flatMap]
  rfl

/-- Where each row that the conditions let through has found its joins, outer joins show nothing
more. -/
theorem answers_outer {xs : List Condition} (js : List Join) (e : Scene E)
    (hdistinct : (js.map Join.tableAlias).Nodup)
    (hfound : ∀ e' ∈ db.answers scalar e (js.map Join.outer) xs, ∀ j ∈ js, j.kind ≠ .left →
      e' j.tableAlias ≠ nullRow) :
    db.answers scalar e js xs = db.answers scalar e (js.map Join.outer) xs := by
  induction js generalizing e with
  | nil => rfl
  | cons j js ih =>
    obtain ⟨hfresh, hrest⟩ := List.nodup_cons.1 hdistinct
    rw [List.map_cons, answers_cons] at hfound
    rw [List.map_cons, answers_cons, answers_cons]
    have hstep : ∀ e₁ ∈ db.join e j.outer,
        db.answers scalar e₁ js xs = db.answers scalar e₁ (js.map Join.outer) xs := by
      intro e₁ h₁
      refine ih e₁ hrest fun e' he' k hk => ?_
      exact hfound e' (List.mem_flatMap.2 ⟨e₁, h₁, he'⟩) k (List.mem_cons_of_mem _ hk)
    by_cases hmissing : j.kind ≠ .left ∧ db.found e j = []
    · obtain ⟨hinner, hnone⟩ := hmissing
      have hskip : db.join e j = [] := by rw [join_eq, if_neg fun h => hinner h.1, hnone]
      rw [hskip, join_outer_of_not_found hnone, List.flatMap_nil, List.flatMap_singleton]
      refine (List.eq_nil_iff_forall_not_mem.2 fun e' he' => ?_).symm
      refine hfound e' ?_ j List.mem_cons_self hinner ?_
      · rwa [join_outer_of_not_found hnone, List.flatMap_singleton]
      · rw [joins_other (mem_answers.1 he').1, Scene.put_same]
        intro k hk
        obtain ⟨k', hk', rfl⟩ := List.mem_map.1 hk
        exact fun heq => hfresh (List.mem_map.2 ⟨k', hk', heq.symm⟩)
    · have hsame : db.join e j = db.join e j.outer := by
        by_cases hleft : j.kind = .left
        · rw [show j.outer = j by rw [Join.outer, ← hleft]]
        · have hsome : db.found e j ≠ [] := fun hnone => hmissing ⟨hleft, hnone⟩
          rw [join_of_found hsome]
          exact (join_of_found (j := j.outer) hsome).symm
      rw [hsame, List.flatMap_def, List.flatMap_def, List.map_congr_left hstep]

theorem nullRow_or_meets {before after : List Join} {j : Join} {column : String}
    {target : ColumnRef} (htest : .equal ⟨j.tableAlias, column⟩ target ∈ j.on)
    (hself : ∀ k ∈ after, j.tableAlias ≠ k.tableAlias)
    (htarget : ∀ k ∈ after, target.tableAlias ≠ k.tableAlias) {e e' : Scene E}
    (h : e' ∈ db.joins e (before ++ j :: after)) :
    e' j.tableAlias = nullRow ∨ E.meets (e' j.tableAlias column) (e'.cell target) = true := by
  rw [joins_append] at h
  obtain ⟨e₁, -, h⟩ := List.mem_flatMap.1 h
  obtain ⟨e₂, h₂, h⟩ := List.mem_flatMap.1 h
  rw [Scene.cell, joins_other h hself, joins_other h htarget]
  rw [join_eq] at h₂
  split at h₂
  · rw [List.mem_singleton.1 h₂, Scene.put_same]
    exact .inl rfl
  · have hpasses := List.all_eq_true.1 (List.mem_filter.1 h₂).2 _ htest
    exact .inr hpasses

theorem nullRow_of_target {before after : List Join} {j : Join} {column : String}
    {target : ColumnRef} (htest : .equal ⟨j.tableAlias, column⟩ target ∈ j.on)
    (hself : ∀ k ∈ after, j.tableAlias ≠ k.tableAlias)
    (htarget : ∀ k ∈ after, target.tableAlias ≠ k.tableAlias) {e e' : Scene E}
    (h : e' ∈ db.joins e (before ++ j :: after)) (hnull : e' target.tableAlias = nullRow) :
    e' j.tableAlias = nullRow := by
  refine (nullRow_or_meets htest hself htarget h).resolve_right fun hmeets => ?_
  rw [Scene.cell, hnull, nullRow, E.not_meets_none] at hmeets
  cases hmeets

end Database

end PathQuery
