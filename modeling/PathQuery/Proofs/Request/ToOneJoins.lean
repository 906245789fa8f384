import PathQuery.Proofs.JoinTree.Meaning
import PathQuery.Proofs.Request.Built

/-!
Conditions do not multiply rows. A statement that is asked for nothing else joins only what
relations to one row lead to, and so does every semi-join inside it: relations to many rows are
tested, never joined.
-/

set_option autoImplicit false

namespace PathQuery

namespace JoinTree

variable {t : JoinTree} {given xs : List Condition}

def JoinsOne (t : JoinTree) (j : Join) : Prop :=
  ∃ p id r kind, t.Edge p id r ∧ (r.kind = .belongsTo ∨ r.kind = .hasOne) ∧
    j ∈ r.joins (t.node p).tableAlias (t.node id).tableAlias kind true

/-- Every semi-join made for the given conditions tests the rows of one relation to many. Between
many and many it may join the linked table; all its other joins lead to one row each. -/
inductive Narrow (t : JoinTree) (given : List Condition) : Condition → Prop
  | given {x : Condition} (c : Connective) (inside : Condition.Inside given x) :
    Narrow t given (x.withConnective c)
  | plain {x : Condition} (h : x.hasSubquery = false) : Narrow t given x
  | group {c : Connective} {members : List Condition} (inner : ∀ x ∈ members, Narrow t given x) :
    Narrow t given (.group c members)
  | linked {c : Connective} {negated : Bool} {frame : Frame} {conditions : List Condition}
    {p a : Nat} {r : Relation} {own : List Join} {targets : List Nat}
    (edge : t.Edge p a r) (many : r.kind = .hasMany ∨ ∃ through, r.kind = .manyMany through)
    (joins : frame.joins = own ++ t.joinsWithin a targets)
    (link : own = [] ∨ ∃ through, r.kind = .manyMany through ∧
      own = [r.linkedJoin (t.node a).tableAlias through .inner])
    (extra : ∀ j ∈ t.joinsWithin a targets, t.JoinsOne j)
    (inner : ∀ x ∈ conditions, Narrow t given x) :
    Narrow t given (.existence c negated frame conditions)

theorem kind_of_isToMany {r : Relation} (h : r.isToMany = true) :
    r.kind = .hasMany ∨ ∃ through, r.kind = .manyMany through := by
  unfold Relation.isToMany at h
  split at h
  · next hkind => exact .inl hkind
  · next through hkind => exact .inr ⟨through, hkind⟩
  · cases h

theorem kind_of_not_isToMany {r : Relation} (h : r.isToMany = false) :
    r.kind = .belongsTo ∨ r.kind = .hasOne := by
  unfold Relation.isToMany at h
  cases hkind : r.kind <;> simp [hkind] at h ⊢

theorem WellFormed.joinsOne (ht : t.WellFormed) {id : Nat} (hpos : 0 < id) (hid : id < t.size)
    (hone : (t.node id).isToMany = false) {kind : JoinKind} {j : Join}
    (hj : j ∈ t.joinsFor id kind) : t.JoinsOne j := by
  obtain ⟨p, r, e⟩ := ht.edge id hpos hid
  rw [joinsFor_of_edge e] at hj
  rw [isToMany_of_edge e] at hone
  exact ⟨p, id, r, kind, e, kind_of_not_isToMany hone, hj⟩

theorem WellFormed.joinsOne_within (ht : t.WellFormed) {scope : Nat} {targets : List Nat}
    (htargets : ∀ id ∈ targets, id < t.size ∧ t.anchor? scope id = none) :
    ∀ j ∈ t.joinsWithin scope targets, t.JoinsOne j := by
  intro j hj
  rw [joinsWithin_eq] at hj
  obtain ⟨id, hid, hj⟩ := List.mem_flatMap.1 hj
  obtain ⟨hlt, hsize, hone, -⟩ := joinedFrom_of_isWanted htargets (List.mem_filter.1 hid).2
  exact ht.joinsOne (Nat.zero_lt_of_lt hlt) hsize hone hj

theorem Narrow.withConnective {x : Condition} (h : t.Narrow given x) (c : Connective) :
    t.Narrow given (x.withConnective c) := by
  cases h with
  | given d inside =>
    rw [Condition.withConnective_withConnective]
    exact .given c inside
  | plain h => exact .plain (by rw [Condition.hasSubquery_withConnective, h])
  | group inner => exact .group inner
  | linked edge many joins link extra inner => exact .linked edge many joins link extra inner

theorem groupable_narrow : Condition.Groupable (t.Narrow given) where
  reconnected c _ h := h.withConnective c
  group _ _ _ h hrest := .group (List.forall_mem_cons.2 ⟨h, hrest⟩)

theorem narrow_body (r : Relation) (parentAlias tableAlias : String) (extra : List Join)
    (division : Bool) (h : ∀ x ∈ xs, t.Narrow given x) :
    ∀ x ∈ (r.body parentAlias tableAlias extra xs division).conditions, t.Narrow given x := by
  rcases r.conditions_body parentAlias tableAlias extra xs division with heq | ⟨_, -, hkey, heq⟩
  · rwa [heq]
  · intro x hx
    have hnone := Condition.anySubquery_of_useOnlyKey xs hkey
    rw [← Condition.anySubquery_redirectAll, ← heq] at hnone
    refine .plain (Bool.eq_false_iff.2 fun hx' => ?_)
    rw [Condition.anySubquery_iff.2 ⟨x, hx, hx'⟩] at hnone
    cases hnone

theorem narrow_semiJoin {p a : Nat} {r : Relation} (e : t.Edge p a r) (hmany : r.isToMany = true)
    {targets : List Nat} (hextra : ∀ j ∈ t.joinsWithin a targets, t.JoinsOne j)
    (h : ∀ x ∈ xs, t.Narrow given x) (strategy : Strategy) (c : Connective) :
    t.Narrow given (r.semiJoin (t.node p).tableAlias (t.node a).tableAlias
      (t.joinsWithin a targets) xs strategy c) := by
  rw [Relation.semiJoin_eq]
  split
  · obtain ⟨own, hjoins, hown⟩ := r.joins_body (t.node p).tableAlias (t.node a).tableAlias
      (t.joinsWithin a targets) xs true
    have hinner := narrow_body r (t.node p).tableAlias (t.node a).tableAlias
      (t.joinsWithin a targets) true h
    have hnone : t.joinsWithin a [] = [] := by simp [joinsWithin]
    have hcount : ∀ f : Frame, f.joins = [] → f.joins = [] ++ t.joinsWithin a [] := by simp [hnone]
    refine .linked e (kind_of_isToMany hmany) (hcount _ rfl) (.inl rfl) (by simp [hnone]) ?_
    intro x hx
    obtain rfl := List.mem_singleton.1 hx
    refine .linked e (kind_of_isToMany hmany) hjoins hown hextra fun y hy => ?_
    rcases List.mem_cons.1 hy with rfl | hy
    · exact .plain (r.hasSubquery_correlation _ _ _ _ _)
    · obtain rfl := List.mem_singleton.1 hy
      exact .group (groupable_narrow.forall_mem_numbered (fun _ => .plain rfl) hinner 1)
  · obtain ⟨own, hjoins, hown⟩ := r.joins_body (t.node p).tableAlias (t.node a).tableAlias
      (t.joinsWithin a targets) xs false
    have hinner := narrow_body r (t.node p).tableAlias (t.node a).tableAlias
      (t.joinsWithin a targets) false h
    refine .linked e (kind_of_isToMany hmany) hjoins hown hextra fun y hy => ?_
    rcases List.mem_cons.1 hy with rfl | hy
    · exact .plain (r.hasSubquery_correlation _ _ _ _ _)
    · exact groupable_narrow.forall_mem_conjoined hinner y hy

/-- Settling at any scope, of any list of the given conditions, makes narrow conditions. -/
theorem WellFormed.narrow_settle (ht : t.WellFormed) (scope : Nat) (xs : List Condition) :
    EachLeafOf (t.Narrow given) xs → ∀ r, t.settle scope xs = .ok r →
      ∀ x ∈ r.conditions, t.Narrow given x := by
  have hclosed : ∀ c x, t.Narrow given x → t.Narrow given (x.withConnective c) :=
    groupable_narrow.reconnected
  induction scope, xs using settle_induction t with
  | h scope xs ihgroup ihbelow =>
    intro hxs r h x hx
    have hleaves := eachLeafOf_iff.1 (eachLeafOf_regroup hclosed t scope hxs)
    cases ht.settledFrom h hx with
    | kept mem leaf joined owner right => exact (eachLeaf_iff leaf).1 (hleaves x mem)
    | @group c members inner mem settled needed =>
      exact .group (ihgroup members (weight_members_regroup rfl mem) (hleaves _ mem) inner settled)
    | @test a p rel leaves inner strategy c below edge many lt leaves_eq settled parent right =>
      refine narrow_semiJoin edge many (ht.joinsOne_within (needed_joined settled)) ?_ strategy c
      refine ihbelow a below lt (resetFirst leaves) (eachLeafOf_resetFirst hclosed ?_) inner settled
      rw [leaves_eq]
      exact eachLeafOf_iff.2 fun y hy => hleaves y (List.mem_filter.1 hy).1

theorem narrow_given (xs : List Condition) : EachLeafOf (t.Narrow xs) xs :=
  eachLeafOf_inside fun x hx _ => by simpa using Narrow.given x.connective hx

theorem WellFormed.isToMany_of_joined {v u : JoinTree} (hv : v.WellFormed) {ys : List Condition}
    (hplain : Unmarked Node.joined v)
    (h : v.settleRoot xs = .ok (ys, u)) {id : Nat} (hid : id < u.size)
    (hjoined : (u.node id).joined = true) : (u.node id).isToMany = false := by
  obtain ⟨r, hr, -, rfl⟩ := settleRoot_eq_ok h
  have hrequired := sameShape_requireAll v (v.requiredBy xs)
  have hshape := hrequired.trans
    (sameShape_joinAll (v.requireAll (v.requiredBy xs)) r.needed)
  rw [hshape.size] at hid
  rw [hshape.isToMany]
  rcases (joined_settled_iff xs r.needed hid).1 hjoined with hjoined | ⟨n, hn, hid⟩
  · obtain rfl := hplain id hid hjoined
    rw [Node.isToMany, hv.rootRelation, Option.any_none]
  · have hone : n < v.size ∧ v.anchor? rootId n = none := by
      rcases hn with hn | hn
      · obtain ⟨-, x, -, -, howner, hone⟩ := mem_requiredBy.1 hn
        exact ⟨owner?_lt howner, hone⟩
      · obtain ⟨hlt, hone⟩ := needed_joined hr n hn
        rw [hrequired.size] at hlt
        rw [hrequired.anchor?] at hone
        exact ⟨hlt, hone⟩
    exact hv.isToMany_of_mem_lineage hone.1 hone.2 hid

end JoinTree

namespace Request

open JoinTree

variable {s : Schema} {name : String} {r : Request} {depth : Nat} {st : Statement}

/-- Asked for nothing but conditions and assignments, a statement joins a table only by a relation
to one row, and so do the tests inside it on the rows of relations to many. -/
theorem conditions_join_one_row (htarget : r.target = .model s name) (hkind : r.kind ≠ .insert)
    (hbare : r.options.Bare) (h : r.build depth = .ok st) :
    ∃ start t xs, JoinTree.ofModel s name = .ok start ∧ Reached start t ∧
      t.ResolvesAll rootId r.options.filter.criteria xs ∧ (∀ j ∈ st.joins, t.JoinsOne j) ∧
      ∀ y ∈ st.conditions, t.Narrow xs y := by
  obtain ⟨start, v, t, xs, hstart, hyields⟩ :=
    yields_of_build (P := NotMarked Node.joined) (fun hbare' => absurd hbare hbare') htarget hkind h
  have hwell := wellFormed_ofModel hstart
  have hv := hyields.reached.grown.wellFormed hwell
  have hplain := unmarked_of_notMarked hstart hyields.kept
  obtain ⟨settled, hsettled, hconditions, ht⟩ := settleRoot_eq_ok hyields.settled
  have hreached := reached_requireAll v (v.requiredBy xs)
  have hw := hreached.grown.wellFormed hv
  have hshape : SameShape (v.requireAll (v.requiredBy xs)) t := ht ▸ sameShape_joinAll _ _
  refine ⟨start, v.requireAll (v.requiredBy xs), xs, hstart, hyields.reached.trans hreached,
    hyields.resolved.later hreached hv hv.nonempty, fun j hj => ?_, ?_⟩
  · rw [hyields.joins, (hw.of_sameShape hshape).mem_statementJoins] at hj
    obtain ⟨id, ⟨hlt, hne, hjoined⟩, hj⟩ := hj
    rw [hshape.joinsFor] at hj
    refine hw.joinsOne (Nat.pos_of_ne_zero hne) (by rwa [← hshape.size]) ?_ hj
    rw [← hshape.isToMany]
    exact hv.isToMany_of_joined hplain hyields.settled hlt hjoined
  · rw [hconditions]
    exact hw.narrow_settle rootId xs (narrow_given xs) settled hsettled

/-- Deletes the articles of authors named A who have an article titled B. -/
theorem conditions_join_one_row_of_articles :
    let r : Request := {
      target := .model Blog.schema "Article"
      kind := .delete
      options := {
        filter := (Filter.empty.eq "author/name" (.text "A")).eq "author/articles/title"
          (.text "B") } }
    r.kind ≠ .insert ∧ r.options.Bare ∧ ∃ st, r.build 1 = .ok st ∧
      ∃ start t xs, JoinTree.ofModel Blog.schema "Article" = .ok start ∧ Reached start t ∧
        t.ResolvesAll rootId r.options.filter.criteria xs ∧ (∀ j ∈ st.joins, t.JoinsOne j) ∧
        ∀ y ∈ st.conditions, t.Narrow xs y := by
  intro r
  have hkind : r.kind ≠ .insert := by decide
  have hbare : r.options.Bare := ⟨rfl, rfl, rfl, rfl, rfl⟩
  have hopens : r.opens 1 = true := by decide +kernel
  obtain ⟨st, hst⟩ := exists_build rfl hopens
  exact ⟨hkind, hbare, st, hst, conditions_join_one_row rfl hkind hbare hst⟩

end Request

end PathQuery
