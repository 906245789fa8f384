import PathQuery.Proofs.Relation.Bodies
import PathQuery.Proofs.Relation.LinkedRows

/-!
What a semi-join says of a database: of the rows linked to the row outside, one satisfies the
conditions together, or, by division, each condition is satisfied by one. Where the linked table is
left out, the rows of the table between speak for it, as long as each of them points at a row.
-/

set_option autoImplicit false

namespace PathQuery

variable {E : Engine} {db : Database E} {scalar : Database.Scalar E}

namespace Database

theorem scenes_frame (e : Scene E) (b : Relation.Body) :
    db.scenes e b.frame = (db.source e b.source).flatMap fun e => db.joins e b.joins :=
  rfl

theorem lets_equal {e : Scene E} {c : Connective} {a b : String} {x y : Tuple E} (hx : e a = x)
    (hy : e b = y) (column column' : String) :
    db.Lets scalar e (.columns c ⟨a, column⟩ .eq ⟨b, column'⟩) ↔
      E.meets (x column) (y column') = true := by
  rw [lets_columns, Scene.cell, Scene.cell, hx, hy]

end Database

namespace Relation

/-- The alias outside and the joins inside stay clear of the aliases that a semi-join adds. -/
structure Clear (parentAlias tableAlias : String) (extra : List Join) : Prop where
  parent : parentAlias ≠ tableAlias
  parentBetween : parentAlias ≠ joinTableAlias tableAlias
  parentSeries : parentAlias ≠ seriesAlias tableAlias
  outer : ∀ j ∈ extra, j.kind = .left
  table : ∀ j ∈ extra, tableAlias ≠ j.tableAlias
  between : ∀ j ∈ extra, joinTableAlias tableAlias ≠ j.tableAlias
  series : ∀ j ∈ extra, seriesAlias tableAlias ≠ j.tableAlias
  outside : ∀ j ∈ extra, parentAlias ≠ j.tableAlias

variable {r : Relation} {p a : String} {extra : List Join} {conditions : List Condition}
  {division : Bool} {e : Scene E}

/-- A scene inside a semi-join: the linked row under its alias, the rest as outside. -/
structure Inside (a : String) (e : Scene E) (y : Tuple E) (base : Scene E) : Prop where
  row : base a = y
  rest : ∀ b, b ≠ a → b ≠ joinTableAlias a → base b = e b

theorem alias_ne_joinTableAlias (a : String) : a ≠ joinTableAlias a := by
  intro h
  have := congrArg String.length h
  simp [joinTableAlias] at this

theorem alias_ne_seriesAlias (a : String) : a ≠ seriesAlias a := by
  intro h
  have := congrArg String.length h
  simp [seriesAlias] at this

theorem joinTableAlias_ne_seriesAlias (a : String) : joinTableAlias a ≠ seriesAlias a := by
  intro h
  have := congrArg String.length h
  simp [seriesAlias, joinTableAlias] at this
  exact absurd this (by decide)

theorem inside_put (e : Scene E) (a : String) (y : Tuple E) : Inside a e y (e.put a y) :=
  ⟨Scene.put_same .., fun _ hb _ => Scene.put_other _ _ hb⟩

theorem inside_between (e : Scene E) (a : String) (between y : Tuple E) :
    Inside a e y ((e.put (joinTableAlias a) between).put a y) := by
  refine ⟨Scene.put_same .., fun b hb hb' => ?_⟩
  rw [Scene.put_other _ _ hb, Scene.put_other _ _ hb']

theorem body_direct (hkind : ∀ through, r.kind ≠ .manyMany through) :
    r.body p a extra conditions division =
      { source := .table r.linked.table a, joins := extra
        correlation := .columns .and ⟨a, r.linked.column⟩ .eq ⟨p, r.current.column⟩
        conditions } := by
  unfold body
  split
  · next through h => exact absurd h (hkind through)
  · rfl

theorem body_between {through : JoinTable} (hkind : r.kind = .manyMany through)
    (hlink : (division || !extra.isEmpty ||
      !Condition.useOnlyKey a r.linked.column conditions) = true) :
    r.body p a extra conditions division =
      { source := .table through.table (joinTableAlias a)
        joins := r.linkedJoin a through .inner :: extra
        correlation :=
          .columns .and ⟨joinTableAlias a, through.fromColumn⟩ .eq ⟨p, r.current.column⟩
        conditions } := by
  unfold body
  simp only [hkind, hlink, if_true, List.singleton_append]

theorem body_key {through : JoinTable} (hkind : r.kind = .manyMany through)
    (honly : Condition.useOnlyKey a r.linked.column conditions = true) :
    r.body p a [] conditions false =
      { source := .table through.table (joinTableAlias a), joins := []
        correlation :=
          .columns .and ⟨joinTableAlias a, through.fromColumn⟩ .eq ⟨p, r.current.column⟩
        conditions :=
          Condition.redirectAll a ⟨joinTableAlias a, through.toColumn⟩ conditions } := by
  unfold body
  simp [hkind, honly]

theorem exists_scene_direct (hkind : ∀ through, r.kind ≠ .manyMany through) (hc : Clear p a extra)
    {Q : Scene E → Prop} {R : Tuple E → Prop}
    (hQ : ∀ y ∈ r.linkedRows db (e p), ∀ base, Inside a e y base →
      ((∃ e' ∈ db.joins base extra, Q e') ↔ R y)) :
    (∃ e' ∈ db.scenes e (r.body p a extra conditions division).frame,
      db.Lets scalar e' (r.body p a extra conditions division).correlation ∧ Q e') ↔
      ∃ y ∈ r.linkedRows db (e p), R y := by
  rw [body_direct hkind, Database.scenes_frame]
  have hcorrelation : ∀ y e', e' ∈ db.joins (e.put a y) extra →
      (db.Lets scalar e' (.columns .and ⟨a, r.linked.column⟩ .eq ⟨p, r.current.column⟩) ↔
        E.meets (y r.linked.column) (e p r.current.column) = true) := by
    intro y e' he'
    have ha : e' a = y := by
      rw [Database.joins_other he' hc.table, Scene.put_same]
    have hp : e' p = e p := by
      rw [Database.joins_other he' hc.outside, Scene.put_other _ _ hc.parent]
    exact Database.lets_equal ha hp _ _
  constructor
  · rintro ⟨e', he', hcorr, hq⟩
    obtain ⟨base, hbase, he'⟩ := List.mem_flatMap.1 he'
    obtain ⟨y, hy, rfl⟩ := List.mem_map.1 hbase
    have hlinked : y ∈ r.linkedRows db (e p) :=
      (mem_linkedRows_direct hkind).2 ⟨hy, (hcorrelation y e' he').1 hcorr⟩
    exact ⟨y, hlinked, (hQ y hlinked _ (inside_put e a y)).1 ⟨e', he', hq⟩⟩
  · rintro ⟨y, hlinked, hr⟩
    obtain ⟨hy, hmeets⟩ := (mem_linkedRows_direct hkind).1 hlinked
    obtain ⟨e', he', hq⟩ := (hQ y hlinked _ (inside_put e a y)).2 hr
    refine ⟨e', ?_, (hcorrelation y e' he').2 hmeets, hq⟩
    exact List.mem_flatMap.2 ⟨_, List.mem_map.2 ⟨y, hy, rfl⟩, he'⟩

theorem mem_linkedJoin {through : JoinTable} {e' : Scene E} :
    e' ∈ db.join e (r.linkedJoin a through .inner) ↔
      ∃ y ∈ db r.linked.table,
        E.meets (y r.linked.column) (e (joinTableAlias a) through.toColumn) = true ∧
          e' = e.put a y := by
  have hne : (ColumnRef.mk (joinTableAlias a) through.toColumn).tableAlias ≠ a :=
    (alias_ne_joinTableAlias a).symm
  have hfound := Database.found_equal db e r.linked.table r.linked.column hne
  simp only [Database.join, linkedJoin, hfound]
  simp only [reduceCtorEq, false_and, if_false, List.mem_map, List.mem_filter, Scene.cell]
  constructor
  · rintro ⟨y, ⟨hy, hmeets⟩, rfl⟩
    exact ⟨y, hy, hmeets, rfl⟩
  · rintro ⟨y, hy, hmeets, rfl⟩
    exact ⟨y, ⟨hy, hmeets⟩, rfl⟩

theorem exists_scene_between {through : JoinTable} (hkind : r.kind = .manyMany through)
    (hlink : (division || !extra.isEmpty ||
      !Condition.useOnlyKey a r.linked.column conditions) = true)
    (hc : Clear p a extra) {Q : Scene E → Prop} {R : Tuple E → Prop}
    (hQ : ∀ y ∈ r.linkedRows db (e p), ∀ base, Inside a e y base →
      ((∃ e' ∈ db.joins base extra, Q e') ↔ R y)) :
    (∃ e' ∈ db.scenes e (r.body p a extra conditions division).frame,
      db.Lets scalar e' (r.body p a extra conditions division).correlation ∧ Q e') ↔
      ∃ y ∈ r.linkedRows db (e p), R y := by
  rw [body_between hkind hlink, Database.scenes_frame]
  have hcorrelation : ∀ between y e',
      e' ∈ db.joins ((e.put (joinTableAlias a) between).put a y) extra →
      (db.Lets scalar e'
        (.columns .and ⟨joinTableAlias a, through.fromColumn⟩ .eq ⟨p, r.current.column⟩) ↔
        E.meets (between through.fromColumn) (e p r.current.column) = true) := by
    intro between y e' he'
    have hj : e' (joinTableAlias a) = between := by
      rw [Database.joins_other he' hc.between,
        Scene.put_other _ _ (alias_ne_joinTableAlias a).symm, Scene.put_same]
    have hp : e' p = e p := by
      rw [Database.joins_other he' hc.outside, Scene.put_other _ _ hc.parent,
        Scene.put_other _ _ hc.parentBetween]
    exact Database.lets_equal hj hp _ _
  constructor
  · rintro ⟨e', he', hcorr, hq⟩
    obtain ⟨base, hbase, he'⟩ := List.mem_flatMap.1 he'
    obtain ⟨between, hb, rfl⟩ := List.mem_map.1 hbase
    rw [Database.joins] at he'
    obtain ⟨base, hbase, he'⟩ := List.mem_flatMap.1 he'
    obtain ⟨y, hy, hmeets, rfl⟩ := mem_linkedJoin.1 hbase
    rw [Scene.put_same] at hmeets
    have hlinked : y ∈ r.linkedRows db (e p) :=
      (mem_linkedRows_between hkind).2
        ⟨hy, between, hb, (hcorrelation between y e' he').1 hcorr, hmeets⟩
    exact ⟨y, hlinked, (hQ y hlinked _ (inside_between e a between y)).1 ⟨e', he', hq⟩⟩
  · rintro ⟨y, hlinked, hr⟩
    obtain ⟨hy, between, hb, hfrom, hto⟩ := (mem_linkedRows_between hkind).1 hlinked
    obtain ⟨e', he', hq⟩ := (hQ y hlinked _ (inside_between e a between y)).2 hr
    refine ⟨e', ?_, (hcorrelation between y e' he').2 hfrom, hq⟩
    refine List.mem_flatMap.2 ⟨_, List.mem_map.2 ⟨between, hb, rfl⟩, ?_⟩
    rw [Database.joins]
    refine List.mem_flatMap.2 ⟨_, mem_linkedJoin.2 ⟨y, hy, ?_, rfl⟩, he'⟩
    rwa [Scene.put_same]

end Relation

namespace Database

variable {a key : String} {target : ColumnRef} {e : Scene E} {y : Tuple E}

theorem connective_redirect (x : Condition) : (x.redirect a target).connective = x.connective := by
  cases x with
  | compare c b names op v =>
    rw [Condition.redirect]
    split <;> rfl
  | membership c col vs negated =>
    rw [Condition.redirect]
    split <;> rfl
  | group c xs => rfl
  | existence c negated f xs => rfl
  | columns c left op right => rfl
  | subquery c f xs op v => rfl

mutual

/-- Where a column holds the key of a row, conditions on the key may be asked of the column. -/
theorem eval_redirect (hkey : y key = e.cell target) :
    ∀ x : Condition, x.usesOnlyKey a key = true →
      db.eval scalar e (x.redirect a target) = db.eval scalar (e.put a y) x
  | .compare c b names op v, h => by
    rw [Condition.redirect]
    by_cases hb : b = a
    · obtain rfl : names = [key] := by simpa [Condition.usesOnlyKey, hb] using h
      rw [if_pos hb, hb]
      simp [eval, hkey, Scene.cell]
    · rw [if_neg hb, eval, eval, Scene.put_other _ _ hb]
  | .group c xs, h => by
    rw [Condition.redirect, eval, eval, evalEach_redirectAll hkey xs h]
  | .existence c negated f xs, h => by simp [Condition.usesOnlyKey] at h
  | .membership c col vs negated, h => by
    rw [Condition.redirect]
    by_cases hb : col.tableAlias = a
    · have hcol : col.column = key := by simpa [Condition.usesOnlyKey, hb] using h
      rw [if_pos hb, eval, eval]
      simp [hb, hcol, hkey, Scene.cell]
    · rw [if_neg hb, eval, eval, Scene.cell, Scene.cell, Scene.put_other _ _ hb]
  | .columns c left op right, h => by
    obtain ⟨hl, hr⟩ : left.tableAlias ≠ a ∧ right.tableAlias ≠ a := by
      simpa [Condition.usesOnlyKey] using h
    rw [Condition.redirect, eval, eval]
    simp only [Scene.cell, Scene.put_other _ _ hl, Scene.put_other _ _ hr]
  | .subquery c f xs op v, h => by simp [Condition.usesOnlyKey] at h
termination_by structural x => x

theorem evalEach_redirectAll (hkey : y key = e.cell target) :
    ∀ xs : List Condition, Condition.useOnlyKey a key xs = true →
      db.evalEach scalar e (Condition.redirectAll a target xs) =
        db.evalEach scalar (e.put a y) xs
  | [], _ => rfl
  | x :: rest, h => by
    obtain ⟨hx, hrest⟩ : x.usesOnlyKey a key = true ∧ Condition.useOnlyKey a key rest = true := by
      simpa [Condition.useOnlyKey] using h
    rw [Condition.redirectAll, evalEach, evalEach, eval_redirect hkey x hx,
      evalEach_redirectAll hkey rest hrest, connective_redirect]
termination_by structural xs => xs

end

@[simp] theorem letsAll_single {x : Condition} :
    db.LetsAll scalar e [x] ↔ db.Lets scalar e x := by
  rw [letsAll_iff]
  simp [Connective.read, Connective.readFrom]

theorem letsAll_pair {x y : Condition} (hy : y.connective = .and) :
    db.LetsAll scalar e [x, y] ↔ db.Lets scalar e x ∧ db.Lets scalar e y := by
  rw [letsAll_iff]
  simp [Connective.read, Connective.readFrom, hy]

theorem letsAll_conjoined {x : Condition} {xs : List Condition} :
    db.LetsAll scalar e (x :: Condition.conjoined xs) ↔
      db.Lets scalar e x ∧ db.LetsAll scalar e xs := by
  rw [letsAll_iff]
  cases xs with
  | nil => simp [Condition.conjoined, Connective.read, Connective.readFrom]
  | cons x₁ xs =>
    cases xs with
    | nil => simp [Condition.conjoined, Connective.read, Connective.readFrom]
    | cons x₂ xs =>
      have hfirst : db.LetsAll scalar e (x₁.withConnective .and :: x₂ :: xs) ↔
          db.LetsAll scalar e (x₁ :: x₂ :: xs) := by
        rw [letsAll_iff, letsAll_iff]
        simp [Connective.read]
      simp [Condition.conjoined, Connective.read, Connective.readFrom, Condition.connective, hfirst]

end Database

namespace Relation

variable {r : Relation} {p a : String} {extra : List Join} {conditions : List Condition}
  {e : Scene E}

def ReadsLinked (r : Relation) (a : String) (extra : List Join) (conditions : List Condition)
    (division : Bool) : Prop :=
  ∀ through, r.kind = .manyMany through → (division || !extra.isEmpty ||
    !Condition.useOnlyKey a r.linked.column conditions) = true

theorem exists_scene {division : Bool} (h : r.ReadsLinked a extra conditions division)
    (hc : Clear p a extra) {Q : Scene E → Prop} {R : Tuple E → Prop}
    (hQ : ∀ y ∈ r.linkedRows db (e p), ∀ base, Inside a e y base →
      ((∃ e' ∈ db.joins base extra, Q e') ↔ R y)) :
    (∃ e' ∈ db.scenes e (r.body p a extra conditions division).frame,
      db.Lets scalar e' (r.body p a extra conditions division).correlation ∧ Q e') ↔
      ∃ y ∈ r.linkedRows db (e p), R y := by
  by_cases hkind : ∀ through, r.kind ≠ .manyMany through
  · exact exists_scene_direct hkind hc hQ
  · obtain ⟨through, hkind⟩ := not_forall_not.1 hkind
    exact exists_scene_between hkind (h through hkind) hc hQ

theorem body_conditions {division : Bool} (h : r.ReadsLinked a extra conditions division) :
    (r.body p a extra conditions division).conditions = conditions := by
  by_cases hkind : ∀ through, r.kind ≠ .manyMany through
  · rw [body_direct hkind]
  · obtain ⟨through, hkind⟩ := not_forall_not.1 hkind
    rw [body_between hkind (h through hkind)]

/-- The key of the row that a row of the table between points at stands in the latter. -/
theorem letsAll_redirectAll {through : JoinTable} {between y : Tuple E}
    (honly : Condition.useOnlyKey a r.linked.column conditions = true)
    (hmeets : E.meets (y r.linked.column) (between through.toColumn) = true) :
    db.LetsAll scalar (e.put (joinTableAlias a) between)
        (Condition.redirectAll a ⟨joinTableAlias a, through.toColumn⟩ conditions) ↔
      db.LetsAll scalar ((e.put (joinTableAlias a) between).put a y) conditions := by
  obtain ⟨content, hy, hb⟩ := E.meets_iff.1 hmeets
  have hkey : y r.linked.column =
      (e.put (joinTableAlias a) between).cell ⟨joinTableAlias a, through.toColumn⟩ := by
    rw [Scene.cell, Scene.put_same, hy, hb]
  rw [Database.LetsAll, Database.evalEach_redirectAll hkey conditions honly, Database.LetsAll]

theorem exists_scene_key {through : JoinTable} (hkind : r.kind = .manyMany through)
    (honly : Condition.useOnlyKey a r.linked.column conditions = true)
    (hpoints : r.PointsAtRows db) (hc : Clear p a []) {R : Tuple E → Prop}
    (hQ : ∀ y ∈ r.linkedRows db (e p), ∀ base, Inside a e y base →
      (db.LetsAll scalar base conditions ↔ R y)) :
    (∃ e' ∈ db.scenes e (r.body p a [] conditions false).frame,
      db.Lets scalar e' (r.body p a [] conditions false).correlation ∧
        db.LetsAll scalar e' (r.body p a [] conditions false).conditions) ↔
      ∃ y ∈ r.linkedRows db (e p), R y := by
  rw [body_key hkind honly, Database.scenes_frame]
  have hcorrelation : ∀ between,
      (db.Lets scalar (e.put (joinTableAlias a) between)
        (.columns .and ⟨joinTableAlias a, through.fromColumn⟩ .eq ⟨p, r.current.column⟩) ↔
        E.meets (between through.fromColumn) (e p r.current.column) = true) :=
    fun between => Database.lets_equal (Scene.put_same ..)
      (Scene.put_other _ _ hc.parentBetween) _ _
  constructor
  · rintro ⟨e', he', hcorr, hall⟩
    obtain ⟨base, hbase, he'⟩ := List.mem_flatMap.1 he'
    obtain ⟨between, hb, rfl⟩ := List.mem_map.1 hbase
    obtain rfl : e' = _ := by simpa [Database.joins] using he'
    obtain ⟨y, hy, hmeets⟩ := hpoints through hkind between hb
    have hlinked : y ∈ r.linkedRows db (e p) :=
      (mem_linkedRows_between hkind).2 ⟨hy, between, hb, (hcorrelation between).1 hcorr, hmeets⟩
    refine ⟨y, hlinked, (hQ y hlinked _ (inside_between e a between y)).1 ?_⟩
    exact (letsAll_redirectAll honly hmeets).1 hall
  · rintro ⟨y, hlinked, hr⟩
    obtain ⟨hy, between, hb, hfrom, hto⟩ := (mem_linkedRows_between hkind).1 hlinked
    refine ⟨e.put (joinTableAlias a) between, ?_, (hcorrelation between).2 hfrom, ?_⟩
    · exact List.mem_flatMap.2 ⟨_, List.mem_map.2 ⟨between, hb, rfl⟩, by simp [Database.joins]⟩
    · exact (letsAll_redirectAll honly hto).2 ((hQ y hlinked _ (inside_between e a between y)).2 hr)

theorem lets_single {c : Connective} (hc : Clear p a extra)
    (hreads : r.ReadsLinked a extra conditions false ∨ r.PointsAtRows db) {R : Tuple E → Prop}
    (hR : ∀ y ∈ r.linkedRows db (e p), ∀ base, Inside a e y base →
      ((∃ e' ∈ db.joins base extra, db.LetsAll scalar e' conditions) ↔ R y)) :
    db.Lets scalar e ((r.body p a extra conditions false).single c) ↔
      ∃ y ∈ r.linkedRows db (e p), R y := by
  rw [Body.single, Database.lets_existence]
  simp only [Database.letsAll_conjoined]
  by_cases hjoined : r.ReadsLinked a extra conditions false
  · rw [body_conditions hjoined]
    exact exists_scene hjoined hc hR
  · obtain ⟨through, hkind, hextra, honly⟩ : ∃ through, r.kind = .manyMany through ∧ extra = [] ∧
        Condition.useOnlyKey a r.linked.column conditions = true := by
      simpa [ReadsLinked] using hjoined
    subst hextra
    refine exists_scene_key hkind honly (hreads.resolve_left hjoined) hc fun y hy base hbase => ?_
    simpa [Database.joins] using hR y hy base hbase

theorem connective_numbered {n : Nat} (hn : 2 ≤ n) (xs : List Condition) :
    ∀ x ∈ numbered a n xs, x.connective = .or := by
  induction xs generalizing n with
  | nil => simp [numbered]
  | cons x xs ih =>
    intro y hy
    rw [numbered, List.mem_cons] at hy
    rcases hy with rfl | hy
    · have hne : n ≠ 1 := by omega
      simp [Condition.connective, hne]
    · exact ih (by omega) y hy

theorem exists_numbered {k : Nat}
    (hk : e (seriesAlias a) seriesColumn = some (E.number k)) (n : Nat) (xs : List Condition) :
    (∃ x ∈ numbered a n xs, db.Lets scalar e x) ↔
      ∃ i x, xs[i]? = some x ∧ k = n + i ∧ db.Lets scalar e x := by
  induction xs generalizing n with
  | nil => simp [numbered]
  | cons x xs ih =>
    have hnumber : db.Lets scalar e (.ofColumn (seriesAlias a) seriesColumn .eq
        (.raw (toString n))) ↔ k = n := by
      simp only [Condition.ofColumn, Database.Lets, Database.eval, List.map_cons, List.map_nil,
        Engine.compare_number, hk, Option.some.injEq]
      exact ⟨fun h => E.number_injective h, fun h => h ▸ rfl⟩
    have hgroup : ∀ c, db.Lets scalar e (.group c [.ofColumn (seriesAlias a) seriesColumn .eq
        (.raw (toString n)), x.withConnective .and]) ↔ k = n ∧ db.Lets scalar e x := by
      intro c
      rw [Database.lets_group, Database.letsAll_pair (by simp), hnumber,
        Database.lets_withConnective]
    simp only [numbered, List.mem_cons, exists_eq_or_imp, hgroup, ih]
    constructor
    · rintro (⟨rfl, hx⟩ | ⟨i, y, hy, rfl, hlets⟩)
      · exact ⟨0, x, by simp, by simp, hx⟩
      · exact ⟨i + 1, y, by simpa using hy, by omega, hlets⟩
    · rintro ⟨i, y, hy, rfl, hlets⟩
      cases i with
      | zero =>
        obtain rfl : x = y := by simpa using hy
        exact .inl ⟨by simp, hlets⟩
      | succ i => exact .inr ⟨i, y, by simpa using hy, by omega, hlets⟩

theorem letsAll_numbered {k : Nat} (hk : e (seriesAlias a) seriesColumn = some (E.number (k + 1)))
    {x : Condition} (hx : conditions[k]? = some x) :
    db.LetsAll scalar e (numbered a 1 conditions) ↔ db.Lets scalar e x := by
  have hne : numbered a 1 conditions ≠ [] := by
    cases conditions with
    | nil => simp at hx
    | cons y ys => simp [numbered]
  have hor : ∀ x ∈ (numbered a 1 conditions).drop 1, x.connective = .or := by
    cases conditions with
    | nil => simp [numbered]
    | cons y ys => exact connective_numbered (by omega) ys
  have hread : db.LetsAll scalar e (numbered a 1 conditions) ↔
      ∃ x ∈ numbered a 1 conditions, db.Lets scalar e x := by
    rw [Database.letsAll_iff, Connective.read_or (by simpa using hne)]
    · simp
    · rw [← List.map_drop]
      intro y hy
      obtain ⟨z, hz, rfl⟩ := List.mem_map.1 hy
      exact hor z hz
  rw [hread, exists_numbered hk]
  constructor
  · rintro ⟨i, y, hy, hi, hlets⟩
    obtain rfl : i = k := by omega
    obtain rfl : x = y := by simpa [hx] using hy
    exact hlets
  · intro hlets
    exact ⟨k, x, hx, by omega, hlets⟩

section Divided

variable {P : Tuple E → Condition → Prop} (hc : Clear p a extra)
  (hP : ∀ y ∈ r.linkedRows db (e p), ∀ k base,
    Inside a (e.put (seriesAlias a) (seriesRow k)) y base → ∀ x ∈ conditions,
      ((∃ e' ∈ db.joins base extra, db.Lets scalar e' x) ↔ P y x))

include hc hP

theorem exists_scene_numbered {k : Nat} {x : Condition} (hx : conditions[k]? = some x) :
    (∃ e' ∈ db.scenes (e.put (seriesAlias a) (seriesRow (k + 1)))
        (r.body p a extra conditions true).frame,
      db.Lets scalar e' (r.body p a extra conditions true).correlation ∧
        db.LetsAll scalar e' (numbered a 1 conditions)) ↔
      ∃ y ∈ r.linkedRows db (e p), P y x := by
  have hparent : (e.put (seriesAlias a) (seriesRow (k + 1))) p = e p :=
    Scene.put_other _ _ hc.parentSeries
  rw [exists_scene (fun _ _ => rfl) hc (R := fun y => P y x), hparent]
  intro y hy base hbase
  rw [hparent] at hy
  have hnumbered : ∀ e' ∈ db.joins base extra,
      (db.LetsAll scalar e' (numbered a 1 conditions) ↔ db.Lets scalar e' x) := by
    intro e' he'
    have hseries : e' (seriesAlias a) = seriesRow (k + 1) := by
      rw [Database.joins_other he' hc.series,
        hbase.rest _ (alias_ne_seriesAlias a).symm (joinTableAlias_ne_seriesAlias a).symm,
        Scene.put_same]
    refine letsAll_numbered ?_ hx
    rw [hseries, seriesRow, if_pos rfl]
  rw [← hP y hy (k + 1) base hbase x (List.mem_of_getElem? hx)]
  exact exists_congr fun e' => and_congr_right (hnumbered e')

theorem not_missing_iff {k : Nat} {x : Condition} (hx : conditions[k]? = some x) :
    ¬ db.LetsAll scalar (e.put (seriesAlias a) (seriesRow (k + 1)))
        [.existence .and true (r.body p a extra conditions true).frame
          [(r.body p a extra conditions true).correlation,
            .group .and (numbered a 1 conditions)]] ↔
      ∃ y ∈ r.linkedRows db (e p), P y x := by
  have hpair : ∀ e', db.LetsAll scalar e' [(r.body p a extra conditions true).correlation,
      .group .and (numbered a 1 conditions)] ↔
      db.Lets scalar e' (r.body p a extra conditions true).correlation ∧
        db.LetsAll scalar e' (numbered a 1 conditions) :=
    fun e' => Database.letsAll_pair rfl
  rw [Database.letsAll_single, Database.lets_absence, ← exists_scene_numbered hc hP hx]
  simp only [hpair, not_forall, not_not, exists_prop]

theorem lets_divided {c : Connective} :
    db.Lets scalar e ((r.body p a extra conditions true).divided a c) ↔
      ∀ x ∈ conditions, ∃ y ∈ r.linkedRows db (e p), P y x := by
  rw [Body.divided, Database.lets_absence, body_conditions fun _ _ => rfl, Database.scenes_series]
  simp only [List.forall_mem_map, List.mem_range]
  constructor
  · intro h x hx
    obtain ⟨k, hk, rfl⟩ := List.getElem_of_mem hx
    exact (not_missing_iff hc hP (List.getElem?_eq_getElem hk)).1 (h k hk)
  · intro h k hk
    exact (not_missing_iff hc hP (List.getElem?_eq_getElem hk)).2 (h _ (List.getElem_mem hk))

end Divided

/-- Outer joins lead on from every row: what holds of all they lead to holds of some of it. -/
theorem exists_joined_iff (hc : Clear p a extra) {base : Scene E} {Q : Scene E → Prop} {P : Prop}
    (h : ∀ e' ∈ db.joins base extra, (Q e' ↔ P)) : (∃ e' ∈ db.joins base extra, Q e') ↔ P := by
  constructor
  · rintro ⟨e', he', hq⟩
    exact (h e' he').1 hq
  · intro hp
    obtain ⟨e', he'⟩ := List.exists_mem_of_ne_nil _ (Database.joins_ne_nil db hc.outer base)
    exact ⟨e', he', (h e' he').2 hp⟩

/-- What a semi-join says: division asks for a linked row for each condition, any other strategy for
one linked row that the conditions together let through. -/
theorem lets_semiJoin {strategy : Strategy} {c : Connective} (hc : Clear p a extra)
    (hpoints : r.PointsAtRows db) {P : Tuple E → Condition → Prop}
    (hP : ∀ y ∈ r.linkedRows db (e p), ∀ base, base a = y →
      (∀ b, b ≠ a → b ≠ joinTableAlias a → b ≠ seriesAlias a → base b = e b) →
      ∀ e' ∈ db.joins base extra, ∀ x ∈ conditions, (db.Lets scalar e' x ↔ P y x)) :
    db.Lets scalar e (r.semiJoin p a extra conditions strategy c) ↔
      if strategy = .division ∧ 2 ≤ conditions.length then
        ∀ x ∈ conditions, ∃ y ∈ r.linkedRows db (e p), P y x
      else ∃ y ∈ r.linkedRows db (e p),
        Connective.read (conditions.map fun x => (x.connective, P y x)) := by
  rw [semiJoin_eq]
  split
  · refine lets_divided hc fun y hy k base hbase x hx => ?_
    refine exists_joined_iff hc fun e' he' => ?_
    refine hP y hy base hbase.row (fun b hb hb' hb'' => ?_) e' he' x hx
    rw [hbase.rest b hb hb', Scene.put_other _ _ hb'']
  · refine lets_single hc (.inr hpoints) fun y hy base hbase => ?_
    refine exists_joined_iff hc fun e' he' => ?_
    rw [Database.letsAll_iff]
    have heq : conditions.map (fun x => (x.connective, db.Lets scalar e' x)) =
        conditions.map fun x => (x.connective, P y x) :=
      List.map_congr_left fun x hx => Prod.ext rfl (propext
        (hP y hy base hbase.row (fun b hb hb' _ => hbase.rest b hb hb') e' he' x hx))
    rw [heq]

end Relation

end PathQuery
