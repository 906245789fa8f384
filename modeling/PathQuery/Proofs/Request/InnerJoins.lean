import PathQuery.Proofs.Database.MissingRows
import PathQuery.Proofs.JoinTree.Meaning
import PathQuery.Proofs.Request.Built
import PathQuery.Sql.Render

/-!
Inner joins of a statement. Where all conditions must hold, a node is joined inwards if a condition
needs its row, together with the nodes above it. Rows that lack the joined one are left out, and as
the condition would not hold of them nothing is lost; the exceptions are the comparisons that count
as needing a row and hold without one.
-/

set_option autoImplicit false

namespace PathQuery

open JoinTree

variable {E : Engine} {db : Database E} {scalar : Database.Scalar E}

namespace Condition

variable {a : String} {columns : List String} {op : Operator} {v : Value} {x : Condition}

theorem isSingle_withConnective (c : Connective) (h : x.IsSingle) :
    (x.withConnective c).IsSingle := by
  cases x <;> exact h

theorem isSingle_ofColumns (h : ofColumns a op v columns = .ok x) : x.IsSingle := by
  unfold ofColumns at h
  split at h
  · next column =>
    obtain ⟨op', w, rfl⟩ := ofScalar_eq_ok h
    exact ⟨column, rfl⟩
  · rw [ofTuples_eq] at h
    obtain ⟨negated, -, h⟩ := bind_eq_ok_iff.1 h
    unfold ofTupleList at h
    split at h
    · split at h
      · cases h
      · obtain rfl := Except.ok.inj h
        trivial
    · obtain ⟨groups, -, h⟩ := bind_eq_ok_iff.1 h
      split at h
      · obtain rfl := Except.ok.inj h
        trivial
      · obtain rfl := Except.ok.inj h
        trivial

end Condition

namespace JoinTree

variable {t v : JoinTree} {xs : List Condition}

theorem Resolves.isSingle {scope : Nat} {criterion : Criterion} {x : Condition}
    (h : t.Resolves scope criterion x) : x.IsSingle := by
  cases h with
  | compare read found plain about made =>
    exact Condition.isSingle_withConnective _ (Condition.isSingle_ofColumns made)
  | _ => trivial

/-- Where a statement shows a row of NULLs, it shows one at the nodes below that relations to one
row lead to. -/
theorem WellFormed.nullRow_below (ht : t.WellFormed) (hup : MarkedUp Node.joined t)
    (hdistinct : (rootAlias :: t.statementJoins.map Join.tableAlias).Nodup) {p id : Nat}
    {r : Relation} (e : t.Edge p id r) (hone : r.isToMany = false) (hid : id ∈ t.joinedNodes)
    {scene scene' : Scene E} (h : scene' ∈ db.joins scene (t.statementJoins.map Join.outer))
    (hnull : scene' (t.node p).tableAlias = nullRow) :
    scene' (t.node id).tableAlias = nullRow := by
  obtain ⟨before, after, hsplit⟩ := List.append_of_mem hid
  obtain ⟨p', hp', hbefore⟩ := (hsplit ▸ ht.parentsFirst_joinedNodes hup).split
  obtain rfl : p' = p := by simpa [e.parent] using hp'.symm
  have hone := joinsFor_one e hone (t.joinKind id)
  rw [statementJoins_eq, hsplit, List.flatMap_append, List.flatMap_cons, hone,
    List.singleton_append] at hdistinct h
  rw [List.map_append, List.map_cons] at hdistinct h
  rw [← List.cons_append, List.nodup_append] at hdistinct
  obtain ⟨-, hafter, hapart⟩ := hdistinct
  refine Database.nullRow_of_target List.mem_cons_self (fun k hk => ?_) (fun k hk => ?_) h hnull
  · obtain ⟨k', hk', rfl⟩ := List.mem_map.1 hk
    exact fun heq => (List.nodup_cons.1 hafter).1 (List.mem_map.2 ⟨k', hk', heq.symm⟩)
  · obtain ⟨k', hk', rfl⟩ := List.mem_map.1 hk
    change (t.node p').tableAlias ≠ k'.tableAlias
    refine hapart _ ?_ _ (List.mem_cons_of_mem _ (List.mem_map_of_mem hk'))
    rcases hbefore with hroot | hbefore
    · rw [List.mem_singleton.1 hroot, ht.rootAliased]
      exact List.mem_cons_self
    · have hne : p' ≠ rootId := by
        have hp : p' ∈ t.joinedNodes := by simp [hsplit, hbefore]
        exact (ht.mem_joinedNodes.1 hp).2.1
      have hsize := (ht.parent_lt e.parent).2
      obtain ⟨q, r', e'⟩ := ht.edge p' (Nat.pos_of_ne_zero hne) (Nat.lt_trans e.lt hsize)
      obtain ⟨j, hj, halias⟩ := exists_joinsFor e' (t.joinKind p')
      refine List.mem_cons_of_mem _ (List.mem_map.2 ⟨j, ?_, halias⟩)
      exact List.mem_flatMap.2 ⟨p', hbefore, hj⟩

theorem WellFormed.nullRow_lineage (ht : t.WellFormed) (hup : MarkedUp Node.joined t)
    (hdistinct : (rootAlias :: t.statementJoins.map Join.tableAlias).Nodup) {scene scene' : Scene E}
    (h : scene' ∈ db.joins scene (t.statementJoins.map Join.outer)) {n m : Nat} (hn : n < t.size)
    (hjoined : (t.node n).joined = true)
    (hone : ∀ id ∈ t.lineage n, (t.node id).isToMany = false) (hm : m ∈ t.lineage n)
    (hne : m ≠ rootId) (hnull : scene' (t.node m).tableAlias = nullRow) :
    scene' (t.node n).tableAlias = nullRow := by
  induction n using Nat.strongRecOn with
  | ind n ih =>
    by_cases hmn : m = n
    · exact hmn ▸ hnull
    have hroot : n ≠ rootId := by
      rintro rfl
      exact hne (eq_root_of_mem_lineage hm)
    obtain ⟨p, r, e⟩ := ht.edge n (Nat.pos_of_ne_zero hroot) hn
    rw [lineage_of_parent e.parent e.lt] at hm hone
    rw [List.forall_mem_cons] at hone
    have hp := ih p e.lt (Nat.lt_trans e.lt hn) (hup n p e.parent hjoined) hone.2
      ((List.mem_cons.1 hm).resolve_left hmn)
    refine ht.nullRow_below hup hdistinct e ?_ (ht.mem_joinedNodes.2 ⟨hn, hroot, hjoined⟩) h hp
    rw [← isToMany_of_edge e, hone.1]

/-- All conditions must hold, and one of them asks for the row of the node `n`, to which relations
to one row lead by way of `id`. -/
structure Requires (t : JoinTree) (ys : List Condition) (id : Nat) (x : Condition) (n : Nat) :
    Prop where
  conjunctive : ∀ y ∈ ys.drop 1, y.connective = .and
  mem : x ∈ ys
  needsRow : x.needsRow = true
  tableAlias : x.tableAlias? = some (t.node n).tableAlias
  lt : n < t.size
  joined : (t.node n).joined = true
  required : (t.node n).required = true
  one : ∀ i ∈ t.lineage n, (t.node i).isToMany = false
  above : id ∈ t.lineage n

/-- What no clause has required is required by a condition that stays in the statement. -/
theorem WellFormed.exists_requires (hv : v.WellFormed)
    (hplain : Unmarked Node.required v)
    {ys : List Condition} (h : v.settleRoot xs = .ok (ys, t)) {id : Nat} (hid : id < t.size)
    (hne : id ≠ rootId) (hrequired : (t.node id).required = true) :
    ∃ x n, t.Requires ys id x n := by
  obtain ⟨r, hr, rfl, ht⟩ := settleRoot_eq_ok h
  have hshape := sameShape_settleRoot h
  rw [hshape.size] at hid
  rw [ht, required_settled_iff xs r.needed hid] at hrequired
  obtain ⟨n, hn, habove⟩ := hrequired.resolve_left fun hold => hne (hplain id hid hold)
  obtain ⟨hand, x, hx, hneeds, howner, hone⟩ := mem_requiredBy.1 hn
  have hlt := owner?_lt howner
  obtain ⟨a, ha, hfound⟩ := Option.bind_eq_some_iff.1 howner
  have hw := sameShape_requireAll v (v.requiredBy xs)
  have hnear : (v.requireAll (v.requiredBy xs)).anchorAt? rootId x = none := by
    rw [anchorAt?_of_owner ((hw.owner? x).trans howner), hw.anchor?, hone]
  refine ⟨x, n, {
    conjunctive := connective_drop_of_settle hr hand
    mem := mem_conditions_of_joined hr hand hx (members?_of_owner? howner) hnear
    needsRow := hneeds
    tableAlias := by rw [ha, hshape.tableAlias, (alias_of_idOfAlias? hfound).2]
    lt := by rwa [hshape.size]
    joined := ?_
    required := ?_
    one := fun i hi => ?_
    above := by rwa [lineage_congr hshape.parent] }⟩
  · rw [ht, joined_settled_iff xs r.needed hlt]
    exact .inr ⟨n, .inl hn, mem_lineage_self v n⟩
  · rw [ht, required_settled_iff xs r.needed hlt]
    exact .inr ⟨n, hn, mem_lineage_self v n⟩
  · rw [lineage_congr hshape.parent] at hi
    rw [hshape.isToMany]
    exact hv.isToMany_of_mem_lineage hlt hone hi

end JoinTree

namespace Options

variable {o : Options} {start v t : JoinTree} {xs : List Condition} {st : Statement}

theorem Yields.isSingle {P : JoinTree → JoinTree → Prop} (h : o.Yields P start v t xs st)
    (hv : v.WellFormed) : ∀ x ∈ st.conditions, x.tableAlias? ≠ none → x.IsSingle := by
  intro x hx hleaf
  obtain ⟨settled, hsettled, hconditions, -⟩ := settleRoot_eq_ok h.settled
  have hw := hv.of_sameShape (sameShape_requireAll v (v.requiredBy xs))
  obtain ⟨criterion, -, hresolves⟩ :=
    h.resolved.source x (hw.mem_of_settle hsettled (hconditions ▸ hx) hleaf)
  exact hresolves.isSingle

/-- Each row that the conditions let through has found the inner joins, if no condition on what they
join holds of a row of NULLs. -/
theorem Yields.shows_joined (h : o.Yields (NotMarked Node.required) start v t xs st)
    {s : Schema} {name : String} (hstart : JoinTree.ofModel s name = .ok start)
    (hdistinct : (rootAlias :: st.joins.map Join.tableAlias).Nodup)
    (hmissing : ∀ y ∈ st.conditions, y.needsRow = true → y.LetsMissing E → ∀ j ∈ st.joins,
      j.kind = .inner → y.tableAlias? ≠ some j.tableAlias) {scene scene' : Scene E}
    (hanswer : scene' ∈ db.answers scalar scene (st.joins.map Join.outer) st.conditions) :
    ∀ j ∈ st.joins, j.kind ≠ .left → scene' j.tableAlias ≠ nullRow := by
  intro j hj hkind hnull
  obtain ⟨hjoins, hlets⟩ := Database.mem_answers.1 hanswer
  have hwell := wellFormed_ofModel hstart
  have hv := h.reached.grown.wellFormed hwell
  have hreached := h.reached.trans (reached_settleRoot h.settled)
  have ht := hreached.grown.wellFormed hwell
  have hup := (hreached.markedUp hwell (markedUp_ofModel _ hstart) (markedUp_ofModel _ hstart)).1
  have hplain := unmarked_of_notMarked hstart h.kept
  rw [h.joins] at hdistinct hjoins hj hmissing
  obtain ⟨id, ⟨hlt, hne, hjoined⟩, hj⟩ := ht.mem_statementJoins.1 hj
  have hrequired : (t.node id).required = true := by
    by_contra hnot
    rw [joinKind, if_neg hnot] at hj
    exact hkind (of_mem_joinsFor hj).1
  obtain ⟨x, n, hx⟩ := hv.exists_requires hplain h.settled hlt hne hrequired
  obtain ⟨p, r, e⟩ := ht.edge id (Nat.pos_of_ne_zero hne) hlt
  have hone := hx.one id hx.above
  rw [isToMany_of_edge e] at hone
  rw [joinsFor_one e hone, List.mem_singleton] at hj
  rw [hj] at hnull
  have hbelow := ht.nullRow_lineage hup hdistinct hjoins hx.lt hx.joined hx.one hx.above hne hnull
  have hroot : n ≠ rootId := by
    rintro rfl
    exact hne (eq_root_of_mem_lineage hx.above)
  obtain ⟨q, r', e'⟩ := ht.edge n (Nat.pos_of_ne_zero hroot) hx.lt
  obtain ⟨k, hk, halias⟩ := exists_joinsFor e' .inner
  have hmem : k ∈ t.statementJoins := by
    refine ht.mem_statementJoins.2 ⟨n, ⟨hx.lt, hroot, hx.joined⟩, ?_⟩
    rwa [joinKind, if_pos hx.required]
  have hsingle : x.IsSingle := h.isSingle hv x hx.mem (by simp [hx.tableAlias])
  have hholds : db.Lets scalar scene' x := by
    rw [Database.letsAll_iff, Connective.read_and] at hlets
    · exact hlets _ (List.mem_map_of_mem hx.mem)
    · rw [← List.map_drop, List.forall_mem_map]
      exact hx.conjunctive
  refine hmissing x hx.mem hx.needsRow ?_ k hmem (of_mem_joinsFor hk).1 ?_
  · exact (Database.lets_nullRow hx.needsRow hsingle hx.tableAlias hbelow).1 hholds
  · rw [hx.tableAlias, halias]

end Options

namespace Stray

def operator (outside : Bool) : String :=
  if outside then "NOT IN" else "="

def value (outside : Bool) : Value :=
  if outside then .list [] else .text "A"

def request (outside : Bool) : Request where
  target := .model Blog.schema "Article"
  kind := .select
  options := { filter := Filter.empty.compare "author/name" (operator outside) (value outside) }

def op (outside : Bool) : Operator :=
  if outside then .notIn else .eq

def leaf (outside : Bool) : Condition :=
  .compare .and "author" ["name"] (op outside) (value outside)

def start : JoinTree :=
  ⟨some Blog.schema,
    ((Table.named "articles").withColumns ["id", "title"]).withColumn "authorId" "author_id",
    [Node.root (some "Article")]⟩

def grown : JoinTree :=
  (start.child rootId "author").2

def tree (outside : Bool) : JoinTree :=
  grown.attach 1 (leaf outside)

def statement (outside : Bool) : Statement where
  kind := .select
  source := some (.table "articles" rootAlias)
  columns := [
    .column (.root "id") (some "id"), .column (.root "title") (some "title"),
    .column (.root "author_id") (some "authorId")]
  joins := [{
    table := "authors", tableAlias := "author", kind := .inner
    on := [.equal ⟨"author", "id"⟩ ⟨rootAlias, "author_id"⟩] }]
  conditions := [leaf outside]

theorem resolves (outside : Bool) : (request outside).options.filter.resolve 1 rootId start =
    .ok ([leaf outside], tree outside) := by
  have hsegments : segments "author/name" = ["author", "name"] := by decide +kernel
  have hfound : start.resolveFrom rootId "author/name" = (.ok (1, "name"), grown) := by
    simp only [resolveFrom, hsegments]
    rfl
  have hpath : Building.resolveFrom rootId "author/name" start = .ok ((1, "name"), grown) := by
    rw [Building.resolveFrom, Building.step, hfound]
  have hop : Building.ofExcept (Operator.parse (operator outside)) start =
      .ok (op outside, start) := by
    cases outside <;> with_unfolding_all rfl
  have hcompare : Filter.resolveCompare (Filter.resolve 0) rootId .and "author/name"
      (operator outside) (value outside) start = .ok (leaf outside, tree outside) := by
    rw [Filter.resolveCompare, Building.bind_run hop, Building.bind_run hpath]
    cases outside <;> rfl
  change (Filter.resolveCompare (Filter.resolve 0) rootId .and "author/name" (operator outside)
    (value outside) >>= _) start = _
  rw [Building.bind_run hcompare]
  rfl

theorem builds (outside : Bool) : (request outside).build 1 = .ok (statement outside) := by
  have howner : (tree outside).owner? (leaf outside) = some 1 := by
    cases outside <;> decide +kernel
  have hone : (tree outside).anchor? rootId 1 = none := by cases outside <;> decide +kernel
  have hjoins : (((tree outside).requireAll ((tree outside).requiredBy [leaf outside])).joinAll
      [1]).statementJoins = (statement outside).joins := by
    cases outside <;> decide +kernel
  have hshape := sameShape_requireAll (tree outside) ((tree outside).requiredBy [leaf outside])
  have hsettle := settle_singleton rfl ((hshape.owner? _).trans howner)
    ((hshape.anchor? rootId 1).trans hone) rfl
  have hbuild := Request.build_of_settled rfl rfl ⟨rfl, rfl, rfl, rfl, rfl⟩ rfl rfl
    (resolves outside) hsettle
  rw [List.nil_append, hjoins] at hbuild
  exact hbuild

def tables : Database Engine.textual :=
  fun name => if name = "articles" then [article] else []
where
  article : Tuple Engine.textual := fun column => [("id", "2"), ("title", "'B'")].lookup column

end Stray

namespace Request

variable {s : Schema} {name : String} {r : Request} {depth : Nat} {st : Statement}

/-- A condition of a statement that counts as needing a row holds of a row of NULLs only if it is
one of the exceptions: NOT IN with an empty list, or IS or IS NOT whose value makes it so. Without
an exception among the conditions on inner joins, outer joins in their places show the same rows. -/
theorem inner_joins_lose_no_row (db : Database E) (scalar : Database.Scalar E)
    (htarget : r.target = .model s name) (h : r.build depth = .ok st) :
    (∀ y ∈ st.conditions, y.needsRow = true → ∀ scene a, y.tableAlias? = some a →
      scene a = nullRow → (db.Lets scalar scene y ↔ y.LetsMissing E)) ∧
    ((rootAlias :: st.joins.map Join.tableAlias).Nodup →
      (∀ y ∈ st.conditions, y.needsRow = true → y.LetsMissing E → ∀ j ∈ st.joins,
        j.kind = .inner → y.tableAlias? ≠ some j.tableAlias) →
      ∀ scene, db.answers scalar scene st.joins st.conditions =
        db.answers scalar scene (st.joins.map Join.outer) st.conditions) := by
  by_cases hkind : r.kind = .insert
  · obtain ⟨start, t, -, hrun⟩ := run_of_build htarget h
    rw [hkind] at hrun
    obtain ⟨into, columns, rows, rfl⟩ := Options.insert_eq_ok hrun
    exact ⟨by simp, fun _ _ _ => rfl⟩
  · obtain ⟨start, v, t, xs, hstart, hyields⟩ :=
      yields_of_build (P := NotMarked Node.required) (fun _ => inferInstance) htarget hkind h
    have hv := hyields.reached.grown.wellFormed (wellFormed_ofModel hstart)
    refine ⟨fun y hy hneeds scene a ha hnull => ?_, fun hdistinct hmissing scene => ?_⟩
    · exact Database.lets_nullRow hneeds (hyields.isSingle hv y hy (by simp [ha])) ha hnull
    · refine Database.answers_outer st.joins scene (List.nodup_cons.1 hdistinct).2 ?_
      intro scene' hanswer
      exact hyields.shows_joined hstart hdistinct hmissing hanswer

/-- The articles of authors named A, one without an author among the rows. -/
theorem inner_joins_lose_no_row_of_named :
    (Stray.request false).build 1 = .ok (Stray.statement false) ∧
      (rootAlias :: (Stray.statement false).joins.map Join.tableAlias).Nodup ∧
      (∀ y ∈ (Stray.statement false).conditions, y.needsRow = true →
        y.LetsMissing Engine.textual → ∀ j ∈ (Stray.statement false).joins, j.kind = .inner →
          y.tableAlias? ≠ some j.tableAlias) ∧
      ∀ scene, Stray.tables.answers (fun _ _ _ => none) scene (Stray.statement false).joins
          (Stray.statement false).conditions =
        Stray.tables.answers (fun _ _ _ => none) scene
          ((Stray.statement false).joins.map Join.outer) (Stray.statement false).conditions := by
  have hdistinct : (rootAlias :: (Stray.statement false).joins.map Join.tableAlias).Nodup := by
    decide
  have hmissing : ∀ y ∈ (Stray.statement false).conditions, y.needsRow = true →
      y.LetsMissing Engine.textual → ∀ j ∈ (Stray.statement false).joins, j.kind = .inner →
        y.tableAlias? ≠ some j.tableAlias := by
    intro y hy _ hmissing
    obtain rfl := List.mem_singleton.1 hy
    exact hmissing.elim
  have hsame := inner_joins_lose_no_row Stray.tables (fun _ _ _ => none) rfl (Stray.builds false)
  exact ⟨Stray.builds false, hdistinct, hmissing, hsame.2 hdistinct hmissing⟩

/-- Asked for articles whose author's name is not in the empty list, the statement leaves out an
article without an author, which an outer join would show. -/
theorem inner_join_loses_stray :
    (Stray.request true).build 1 = .ok (Stray.statement true) ∧
      ((Stray.statement true).compile (.of (Stray.statement true))).toOption.map Compiled.sql =
        some ("SELECT `_`.`id`,`_`.`title`,`_`.`author_id` FROM `articles` AS `_` " ++
          "INNER JOIN `authors` AS `author` ON `author`.`id` = `_`.`author_id` WHERE 1=1") ∧
      (Stray.leaf true).needsRow = true ∧
      Stray.tables.Lets (fun _ _ _ => none) (fun _ => nullRow) (Stray.leaf true) ∧
      Stray.tables.answers (fun _ _ _ => none) (rootScene Stray.tables.article)
        (Stray.statement true).joins (Stray.statement true).conditions = [] ∧
      Stray.tables.answers (fun _ _ _ => none) (rootScene Stray.tables.article)
        ((Stray.statement true).joins.map Join.outer) (Stray.statement true).conditions ≠ [] := by
  refine ⟨Stray.builds true, ?_, rfl, rfl, ?_, ?_⟩
  · decide +kernel
  · decide +kernel
  · decide +kernel

end Request

end PathQuery
