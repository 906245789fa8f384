import PathQuery.Proofs.Filter.Depth
import PathQuery.Proofs.Filter.Entries
import PathQuery.Proofs.JoinTree.Retained
import PathQuery.Proofs.Request.Compiled
import PathQuery.Proofs.Sql.Predicates

/-!
Comparisons of columns and of the caller's SELECTs in compiled statements. Their operators are not
checked against what stands on the right: each comes to the SQL as it was given, and there the text
has the shape of a predicate exactly when the operator fits.
-/

set_option autoImplicit false

namespace PathQuery

namespace Criterion

def keepsOperator : Criterion → Bool
  | .columns _ _ _ _ => true
  | .subquery _ _ _ _ => true
  | _ => false

/-- What the caller wrote for the entry leaves nothing open: neither the text of the SELECT nor the
value that it is compared with. -/
def HasWholeSelect : Criterion → Prop
  | .subquery _ query _ value =>
    (∀ ps, Sql.select .nested query = .ok ps → Sql.Balanced (Sql.chars ps)) ∧
      Sql.IsWhole value.dereference
  | _ => True

end Criterion

namespace JoinTree

variable {t : JoinTree} {scope : Nat} {x : Criterion} {y : Condition}

theorem Resolves.keepsOperator (h : t.Resolves scope x y) (hx : x.keepsOperator = true) :
    y.keepsOperator = true ∧ (x.HasWholeSelect → y.HasWholeSelect) := by
  cases h with
  | columns => exact ⟨rfl, id⟩
  | subquery => exact ⟨rfl, id⟩
  | _ => cases hx

end JoinTree

namespace Condition

theorem keepsOperator_withConnective (c : Connective) (y : Condition) :
    (y.withConnective c).keepsOperator = y.keepsOperator ∧
      ((y.withConnective c).HasWholeSelect ↔ y.HasWholeSelect) ∧
        (y.withConnective c).operatorFits = y.operatorFits := by
  cases y <;> exact ⟨rfl, Iff.rfl, rfl⟩

theorem isFixed_of_keepsOperator {y : Condition} (h : y.keepsOperator = true) :
    y.isFixed = true := by
  cases y with
  | columns => rfl
  | subquery => rfl
  | _ => cases h

end Condition

namespace Request

open JoinTree

variable {r : Request} {depth : Nat} {st : Statement} {c : Compiled}

theorem conditions_of_insert (h : r.build depth = .ok st) (hkind : st.kind = .insert) :
    st.conditions = [] := by
  obtain ⟨start, u, -, hrun⟩ := exists_run h
  rw [← Options.kind_of_statement hrun, hkind] at hrun
  obtain ⟨into, columns, rows, rfl⟩ := Options.insert_eq_ok hrun
  rfl

/-- In a statement that is built and compiles, every comparison of two columns and every comparison
of a SELECT with a value, in groups and in what hooks return too, is written with the operator that
it was given. Its text is a predicate, of operands, a list or a test for NULL, exactly when that
operator fits what stands on its right. -/
theorem predicate_written_iff_fits (h : r.build depth = .ok st)
    (hcompile : st.compile (.of st) = .ok c) :
    ∃ start t u xs, r.joinTree = .ok start ∧ Reached start t ∧
      t.ResolvesAll rootId r.options.filter.criteria xs ∧
      t.settleRoot xs = .ok (st.conditions, u) ∧
      ∀ scope x, t.Entry rootId r.options.filter.criteria scope x → x.keepsOperator = true →
        x.HasWholeSelect → ∃ y a d ps, t.Resolves scope x y ∧
          Sql.condition a (y.withConnective d) = .ok ps ∧ ps <:+: c.pieces ∧
            (Sql.IsPredicate (Sql.chars ps) ↔ y.operatorFits = true) := by
  obtain ⟨start, t, u, xs, hstart, hreached, hresolved, hsettled⟩ := settled_of_build h
  have ht : t.WellFormed := hreached.grown.wellFormed (wellFormed_joinTree hstart)
  refine ⟨start, t, u, xs, hstart, hreached, hresolved, hsettled, fun scope x entry hx hwhole => ?_⟩
  obtain ⟨y, hinside, hxy⟩ := entry.resolves hresolved
  obtain ⟨hkeeps, hselect⟩ := hxy.keepsOperator hx
  obtain ⟨settled, hsettle, hconditions, -⟩ := settleRoot_eq_ok hsettled
  have hshape := ht.of_sameShape (sameShape_requireAll t (t.requiredBy xs))
  obtain ⟨d, hd⟩ := hshape.appears_settle (Condition.isFixed_of_keepsOperator hkeeps) hsettle
    (.of_inside hinside)
  rw [← hconditions] at hd
  obtain ⟨a, ps, hps, hwithin⟩ := Statement.writtenIn (conditions_of_insert h) hcompile _ hd
  obtain ⟨hkeeps', hselect', hfits⟩ := Condition.keepsOperator_withConnective d y
  refine ⟨y, a, d, ps, hxy, hps, hwithin, ?_⟩
  rw [Sql.isPredicate_condition_iff (hkeeps'.trans hkeeps) (hselect'.2 (hselect hwhole)) hps, hfits]

namespace Counted

def query : Statement where
  kind := .select
  source := some (.table "articles" "a")
  columns := [.raw "COUNT(*)"]
  conditions := [.columns .and ⟨"a", "author_id"⟩ .eq ⟨rootAlias, "id"⟩]

def request : Request where
  target := .model Blog.schema "Author"
  kind := .select
  options := { filter := Filter.empty.subquery query "in" (.list [.int 1, .int 2]) }

def leaf : Condition :=
  .subquery .and query.toFrame query.conditions .isIn (.list [.int 1, .int 2])

def statement : Statement where
  kind := .select
  source := some (.table "authors" rootAlias)
  columns := [.column (.root "id") (some "id"), .column (.root "name") (some "name")]
  conditions := [leaf]

theorem resolves :
    request.options.filter.resolve 1 rootId Blog.root = .ok ([leaf], Blog.root) := by
  have hop : Building.ofExcept (Operator.parse "in") Blog.root = .ok (.isIn, Blog.root) := by
    with_unfolding_all rfl
  change ((Building.ofExcept (Operator.parse "in") >>= _) >>= _) Blog.root = _
  rw [Building.bind_run (Building.bind_run hop)]
  rfl

theorem builds : request.build 1 = .ok statement := by
  have hbuild := build_of_settled rfl rfl ⟨rfl, rfl, rfl, rfl, rfl⟩ rfl rfl resolves
    (settle_ownerless rfl rfl)
  have hjoins : ((Blog.root.requireAll (Blog.root.requiredBy [leaf])).joinAll []).statementJoins =
      [] := by
    decide +kernel
  rw [hjoins] at hbuild
  exact hbuild

end Counted

theorem predicate_written_of_counted :
    ∃ c ps, Counted.request.build 1 = .ok Counted.statement ∧
      Counted.statement.compile (.of Counted.statement) = .ok c ∧ ps <:+: c.pieces ∧
        Sql.IsPredicate (Sql.chars ps) := by
  obtain ⟨c, hcompile⟩ : ∃ c, Counted.statement.compile (.of Counted.statement) = .ok c := ⟨_, rfl⟩
  obtain ⟨start, t, u, xs, -, -, -, -, hall⟩ := predicate_written_iff_fits Counted.builds hcompile
  have hselect : ∀ ps, Sql.select .nested Counted.query = .ok ps → Sql.Balanced (Sql.chars ps) := by
    intro ps hps
    have hquery : Sql.select .nested Counted.query = .ok _ := rfl
    obtain rfl := Except.ok.inj (hquery.symm.trans hps)
    decide +kernel
  obtain ⟨y, a, d, ps, hy, -, hwithin, hiff⟩ :=
    hall rootId _ (.here List.mem_cons_self) rfl ⟨hselect, rfl⟩
  refine ⟨c, ps, Counted.builds, hcompile, hwithin, hiff.2 ?_⟩
  cases hy with
  | subquery read =>
    have hop : Operator.parse "in" = .ok .isIn := by with_unfolding_all rfl
    obtain rfl := Except.ok.inj (hop.symm.trans read)
    rfl

namespace TwoSided

def request : Request where
  target := .model Blog.schema "Author"
  kind := .select
  options := { filter := Filter.empty.columns "id" "IS NULL" "name" }

def leaf : Condition :=
  .columns .and ⟨rootAlias, "id"⟩ .isNull ⟨rootAlias, "name"⟩

def tree : JoinTree :=
  Blog.root.attach rootId leaf

def statement : Statement where
  kind := .select
  source := some (.table "authors" rootAlias)
  columns := [.column (.root "id") (some "id"), .column (.root "name") (some "name")]
  conditions := [leaf]

theorem resolves : request.options.filter.resolve 1 rootId Blog.root = .ok ([leaf], tree) := by
  have hop : Building.ofExcept (Operator.parse "IS NULL") Blog.root = .ok (.isNull, Blog.root) := by
    with_unfolding_all rfl
  have hleft : Building.target rootId "id" Blog.root = .ok ((rootId, ["id"]), Blog.root) :=
    Building.target_segment ⟨by decide, by decide +kernel, by decide⟩ rfl
  have hright : Building.target rootId "name" Blog.root = .ok ((rootId, ["name"]), Blog.root) :=
    Building.target_segment ⟨by decide, by decide +kernel, by decide⟩ rfl
  have hcolumns : Filter.resolveColumns rootId .and "id" "IS NULL" "name" Blog.root =
      .ok (leaf, tree) := by
    rw [Filter.resolveColumns, Building.bind_run hop, Building.bind_run hleft,
      Building.bind_run hright]
    rfl
  change (Filter.resolveColumns rootId .and "id" "IS NULL" "name" >>= _) Blog.root = _
  rw [Building.bind_run hcolumns]
  rfl

theorem builds : request.build 1 = .ok statement := by
  have howner : tree.owner? leaf = some rootId := by decide +kernel
  have hright : (tree.requireAll (tree.requiredBy [leaf])).rightSide rootId none leaf =
      .ok [rootId] := by
    with_unfolding_all rfl
  exact build_of_rooted_leaf rfl rfl rfl ⟨rfl, rfl, rfl, rfl, rfl⟩ rfl rfl
    (sameShape_attach _ rootId leaf) resolves rfl howner hright

end TwoSided

/-- A comparison of two columns by IS NULL is accepted, and has the second column behind it. -/
theorem null_test_written_with_operand :
    Schema.resolve {} Blog.decls = .ok Blog.schema ∧
      TwoSided.request.build 1 = .ok TwoSided.statement ∧
      (TwoSided.statement.compile (.of TwoSided.statement)).toOption.map Compiled.sql =
        some "SELECT `id`,`name` FROM `authors` WHERE `id` IS NULL `name`" ∧
      ¬ Sql.IsPredicate "`id` IS NULL `name`".toList := by
  have hresolve : Schema.resolve {} Blog.decls = .ok Blog.schema := by with_unfolding_all rfl
  refine ⟨hresolve, TwoSided.builds, by decide +kernel, ?_⟩
  have htext : "`id` IS NULL `name`".toList =
      Ident.quoted "id".toList ++
        ' ' :: (Operator.isNull.sql.toList ++ ' ' :: Ident.quoted "name".toList) := by
    decide +kernel
  rw [htext, Sql.isPredicate_iff _ (.name _) (.name _)]
  decide

end Request

end PathQuery
