import PathQuery.Proofs.Filter.Depth
import PathQuery.Proofs.Filter.Entries
import PathQuery.Proofs.Request.Built
import PathQuery.Sql.Render

/-!
Hooked attributes in built statements. A comparison of an attribute with a hook becomes what the
hook returns, wherever it stands in a filter. The other entries of a filter do not ask for hooks:
they take an attribute that no column is mapped to for the name of a column, hooked or not.
-/

set_option autoImplicit false

namespace PathQuery.Request

open JoinTree

variable {s : Schema} {name : String} {r : Request} {depth : Nat} {st : Statement}

/-- In a statement that is built about a model every comparison of a hooked attribute, in groups and
in what hooks return too, stands as the group of what the hook returned for it. A column that the
conditions refer to, down to the innermost SELECT, is one that tables and relations give, or one
that an entry of the filter names: an attribute without a column that a comparison finds no hook
for, or that any other entry speaks of. -/
theorem hooked_comparisons_replaced (htarget : r.target = .model s name)
    (h : r.build depth = .ok st) :
    ∃ start t u xs, JoinTree.ofModel s name = .ok start ∧ Reached start t ∧
      t.ResolvesAll rootId r.options.filter.criteria xs ∧
      t.settleRoot xs = .ok (st.conditions, u) ∧
      (∀ scope c path operator v id ending hook,
        t.Entry rootId r.options.filter.criteria scope (.compare c path operator v) →
        t.resolveFrom scope path = (.ok (id, ending), t) →
        (t.model? id).bind (·.hook? ending) = some hook →
        ∃ op f ys, Operator.parse operator = .ok op ∧ hook op v = .ok f ∧
          t.ResolvesAll id f.criteria ys ∧ Condition.Inside xs (.group c ys)) ∧
      ∀ c ∈ Condition.refsOf st.conditions, t.Gives c ∨
        ∃ scope x, t.Entry rootId r.options.filter.criteria scope x ∧ t.Names scope x c := by
  obtain ⟨start, t, u, xs, hstart, hreached, hresolved, hsettled⟩ := settled_of_build h
  have hmodel := ofModel_of_joinTree htarget hstart
  have ht : t.WellFormed := hreached.wellFormed hmodel
  refine ⟨start, t, u, xs, hmodel, hreached, hresolved, hsettled, ?_, ?_⟩
  · intro scope c path operator v id ending hook entry found hooked
    obtain ⟨y, hinside, hy⟩ := entry.resolves hresolved
    obtain ⟨op, f, ys, hread, hreturned, hinner, rfl⟩ := hy.of_hooked found hooked
    exact ⟨op, f, ys, hread, hreturned, hinner, hinside⟩
  · have hrefs := hresolved.refsOnly ht ht.nonempty
    exact Condition.forall_mem_refsOf.2
      ((ht.refers_accounts rootId r.options.filter.criteria).refsOnly_settleRoot hrefs hsettled)

/-- The label of an article is one of its author, whose label is the author's name. -/
theorem hooked_comparisons_replaced_of_label :
    let r : Request := {
      target := .model Filter.Layered.schema "Article"
      kind := .select
      options := { filter := Filter.empty.eq "label" (.text "A") } }
    ∃ st, r.build 2 = .ok st ∧
      ∃ start t u xs, JoinTree.ofModel Filter.Layered.schema "Article" = .ok start ∧
        Reached start t ∧ t.ResolvesAll rootId r.options.filter.criteria xs ∧
        t.settleRoot xs = .ok (st.conditions, u) ∧
        (∀ scope c path operator v id ending hook,
          t.Entry rootId r.options.filter.criteria scope (.compare c path operator v) →
          t.resolveFrom scope path = (.ok (id, ending), t) →
          (t.model? id).bind (·.hook? ending) = some hook →
          ∃ op f ys, Operator.parse operator = .ok op ∧ hook op v = .ok f ∧
            t.ResolvesAll id f.criteria ys ∧ Condition.Inside xs (.group c ys)) ∧
        ∀ c ∈ Condition.refsOf st.conditions, t.Gives c ∨
          ∃ scope x, t.Entry rootId r.options.filter.criteria scope x ∧ t.Names scope x c := by
  intro r
  have hopens : r.opens 2 = true := by decide +kernel
  obtain ⟨st, hst⟩ := exists_build rfl hopens
  exact ⟨st, hst, hooked_comparisons_replaced rfl hst⟩

namespace Unasked

def request : Request where
  target := .model Filter.Layered.schema "Author"
  kind := .select
  options := { filter := Filter.empty.membership "label" [.text "A", .text "B"] false }

def root : JoinTree :=
  ⟨some Filter.Layered.schema, Filter.Layered.author.table, [Node.root (some "Author")]⟩

def leaf : Condition :=
  .membership .and ⟨rootAlias, "label"⟩ [.text "A", .text "B"] false

def statement : Statement where
  kind := .select
  source := some (.table "authors" rootAlias)
  columns := [.column (.root "id") (some "id"), .column (.root "name") (some "name")]
  conditions := [leaf]

def tree : JoinTree :=
  root.attach rootId leaf

theorem resolves : request.options.filter.resolve 1 rootId root = .ok ([leaf], tree) := by
  have htarget : Building.target rootId "label" root = .ok ((rootId, ["label"]), root) :=
    Building.target_segment ⟨by decide, by decide +kernel, by decide⟩ rfl
  have hmembership :
      Filter.resolveMembership rootId .and "label" [.text "A", .text "B"] false root =
      .ok (leaf, tree) := by
    rw [Filter.resolveMembership, Building.bind_run htarget]
    rfl
  change (Filter.resolveMembership rootId .and "label" [.text "A", .text "B"] false >>= _) root = _
  rw [Building.bind_run hmembership]
  rfl

theorem builds : request.build 1 = .ok statement := by
  have howner : tree.owner? leaf = some rootId := by decide +kernel
  exact build_of_rooted_leaf rfl rfl rfl ⟨rfl, rfl, rfl, rfl, rfl⟩ rfl rfl
    (sameShape_attach _ rootId leaf) resolves rfl howner rfl

end Unasked

/-- A membership test of a hooked attribute that no column is mapped to compares a column of its
name. -/
theorem hooked_membership_not_replaced :
    Schema.resolve {} Filter.Layered.decls = .ok Filter.Layered.schema ∧
      (Filter.Layered.author.hook? "label").isSome = true ∧
      Filter.Layered.author.table.column? "label" = none ∧
      Unasked.request.build 1 = .ok Unasked.statement ∧
      ColumnRef.root "label" ∈ Condition.refsOf Unasked.statement.conditions ∧
      (Unasked.statement.compile (.of Unasked.statement)).toOption.map Compiled.sql =
        some "SELECT `id`,`name` FROM `authors` WHERE `label` IN (?,?)" :=
  ⟨Filter.Layered.resolves, rfl, by decide, Unasked.builds, by decide, by decide +kernel⟩

end PathQuery.Request
