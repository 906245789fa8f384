import PathQuery.Proofs.Database.Evaluation
import PathQuery.Proofs.Filter.Resolved
import PathQuery.Proofs.Sql.Writable

/-!
Attributes compared by their own columns. A comparison with one value is a test for NULL or for
equality, which rows of different contents in the column cannot pass together. It takes the place of
the comparison if no hook does and the name is one of an attribute, not of a path, of a list or of a
relation.
-/

set_option autoImplicit false

namespace PathQuery

namespace Value

def innermost : Value → Value
  | .list [] => .null
  | .list [v] => v.innermost
  | v => v
termination_by structural v => v

def compared (v : Value) : Value :=
  v.dereference.innermost

def isFragment : Value → Bool
  | .raw _ => true
  | _ => false

theorem compared_singleton (v : Value) : (Value.list [v]).compared = v.compared := by
  rw [compared, dereference, dereferenceAll, dereferenceAll, innermost, compared]

end Value

namespace Condition

def ofKeyValue (column : String) (v : Value) : Condition :=
  if v.isNull then ofColumn rootAlias column .isNull .null else ofColumn rootAlias column .eq v

/-- No two rows of the root with different contents in the column are let through, whatever the
database. -/
def PassesOne (column : String) (x : Condition) : Prop :=
  ∀ (E : Engine) (db : Database E) (scalar : Database.Scalar E) (e e' : Scene E) (a b : E.Cell),
    db.Lets scalar e x → db.Lets scalar e' x →
    e rootAlias column = some a → e' rootAlias column = some b → a = b

/-- One comparison of a column of the root, joined by AND, that passes one content of the column. A
comparison with a fragment of SQL may pass any, since a fragment is read by the database. -/
def IsKeyTest (column : String) (x : Condition) : Prop :=
  ∃ op v, x = .compare .and rootAlias [column] op v ∧ (v.isFragment = false → x.PassesOne column)

theorem ofScalar_innermost (a column : String) {v : Value} (h : v.innermost.isList = false) :
    ofScalar a column .eq v = .ok (if v.innermost.isNull then ofColumn a column .isNull .null
      else ofColumn a column .eq v.innermost) := by
  fun_induction Value.innermost v with
  | case1 => rfl
  | case2 v ih =>
    rw [← ih h]
    rfl
  | case3 v hnil hone =>
    cases v with
    | list items => cases h
    | _ => rfl

theorem lets_ofKeyValue {E : Engine} {db : Database E} {scalar : Database.Scalar E} {e : Scene E}
    {column : String} {v : Value} : db.Lets scalar e (ofKeyValue column v) ↔
      if v.isNull then e rootAlias column = none
      else E.meets (e rootAlias column) (E.denote v) = true := by
  unfold ofKeyValue
  split
  · exact Truth.ofBool_eq_holds.trans decide_eq_true_iff
  · rw [Engine.meets, decide_eq_true_iff]
    rfl

theorem passesOne_ofKeyValue (column : String) (v : Value) :
    (ofKeyValue column v).PassesOne column := by
  intro E db scalar e e' a b h h' ha hb
  rw [lets_ofKeyValue, ha] at h
  rw [lets_ofKeyValue, hb] at h'
  split at h
  · cases h
  · next hnull =>
    rw [if_neg hnull] at h'
    obtain ⟨c, ⟨⟩, hc⟩ := E.meets_iff.1 h
    obtain ⟨d, ⟨⟩, hd⟩ := E.meets_iff.1 h'
    exact Option.some.inj (hc.symm.trans hd)

theorem isKeyTest_ofKeyValue (column : String) (v : Value) :
    (ofKeyValue column v).IsKeyTest column := by
  have hcompare : ∃ op w, ofKeyValue column v = .compare .and rootAlias [column] op w := by
    unfold ofKeyValue
    split <;> exact ⟨_, _, rfl⟩
  obtain ⟨op, w, heq⟩ := hcompare
  exact ⟨op, w, heq, fun _ => passesOne_ofKeyValue column v⟩

theorem withConnective_ofKeyValue (column : String) (v : Value) :
    (ofKeyValue column v).withConnective .and = ofKeyValue column v := by
  obtain ⟨op, w, heq, -⟩ := isKeyTest_ofKeyValue column v
  rw [heq]
  rfl

theorem throughout_ofKeyValue (column : String) {v : Value} (h : v.isList = false) :
    (ofKeyValue column v).Throughout (Sound False) := by
  unfold ofKeyValue
  split
  · exact ⟨⟨column, rfl⟩, rfl⟩
  · next hnull => exact ⟨⟨column, rfl⟩, by simpa using hnull, h⟩

end Condition

/-- The attribute is compared by its own column: it is no path and no list of attributes, it has no
hook, and it is no relation unless one of that column. -/
structure Model.Direct (m : Model) (name : String) : Prop where
  segment : JoinTree.SegmentName name
  plain : m.hook? name = none
  own : ∀ r, m.relation? name = some r →
    r.kind = .belongsTo ∧ r.current.column = m.table.columnOf name

namespace Filter

open Building JoinTree

variable {expand : Expansion} {t : JoinTree} {scope : Nat} {m : Model} {name : String} {v : Value}
  {x : Condition}

theorem columnsOf_direct (hm : t.model? scope = some m) (hd : m.Direct name) :
    columnsOf scope name t = .ok ((scope, [m.table.columnOf name]), t) := by
  cases hr : m.relation? name with
  | none =>
    have hnone : (t.model? scope).bind (·.relation? name) = none := by rw [hm, Option.bind_some, hr]
    have htable : t.table scope = m.table := by
      rw [table, hm]
      rfl
    rw [← htable]
    exact columnsOf_attribute hd.segment.single hnone
  | some r =>
    have hsome : (t.model? scope).bind (·.relation? name) = some r := by
      rw [hm, Option.bind_some, hr]
    obtain ⟨hkind, hcolumn⟩ := hd.own r hr
    rw [← hcolumn]
    exact columnsOf_belongsTo hd.segment.single hsome hkind

theorem compareAttribute_direct (hm : t.model? scope = some m) (hd : m.Direct name)
    (hmade : Condition.ofScalar (t.node scope).tableAlias (m.table.columnOf name) .eq
      v.dereference = .ok x) (hand : x.withConnective .and = x) :
    compareAttribute .and scope name .eq v t = .ok (x, t.attach scope x) := by
  have halias : aliasOf scope t = .ok ((t.node scope).tableAlias, t) := rfl
  have hleaf : (liftM (Condition.ofColumns (t.node scope).tableAlias .eq v.dereference
      [m.table.columnOf name]) : Building Condition) t = .ok (x, t) := by
    rw [Condition.ofColumns, hmade]
    rfl
  have hattach : attach scope (x.withConnective .and) t = .ok ((), t.attach scope x) := by
    rw [hand]
    rfl
  rw [compareAttribute, bind_run (columnsOf_direct hm hd)]
  dsimp only
  rw [bind_run halias, bind_run hleaf, bind_run hattach, hand]
  rfl

/-- A name without relations in front of it is one of the node itself: its hook decides, or its
column. -/
theorem resolveCompare_segment (hm : t.model? scope = some m) (hs : SegmentName name) :
    resolveCompare expand scope .and name "=" v t =
      ((m.hook? name).elim (compareAttribute .and scope name .eq v) fun hook => do
        let f ← ofExcept (hook .eq v)
        return .group .and (← expand scope f)) t := by
  have hread : ofExcept (Operator.parse "=") t = .ok (.eq, t) := by
    rw [Operator.parse_equals]
    rfl
  have hget : (get : Building JoinTree) t = .ok (t, t) := rfl
  rw [resolveCompare_eq, bind_run hread, bind_run (resolveFrom_segment hs t scope)]
  dsimp only
  rw [bind_run hget, hm, Option.bind_some]
  cases m.hook? name <;> rfl

theorem resolveCompare_direct (hm : t.model? scope = some m) (hd : m.Direct name)
    (hmade : Condition.ofScalar (t.node scope).tableAlias (m.table.columnOf name) .eq
      v.dereference = .ok x) (hand : x.withConnective .and = x) :
    resolveCompare expand scope .and name "=" v t = .ok (x, t.attach scope x) := by
  rw [resolveCompare_segment hm hd.segment, hd.plain, Option.elim_none]
  exact compareAttribute_direct hm hd hmade hand

theorem resolveCompare_hooked (hm : t.model? scope = some m) (hs : SegmentName name) {hook : Hook}
    (hhook : m.hook? name = some hook) {f : Filter} (hreturned : hook .eq v = .ok f)
    {xs : List Condition} {u : JoinTree} (hinner : expand scope f t = .ok (xs, u)) :
    resolveCompare expand scope .and name "=" v t = .ok (.group .and xs, u) := by
  have hproduced : ofExcept (hook .eq v) t = .ok (f, t) := by
    rw [hreturned]
    rfl
  rw [resolveCompare_segment hm hs, hhook, Option.elim_some, bind_run hproduced, bind_run hinner]
  rfl

theorem resolveAll_direct (expand : Expansion) (pairs : List (String × Value))
    (hm : t.model? rootId = some m) (hroot : (t.node rootId).tableAlias = rootAlias)
    (hd : ∀ p ∈ pairs, m.Direct p.1 ∧ p.2.compared.isList = false) :
    ∃ u, SameShape t u ∧
      resolveAll expand rootId (pairs.map fun p => .compare .and p.1 "=" p.2) t =
        .ok (pairs.map fun p => .ofKeyValue (m.table.columnOf p.1) p.2.compared, u) := by
  induction pairs generalizing t with
  | nil => exact ⟨t, ⟨rfl, rfl, rfl, fun _ => rfl⟩, rfl⟩
  | cons p rest ih =>
    rw [List.forall_mem_cons] at hd
    obtain ⟨⟨hdirect, hsingle⟩, hrest⟩ := hd
    have hx : resolveCompare expand rootId .and p.1 "=" p.2 t =
        .ok (.ofKeyValue (m.table.columnOf p.1) p.2.compared,
          t.attach rootId (.ofKeyValue (m.table.columnOf p.1) p.2.compared)) := by
      refine resolveCompare_direct hm hdirect ?_ (Condition.withConnective_ofKeyValue _ _)
      rw [hroot]
      exact Condition.ofScalar_innermost rootAlias _ hsingle
    -- The tree keeps the test, and neither the model nor the alias of the root changes.
    have hshape := sameShape_attach t rootId (.ofKeyValue (m.table.columnOf p.1) p.2.compared)
    have hmodel := model?_of_model_eq hshape.schema (hshape.model rootId)
    obtain ⟨u, hu, hxs⟩ := ih (hmodel.trans hm) ((hshape.tableAlias rootId).trans hroot) hrest
    refine ⟨u, hshape.trans hu, ?_⟩
    rw [List.map_cons, resolveAll]
    change (resolveCompare expand rootId .and p.1 "=" p.2 >>= _) t = _
    rw [bind_run hx, bind_run hxs]
    rfl

end Filter

end PathQuery
