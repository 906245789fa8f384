import PathQuery.Proofs.JoinTree.Unified
import PathQuery.Proofs.Request.Built
import PathQuery.Proofs.Sql.Unified
import PathQuery.Proofs.TwoRuns.Queries
import PathQuery.Proofs.TwoRuns.Spellings

/-!
Membership in a list has three spellings: a comparison by `IN`, a membership, and equality with
several values. Queries that differ in the spelling alone compile to the same SQL: what their
filters resolve to is settled and written in one spelling as in its own.
-/

set_option autoImplicit false

namespace PathQuery

structure Compiled.SameOutput (c c' : Compiled) : Prop where
  sql : c.sql = c'.sql
  flatParams : c.flatParams = c'.flatParams

namespace Value

theorem ScalarsAlike.eq {v w : Value} (h : ScalarsAlike Eq v w) : v = w := by
  obtain ⟨hv, -, hvw⟩ := h
  rcases hvw.cases with ⟨xs, ys, rfl, -⟩ | ⟨xs, ys, rfl, -⟩ | ⟨sql, rfl, rfl⟩ | ⟨rfl, rfl⟩ |
    ⟨-, -, rfl⟩
  · cases hv
  · cases hv
  · rfl
  · rfl
  · rfl

end Value

theorem Sql.Equivalent.sameOutput {c c' : Compiled} (h : Sql.Equivalent c.pieces c'.pieces) :
    c.SameOutput c' where
  sql := by rw [Compiled.sql, Compiled.sql, h.chars]
  flatParams := by rw [Compiled.flatParams, Compiled.flatParams, Compiled.params, Compiled.params,
    h.params]

theorem Sql.PiecesAlike.sameOutput {c c' : Compiled} (h : Sql.PiecesAlike Eq c.pieces c'.pieces) :
    c.SameOutput c' where
  sql := by rw [Compiled.sql, Compiled.sql, h.chars]
  flatParams := by
    have hflat := Value.flattenAll_alike _ (Value.allAlike_iff.2 h.params)
    exact List.forall₂_eq_eq_eq ▸ hflat.imp fun _ _ hvw => hvw.eq

/-- Conditions whose unified forms differ, if at all, in nothing but equal values. -/
def Condition.UnifiedAlike (xs ys : List Condition) : Prop :=
  List.Forall₂ (Condition.Alike Eq) (xs.map Condition.unified) (ys.map Condition.unified)

theorem JoinTree.agree_settleRoot_unified {t t' : JoinTree} (h : t.clear = t'.clear)
    {xs ys : List Condition} (hxy : Condition.SameTests xs ys) :
    Agree (fun p q => Condition.UnifiedAlike p.1 q.1 ∧ p.2.clear = q.2.clear ∧ t.Grown p.2)
      (t.settleRoot xs) (t'.settleRoot ys) := by
  have hself : List.Forall₂ (Condition.Alike Eq) (xs.map Condition.unified)
      (ys.map Condition.unified) :=
    hxy ▸ List.forall₂_same.2 fun x _ => x.alike_self fun _ => rfl
  have hagree := agree_settleRoot h hself
  rw [settleRoot_unified, settleRoot_unified] at hagree
  exact hagree.of_map

theorem Condition.UnifiedAlike.anySubquery_eq {xs ys : List Condition}
    (h : Condition.UnifiedAlike xs ys) : Condition.anySubquery xs = Condition.anySubquery ys := by
  rw [← anySubquery_unified, Condition.anySubquery_eq h, anySubquery_unified]

theorem Statement.agree_compile_of_unified {s s' : Statement}
    (h : s.AlikeOver Eq Condition.UnifiedAlike s') :
    Agree Compiled.SameOutput (s.compile (.of s)) (s'.compile (.of s')) := by
  have halike : s.unified.Alike Eq s'.unified := ⟨h.frame, h.conditions⟩
  have hmiddle := s.agree_compile_unified.symm.trans (agree_compile halike)
  refine (hmiddle.trans s'.agree_compile_unified).mono ?_
  rintro c c' ⟨d', ⟨d, hcd, hdd⟩, hdc⟩
  have hfirst := Sql.Equivalent.sameOutput hcd
  have hbetween := Sql.PiecesAlike.sameOutput hdd
  have hlast := Sql.Equivalent.sameOutput hdc
  exact ⟨hfirst.sql.symm.trans (hbetween.sql.trans hlast.sql),
    hfirst.flatParams.symm.trans (hbetween.flatParams.trans hlast.flatParams)⟩

def Options.withCriterion (o : Options) (p : Criterion.Position) (x : Criterion) : Options :=
  { o with filter := { o.filter with criteria := p.fill x } }

section Position

variable {g : Target} (p : Criterion.Position) {x y : Criterion}
  (h : ∀ expand, Building.Related g Condition.SameTest
    (Filter.resolveCriterion expand JoinTree.rootId x)
    (Filter.resolveCriterion expand JoinTree.rootId y))

include h

theorem Options.alikeOver_withCriterion (depth : Nat) (o : Options) :
    (o.withCriterion p x).AlikeOver Eq g Condition.UnifiedAlike depth (o.withCriterion p y) where
  rest := rfl
  empty := by
    simp only [withCriterion, Filter.isEmpty, Criterion.Position.isEmpty_fill]
  assignments := alike_self_assignments (fun _ => rfl) o.assignments
  rows := alike_self_rows (fun _ => rfl) o.rows
  conditions := by
    refine Options.related_conditions ?_ fun _ _ _ _ ht hxy =>
      JoinTree.agree_settleRoot_unified ht hxy
    cases depth with
    | zero => exact Filter.related_fill (fun _ _ => Building.related_throw _) p (h _)
    | succ depth => exact Filter.related_fill (Filter.sameExpansions_resolve g depth) p (h _)

end Position

namespace Query

/-- Criteria that resolve to conditions of one unified form are interchangeable in every query. -/
theorem agree_compile_withCriterion (depth : Nat) (q : Query) (o : Options)
    (p : Criterion.Position) {x y : Criterion}
    (h : ∀ expand, Building.Related q.request.target Condition.SameTest
      (Filter.resolveCriterion expand JoinTree.rootId x)
      (Filter.resolveCriterion expand JoinTree.rootId y)) :
    Agree Compiled.SameOutput ((q.withOptions fun _ => o.withCriterion p x).compile depth).1
      ((q.withOptions fun _ => o.withCriterion p y).compile depth).1 := by
  rw [compile_of_pending depth rfl, compile_of_pending depth rfl]
  have hbuild := Request.agree_build_over { q.request with options := o.withCriterion p x }
    (Options.alikeOver_withCriterion p h depth o) .nil fun _ _ hxy => hxy.anySubquery_eq
  refine hbuild.bind fun s s' hs => ?_
  have hcompile := Statement.agree_compile_of_unified hs
  generalize s.compile (.of s) = c at hcompile ⊢
  generalize s'.compile (.of s') = c' at hcompile ⊢
  cases hcompile with
  | error e => exact .error _
  | ok houtput => exact .ok houtput

/-- The three spellings of membership compile alike, wherever the criterion stands and whatever is
around it, for a path that leads to a single column of an attribute without a hook. -/
theorem memberships_compile_alike {settings : Settings} {decls : List ModelDecl} {s : Schema}
    {name path column : String} {start : JoinTree}
    (hresolve : Schema.resolve settings decls = .ok s)
    (hopened : JoinTree.ofModel s name = .ok start) (hpath : start.NamesColumn path column)
    (depth : Nat) (q : Query) (htarget : q.request.target = .model s name) (o : Options)
    (position : Criterion.Position) (c : Connective) (values : List Value) :
    let compiled (x : Criterion) :=
      ((q.withOptions fun _ => o.withCriterion position x).compile depth).1
    Agree Compiled.SameOutput (compiled (.compare c path "IN" (.list values)))
        (compiled (.membership c path values false)) ∧
      (2 ≤ values.length →
        Agree Compiled.SameOutput (compiled (.compare c path "IN" (.list values)))
          (compiled (.compare c path "=" (.list values)))) := by
  intro compiled
  obtain ⟨id, last, u, target, v, hfound, hplain, hcolumns⟩ := hpath
  have htree : q.request.joinTree = .ok start := by rw [Request.joinTree, htarget]; exact hopened
  have htwins := Request.agree_joinTree htree
  have hschema : q.request.target.schema? = some s := by rw [htarget]; rfl
  obtain ⟨m, hmodel⟩ : ∃ m, q.request.target.model? = some m := by
    obtain ⟨m, hm, -⟩ := JoinTree.ofModel_eq_ok hopened
    exact ⟨m, by rw [htarget]; exact Schema.model_eq_ok_iff.1 hm⟩
  have hfree : q.request.target.hookAt? path = none :=
    (htwins.hook?_resolveFrom hfound).symm.trans hplain
  have hclosed := Schema.closed_of_resolve hresolve
  have hcolumn := JoinTree.columnsAt?_of_columnsOf hclosed htwins.wellFormed
    (htwins.schema.trans hschema) (htwins.root.trans hmodel) hfound hcolumns
  refine ⟨agree_compile_withCriterion depth q o position fun expand => ?_, fun hlength =>
    agree_compile_withCriterion depth q o position fun expand => ?_⟩
  · exact Filter.related_membership expand c values hclosed hschema hmodel hfree hcolumn
  · exact (Filter.related_equals_list expand c values hfree hlength).mono fun x y hxy => hxy ▸ rfl

/-- Authors are deleted by the tags of their article, in a group beside a test of the article. -/
theorem memberships_compile_alike_of_tags :
    let q : Query := { request := { target := .model Tagged.schema "Author", kind := .delete } }
    let position : Criterion.Position :=
      .inside [.compare .and "id" ">" (.int 9)] .or
        (.here [.compare .and "articles/id" "=" (.int 3)] []) []
    let values : List Value := [.int 1, .null]
    let query (x : Criterion) := q.withOptions fun _ => ({} : Options).withCriterion position x
    let compiled (x : Criterion) := ((query x).compile 1).1
    Schema.resolve {} Tagged.decls = .ok Tagged.schema ∧
      JoinTree.ofModel Tagged.schema "Author" = .ok JoinTree.taggedStart ∧
      JoinTree.taggedStart.NamesColumn "articles/tags/id" "id" ∧ 2 ≤ values.length ∧
      Agree Compiled.SameOutput (compiled (.compare .or "articles/tags/id" "IN" (.list values)))
        (compiled (.membership .or "articles/tags/id" values false)) ∧
      Agree Compiled.SameOutput (compiled (.compare .or "articles/tags/id" "IN" (.list values)))
        (compiled (.compare .or "articles/tags/id" "=" (.list values))) ∧
      ∃ st, (query (.membership .or "articles/tags/id" values false)).request.build 1 = .ok st := by
  intro q position values query compiled
  have hresolve : Schema.resolve {} Tagged.decls = .ok Tagged.schema := by with_unfolding_all rfl
  have hopened : JoinTree.ofModel Tagged.schema "Author" = .ok JoinTree.taggedStart := by
    with_unfolding_all rfl
  have hsegments : JoinTree.segments "articles/tags/id" = ["articles", "tags", "id"] := by
    decide +kernel
  let grown := (JoinTree.taggedStart.descend JoinTree.rootId ["articles", "tags"]).2
  have hfound : JoinTree.taggedStart.resolveFrom JoinTree.rootId "articles/tags/id" =
      (.ok (2, "id"), grown) := by
    simp only [JoinTree.resolveFrom, hsegments]
    rfl
  have hcolumns : Building.columnsOf 2 "id" grown = .ok ((2, ["id"]), grown) := by
    with_unfolding_all rfl
  have hpath : JoinTree.taggedStart.NamesColumn "articles/tags/id" "id" :=
    ⟨2, "id", grown, 2, grown, hfound, rfl, hcolumns⟩
  have hlength : 2 ≤ values.length := by decide
  obtain ⟨hmembership, hequals⟩ :=
    memberships_compile_alike hresolve hopened hpath 1 q rfl {} position .or values
  exact ⟨hresolve, hopened, hpath, hlength, hmembership, hequals hlength,
    Request.exists_build rfl (by decide +kernel)⟩

end Query

end PathQuery
