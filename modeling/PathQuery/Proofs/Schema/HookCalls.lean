import Mathlib.Logic.Relation
import Mathlib.Order.WellFounded
import PathQuery.Proofs.JoinTree.Calls

/-!
Which hooks a filter calls. A path leads from a model to a model, whatever tree it is followed in,
so the calls are read off the schema alone: a comparison calls the hook of the attribute that its
path ends in, and the filter that the hook returns calls hooks in turn.
-/

set_option autoImplicit false

namespace PathQuery

open JoinTree

structure Comparison where
  path : String
  operator : String
  value : Value

namespace Criterion

mutual

def comparisons : Criterion → List Comparison
  | .compare _ path operator value => [⟨path, operator, value⟩]
  | .group _ members => comparisonsOf members
  | _ => []
termination_by structural x => x

def comparisonsOf : List Criterion → List Comparison
  | [] => []
  | x :: rest => x.comparisons ++ comparisonsOf rest
termination_by structural xs => xs

end

end Criterion

def Filter.comparisons (f : Filter) : List Comparison :=
  Criterion.comparisonsOf f.criteria

namespace Schema

variable {s : Schema}

def pathEnd? (s : Schema) (m : Model) (path : String) : Option (Model × String) :=
  if (segments path).any (· == "") then none
  else ((segments path).dropLast.foldlM s.follow m).map fun m' => (m', (segments path).getLastD "")

/-- The filter that a hook returns for a comparison, and the model of the hook. -/
def call? (s : Schema) (m : Model) (x : Comparison) : Option (Model × Filter) :=
  (Operator.parse x.operator).toOption.bind fun op =>
    (s.pathEnd? m x.path).bind fun (m', name) =>
      (m'.hook? name).bind fun hook => (hook op x.value).toOption.map fun f => (m', f)

def calls (s : Schema) (c : Model × Filter) : List (Model × Filter) :=
  c.2.comparisons.filterMap (s.call? c.1)

/-- Resolving the first filter comes to the second, by calls of hooks. -/
def LeadsTo (s : Schema) : Model × Filter → Model × Filter → Prop :=
  Relation.ReflTransGen fun c c' => c' ∈ s.calls c

theorem call?_eq_some {m m' : Model} {x : Comparison} {op : Operator} {name : String} {hook : Hook}
    {f : Filter} (hread : Operator.parse x.operator = .ok op)
    (hend : s.pathEnd? m x.path = some (m', name)) (hhook : m'.hook? name = some hook)
    (hf : hook op x.value = .ok f) : s.call? m x = some (m', f) := by
  simp [call?, hread, hend, hhook, hf, Except.toOption]

theorem mem_calls {c c' : Model × Filter} {x : Comparison} (hx : x ∈ c.2.comparisons)
    (h : s.call? c.1 x = some c') : c' ∈ s.calls c :=
  List.mem_filterMap.2 ⟨x, hx, h⟩

theorem calls_equal (s : Schema) (m : Model) (path : String) (v : Value) :
    s.calls (m, Filter.empty.eq path v) = (s.call? m ⟨path, "=", v⟩).toList := by
  change List.filterMap (s.call? m) [⟨path, "=", v⟩] = _
  cases h : s.call? m ⟨path, "=", v⟩ with
  | none => rw [List.filterMap_cons_none h]; rfl
  | some c => rw [List.filterMap_cons_some h]; rfl

/-- No chain of hook calls that starts with the filter goes on for ever. -/
def HooksEnd (s : Schema) (c : Model × Filter) : Prop :=
  ∀ chain : Nat → Model × Filter, chain 0 = c → ∃ n, chain (n + 1) ∉ s.calls (chain n)

theorem HooksEnd.of_calls {c : Model × Filter} (h : ∀ c' ∈ s.calls c, s.HooksEnd c') :
    s.HooksEnd c := by
  rintro chain rfl
  by_cases hcall : chain 1 ∈ s.calls (chain 0)
  · obtain ⟨n, hn⟩ := h _ hcall (fun k => chain (k + 1)) rfl
    exact ⟨n + 1, hn⟩
  · exact ⟨0, hcall⟩

def CallsOn (s : Schema) : Nat → Model × Filter → Prop
  | 0, _ => True
  | n + 1, c => ∃ c' ∈ s.calls c, s.CallsOn n c'

theorem CallsOn.of_le {m n : Nat} (h : m ≤ n) {c : Model × Filter} (hn : s.CallsOn n c) :
    s.CallsOn m c := by
  induction m generalizing n c with
  | zero => trivial
  | succ m ih =>
    obtain ⟨n, rfl⟩ : ∃ k, n = k + 1 := ⟨n - 1, by omega⟩
    obtain ⟨c', hc', hn⟩ := hn
    exact ⟨c', hc', ih (by omega) hn⟩

theorem exists_not_callsOn_each {cs : List (Model × Filter)}
    (h : ∀ c ∈ cs, ∃ n, ¬ s.CallsOn n c) : ∃ n, ∀ c ∈ cs, ¬ s.CallsOn n c := by
  induction cs with
  | nil => exact ⟨0, by simp⟩
  | cons c cs ih =>
    obtain ⟨m, hm⟩ := h c List.mem_cons_self
    obtain ⟨n, hn⟩ := ih fun c' hc' => h c' (List.mem_cons_of_mem _ hc')
    refine ⟨max m n, fun c' hc' hcalls => ?_⟩
    rcases List.mem_cons.1 hc' with rfl | hc'
    · exact hm (hcalls.of_le (Nat.le_max_left m n))
    · exact hn c' hc' (hcalls.of_le (Nat.le_max_right m n))

/-- A filter has finitely many comparisons, so chains of calls that all end end by some length. -/
theorem HooksEnd.exists_not_callsOn {c : Model × Filter} (h : s.HooksEnd c) :
    ∃ n, ¬ s.CallsOn n c := by
  have hacc : Acc (fun c' c => c' ∈ s.calls c) c := by
    by_contra hacc
    obtain ⟨chain, hstart, hcalls⟩ := not_acc_iff_exists_descending_chain.1 hacc
    obtain ⟨n, hn⟩ := h chain hstart
    exact hn (hcalls n)
  clear h
  induction hacc with
  | intro c _ ih =>
    obtain ⟨n, hn⟩ := exists_not_callsOn_each fun c' hc' => ih c' hc'
    refine ⟨n + 1, ?_⟩
    rintro ⟨c', hc', hcalls⟩
    exact hn c' hc' hcalls

end Schema

namespace JoinTree

structure Over (s : Schema) (t : JoinTree) : Prop where
  wellFormed : t.WellFormed
  schema : t.schema = some s ∨ t.schema = none

variable {s : Schema} {t u : JoinTree}

theorem Over.later (h : t.Over s) (hu : Reached t u) : u.Over s where
  wellFormed := hu.grown.wellFormed h.wellFormed
  schema := by rw [hu.grown.schema]; exact h.schema

theorem Planted.over (h : Planted s t) : t.Over s := by
  refine ⟨h.wellFormed, ?_⟩
  cases h with
  | model opened => exact .inl (Reached.start.schema opened)
  | table table => exact .inr rfl

theorem Over.schema_eq (h : t.Over s) {id : Nat} {m : Model} (hm : t.model? id = some m) :
    t.schema = some s := by
  refine h.schema.resolve_right fun hnone => ?_
  simp [model?, hnone] at hm

theorem Over.pathEnd? (h : t.Over s) {start id : Nat} {path name : String} {m' : Model}
    (hfound : t.resolveFrom start path = (.ok (id, name), u)) (hm : u.model? id = some m') :
    ∃ m, t.model? start = some m ∧ s.pathEnd? m path = some (m', name) := by
  obtain ⟨hdescend, rfl⟩ := resolveFrom_eq_ok hfound
  have hu := h.later (u := u) (by
    have hreached := reached_resolveFrom t start path
    rwa [hfound] at hreached)
  have hschema : t.schema = some s := (grown_descend hdescend).schema ▸ hu.schema_eq hm
  rw [model?_descend h.wellFormed hschema hdescend] at hm
  obtain ⟨m, hstart, hm⟩ := Option.bind_eq_some_iff.1 hm
  refine ⟨m, hstart, ?_⟩
  rw [Schema.pathEnd?, segments_of_resolveFrom hfound, if_neg Bool.false_ne_true, hm]
  rfl

end JoinTree

end PathQuery
