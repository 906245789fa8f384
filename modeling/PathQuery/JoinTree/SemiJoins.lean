import PathQuery.Failure
import PathQuery.Relation.SemiJoin

/-!
Conditions on linked rows. A condition that reaches through a relation to many rows cannot stay
beside a join, which would repeat the row outside. Within a group the conditions below the same
relation to many are collected and replaced, at the place of the first, by one semi-join; the
same is done inside it with the linked rows as the new scope.

Collecting is sound only among conditions that are all joined by AND or all by OR. A group that
mixes both is first regrouped into its runs of AND, which OR separates.
-/

set_option autoImplicit false

namespace PathQuery.JoinTree

def weight : List Condition → Nat
  | [] => 0
  | .group _ members :: rest => weight members + weight rest + 1
  | _ :: rest => weight rest + 1

def members? : Condition → Option (List Condition)
  | .group _ members => some members
  | _ => none

def isAnchored (t : JoinTree) (scope : Nat) (x : Condition) : Bool :=
  (members? x).isNone && ((t.owner? x).bind (t.anchor? scope)).isSome

/-- Puts a condition in front of runs: into the first one if that continues with AND. -/
def pushRun (x : Condition) : List (List Condition) → List (List Condition)
  | (y :: run) :: others =>
    if y.connective = .and then (x :: y :: run) :: others else [x] :: (y :: run) :: others
  | rs => [x] :: rs

def runs : List Condition → List (List Condition)
  | [] => []
  | x :: rest => pushRun x (runs rest)

/-- A run as one condition: a run of several becomes a group that takes over the connective of
its first member. -/
def ofRun : List Condition → List Condition
  | [] => []
  | [x] => [x]
  | x :: rest => [.group x.connective (x.withConnective .and :: rest)]

def isMixed (xs : List Condition) : Bool :=
  (xs.drop 1).any (·.connective == .or) && (xs.drop 1).any (·.connective == .and)

/-- Regroups a mixed list with conditions below a relation to many into its runs of AND; any other
list stays as it is. -/
def regroup (t : JoinTree) (scope : Nat) (xs : List Condition) : List Condition :=
  if isMixed xs && xs.any (t.isAnchored scope) then (runs xs).flatMap ofRun else xs

abbrev Below (t : JoinTree) (scope : Nat) : Type :=
  { id : Nat // scope < id ∧ id < t.size }

/-- What becomes of a condition: it stays, or it is collected at a node below a relation to many.
Either way the statement around it must join the nodes in `needed`. -/
inductive Slot (t : JoinTree) (scope : Nat) where
  | kept (x : Condition) (needed : List Nat)
  | collected (anchor : Below t scope) (x : Condition) (needed : List Nat)

theorem idOfAlias?_lt {t : JoinTree} {a : String} {id : Nat} (h : t.idOfAlias? a = some id) :
    id < t.size := by
  obtain ⟨hlt, _⟩ := List.findIdx?_eq_some_iff_getElem.1 h
  exact hlt

theorem owner?_lt {t : JoinTree} {x : Condition} {id : Nat} (h : t.owner? x = some id) :
    id < t.size := by
  obtain ⟨a, _, ha⟩ := Option.bind_eq_some_iff.1 h
  exact idOfAlias?_lt ha

def anchorOf (t : JoinTree) (scope owner : Nat) (h : owner < t.size) : Option (Below t scope) :=
  match ha : t.anchor? scope owner with
  | some a => some ⟨a, (anchor?_bounds ha).1, Nat.lt_of_le_of_lt (anchor?_bounds ha).2 h⟩
  | none => none

/-- The nodes that the right side of a comparison of columns needs. It may only reach through the
relation to many that the left side reaches through. -/
def rightSide (t : JoinTree) (scope : Nat) (anchor : Option Nat) :
    Condition → Except Failure (List Nat)
  | .columns _ _ _ right =>
    match t.idOfAlias? right.tableAlias with
    | none => .ok []
    | some id =>
      match anchor, t.anchor? scope id with
      | _, none => .ok [id]
      | none, some _ => .error (.error (.malformed .conditions .toManyOnRight))
      | some a, some b =>
        if a = b then .ok [] else .error (.error (.malformed .conditions .acrossToMany))
  | _ => .ok []

def slotOf (t : JoinTree) (scope : Nat) (x : Condition) : Except Failure (Slot t scope) :=
  match h : t.owner? x with
  | none => .ok (.kept x [])
  | some owner => do
    let anchor := t.anchorOf scope owner (owner?_lt h)
    let needed ← t.rightSide scope (anchor.map (·.val)) x
    return match anchor with
      | none => .kept x (needed ++ [owner])
      | some a => .collected a x needed

structure Settled where
  conditions : List Condition
  needed : List Nat

def collectedAt {t : JoinTree} {scope : Nat} (a : Nat) (slots : List (Slot t scope)) :
    List Condition :=
  slots.filterMap fun
    | .collected b x _ => if b.val = a then some x else none
    | .kept _ _ => none

def resetFirst : List Condition → List Condition
  | [] => []
  | x :: rest => x.withConnective .and :: rest

def semiJoinAt (t : JoinTree) (anchor : Nat) (leaves : List Condition) (inner : Settled) :
    Except Failure Condition :=
  let n := t.node anchor
  let any := 1 < leaves.length && (leaves.drop 1).all (·.connective == .or)
  match n.relation, n.parent with
  | some r, some p =>
    .ok (r.semiJoin (t.node p).tableAlias n.tableAlias (t.joinsWithin anchor inner.needed)
      inner.conditions (r.strategy (if any then .or else .and) inner.conditions.length)
      ((leaves.head?.map Condition.connective).getD .and))
  | _, _ => .error (.error (.invalid (.unlinked n.tableAlias)))

/-- Puts each semi-join at the first of its conditions; `seen` are the nodes that are done. -/
def place (t : JoinTree) {scope : Nat}
    (settleAt : Below t scope → List Condition → Except Failure Settled) (seen : List Nat) :
    List (Slot t scope) → Except Failure Settled
  | [] => .ok ⟨[], []⟩
  | .kept x needed :: rest => do
    let r ← place t settleAt seen rest
    return ⟨x :: r.conditions, needed ++ r.needed⟩
  | .collected a x needed :: rest =>
    if seen.contains a.val then do
      let r ← place t settleAt seen rest
      return ⟨r.conditions, needed ++ r.needed⟩
    else do
      let leaves := x :: collectedAt a.val rest
      let inner ← settleAt a (resetFirst leaves)
      let test ← t.semiJoinAt a.val leaves inner
      let r ← place t settleAt (a.val :: seen) rest
      return ⟨test :: r.conditions, needed ++ (t.node a.val).parent.toList ++ r.needed⟩

theorem weight_append (xs ys : List Condition) : weight (xs ++ ys) = weight xs + weight ys := by
  induction xs with
  | nil => simp [weight]
  | cons x xs ih => cases x <;> grind [weight]

@[simp] theorem weight_withConnective (c : Connective) (x : Condition) (rest : List Condition) :
    weight (x.withConnective c :: rest) = weight (x :: rest) := by
  cases x <;> simp [Condition.withConnective, weight]

theorem weight_lt_cons (x : Condition) (rest : List Condition) :
    weight rest < weight (x :: rest) := by
  cases x <;> grind [weight]

theorem weight_members_lt {x : Condition} {members xs : List Condition}
    (hm : members? x = some members) (h : x ∈ xs) : weight members < weight xs := by
  induction xs with
  | nil => simp at h
  | cons y xs ih =>
    rcases List.mem_cons.1 h with rfl | h
    · cases x <;> grind [members?, weight]
    · exact Nat.lt_trans (ih h) (weight_lt_cons y xs)

theorem flatten_pushRun (x : Condition) (rs : List (List Condition)) :
    (pushRun x rs).flatten = x :: rs.flatten := by
  rw [pushRun.eq_def]
  split
  · split <;> simp
  · simp

theorem flatten_runs (xs : List Condition) : (runs xs).flatten = xs := by
  induction xs with
  | nil => rfl
  | cons x xs ih => rw [runs, flatten_pushRun, ih]

theorem runs_cons (x : Condition) (xs : List Condition) :
    ∃ run others, runs (x :: xs) = (x :: run) :: others := by
  rw [runs, pushRun.eq_def]
  split
  · split <;> simp
  · simp

theorem ne_nil_of_mem_runs {run xs : List Condition} (h : run ∈ runs xs) : run ≠ [] := by
  induction xs with
  | nil => simp [runs] at h
  | cons x xs ih =>
    rw [runs, pushRun.eq_def] at h
    split at h
    · next heq =>
      rw [heq] at ih
      split at h <;> simp at h ih <;> grind
    · rcases List.mem_cons.1 h with rfl | h
      · simp
      · exact ih h

theorem two_le_length_runs {x : Condition} {xs : List Condition}
    (h : xs.any (·.connective == .or) = true) : 2 ≤ (runs (x :: xs)).length := by
  induction xs generalizing x with
  | nil => simp at h
  | cons y ys ih =>
    obtain ⟨run, others, hr⟩ := runs_cons y ys
    rw [runs, hr, pushRun]
    cases hy : y.connective with
    | or => simp
    | and =>
      have := ih (x := y) (by simpa [hy] using h)
      rw [hr] at this
      simpa using this

theorem weight_le_flatten {run : List Condition} {rs : List (List Condition)} (h : run ∈ rs) :
    weight run ≤ weight rs.flatten := by
  induction rs with
  | nil => simp at h
  | cons r rs ih =>
    rw [List.flatten_cons, weight_append]
    rcases List.mem_cons.1 h with rfl | h
    · omega
    · have := ih h
      omega

theorem weight_pos {xs : List Condition} (h : xs ≠ []) : 0 < weight xs := by
  cases xs with
  | nil => exact absurd rfl h
  | cons x xs => exact Nat.lt_of_le_of_lt (Nat.zero_le _) (weight_lt_cons x xs)

theorem weight_lt_flatten {run : List Condition} {rs : List (List Condition)} (h : run ∈ rs)
    (hne : ∀ r ∈ rs, r ≠ []) (hlen : 2 ≤ rs.length) : weight run < weight rs.flatten := by
  match rs, hlen with
  | r :: r' :: rest, _ =>
    have hr := weight_pos (hne r (by simp))
    have hr' := weight_pos (hne r' (by simp))
    simp only [List.flatten_cons, weight_append]
    rcases List.mem_cons.1 h with rfl | h
    · omega
    · have := weight_le_flatten h
      rw [List.flatten_cons, weight_append] at this
      omega

theorem weight_run_lt {xs run : List Condition} (hmixed : isMixed xs = true) (h : run ∈ runs xs) :
    weight run < weight xs := by
  cases xs with
  | nil => simp [isMixed] at hmixed
  | cons x xs =>
    have hor : xs.any (·.connective == .or) = true := by
      simp only [isMixed, Bool.and_eq_true] at hmixed
      simpa using hmixed.1
    have := weight_lt_flatten h (fun _ => ne_nil_of_mem_runs) (two_le_length_runs hor)
    rwa [flatten_runs] at this

theorem weight_members_regroup {t : JoinTree} {scope : Nat} {x : Condition}
    {members xs : List Condition} (hm : members? x = some members)
    (h : x ∈ t.regroup scope xs) : weight members < weight xs := by
  rw [regroup] at h
  split at h
  · next hmixed =>
    rw [Bool.and_eq_true] at hmixed
    obtain ⟨run, hrun, hx⟩ := List.mem_flatMap.1 h
    have hlt := weight_run_lt hmixed.1 hrun
    match run with
    | [] => simp [ofRun] at hx
    | [y] =>
      obtain rfl : x = y := by simpa [ofRun] using hx
      exact Nat.lt_trans (weight_members_lt hm (by simp)) hlt
    | y :: z :: rest =>
      obtain rfl : x = _ := by simpa [ofRun] using hx
      obtain rfl := Option.some.inj hm
      rwa [weight_withConnective]
  · exact weight_members_lt hm h

def settle (t : JoinTree) (scope : Nat) (xs : List Condition) : Except Failure Settled := do
  let slots ← (t.regroup scope xs).attach.mapM fun ⟨x, _hx⟩ =>
    match _hm : members? x with
    | some members => do
      let r ← t.settle scope members
      return .kept (.group x.connective r.conditions) r.needed
    | none => t.slotOf scope x
  t.place (fun a leaves => t.settle a.val leaves) [] slots
termination_by (t.size - scope, weight xs)
decreasing_by
  · exact Prod.Lex.right _ (weight_members_regroup _hm _hx)
  · have := a.property
    exact Prod.Lex.left _ _ (by omega)

/-- Settles the conditions of a statement and marks the joins that they need. Where all of them
must hold, a condition that needs a row leaves out the rows without one. -/
def settleRoot (t : JoinTree) (xs : List Condition) :
    Except Failure (List Condition × JoinTree) := do
  let conjunctive := (xs.drop 1).all (·.connective == .and)
  let required := xs.filterMap fun x =>
    if conjunctive && x.needsRow then
      (t.owner? x).filter fun id => (t.anchor? rootId id).isNone
    else none
  let t := required.foldl require t
  let r ← t.settle rootId xs
  return (r.conditions, r.needed.foldl joinPath t)

end PathQuery.JoinTree
