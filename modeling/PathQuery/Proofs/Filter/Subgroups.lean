import PathQuery.Filter.Json
import PathQuery.Proofs.Filter.Narrowing
import PathQuery.Proofs.Outcome

/-!
Sub-groups of filters written as JSON. An object in a group adds its comparisons to the group one
by one; an array that holds only the object adds them as one sub-group. Both mean the same
wherever the object stands: the pending connective falls to the first comparison and the others
follow by AND, so that they make up one run, and a run binds like a sub-group.
-/

set_option autoImplicit false

namespace PathQuery

namespace Criterion

mutual

def leaves : Criterion → List Criterion
  | .group _ members => allLeaves members
  | x => [x.withConnective .and]
termination_by structural x => x

def allLeaves : List Criterion → List Criterion
  | [] => []
  | x :: rest => x.leaves ++ allLeaves rest
termination_by structural xs => xs

end

theorem allLeaves_append (xs ys : List Criterion) :
    allLeaves (xs ++ ys) = allLeaves xs ++ allLeaves ys := by
  induction xs with
  | nil => rfl
  | cons x xs ih => simp [allLeaves, ih]

section Value

variable {α : Type} [Lattice α] [BoundedOrder α] (truth : Nat → α)

mutual

/-- What a criterion comes to where `truth i` is what leaf number `i` comes to and the leaves of the
criterion are numbered from `first` on. -/
def value (first : Nat) : Criterion → α
  | .group _ members => Connective.read (values first members)
  | _ => truth first
termination_by structural x => x

def values (first : Nat) : List Criterion → List (Connective × α)
  | [] => []
  | x :: rest => (x.connective, value first x) :: values (first + x.leaves.length) rest
termination_by structural xs => xs

end

theorem values_append (first : Nat) (xs ys : List Criterion) :
    values truth first (xs ++ ys) =
      values truth first xs ++ values truth (first + (allLeaves xs).length) ys := by
  induction xs generalizing first with
  | nil => rfl
  | cons x xs ih => simp [values, allLeaves, ih, Nat.add_assoc]

theorem values_run (first : Nat) {xs : List Criterion} (h : ∀ x ∈ xs, x.connective = .and) :
    values truth first xs = ((values truth first xs).map Prod.snd).map (Prod.mk .and) :=
  Connective.values_eq_run (fun _ => rfl) (fun _ _ _ => rfl) first h

theorem value_withConnective (first : Nat) (c : Connective) (x : Criterion) :
    value truth first (x.withConnective c) = value truth first x := by
  cases x <;> rfl

end Value

theorem leaves_withConnective (c : Connective) (x : Criterion) :
    (x.withConnective c).leaves = x.leaves := by
  cases x <;> rfl

/-- The same criteria in lists that may stand for each other within every list, whatever the
criteria come to. -/
structure Interchangeable (xs ys : List Criterion) : Prop where
  leaves : allLeaves xs = allLeaves ys
  read : ∀ {α : Type} [Lattice α] [BoundedOrder α] (truth : Nat → α) (first : Nat)
    (before after : List (Connective × α)),
    Connective.read (before ++ (values truth first xs ++ after)) =
      Connective.read (before ++ (values truth first ys ++ after))

theorem Interchangeable.append {xs ys : List Criterion} (h : Interchangeable xs ys)
    (zs : List Criterion) : Interchangeable (xs ++ zs) (ys ++ zs) where
  leaves := by simp only [allLeaves_append, h.leaves]
  read truth first before after := by
    simp only [values_append, List.append_assoc, h.leaves]
    exact h.read truth first before _

theorem Interchangeable.behind {xs ys : List Criterion} (h : Interchangeable xs ys)
    (zs : List Criterion) : Interchangeable (zs ++ xs) (zs ++ ys) where
  leaves := by simp only [allLeaves_append, h.leaves]
  read truth first before after := by
    have hread :=
      h.read truth (first + (allLeaves zs).length) (before ++ values truth first zs) after
    simpa only [values_append, List.append_assoc] using hread

theorem Interchangeable.group {xs ys : List Criterion} (h : Interchangeable xs ys)
    (c : Connective) : Interchangeable [.group c xs] [.group c ys] where
  leaves := by simp only [allLeaves, Criterion.leaves, h.leaves]
  read truth first before after := by
    have hread : Connective.read (values truth first xs) =
        Connective.read (values truth first ys) := by simpa using h.read truth first [] []
    simp only [values, value, hread]
    rfl

/-- A run is as good as a group of it, whatever connective it starts with. -/
theorem interchangeable_run (c : Connective) (x : Criterion) {xs : List Criterion}
    (h : ∀ y ∈ xs, y.connective = .and) :
    Interchangeable (x.withConnective c :: xs) [.group c (x.withConnective .and :: xs)] where
  leaves := by simp [allLeaves, leaves, leaves_withConnective]
  read truth first before after := by
    have hrun := values_run truth (first + x.leaves.length) h
    have hread := Connective.read_grouped before after c (value truth first x)
      ((values truth (first + x.leaves.length) xs).map Prod.snd)
    rw [← hrun] at hread
    have hgroup : ∀ members, (Criterion.group c members).connective = c := fun _ => rfl
    simpa [values, value, hgroup, Filter.connective_withConnective, value_withConnective,
      leaves_withConnective] using hread

end Criterion

namespace Filter

structure Interchangeable (f g : Filter) : Prop where
  pending : f.pending = g.pending
  criteria : Criterion.Interchangeable f.criteria g.criteria

def following (before : List Criterion) (f : Filter) : Filter :=
  { f with criteria := before ++ f.criteria }

theorem push_following (before : List Criterion) (f : Filter) (x : Criterion) :
    (f.following before).push x = (f.push x).following before := by
  simp [following, push]

theorem pushMembers_following (before : List Criterion) (f : Filter)
    (members : List (String × Json)) :
    (f.following before).pushMembers members = (f.pushMembers members).following before := by
  induction members generalizing f with
  | nil => rfl
  | cons member rest ih =>
    obtain ⟨key, value⟩ := member
    simp only [pushMembers, compare, push_following, ih]

theorem pushItem_following (before : List Criterion) (f : Filter) (j : Json) :
    (f.following before).pushItem j = following before <$> f.pushItem j := by
  cases j with
  | string token =>
    simp only [pushItem, nextToken]
    cases Connective.parse token <;> rfl
  | object members => exact congrArg Except.ok (pushMembers_following before f members)
  | array items =>
    rw [pushItem, pushItem]
    cases triple? items with
    | some found => exact congrArg Except.ok (push_following before f _)
    | none =>
      cases pushItems empty items with
      | error e => rfl
      | ok inner => exact congrArg Except.ok (push_following before f _)
  | _ => rfl

theorem pushItems_following (before : List Criterion) (f : Filter) (js : List Json) :
    (f.following before).pushItems js = following before <$> f.pushItems js := by
  induction js generalizing f with
  | nil => rfl
  | cons j rest ih =>
    rw [pushItems, pushItems, pushItem_following]
    cases f.pushItem j with
    | error e => rfl
    | ok g => exact ih g

theorem pushItems_append (f : Filter) (xs ys : List Json) :
    f.pushItems (xs ++ ys) = f.pushItems xs >>= fun g => g.pushItems ys := by
  induction xs generalizing f with
  | nil => rfl
  | cons x xs ih =>
    rw [List.cons_append, pushItems, pushItems]
    cases f.pushItem x with
    | error e => rfl
    | ok g => exact ih g

theorem Interchangeable.pushItems {f g r : Filter} (h : Interchangeable f g) {js : List Json}
    (hr : f.pushItems js = .ok r) : ∃ r', g.pushItems js = .ok r' ∧ Interchangeable r r' := by
  have hf : f = ({ pending := g.pending } : Filter).following f.criteria := by
    simp [following, ← h.pending]
  have hg : g = ({ pending := g.pending } : Filter).following g.criteria := by
    simp [following]
  rw [hf, pushItems_following, map_eq_ok_iff] at hr
  obtain ⟨added, hadded, rfl⟩ := hr
  have hadded' := pushItems_following g.criteria { pending := g.pending } js
  rw [← hg, hadded] at hadded'
  exact ⟨_, hadded', rfl, h.criteria.append added.criteria⟩

def comparison (member : String × Json) : Criterion :=
  .compare .and (readKey member.1).1 (readKey member.1).2 (Value.ofJson member.2)

theorem pushMembers_cons (f : Filter) (member : String × Json) (rest : List (String × Json)) :
    f.pushMembers (member :: rest) =
      { criteria := f.criteria ++
          (comparison member).withConnective f.pending :: rest.map comparison
        pending := .and } := by
  induction rest generalizing f member with
  | nil => rfl
  | cons next rest ih =>
    change (f.push (comparison member)).pushMembers (next :: rest) = _
    rw [ih]
    simp [push, comparison, Criterion.withConnective]

/-- An element of a group and what may be put in its place: a sub-group of an object for the
object, here or further inside. -/
inductive Regrouped : Json → Json → Prop
  | object (members : List (String × Json)) (h : members ≠ []) :
      Regrouped (.object members) (.array [.object members])
  | group (before after : List Json) {j j' : Json}
      (h : triple? (before ++ j :: after) = none) (hj : Regrouped j j') :
      Regrouped (.array (before ++ j :: after)) (.array (before ++ j' :: after))

theorem interchangeable_object (f : Filter) {members : List (String × Json)}
    (h : members ≠ []) :
    Interchangeable (f.pushMembers members) (f.group (empty.pushMembers members)) := by
  obtain ⟨member, rest, rfl⟩ := List.exists_cons_of_ne_nil h
  rw [pushMembers_cons, pushMembers_cons]
  have hrun : ∀ x ∈ rest.map comparison, x.connective = .and :=
    List.forall_mem_map.2 fun _ _ => rfl
  have h := Criterion.interchangeable_run f.pending (comparison member) hrun
  exact ⟨rfl, h.behind f.criteria⟩

/-- No path or operator is put in or taken away, so a group stays a group. -/
theorem Regrouped.triple?_eq_none {j j' : Json} (hj : Regrouped j j') (before after : List Json)
    (h : triple? (before ++ j :: after) = none) : triple? (before ++ j' :: after) = none := by
  match before with
  | [] => cases hj <;> rfl
  | [first] => cases hj <;> cases first <;> rfl
  | [first, second] =>
    cases after with
    | cons next rest => cases first <;> cases second <;> rfl
    | nil =>
      cases first with
      | string path =>
        cases second with
        | string operator =>
          have hpath : Connective.isToken path = true := by simpa [triple?] using h
          simp [triple?, hpath]
        | _ => rfl
      | _ => rfl
  | first :: second :: third :: rest =>
    have hlong : ∀ k, triple? (first :: second :: third :: rest ++ k :: after) = none := by
      intro k
      cases rest <;> cases first <;> cases second <;> rfl
    exact hlong j'

theorem exists_pushItems_replaced {j j' : Json} {f r : Filter}
    (hj : ∀ {f r : Filter}, f.pushItem j = .ok r →
      ∃ r', f.pushItem j' = .ok r' ∧ Interchangeable r r')
    {before after : List Json} (hr : f.pushItems (before ++ j :: after) = .ok r) :
    ∃ r', f.pushItems (before ++ j' :: after) = .ok r' ∧ Interchangeable r r' := by
  rw [pushItems_append, bind_eq_ok_iff] at hr
  obtain ⟨f₁, hbefore, hr⟩ := hr
  rw [pushItems, bind_eq_ok_iff] at hr
  obtain ⟨f₂, hitem, hafter⟩ := hr
  obtain ⟨g₂, hitem', hsame⟩ := hj hitem
  obtain ⟨r', hafter', hr'⟩ := hsame.pushItems hafter
  refine ⟨r', ?_, hr'⟩
  rw [pushItems_append, bind_eq_ok_iff]
  refine ⟨f₁, hbefore, ?_⟩
  rw [pushItems, bind_eq_ok_iff]
  exact ⟨g₂, hitem', hafter'⟩

/-- Read behind the same criteria, an element and what is put in its place give filters that may
stand for each other. -/
theorem Regrouped.pushItem {j j' : Json} (hj : Regrouped j j') {f r : Filter}
    (hr : f.pushItem j = .ok r) : ∃ r', f.pushItem j' = .ok r' ∧ Interchangeable r r' := by
  induction hj generalizing f r with
  | object members h =>
    obtain rfl : f.pushMembers members = r := Except.ok.inj hr
    exact ⟨_, rfl, interchangeable_object f h⟩
  | group before after h hj ih =>
    simp only [Filter.pushItem, h, bind_eq_ok_iff, pure_eq_ok_iff] at hr
    obtain ⟨inner, hinner, rfl⟩ := hr
    obtain ⟨inner', hinner', hsame⟩ := exists_pushItems_replaced ih hinner
    refine ⟨f.group inner', ?_, rfl, (hsame.criteria.group f.pending).behind f.criteria⟩
    simp only [Filter.pushItem, hj.triple?_eq_none before after h, bind_eq_ok_iff, pure_eq_ok_iff]
    exact ⟨inner', hinner', rfl⟩

def value {α : Type} [Lattice α] [BoundedOrder α] (truth : Nat → α) (f : Filter) : α :=
  Connective.read (Criterion.values truth 0 f.criteria)

/-- An object in a group, or in a group inside it at any depth, may be made a sub-group: the same
criteria are read in the same order, and the filter comes to the same whatever they come to. -/
theorem subgroup_keeps_value {items items' : List Json} {f : Filter}
    (h : Regrouped (.array items) (.array items')) (hf : ofJson (.array items) = .ok f) :
    ∃ g, ofJson (.array items') = .ok g ∧
      Criterion.allLeaves g.criteria = Criterion.allLeaves f.criteria ∧
      ∀ {α : Type} [Lattice α] [BoundedOrder α] (truth : Nat → α),
        g.value truth = f.value truth := by
  cases h with
  | @group before after j j' h hj =>
    have hf : empty.pushItems (before ++ j :: after) = .ok f := by simpa [ofJson, h] using hf
    obtain ⟨g, hg, hsame⟩ := exists_pushItems_replaced hj.pushItem hf
    refine ⟨g, by simpa [ofJson, hj.triple?_eq_none before after h] using hg,
      hsame.criteria.leaves.symm, fun truth => ?_⟩
    have hread := hsame.criteria.read truth 0 [] []
    simpa [value] using hread.symm

/-- The object follows OR in an inner group and is followed by a comparison. -/
theorem subgroup_keeps_value_of_inner :
    let comparison : Json := .array [.string "a", .string "<", .number (.integer 1)]
    let object : Json := .object [("b", .null), ("c >", .number (.integer 3))]
    let items := [.array [comparison, .string "or", object, comparison], comparison]
    let items' := [.array [comparison, .string "or", .array [object], comparison], comparison]
    ∃ f g, ofJson (.array items) = .ok f ∧ ofJson (.array items') = .ok g ∧
      Criterion.allLeaves g.criteria = Criterion.allLeaves f.criteria ∧
      ∀ truth : Nat → Prop, g.value truth = f.value truth := by
  intro comparison object items items'
  have hf : ∃ f, ofJson (.array items) = .ok f := ⟨_, rfl⟩
  obtain ⟨f, hf⟩ := hf
  have hobject : Regrouped object (.array [object]) := .object _ (by simp)
  have hinner := hobject.group [comparison, .string "or"] [comparison] rfl
  obtain ⟨g, hg, hleaves, hvalue⟩ := subgroup_keeps_value (hinner.group [] [comparison] rfl) hf
  exact ⟨f, g, hf, hg, hleaves, fun truth => hvalue truth⟩

end Filter

end PathQuery
