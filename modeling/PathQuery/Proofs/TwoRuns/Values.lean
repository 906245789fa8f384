import PathQuery.Proofs.TwoRuns.Agreement
import PathQuery.Request

/-!
Options of one shape. Values are alike where a scalar other than NULL stands against another one,
any two related scalars, and everything else is the same: NULLs, fragments, and lists and keys in
their lengths. Conditions, filters, statements and options are alike where their values are.
-/

set_option autoImplicit false

namespace PathQuery

def Value.isData (v : Value) : Bool :=
  v.isScalar && !v.isNull

section Alike

variable (ρ : Value → Value → Prop)

namespace Value

mutual

def Alike : Value → Value → Prop
  | .list xs, w => ∃ ys, w = .list ys ∧ AllAlike xs ys
  | .entity xs, w => ∃ ys, w = .entity ys ∧ AllAlike xs ys
  | .raw sql, w => w = .raw sql
  | .null, w => w = .null
  | v, w => v.isData ∧ w.isData ∧ ρ v w
termination_by structural v => v

def AllAlike : List Value → List Value → Prop
  | [], ws => ws = []
  | v :: vs, ws => ∃ w ws', ws = w :: ws' ∧ v.Alike w ∧ AllAlike vs ws'
termination_by structural vs => vs

end

end Value

def AssignmentAlike {α : Type} (a b : α × Value) : Prop :=
  a.1 = b.1 ∧ a.2.Alike ρ b.2

structure Frame.Alike (f g : Frame) : Prop where
  rest : { f with assignments := [], rows := [] } = { g with assignments := [], rows := [] }
  assignments : List.Forall₂ (AssignmentAlike ρ) f.assignments g.assignments
  rows : List.Forall₂ (List.Forall₂ (Value.Alike ρ)) f.rows g.rows

namespace Condition

mutual

def Alike : Condition → Condition → Prop
  | .compare c a names op v, y => ∃ w, y = .compare c a names op w ∧ v.Alike ρ w
  | .group c xs, y => ∃ ys, y = .group c ys ∧ AllAlike xs ys
  | .existence c negated f xs, y =>
    ∃ g ys, y = .existence c negated g ys ∧ f.Alike ρ g ∧ AllAlike xs ys
  | .membership c col vs negated, y =>
    ∃ ws, y = .membership c col ws negated ∧ List.Forall₂ (Value.Alike ρ) vs ws
  | .columns c left op right, y => y = .columns c left op right
  | .subquery c f xs op v, y =>
    ∃ g ys w, y = .subquery c g ys op w ∧ f.Alike ρ g ∧ AllAlike xs ys ∧ v.Alike ρ w
termination_by structural x => x

def AllAlike : List Condition → List Condition → Prop
  | [], ys => ys = []
  | x :: xs, ys => ∃ y ys', ys = y :: ys' ∧ x.Alike y ∧ AllAlike xs ys'
termination_by structural xs => xs

end

end Condition

structure Statement.Alike (s s' : Statement) : Prop where
  frame : s.toFrame.Alike ρ s'.toFrame
  conditions : List.Forall₂ (Condition.Alike ρ) s.conditions s'.conditions

namespace Criterion

mutual

def Alike : Criterion → Criterion → Prop
  | .compare c path op v, y => ∃ w, y = .compare c path op w ∧ v.Alike ρ w
  | .group c xs, y => ∃ ys, y = .group c ys ∧ AllAlike xs ys
  | .membership c path vs negated, y =>
    ∃ ws, y = .membership c path ws negated ∧ List.Forall₂ (Value.Alike ρ) vs ws
  | .columns c left op right, y => y = .columns c left op right
  | .existence c s negated, y => ∃ s', y = .existence c s' negated ∧ s.Alike ρ s'
  | .subquery c s op v, y => ∃ s' w, y = .subquery c s' op w ∧ s.Alike ρ s' ∧ v.Alike ρ w
termination_by structural x => x

def AllAlike : List Criterion → List Criterion → Prop
  | [], ys => ys = []
  | x :: xs, ys => ∃ y ys', ys = y :: ys' ∧ x.Alike y ∧ AllAlike xs ys'
termination_by structural xs => xs

end

end Criterion

structure Filter.Alike (f g : Filter) : Prop where
  criteria : List.Forall₂ (Criterion.Alike ρ) f.criteria g.criteria
  pending : f.pending = g.pending

/-- Options that differ in the values of conditions, assignments and rows, scalar for scalar. -/
structure Options.Alike (o o' : Options) : Prop where
  rest : { o with filter := {}, assignments := [], rows := [] } =
    { o' with filter := {}, assignments := [], rows := [] }
  filter : o.filter.Alike ρ o'.filter
  assignments : List.Forall₂ (AssignmentAlike ρ) o.assignments o'.assignments
  rows : List.Forall₂ (List.Forall₂ (Value.Alike ρ)) o.rows o'.rows

end Alike

variable {ρ : Value → Value → Prop}

theorem forall₂_iff_of_cons {α β : Type} {R : α → β → Prop} {All : List α → List β → Prop}
    (hnil : ∀ ys, All [] ys ↔ ys = [])
    (hcons : ∀ x xs ys, All (x :: xs) ys ↔ ∃ y ys', ys = y :: ys' ∧ R x y ∧ All xs ys')
    {xs : List α} {ys : List β} : All xs ys ↔ List.Forall₂ R xs ys := by
  induction xs generalizing ys with
  | nil => rw [hnil, List.forall₂_nil_left_iff]
  | cons x xs ih =>
    rw [hcons, List.forall₂_cons_left_iff]
    simp only [ih]
    constructor
    · rintro ⟨y, ys', rfl, hx, hxs⟩
      exact ⟨y, ys', hx, hxs, rfl⟩
    · rintro ⟨y, ys', hx, hxs, rfl⟩
      exact ⟨y, ys', rfl, hx, hxs⟩

theorem Value.allAlike_iff {vs ws : List Value} :
    Value.AllAlike ρ vs ws ↔ List.Forall₂ (Value.Alike ρ) vs ws :=
  forall₂_iff_of_cons (fun _ => Iff.rfl) fun _ _ _ => Iff.rfl

theorem Condition.allAlike_iff {xs ys : List Condition} :
    Condition.AllAlike ρ xs ys ↔ List.Forall₂ (Condition.Alike ρ) xs ys :=
  forall₂_iff_of_cons (fun _ => Iff.rfl) fun _ _ _ => Iff.rfl

theorem Criterion.allAlike_iff {xs ys : List Criterion} :
    Criterion.AllAlike ρ xs ys ↔ List.Forall₂ (Criterion.Alike ρ) xs ys :=
  forall₂_iff_of_cons (fun _ => Iff.rfl) fun _ _ _ => Iff.rfl

namespace Value

theorem isScalar_of_isData {v : Value} (h : v.isData) : v.isScalar := by
  simp only [isData, Bool.and_eq_true] at h
  exact h.1

theorem Alike.cases {v w : Value} (h : v.Alike ρ w) :
    (∃ xs ys, v = .list xs ∧ w = .list ys ∧ List.Forall₂ (Alike ρ) xs ys) ∨
      (∃ xs ys, v = .entity xs ∧ w = .entity ys ∧ List.Forall₂ (Alike ρ) xs ys) ∨
      (∃ sql, v = .raw sql ∧ w = .raw sql) ∨ (v = .null ∧ w = .null) ∨
      (v.isData ∧ w.isData ∧ ρ v w) := by
  cases v with
  | list xs =>
    obtain ⟨ys, rfl, hys⟩ := h
    exact .inl ⟨xs, ys, rfl, rfl, allAlike_iff.1 hys⟩
  | entity xs =>
    obtain ⟨ys, rfl, hys⟩ := h
    exact .inr (.inl ⟨xs, ys, rfl, rfl, allAlike_iff.1 hys⟩)
  | raw sql => exact .inr (.inr (.inl ⟨sql, rfl, h⟩))
  | null => exact .inr (.inr (.inr (.inl ⟨rfl, h⟩)))
  | _ => exact .inr (.inr (.inr (.inr h)))

theorem alike_of_isData {v w : Value} (hv : v.isData) (hw : w.isData) (h : ρ v w) :
    v.Alike ρ w := by
  cases v <;> first | exact ⟨hv, hw, h⟩ | simp [isData, isScalar, isNull] at hv

theorem alike_list {vs ws : List Value} (h : List.Forall₂ (Alike ρ) vs ws) :
    (Value.list vs).Alike ρ (.list ws) :=
  ⟨ws, rfl, allAlike_iff.2 h⟩

mutual

theorem alike_self (hρ : ∀ v, ρ v v) (v : Value) : v.Alike ρ v := by
  cases v with
  | list items => exact ⟨items, rfl, allAlike_self hρ items⟩
  | entity key => exact ⟨key, rfl, allAlike_self hρ key⟩
  | raw sql => rfl
  | null => rfl
  | _ => exact ⟨rfl, rfl, hρ _⟩
termination_by structural v

theorem allAlike_self (hρ : ∀ v, ρ v v) (vs : List Value) : AllAlike ρ vs vs := by
  cases vs with
  | nil => rfl
  | cons v vs => exact ⟨v, vs, rfl, alike_self hρ v, allAlike_self hρ vs⟩
termination_by structural vs

end

theorem forall₂_alike_self (hρ : ∀ v, ρ v v) (vs : List Value) : List.Forall₂ (Alike ρ) vs vs :=
  allAlike_iff.1 (allAlike_self hρ vs)

theorem Alike.isNull_eq {v w : Value} (h : v.Alike ρ w) : v.isNull = w.isNull := by
  rcases h.cases with ⟨xs, ys, rfl, rfl, _⟩ | ⟨xs, ys, rfl, rfl, _⟩ | ⟨sql, rfl, rfl⟩ | ⟨rfl, rfl⟩ |
    ⟨hv, hw, _⟩
  · rfl
  · rfl
  · rfl
  · rfl
  · simp only [isData, Bool.and_eq_true, Bool.not_eq_true'] at hv hw
    rw [hv.2, hw.2]

theorem Alike.list_or_single {v w : Value} (h : v.Alike ρ w) :
    (∃ xs ys, v = .list xs ∧ w = .list ys ∧ List.Forall₂ (Alike ρ) xs ys) ∨
      (v.isList = false ∧ w.isList = false) := by
  rcases h.cases with hlist | ⟨xs, ys, rfl, rfl, _⟩ | ⟨sql, rfl, rfl⟩ | ⟨rfl, rfl⟩ | ⟨hv, hw, _⟩
  · exact .inl hlist
  · exact .inr ⟨rfl, rfl⟩
  · exact .inr ⟨rfl, rfl⟩
  · exact .inr ⟨rfl, rfl⟩
  · have hnot : ∀ u : Value, u.isData → u.isList = false := by
      intro u hu
      cases u <;> first | rfl | simp [isData, isScalar] at hu
    exact .inr ⟨hnot v hv, hnot w hw⟩

theorem Alike.isList_eq {v w : Value} (h : v.Alike ρ w) : v.isList = w.isList := by
  rcases h.list_or_single with ⟨xs, ys, rfl, rfl, _⟩ | ⟨hv, hw⟩
  · rfl
  · rw [hv, hw]

theorem dereference_of_isData {v : Value} (h : v.isData) : v.dereference = v := by
  cases v <;> first | rfl | simp [isData, isScalar] at h

mutual

theorem dereference_alike (v : Value) {w : Value} (h : v.Alike ρ w) :
    v.dereference.Alike ρ w.dereference := by
  cases v with
  | list xs =>
    obtain ⟨ys, rfl, hys⟩ := h
    exact ⟨_, rfl, dereferenceAll_alike xs hys⟩
  | entity xs =>
    obtain ⟨ys, rfl, hys⟩ := h
    match xs, hys with
    | [], hys =>
      obtain rfl := hys
      exact ⟨[], rfl, rfl⟩
    | [x], ⟨y, ys', hy, hxy, hnil⟩ =>
      obtain rfl := hnil
      subst hy
      exact hxy
    | x :: x' :: xs, ⟨y, ys', hy, hxy, y', ys'', hy', hrest⟩ =>
      subst hy' hy
      exact ⟨_, rfl, y, _, rfl, hxy, y', _, rfl, hrest⟩
  | raw sql =>
    obtain rfl := h
    rfl
  | null =>
    obtain rfl := h
    rfl
  | _ =>
    obtain ⟨hv, hw, hρ⟩ := h
    rw [dereference_of_isData hv, dereference_of_isData hw]
    exact ⟨hv, hw, hρ⟩
termination_by structural v

theorem dereferenceAll_alike (vs : List Value) {ws : List Value} (h : AllAlike ρ vs ws) :
    AllAlike ρ (dereferenceAll vs) (dereferenceAll ws) := by
  cases vs with
  | nil =>
    obtain rfl := h
    rfl
  | cons v vs =>
    obtain ⟨w, ws', rfl, hv, hvs⟩ := h
    exact ⟨_, _, rfl, dereference_alike v hv, dereferenceAll_alike vs hvs⟩
termination_by structural vs

end

/-- All that conditions ask of a value: whether it is NULL. -/
def blank (v : Value) : Value :=
  if v.isNull then .null else .list []

theorem isNull_blank (v : Value) : v.blank.isNull = v.isNull := by
  unfold blank
  split
  · next h => exact h.symm
  · next h => exact (Bool.eq_false_iff.2 h).symm

theorem Alike.blank_eq {v w : Value} (h : v.Alike ρ w) : v.blank = w.blank := by
  rw [blank, blank, h.isNull_eq]

end Value

namespace Condition

mutual

/-- A condition with its values blanked. Conditions that are alike have one outline, so that they
agree in whatever is read off outlines. -/
def outline : Condition → Condition
  | .compare c a names op v => .compare c a names op v.blank
  | .group c members => .group c (outlines members)
  | .existence c negated f inner =>
    .existence c negated { f with assignments := [], rows := [] } (outlines inner)
  | .membership c col _ negated => .membership c col [] negated
  | .columns c left op right => .columns c left op right
  | .subquery c f inner op v =>
    .subquery c { f with assignments := [], rows := [] } (outlines inner) op v.blank
termination_by structural x => x

def outlines : List Condition → List Condition
  | [] => []
  | x :: rest => x.outline :: outlines rest
termination_by structural xs => xs

end

mutual

theorem Alike.outline_eq (x : Condition) {y : Condition} (h : x.Alike ρ y) :
    x.outline = y.outline := by
  cases x with
  | compare c a names op v =>
    obtain ⟨w, rfl, hv⟩ := h
    rw [outline, outline, hv.blank_eq]
  | group c xs =>
    obtain ⟨ys, rfl, hxs⟩ := h
    rw [outline, outline, AllAlike.outlines_eq xs hxs]
  | existence c negated f xs =>
    obtain ⟨g, ys, rfl, hf, hxs⟩ := h
    rw [outline, outline, hf.rest, AllAlike.outlines_eq xs hxs]
  | membership c col vs negated =>
    obtain ⟨ws, rfl, _⟩ := h
    rfl
  | columns c left op right =>
    obtain rfl := h
    rfl
  | subquery c f xs op v =>
    obtain ⟨g, ys, w, rfl, hf, hxs, hv⟩ := h
    rw [outline, outline, hf.rest, AllAlike.outlines_eq xs hxs, hv.blank_eq]
termination_by structural x

theorem AllAlike.outlines_eq (xs : List Condition) {ys : List Condition} (h : AllAlike ρ xs ys) :
    outlines xs = outlines ys := by
  cases xs with
  | nil =>
    obtain rfl := h
    rfl
  | cons x xs =>
    obtain ⟨y, ys, rfl, hx, hxs⟩ := h
    rw [outlines, outlines, Alike.outline_eq x hx, AllAlike.outlines_eq xs hxs]
termination_by structural xs

end

theorem Alike.view_eq {β : Type} {f : Condition → β} (hf : ∀ x, f x.outline = f x)
    {x y : Condition} (h : x.Alike ρ y) : f x = f y := by
  rw [← hf x, ← hf y, Alike.outline_eq x h]

end Condition

end PathQuery
