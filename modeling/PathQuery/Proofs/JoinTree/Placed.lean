import PathQuery.Proofs.JoinTree.Slots
import PathQuery.Proofs.Outcome
import PathQuery.Proofs.Relation.Bodies

/-!
What comes of slots once they are put in place. A condition that stays keeps its place; of those
collected at a node one test is made, at the place of the first.
-/

set_option autoImplicit false

namespace PathQuery.JoinTree

variable {t : JoinTree} {scope : Nat}

def Slot.needed : Slot t scope → List Nat
  | .kept _ needed => needed
  | .collected _ _ needed => needed

def Slot.connective : Slot t scope → Connective
  | .kept x _ => x.connective
  | .collected _ x _ => x.connective

@[simp] theorem collectedAt_nil (a : Nat) : collectedAt a ([] : List (Slot t scope)) = [] :=
  rfl

@[simp] theorem collectedAt_kept (a : Nat) (x : Condition) (needed : List Nat)
    (rest : List (Slot t scope)) : collectedAt a (.kept x needed :: rest) = collectedAt a rest :=
  rfl

theorem collectedAt_same (a : Below t scope) (x : Condition) (needed : List Nat)
    (rest : List (Slot t scope)) :
    collectedAt a.val (.collected a x needed :: rest) = x :: collectedAt a.val rest := by
  simp [collectedAt]

theorem collectedAt_other {a : Below t scope} {b : Nat} (h : a.val ≠ b) (x : Condition)
    (needed : List Nat) (rest : List (Slot t scope)) :
    collectedAt b (.collected a x needed :: rest) = collectedAt b rest := by
  simp [collectedAt, h]

variable {settleAt : Below t scope → List Condition → Except Failure Settled}

inductive Places (settleAt : Below t scope → List Condition → Except Failure Settled) :
    List Nat → List (Slot t scope) → Settled → Prop
  | nil {seen : List Nat} : Places settleAt seen [] ⟨[], []⟩
  | kept {seen : List Nat} {x : Condition} {needed : List Nat} {rest : List (Slot t scope)}
    {r : Settled} (tail : Places settleAt seen rest r) :
    Places settleAt seen (.kept x needed :: rest) ⟨x :: r.conditions, needed ++ r.needed⟩
  | again {seen : List Nat} {a : Below t scope} {x : Condition} {needed : List Nat}
    {rest : List (Slot t scope)} {r : Settled} (known : a.val ∈ seen)
    (tail : Places settleAt seen rest r) :
    Places settleAt seen (.collected a x needed :: rest) ⟨r.conditions, needed ++ r.needed⟩
  | first {seen : List Nat} {a : Below t scope} {x test : Condition} {needed : List Nat}
    {rest : List (Slot t scope)} {inner r : Settled} (fresh : a.val ∉ seen)
    (settled : settleAt a (resetFirst (x :: collectedAt a.val rest)) = .ok inner)
    (tested : t.semiJoinAt a.val (x :: collectedAt a.val rest) inner = .ok test)
    (tail : Places settleAt (a.val :: seen) rest r) :
    Places settleAt seen (.collected a x needed :: rest)
      ⟨test :: r.conditions, needed ++ (t.node a.val).parent.toList ++ r.needed⟩

theorem places_of_place {seen : List Nat} {slots : List (Slot t scope)} {r : Settled}
    (h : t.place settleAt seen slots = .ok r) : Places settleAt seen slots r := by
  induction slots generalizing seen r with
  | nil =>
    obtain rfl : ⟨[], []⟩ = r := by simpa [place] using h
    exact .nil
  | cons slot rest ih =>
    cases slot with
    | kept x needed =>
      rw [place, bind_eq_ok_iff] at h
      obtain ⟨r', hrest, h⟩ := h
      obtain rfl := pure_eq_ok_iff.1 h
      exact .kept (ih hrest)
    | collected a x needed =>
      rw [place] at h
      split at h
      · next hseen =>
        obtain ⟨r', hrest, h⟩ := bind_eq_ok_iff.1 h
        obtain rfl := pure_eq_ok_iff.1 h
        exact .again (List.contains_iff_mem.1 hseen) (ih hrest)
      · next hseen =>
        obtain ⟨inner, hinner, h⟩ := bind_eq_ok_iff.1 h
        obtain ⟨test, htest, h⟩ := bind_eq_ok_iff.1 h
        obtain ⟨r', hrest, h⟩ := bind_eq_ok_iff.1 h
        obtain rfl := pure_eq_ok_iff.1 h
        exact .first (fun hmem => hseen (List.contains_iff_mem.2 hmem)) hinner htest (ih hrest)

namespace Places

variable {seen : List Nat} {slots : List (Slot t scope)} {r : Settled}

theorem kept_mem (h : Places settleAt seen slots r) {x : Condition} {needed : List Nat}
    (hx : .kept x needed ∈ slots) : x ∈ r.conditions := by
  induction h with
  | nil => simp at hx
  | kept tail ih =>
    rcases List.mem_cons.1 hx with heq | hx
    · obtain ⟨rfl, -⟩ := Slot.kept.inj heq
      exact List.mem_cons_self
    · exact List.mem_cons_of_mem _ (ih hx)
  | again known tail ih => exact ih (by simpa using hx)
  | first fresh settled tested tail ih =>
    exact List.mem_cons_of_mem _ (ih (by simpa using hx))

theorem needed_mem (h : Places settleAt seen slots r) {slot : Slot t scope} (hslot : slot ∈ slots) :
    ∀ id ∈ slot.needed, id ∈ r.needed := by
  induction h with
  | nil => simp at hslot
  | kept tail ih =>
    intro id hid
    rcases List.mem_cons.1 hslot with rfl | hslot
    · exact List.mem_append_left _ hid
    · exact List.mem_append_right _ (ih hslot id hid)
  | again known tail ih =>
    intro id hid
    rcases List.mem_cons.1 hslot with rfl | hslot
    · exact List.mem_append_left _ hid
    · exact List.mem_append_right _ (ih hslot id hid)
  | first fresh settled tested tail ih =>
    intro id hid
    rcases List.mem_cons.1 hslot with rfl | hslot
    · exact List.mem_append_left _ (List.mem_append_left _ hid)
    · exact List.mem_append_right _ (ih hslot id hid)

theorem tested_mem (h : Places settleAt seen slots r) {a : Below t scope} (ha : a.val ∉ seen)
    (hne : collectedAt a.val slots ≠ []) :
    ∃ inner test, settleAt a (resetFirst (collectedAt a.val slots)) = .ok inner ∧
      t.semiJoinAt a.val (collectedAt a.val slots) inner = .ok test ∧ test ∈ r.conditions ∧
      ∀ p, (t.node a.val).parent = some p → p ∈ r.needed := by
  induction h with
  | nil => simp at hne
  | kept tail ih =>
    obtain ⟨inner, test, hinner, htest, hmem, hparent⟩ := ih ha hne
    exact ⟨inner, test, hinner, htest, List.mem_cons_of_mem _ hmem,
      fun p hp => List.mem_append_right _ (hparent p hp)⟩
  | @again seen b x needed rest r known tail ih =>
    have hother : b.val ≠ a.val := fun heq => ha (heq ▸ known)
    rw [collectedAt_other hother] at hne ⊢
    obtain ⟨inner, test, hinner, htest, hmem, hparent⟩ := ih ha hne
    exact ⟨inner, test, hinner, htest, hmem, fun p hp => List.mem_append_right _ (hparent p hp)⟩
  | @first seen b x test needed rest inner r fresh settled tested tail ih =>
    by_cases hb : b = a
    · subst hb
      rw [collectedAt_same]
      refine ⟨inner, test, settled, tested, List.mem_cons_self, fun p hp => ?_⟩
      simp [hp]
    · have hother : b.val ≠ a.val := fun heq => hb (Subtype.ext heq)
      rw [collectedAt_other hother] at hne ⊢
      obtain ⟨inner, test, hinner, htest, hmem, hparent⟩ :=
        ih (by simpa [ha] using hother.symm) hne
      exact ⟨inner, test, hinner, htest, List.mem_cons_of_mem _ hmem,
        fun p hp => List.mem_append_right _ (hparent p hp)⟩

/-- Every condition stayed or is the test of those collected at a node. -/
theorem source (h : Places settleAt seen slots r) {x : Condition} (hx : x ∈ r.conditions) :
    (∃ needed, .kept x needed ∈ slots) ∨
      ∃ a : Below t scope, a.val ∉ seen ∧ collectedAt a.val slots ≠ [] ∧
        ∃ inner, settleAt a (resetFirst (collectedAt a.val slots)) = .ok inner ∧
          t.semiJoinAt a.val (collectedAt a.val slots) inner = .ok x := by
  induction h with
  | nil => simp at hx
  | kept tail ih =>
    rcases List.mem_cons.1 hx with rfl | hx
    · exact .inl ⟨_, List.mem_cons_self⟩
    · rcases ih hx with ⟨needed, hkept⟩ | htest
      · exact .inl ⟨needed, List.mem_cons_of_mem _ hkept⟩
      · exact .inr htest
  | @again seen b y needed rest r known tail ih =>
    rcases ih hx with ⟨needed, hkept⟩ | ⟨a, ha, hne, htest⟩
    · exact .inl ⟨needed, List.mem_cons_of_mem _ hkept⟩
    · have hother : b.val ≠ a.val := fun heq => ha (heq ▸ known)
      refine .inr ⟨a, ha, ?_⟩
      rw [collectedAt_other hother]
      exact ⟨hne, htest⟩
  | @first seen b y test needed rest inner r fresh settled tested tail ih =>
    rcases List.mem_cons.1 hx with rfl | hx
    · refine .inr ⟨b, fresh, ?_⟩
      rw [collectedAt_same]
      exact ⟨List.cons_ne_nil _ _, inner, settled, tested⟩
    · rcases ih hx with ⟨needed, hkept⟩ | ⟨a, ha, hne, htest⟩
      · exact .inl ⟨needed, List.mem_cons_of_mem _ hkept⟩
      · obtain ⟨hother, ha⟩ : a.val ≠ b.val ∧ a.val ∉ seen := by simpa using ha
        refine .inr ⟨a, ha, ?_⟩
        rw [collectedAt_other hother.symm]
        exact ⟨hne, htest⟩

theorem needed_source (h : Places settleAt seen slots r) {id : Nat} (hid : id ∈ r.needed) :
    (∃ slot ∈ slots, id ∈ slot.needed) ∨
      ∃ a x needed, .collected a x needed ∈ slots ∧ (t.node a.val).parent = some id := by
  induction h with
  | nil => simp at hid
  | kept tail ih =>
    rcases List.mem_append.1 hid with hid | hid
    · exact .inl ⟨_, List.mem_cons_self, hid⟩
    · rcases ih hid with ⟨slot, hslot, hid⟩ | ⟨a, x, needed, hslot, hparent⟩
      · exact .inl ⟨slot, List.mem_cons_of_mem _ hslot, hid⟩
      · exact .inr ⟨a, x, needed, List.mem_cons_of_mem _ hslot, hparent⟩
  | again known tail ih =>
    rcases List.mem_append.1 hid with hid | hid
    · exact .inl ⟨_, List.mem_cons_self, hid⟩
    · rcases ih hid with ⟨slot, hslot, hid⟩ | ⟨a, x, needed, hslot, hparent⟩
      · exact .inl ⟨slot, List.mem_cons_of_mem _ hslot, hid⟩
      · exact .inr ⟨a, x, needed, List.mem_cons_of_mem _ hslot, hparent⟩
  | first fresh settled tested tail ih =>
    rcases List.mem_append.1 hid with hid | hid
    · rcases List.mem_append.1 hid with hid | hid
      · exact .inl ⟨_, List.mem_cons_self, hid⟩
      · exact .inr ⟨_, _, _, List.mem_cons_self, by simpa using hid⟩
    · rcases ih hid with ⟨slot, hslot, hid⟩ | ⟨a, x, needed, hslot, hparent⟩
      · exact .inl ⟨slot, List.mem_cons_of_mem _ hslot, hid⟩
      · exact .inr ⟨a, x, needed, List.mem_cons_of_mem _ hslot, hparent⟩

end Places

theorem connective_semiJoinAt {a : Nat} {x test : Condition} {leaves : List Condition}
    {inner : Settled} (h : t.semiJoinAt a (x :: leaves) inner = .ok test) :
    test.connective = x.connective := by
  unfold semiJoinAt at h
  dsimp only at h
  split at h
  · obtain rfl := Except.ok.inj h
    rw [Relation.connective_semiJoin]
    rfl
  · simp at h

namespace Places

variable {seen : List Nat} {slots : List (Slot t scope)} {r : Settled}

theorem connective (h : Places settleAt seen slots r) {c : Connective}
    (hc : ∀ slot ∈ slots, slot.connective = c) : ∀ x ∈ r.conditions, x.connective = c := by
  induction h with
  | nil => simp
  | kept tail ih =>
    rw [List.forall_mem_cons] at hc ⊢
    exact ⟨hc.1, ih hc.2⟩
  | again known tail ih => exact ih (List.forall_mem_cons.1 hc).2
  | first fresh settled tested tail ih =>
    rw [List.forall_mem_cons] at hc ⊢
    exact ⟨(connective_semiJoinAt tested).trans hc.1, ih hc.2⟩

theorem cons {slot : Slot t scope} (h : Places settleAt [] (slot :: slots) r) :
    ∃ x seen r', r.conditions = x :: r'.conditions ∧ Places settleAt seen slots r' := by
  cases h with
  | kept tail => exact ⟨_, _, _, rfl, tail⟩
  | again known tail => simp at known
  | first fresh settled tested tail => exact ⟨_, _, _, rfl, tail⟩

theorem conditions_ne_nil (h : Places settleAt [] slots r) (hne : slots ≠ []) :
    r.conditions ≠ [] := by
  cases slots with
  | nil => exact absurd rfl hne
  | cons slot slots =>
    obtain ⟨x, seen, r', hr, -⟩ := h.cons
    simp [hr]

theorem connective_drop (h : Places settleAt [] slots r) {c : Connective}
    (hc : ∀ slot ∈ slots.drop 1, slot.connective = c) :
    ∀ x ∈ r.conditions.drop 1, x.connective = c := by
  cases slots with
  | nil =>
    cases h
    simp
  | cons slot slots =>
    obtain ⟨x, seen, r', hr, tail⟩ := h.cons
    rw [hr]
    exact tail.connective hc

end Places

end PathQuery.JoinTree
