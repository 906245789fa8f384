import Mathlib.Data.List.Forall2

/-!
Computations that may fail, taken apart: a chain of steps succeeds where each of its steps does.
-/

set_option autoImplicit false

namespace PathQuery

variable {ε α β : Type}

@[simp] theorem bind_eq_ok_iff {x : Except ε α} {f : α → Except ε β} {b : β} :
    (x >>= f) = .ok b ↔ ∃ a, x = .ok a ∧ f a = .ok b := by
  cases x with
  | error e => simp [bind, Except.bind]
  | ok a => simp [bind, Except.bind]

theorem bind_eq_error_iff {x : Except ε α} {f : α → Except ε β} {e : ε} :
    (x >>= f) = .error e ↔ x = .error e ∨ ∃ a, x = .ok a ∧ f a = .error e := by
  cases x with
  | error e => simp [bind, Except.bind]
  | ok a => simp [bind, Except.bind]

@[simp] theorem map_eq_ok_iff {x : Except ε α} {f : α → β} {b : β} :
    (f <$> x) = .ok b ↔ ∃ a, x = .ok a ∧ f a = b := by
  cases x with
  | error e => simp [Functor.map, Except.map]
  | ok a => simp [Functor.map, Except.map]

@[simp] theorem pure_eq_ok_iff {a b : α} : (pure a : Except ε α) = .ok b ↔ a = b := by
  simp [pure, Except.pure]

theorem mapM_eq_ok_iff {f : α → Except ε β} {xs : List α} {ys : List β} :
    xs.mapM f = .ok ys ↔ List.Forall₂ (fun x y => f x = .ok y) xs ys := by
  induction xs generalizing ys with
  | nil =>
    rw [List.mapM_nil, pure_eq_ok_iff, List.forall₂_nil_left_iff]
    exact eq_comm
  | cons x xs ih =>
    rw [List.mapM_cons, List.forall₂_cons_left_iff]
    simp [ih]
    constructor
    · rintro ⟨y, hy, ys, hys, rfl⟩
      exact ⟨y, hy, ys, hys, rfl⟩
    · rintro ⟨y, hy, ys, hys, rfl⟩
      exact ⟨y, hy, ys, hys, rfl⟩

/-- A list of steps fails with what one of them fails with. -/
theorem mapM_eq_error {f : α → Except ε β} {xs : List α} {e : ε} (h : xs.mapM f = .error e) :
    ∃ x ∈ xs, f x = .error e := by
  induction xs with
  | nil => cases h
  | cons x xs ih =>
    rw [List.mapM_cons, bind_eq_error_iff] at h
    rcases h with h | ⟨y, -, h⟩
    · exact ⟨x, List.mem_cons_self, h⟩
    · rcases bind_eq_error_iff.1 h with h | ⟨ys, -, h⟩
      · obtain ⟨z, hz, hfz⟩ := ih h
        exact ⟨z, List.mem_cons_of_mem _ hz, hfz⟩
      · cases h

theorem mapM_map_of_commute {α' β' : Type} {f : α' → Except ε β'} {g : α → Except ε β}
    {m : α → α'} {m' : β → β'} {xs : List α} (h : ∀ x ∈ xs, f (m x) = m' <$> g x) :
    (xs.map m).mapM f = List.map m' <$> xs.mapM g := by
  induction xs with
  | nil => rfl
  | cons x xs ih =>
    rw [List.forall_mem_cons] at h
    rw [List.map_cons, List.mapM_cons, List.mapM_cons, h.1, ih h.2]
    simp

theorem exists_of_mem_left {γ : Type} {R : α → γ → Prop} {xs : List α} {zs : List γ}
    (h : List.Forall₂ R xs zs) {x : α} (hx : x ∈ xs) : ∃ z ∈ zs, R x z := by
  induction h with
  | nil => simp at hx
  | @cons x' z xs zs hxz _ ih =>
    rcases List.mem_cons.1 hx with rfl | hx
    · exact ⟨z, List.mem_cons_self, hxz⟩
    · obtain ⟨z', hz', hr⟩ := ih hx
      exact ⟨z', List.mem_cons_of_mem _ hz', hr⟩

theorem exists_of_mem_right {γ : Type} {R : α → γ → Prop} {xs : List α} {zs : List γ}
    (h : List.Forall₂ R xs zs) {z : γ} (hz : z ∈ zs) : ∃ x ∈ xs, R x z :=
  exists_of_mem_left h.flip hz

theorem forall₂_imp_of_mem {γ : Type} {R S : α → γ → Prop} {xs : List α} {zs : List γ}
    (h : List.Forall₂ R xs zs) (himp : ∀ x ∈ xs, ∀ z ∈ zs, R x z → S x z) :
    List.Forall₂ S xs zs := by
  induction h with
  | nil => exact .nil
  | cons hxz _ ih =>
    refine .cons (himp _ List.mem_cons_self _ List.mem_cons_self hxz) (ih fun x hx z hz => ?_)
    exact himp x (List.mem_cons_of_mem _ hx) z (List.mem_cons_of_mem _ hz)

theorem forall₂_of_common {γ δ : Type} {R : α → γ → Prop} {S : α → δ → Prop} {T : γ → δ → Prop}
    {xs : List α} {ys : List γ} {zs : List δ} (h : List.Forall₂ R xs ys)
    (h' : List.Forall₂ S xs zs) (himp : ∀ x ∈ xs, ∀ y z, R x y → S x z → T y z) :
    List.Forall₂ T ys zs := by
  induction h generalizing zs with
  | nil =>
    cases h'
    exact .nil
  | cons hy _ ih =>
    cases h' with
    | cons hz hrest =>
      rw [List.forall_mem_cons] at himp
      exact .cons (himp.1 _ _ hy hz) (ih hrest himp.2)

/-- What each step of a fold keeps of the part that is done, the whole fold keeps of the list. -/
theorem foldlM_invariant_done {P : List α → β → Prop} {f : β → α → Except ε β} {xs : List α}
    {b c : β} (hb : P [] b)
    (hstep : ∀ done, ∀ x ∈ xs, ∀ b b', P done b → f b x = .ok b' → P (done ++ [x]) b')
    (h : xs.foldlM f b = .ok c) : P xs c := by
  have hrest : ∀ (rest done : List α) (b : β), (∀ x ∈ rest, x ∈ xs) → P done b →
      rest.foldlM f b = .ok c → P (done ++ rest) c := by
    intro rest
    induction rest with
    | nil =>
      intro done b _ hdone h
      rw [List.foldlM_nil, pure_eq_ok_iff] at h
      rwa [List.append_nil, ← h]
    | cons x rest ih =>
      intro done b hmem hdone h
      rw [List.foldlM_cons, bind_eq_ok_iff] at h
      obtain ⟨b', hb', h⟩ := h
      rw [List.forall_mem_cons] at hmem
      rw [← List.singleton_append, ← List.append_assoc]
      exact ih (done ++ [x]) b' hmem.2 (hstep done x hmem.1 b b' hdone hb') h
  exact hrest xs [] b (fun _ hx => hx) hb h

/-- A fold of steps that each check one element succeeds where all elements pass. -/
theorem foldlM_eq_ok_iff {f : β → α → Except ε β} {P : α → Prop} {g : β → α → β}
    (hf : ∀ b x c, f b x = .ok c ↔ P x ∧ c = g b x) (xs : List α) (b c : β) :
    xs.foldlM f b = .ok c ↔ (∀ x ∈ xs, P x) ∧ c = xs.foldl g b := by
  induction xs generalizing b with
  | nil =>
    rw [List.foldlM_nil, pure_eq_ok_iff, List.foldl_nil]
    simp [eq_comm]
  | cons x xs ih =>
    rw [List.foldlM_cons, bind_eq_ok_iff, List.forall_mem_cons, List.foldl_cons, and_assoc]
    constructor
    · rintro ⟨b', hb', hc⟩
      obtain ⟨hx, rfl⟩ := (hf b x b').1 hb'
      exact ⟨hx, (ih _).1 hc⟩
    · rintro ⟨hx, hc⟩
      exact ⟨g b x, (hf b x _).2 ⟨hx, rfl⟩, (ih _).2 hc⟩

/-- Where the steps also refuse a key that was seen before, the keys must be distinct. -/
theorem foldlM_fresh_eq_ok_iff {f : β → α → Except ε β} {seen : β → List String} {key : α → String}
    {P : α → Prop} {g : β → α → β}
    (hf : ∀ b x c, f b x = .ok c ↔ key x ∉ seen b ∧ P x ∧ c = g b x)
    (hseen : ∀ b x, seen (g b x) = seen b ++ [key x]) (xs : List α) (b c : β) :
    xs.foldlM f b = .ok c ↔ ((∀ x ∈ xs, key x ∉ seen b) ∧ (xs.map key).Nodup) ∧
      (∀ x ∈ xs, P x) ∧ c = xs.foldl g b := by
  induction xs generalizing b with
  | nil =>
    rw [List.foldlM_nil, pure_eq_ok_iff, List.foldl_nil]
    simp [eq_comm]
  | cons x xs ih =>
    have hfresh : (∀ y ∈ xs, key y ∉ seen (g b x)) ↔
        (∀ y ∈ xs, key y ∉ seen b) ∧ key x ∉ xs.map key := by
      simp only [hseen, List.mem_append, List.mem_singleton, not_or, List.mem_map, not_exists,
        not_and]
      exact forall₂_and
    rw [List.foldlM_cons, bind_eq_ok_iff, List.forall_mem_cons, List.forall_mem_cons,
      List.foldl_cons, List.map_cons, List.nodup_cons]
    constructor
    · rintro ⟨b', hb', hc⟩
      obtain ⟨hx, hP, rfl⟩ := (hf b x b').1 hb'
      obtain ⟨⟨hxs, hdistinct⟩, hall, hc⟩ := (ih _).1 hc
      obtain ⟨hxs, hnew⟩ := hfresh.1 hxs
      exact ⟨⟨⟨hx, hxs⟩, hnew, hdistinct⟩, ⟨hP, hall⟩, hc⟩
    · rintro ⟨⟨⟨hx, hxs⟩, hnew, hdistinct⟩, ⟨hP, hall⟩, hc⟩
      exact ⟨g b x, (hf b x _).2 ⟨hx, hP, rfl⟩,
        (ih _).2 ⟨⟨hfresh.2 ⟨hxs, hnew⟩, hdistinct⟩, hall, hc⟩⟩

theorem forM_eq_ok_iff {f : α → Except ε PUnit} {xs : List α} :
    xs.forM f = .ok () ↔ ∀ x ∈ xs, f x = .ok () := by
  induction xs with
  | nil => simp [pure, Except.pure]
  | cons x xs ih =>
    rw [List.forM_eq_forM] at ih ⊢
    rw [List.forM_cons, List.forall_mem_cons, bind_eq_ok_iff, ← ih]
    exact ⟨fun ⟨_, hx, hxs⟩ => ⟨hx, hxs⟩, fun ⟨hx, hxs⟩ => ⟨_, hx, hxs⟩⟩

end PathQuery
