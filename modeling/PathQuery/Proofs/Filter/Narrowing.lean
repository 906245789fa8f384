import PathQuery.Proofs.Precedence
import PathQuery.Query

/-!
What adding a filter to a filter means. The criteria stand in one list, so the added filter joins
the last run of AND of the filter before it, and only its own first run does. The result narrows
to both filters exactly where neither holds an OR that could come apart.
-/

set_option autoImplicit false

namespace PathQuery.Filter

def entries (f : Filter) (truth : Nat → Prop) : List (Connective × Prop) :=
  f.criteria.mapIdx fun i x => (x.connective, truth i)

/-- Whether a filter holds where `truth i` says whether its criterion number `i` does. -/
def Holds (f : Filter) (truth : Nat → Prop) : Prop :=
  Connective.read (f.entries truth)

/-- The truth of the criteria of `f` and, behind them, of others. -/
def behind (f : Filter) (truth others : Nat → Prop) (i : Nat) : Prop :=
  if i < f.size then truth i else others (i - f.size)

/-- Whether `both` holds exactly where `f` and `g` hold, with the criteria of `g` behind those of
`f`. -/
def Narrows (both f g : Filter) : Prop :=
  ∀ truth others : Nat → Prop, both.Holds (f.behind truth others) ↔ f.Holds truth ∧ g.Holds others

def isConjunctive (f : Filter) : Bool :=
  (f.criteria.drop 1).all (·.connective == .and)

@[simp] theorem connective_withConnective (c : Connective) (x : Criterion) :
    (x.withConnective c).connective = c := by
  cases x <;> rfl

theorem entries_of_nil {f : Filter} (h : f.criteria = []) (truth : Nat → Prop) :
    f.entries truth = [] := by
  simp [entries, h]

theorem entries_of_cons {f : Filter} {x : Criterion} {xs : List Criterion}
    (h : f.criteria = x :: xs) (truth : Nat → Prop) :
    f.entries truth =
      (x.connective, truth 0) :: xs.mapIdx fun i y => (y.connective, truth (i + 1)) := by
  simp [entries, h, List.mapIdx_cons]

theorem entries_behind (f g : Filter) (truth others : Nat → Prop) {xs : List Criterion}
    (h : g.criteria = f.criteria ++ xs) :
    g.entries (f.behind truth others) =
      f.entries truth ++ xs.mapIdx fun i x => (x.connective, others i) := by
  unfold entries
  rw [h, List.mapIdx_append]
  congr 1
  · apply List.ext_getElem
    · simp
    · intro i hi _
      have hlt : i < f.size := by simpa [size] using hi
      simp [behind, hlt]
  · apply List.ext_getElem
    · simp
    · intro i hi _
      simp [behind, size]

/-- The runs of the first filter stay, but the last goes on into the second filter. -/
theorem holds_extend {f g : Filter} {x y : Criterion} {xs ys : List Criterion}
    (hf : f.criteria = x :: xs) (hg : g.criteria = y :: ys) (truth others : Nat → Prop) :
    (f.extend g).Holds (f.behind truth others) ↔
      Connective.earlier (truth 0) (xs.mapIdx fun i y => (y.connective, truth (i + 1))) ∨
        Connective.readFrom
          (Connective.lastRun (truth 0)
            (xs.mapIdx fun i y => (y.connective, truth (i + 1))) ∧ others 0)
          (ys.mapIdx fun i y => (y.connective, others (i + 1))) := by
  have hcriteria : (f.extend g).criteria = f.criteria ++ y.withConnective .and :: ys := by
    simp [extend, hg]
  unfold Holds
  rw [entries_behind f _ truth others hcriteria, entries_of_cons hf]
  simp only [List.cons_append, Connective.read, Connective.readFrom_append, List.mapIdx_cons,
    connective_withConnective, Connective.readFrom]
  rfl

theorem holds_of_nil {f : Filter} (h : f.criteria = []) (truth : Nat → Prop) : f.Holds truth := by
  simp [Holds, entries_of_nil h, Connective.read]

theorem holds_of_cons {f : Filter} {x : Criterion} {xs : List Criterion}
    (h : f.criteria = x :: xs) (truth : Nat → Prop) :
    f.Holds truth ↔
      Connective.readFrom (truth 0) (xs.mapIdx fun i y => (y.connective, truth (i + 1))) := by
  simp [Holds, entries_of_cons h, Connective.read]

theorem isConjunctive_cons {f : Filter} {x : Criterion} {xs : List Criterion}
    (h : f.criteria = x :: xs) : f.isConjunctive ↔ ∀ y ∈ xs, y.connective = .and := by
  simp [isConjunctive, h]

theorem exists_or_of_not_isConjunctive {f : Filter} {x : Criterion} {xs : List Criterion}
    (h : f.criteria = x :: xs) (hor : ¬ f.isConjunctive) : ∃ y ∈ xs, y.connective = .or := by
  rw [isConjunctive_cons h] at hor
  push Not at hor
  obtain ⟨y, hy, hne⟩ := hor
  refine ⟨y, hy, ?_⟩
  cases hc : y.connective with
  | and => exact absurd hc hne
  | or => rfl

section Tail

variable {xs : List Criterion} (truth : Nat → Prop)

theorem and_of_mem_mapIdx (h : ∀ y ∈ xs, y.connective = .and) :
    ∀ e ∈ xs.mapIdx (fun i y => (y.connective, truth (i + 1))), e.1 = .and := by
  intro e he
  obtain ⟨i, hi, rfl⟩ := List.mem_mapIdx.1 he
  exact h _ (List.getElem_mem hi)

theorem exists_or_mapIdx (h : ∃ y ∈ xs, y.connective = .or) :
    ∃ e ∈ xs.mapIdx (fun i y => (y.connective, truth (i + 1))), e.1 = .or := by
  obtain ⟨y, hy, hor⟩ := h
  obtain ⟨i, hi, rfl⟩ := List.getElem_of_mem hy
  exact ⟨_, List.mem_mapIdx.2 ⟨i, hi, rfl⟩, hor⟩

theorem truth_of_mem_mapIdx (h : ∀ i, truth i) :
    ∀ e ∈ xs.mapIdx (fun i y => (y.connective, truth (i + 1))), e.2 := by
  intro e he
  obtain ⟨i, hi, rfl⟩ := List.mem_mapIdx.1 he
  exact h (i + 1)

theorem not_truth_of_mem_mapIdx (h : ∀ i, ¬ truth i) :
    ∀ e ∈ xs.mapIdx (fun i y => (y.connective, truth (i + 1))), ¬ e.2 := by
  intro e he
  obtain ⟨i, hi, rfl⟩ := List.mem_mapIdx.1 he
  exact h (i + 1)

end Tail

theorem narrows_of_nil_left {f : Filter} (g : Filter) (h : f.criteria = []) :
    (f.extend g).Narrows f g := by
  intro truth others
  have hf : f.Holds truth := holds_of_nil h truth
  cases hg : g.criteria with
  | nil =>
    have hboth : (f.extend g).criteria = [] := by simp [extend, h, hg]
    simp [holds_of_nil hboth, holds_of_nil hg, hf]
  | cons y ys =>
    have hboth : (f.extend g).criteria = y.withConnective .and :: ys := by simp [extend, h, hg]
    have hbehind : f.behind truth others = others := by
      funext i
      simp [behind, size, h]
    rw [hbehind, holds_of_cons hboth, holds_of_cons hg]
    simp [hf]

theorem narrows_of_nil_right (f : Filter) {g : Filter} (h : g.criteria = []) :
    (f.extend g).Narrows f g := by
  intro truth others
  have hboth : (f.extend g).criteria = f.criteria ++ [] := by simp [extend, h]
  have hg : g.Holds others := holds_of_nil h others
  have hentries := entries_behind f (f.extend g) truth others hboth
  simp only [List.mapIdx_nil, List.append_nil] at hentries
  simp [Holds, hentries] at hg ⊢
  exact fun _ => hg

theorem narrows_of_isConjunctive {f g : Filter} {x y : Criterion} {xs ys : List Criterion}
    (hf : f.criteria = x :: xs) (hg : g.criteria = y :: ys) (hfc : f.isConjunctive)
    (hgc : g.isConjunctive) : (f.extend g).Narrows f g := by
  intro truth others
  have hboth : (f.extend g).criteria = f.criteria ++ y.withConnective .and :: ys := by
    simp [extend, hg]
  have hxs := and_of_mem_mapIdx truth ((isConjunctive_cons hf).1 hfc)
  have hys := and_of_mem_mapIdx others ((isConjunctive_cons hg).1 hgc)
  have hall : ∀ e ∈ xs.mapIdx (fun i y => (y.connective, truth (i + 1))) ++
      (.and, others 0) :: ys.mapIdx (fun i y => (y.connective, others (i + 1))), e.1 = .and := by
    intro e he
    rcases List.mem_append.1 he with he | he
    · exact hxs e he
    · rcases List.mem_cons.1 he with rfl | he
      · rfl
      · exact hys e he
  have hread : (f.extend g).Holds (f.behind truth others) ↔ Connective.readFrom (truth 0)
      (xs.mapIdx (fun i y => (y.connective, truth (i + 1))) ++
        (.and, others 0) :: ys.mapIdx (fun i y => (y.connective, others (i + 1)))) := by
    unfold Holds
    rw [entries_behind f _ truth others hboth, entries_of_cons hf]
    simp [Connective.read, List.mapIdx_cons]
  rw [hread, holds_of_cons hf, holds_of_cons hg, Connective.readFrom_and _ hall,
    Connective.readFrom_and _ hxs, Connective.readFrom_and _ hys, List.forall_mem_append,
    List.forall_mem_cons]
  exact and_assoc.symm

/-- An alternative of the first filter lets rows through that the second refuses. -/
theorem not_narrows_of_or_left {f g : Filter} {x y : Criterion} {xs ys : List Criterion}
    (hf : f.criteria = x :: xs) (hg : g.criteria = y :: ys) (hor : ¬ f.isConjunctive) :
    ¬ (f.extend g).Narrows f g := by
  intro h
  have hxs := exists_or_mapIdx (fun _ => True) (exists_or_of_not_isConjunctive hf hor)
  have hearlier := Connective.earlier_of_all trivial
    (truth_of_mem_mapIdx (fun _ => True) fun _ => trivial) hxs
  have hboth := (holds_extend hf hg (fun _ => True) (fun _ => False)).2 (Or.inl hearlier)
  have hrefused := (holds_of_cons hg (fun _ => False)).1 ((h _ _).1 hboth).2
  exact Connective.not_readFrom_of_none (fun hfalse => hfalse)
    (not_truth_of_mem_mapIdx (fun _ => False) fun _ hfalse => hfalse) hrefused

theorem not_narrows_of_or_right {f g : Filter} {x y : Criterion} {xs ys : List Criterion}
    (hf : f.criteria = x :: xs) (hg : g.criteria = y :: ys) (hor : ¬ g.isConjunctive) :
    ¬ (f.extend g).Narrows f g := by
  intro h
  have hys := exists_or_mapIdx (fun _ => True) (exists_or_of_not_isConjunctive hg hor)
  have hlater := fun run => Connective.readFrom_of_or run
    (truth_of_mem_mapIdx (fun _ => True) fun _ => trivial) hys
  have hboth := (holds_extend hf hg (fun _ => False) (fun _ => True)).2 (Or.inr (hlater _))
  have hrefused := (holds_of_cons hf (fun _ => False)).1 ((h _ _).1 hboth).1
  exact Connective.not_readFrom_of_none (fun hfalse => hfalse)
    (not_truth_of_mem_mapIdx (fun _ => False) fun _ hfalse => hfalse) hrefused

/-- A filter or nothing on either side narrows, and so do filters without OR behind their first
criterion; no others do. -/
theorem narrows_iff (f g : Filter) : (f.extend g).Narrows f g ↔
    f.isEmpty ∨ g.isEmpty ∨ (f.isConjunctive ∧ g.isConjunctive) := by
  cases hf : f.criteria with
  | nil => simp [isEmpty, hf, narrows_of_nil_left g hf]
  | cons x xs =>
    cases hg : g.criteria with
    | nil => simp [isEmpty, hg, narrows_of_nil_right f hg]
    | cons y ys =>
      have hempty : f.isEmpty = false ∧ g.isEmpty = false := by simp [isEmpty, hf, hg]
      simp only [hempty.1, hempty.2, Bool.false_eq_true, false_or]
      constructor
      · intro h
        refine ⟨?_, ?_⟩
        · by_contra hor
          exact not_narrows_of_or_left hf hg hor h
        · by_contra hor
          exact not_narrows_of_or_right hf hg hor h
      · rintro ⟨hfc, hgc⟩
        exact narrows_of_isConjunctive hf hg hfc hgc

theorem holds_extend_of_empty (f g : Filter) (truth : Nat → Prop) :
    ((empty.extend f).extend g).Holds truth ↔ (f.extend g).Holds truth := by
  cases hf : f.criteria with
  | nil => simp [Holds, entries, extend, empty, hf]
  | cons x xs =>
    have hreset : ((empty.extend f).extend g).criteria =
        x.withConnective .and :: (xs ++ ((empty.extend g).criteria)) := by
      simp [extend, empty, hf]
    have hkept : (f.extend g).criteria = x :: (xs ++ ((empty.extend g).criteria)) := by
      simp [extend, empty, hf]
    rw [holds_of_cons hreset, holds_of_cons hkept]

end PathQuery.Filter

namespace PathQuery.Query

def unfiltered (q : Query) : Query :=
  q.withOptions fun o => { o with filter := .empty }

/-- Filters narrow, set one behind the other on a query or put together beforehand, exactly where
one of them is empty or neither holds an OR behind its first criterion. -/
theorem filter_filter_narrows_iff (q : Query) (f g : Filter) :
    let narrow := f.isEmpty ∨ g.isEmpty ∨ (f.isConjunctive ∧ g.isConjunctive)
    ((f.extend g).Narrows f g ↔ narrow) ∧
      (((q.unfiltered.filter f).filter g).request.options.filter.Narrows f g ↔ narrow) := by
  refine ⟨Filter.narrows_iff f g, ?_⟩
  rw [← Filter.narrows_iff f g]
  have hset : ((q.unfiltered.filter f).filter g).request.options.filter =
      (Filter.empty.extend f).extend g := rfl
  rw [hset]
  unfold Filter.Narrows
  simp only [Filter.holds_extend_of_empty]

/-- With a title of two added before an author, a row of the first title passes whoever wrote it. -/
theorem filter_after_or_lets_through :
    let f := ((Filter.empty.eq "title" (.text "A")).next .or).eq "title" (.text "B")
    let g := Filter.empty.eq "authorId" (.int 1)
    (f.extend g).Holds (f.behind (fun i => i = 0) fun _ => False) ∧ ¬ g.Holds (fun _ => False) ∧
      ¬ (f.extend g).Narrows f g := by
  intro f g
  have hboth : (f.extend g).Holds (f.behind (fun i => i = 0) fun _ => False) := by
    simp [f, g, Filter.Holds, Filter.entries, Filter.extend, Filter.behind, Filter.eq,
      Filter.compare, Filter.push, Filter.next, Filter.empty, Filter.size, Connective.read,
      Connective.readFrom, Criterion.connective, Criterion.withConnective]
  have hnot : ¬ g.Holds fun _ => False := by
    simp [g, Filter.Holds, Filter.entries, Filter.eq, Filter.compare, Filter.push, Filter.empty,
      Connective.read, Connective.readFrom]
  exact ⟨hboth, hnot, fun h => hnot ((h _ _).1 hboth).2⟩

end PathQuery.Query
