import Mathlib.Data.List.Chain
import PathQuery.Proofs.Text.Letters

/-!
Words of a name that something follows. Where a name is read word by word, what a word leaves behind
is a run of lower case or of capitals; the text behind it is read the same, whatever the word was.
-/

set_option autoImplicit false

namespace PathQuery.Text

variable {run : Run} {c d : Char} {p q u v w : List Char} {ws : List (List Char)}

def glue (p : List Char) : List (List Char) → List (List Char)
  | [] => [p]
  | word :: rest => (p ++ word) :: rest

theorem prepend_eq_glue (c : Char) (ws : List (List Char)) : prepend c ws = glue [c] ws := by
  cases ws <;> rfl

theorem glue_glue (p q : List Char) (ws : List (List Char)) :
    glue p (glue q ws) = glue (p ++ q) ws := by
  cases ws <;> simp [glue]

theorem glue_append (p : List Char) (hws : ws ≠ []) (rest : List (List Char)) :
    glue p (ws ++ rest) = glue p ws ++ rest := by
  cases ws with
  | nil => exact absurd rfl hws
  | cons word ws => rfl

/-- The words of a text behind a run. Behind lower case a capital starts a new word. -/
def resume (run : Run) (cs : List Char) : List (List Char) :=
  if run = .lower ∧ cs.head?.any isUppercase then [] :: splitCase .fresh cs else splitCase run cs

theorem resume_of_ne_lower (hrun : run ≠ .lower) (cs : List Char) :
    resume run cs = splitCase run cs :=
  if_neg fun h => hrun h.1

theorem resume_nil (run : Run) : resume run [] = [[]] :=
  if_neg fun h => absurd h.2 (by decide)

theorem splitCase_cons_cons (run : Run) (c next : Char) (q : List Char) :
    splitCase run (c :: next :: q) =
      if run.after c = .lower ∧ isUppercase next then [c] :: splitCase .fresh (next :: q)
      else if run = .upper ∧ isUppercase c ∧ isLowercase next then
        [] :: glue [c] (splitCase .fresh (next :: q))
      else glue [c] (splitCase (run.after c) (next :: q)) := by
  rw [← prepend_eq_glue, ← prepend_eq_glue]
  rfl

theorem glue_ne_nil (p : List Char) (ws : List (List Char)) : glue p ws ≠ [] := by
  cases ws <;> exact List.cons_ne_nil _ _

theorem splitCase_ne_nil (run : Run) (cs : List Char) : splitCase run cs ≠ [] := by
  match cs with
  | [] => exact List.cons_ne_nil _ _
  | [c] => exact List.cons_ne_nil _ _
  | c :: next :: q =>
    rw [splitCase_cons_cons]
    split
    · exact List.cons_ne_nil _ _
    · split
      · exact List.cons_ne_nil _ _
      · exact glue_ne_nil _ _

theorem resume_ne_nil (run : Run) (cs : List Char) : resume run cs ≠ [] := by
  unfold resume
  split
  · exact List.cons_ne_nil _ _
  · exact splitCase_ne_nil run cs

theorem splitCase_fresh_cons (c : Char) (q : List Char) :
    ∃ x ws, splitCase .fresh (c :: q) = (c :: x) :: ws := by
  cases q with
  | nil => exact ⟨[], [], rfl⟩
  | cons next q =>
    rw [splitCase_cons_cons]
    split
    · exact ⟨[], _, rfl⟩
    · rw [if_neg (by simp)]
      obtain ⟨word, ws, hws⟩ := List.exists_cons_of_ne_nil (splitCase_ne_nil (Run.after c .fresh)
        (next :: q))
      exact ⟨word, ws, by rw [hws]; rfl⟩

theorem splitCase_lower (hrun : run.after c = .lower) (hc : isUppercase c = false) (q : List Char) :
    splitCase run (c :: q) = glue [c] (resume .lower q) := by
  cases q with
  | nil => rw [resume_nil]; rfl
  | cons next q =>
    rw [splitCase_cons_cons, resume]
    by_cases hnext : isUppercase next = true
    · simp [hrun, hnext, glue]
    · simp [hrun, hnext, hc]

theorem after_lower (hc : isUppercase c = false) : Run.after c .lower = .lower := by
  simp [Run.after, hc]

theorem splitCase_lower_append (hrun : run.after c = .lower)
    (h : ∀ d ∈ c :: p, isUppercase d = false) (q : List Char) :
    splitCase run (c :: p ++ q) = glue (c :: p) (resume .lower q) := by
  induction p generalizing c run with
  | nil => exact splitCase_lower hrun (h c List.mem_cons_self) q
  | cons d p ih =>
    rw [List.forall_mem_cons] at h
    have hd : isUppercase d = false := h.2 d List.mem_cons_self
    have hresume : resume .lower (d :: p ++ q) = splitCase .lower (d :: p ++ q) :=
      if_neg fun hcapital => by simp [hd] at hcapital
    rw [List.cons_append, splitCase_lower hrun h.1, hresume, ih (after_lower hd) h.2, glue_glue]
    rfl

def IsCapital (c : Char) : Prop :=
  isUppercase c = true ∧ isLowercase c = false

theorem IsCapital.after (hc : IsCapital c) (run : Run) : run.after c = .upper := by
  simp [Run.after, hc.1, hc.2]

/-- A capital goes on with a run of capitals, and starts a word if lower case follows it. -/
theorem splitCase_capital (hc : IsCapital c) (h : run ≠ .upper ∨ q.head?.any isLowercase = false) :
    splitCase run (c :: q) = glue [c] (splitCase .upper q) := by
  cases q with
  | nil => rfl
  | cons next q =>
    rw [splitCase_cons_cons]
    rcases h with h | h
    · simp [hc.after, h]
    · have hnext : isLowercase next = false := by simpa using h
      simp [hc.after, hnext]

theorem splitCase_upper_of_lower (hc : IsCapital c) (hq : q.head?.any isLowercase = true) :
    splitCase .upper (c :: q) = [] :: glue [c] (splitCase .fresh q) := by
  cases q with
  | nil => cases hq
  | cons next q =>
    have hnext : isLowercase next = true := by simpa using hq
    rw [splitCase_cons_cons]
    simp [hc.after, hc.1, hnext]

theorem resume_lower_of_capital (hc : IsCapital c) (q : List Char) :
    resume .lower (c :: q) = [] :: splitCase .fresh (c :: q) :=
  if_pos ⟨rfl, by simpa using hc.1⟩

inductive IsLow : List Char → Prop
  | mk {c : Char} {rest : List Char} (lower : isLowercase c = true)
    (plain : ∀ d ∈ c :: rest, isUppercase d = false) : IsLow (c :: rest)

inductive IsTitle : List Char → Prop
  | mk {c : Char} {rest : List Char} (capital : IsCapital c) (low : IsLow rest) :
    IsTitle (c :: rest)

inductive IsCapitals : List Char → Prop
  | mk {c : Char} {rest : List Char} (capitals : ∀ d ∈ c :: rest, IsCapital d) :
    IsCapitals (c :: rest)

theorem IsLow.splitCase_append (h : IsLow w) (run : Run) (q : List Char) :
    splitCase run (w ++ q) = glue w (resume .lower q) := by
  obtain ⟨lower, plain⟩ := h
  exact splitCase_lower_append (if_pos lower) plain q

theorem IsLow.head_append (h : IsLow w) (q : List Char) :
    (w ++ q).head?.any isLowercase = true := by
  obtain ⟨lower, -⟩ := h
  simpa using lower

theorem IsTitle.splitCase_append (h : IsTitle w) (q : List Char) :
    splitCase .fresh (w ++ q) = glue w (resume .lower q) := by
  obtain ⟨capital, low⟩ := h
  rw [List.cons_append, splitCase_capital capital (.inl (by decide)), low.splitCase_append,
    glue_glue]
  rfl

theorem IsTitle.splitCase_upper_append (h : IsTitle w) (q : List Char) :
    splitCase .upper (w ++ q) = [] :: splitCase .fresh (w ++ q) := by
  obtain ⟨capital, low⟩ := h
  rw [List.cons_append, splitCase_upper_of_lower capital (low.head_append q),
    splitCase_capital capital (.inl (by decide)), low.splitCase_append, low.splitCase_append]

theorem IsCapitals.splitCase_append (h : IsCapitals w) (hq : q.head?.any isLowercase = false) :
    splitCase .fresh (w ++ q) = glue w (splitCase .upper q) := by
  obtain ⟨capitals⟩ := h
  -- A run of capitals is read the same whichever run it continues.
  suffices hall : ∀ (rest : List Char) (c : Char) (run : Run), (∀ d ∈ c :: rest, IsCapital d) →
      splitCase run (c :: rest ++ q) = glue (c :: rest) (splitCase .upper q) from
    hall _ _ _ capitals
  intro rest
  induction rest with
  | nil =>
    intro c run hc
    exact splitCase_capital (hc c List.mem_cons_self) (.inr hq)
  | cons d rest ih =>
    intro c run hc
    rw [List.forall_mem_cons] at hc
    have hd : (d :: rest ++ q).head?.any isLowercase = false := by
      simpa using (hc.2 d List.mem_cons_self).2
    rw [List.cons_append, splitCase_capital hc.1 (.inr hd), ih d .upper hc.2, glue_glue]
    rfl

/-- A word of a name that is written in camel case: a title or an acronym. -/
abbrev IsWord (w : List Char) : Prop :=
  IsTitle w ∨ IsCapitals w

theorem IsWord.exists_capital (h : IsWord w) : ∃ c rest, w = c :: rest ∧ IsCapital c := by
  rcases h with h | h
  · obtain ⟨capital, -⟩ := h
    exact ⟨_, _, rfl, capital⟩
  · obtain ⟨capitals⟩ := h
    exact ⟨_, _, rfl, capitals _ List.mem_cons_self⟩

theorem IsWord.resume_lower (h : IsWord w) (q : List Char) :
    resume .lower (w ++ q) = [] :: splitCase .fresh (w ++ q) := by
  obtain ⟨c, rest, rfl, hc⟩ := h.exists_capital
  exact resume_lower_of_capital hc _

theorem glue_nil_cons (p : List Char) (ws : List (List Char)) : glue p ([] :: ws) = p :: ws := by
  rw [glue, List.append_nil]

/-- Words that stay apart where one is written behind the other, whatever follows them. -/
def Apart (u v : List Char) : Prop :=
  ∀ q, splitCase .fresh (u ++ (v ++ q)) = u :: splitCase .fresh (v ++ q)

theorem IsLow.apart (hu : IsLow u) (hv : IsWord v) : Apart u v := by
  intro q
  rw [hu.splitCase_append, hv.resume_lower, glue_nil_cons]

theorem IsTitle.apart (hu : IsTitle u) (hv : IsWord v) : Apart u v := by
  intro q
  rw [hu.splitCase_append, hv.resume_lower, glue_nil_cons]

theorem IsCapitals.apart (hu : IsCapitals u) (hv : IsTitle v) : Apart u v := by
  intro q
  have hcapital : (v ++ q).head?.any isLowercase = false := by
    obtain ⟨capital, -⟩ := hv
    simpa using capital.2
  rw [hu.splitCase_append hcapital, hv.splitCase_upper_append, glue_nil_cons]

theorem splitCase_flatten_append {us : List (List Char)} (h : (us ++ [w]).IsChain Apart)
    (q : List Char) :
    splitCase .fresh ((us ++ [w]).flatten ++ q) = us ++ splitCase .fresh (w ++ q) := by
  induction us with
  | nil => simp
  | cons u us ih =>
    obtain ⟨v, ws, hws⟩ := List.exists_cons_of_ne_nil (List.concat_ne_nil w us)
    rw [List.cons_append, hws, List.isChain_cons_cons] at h
    have ih := ih (hws ▸ h.2)
    rw [hws, List.flatten_cons, List.append_assoc] at ih
    rw [List.cons_append, hws, List.flatten_cons, List.flatten_cons, List.append_assoc,
      List.append_assoc, h.1, ih, List.cons_append]

/-- The words of a name in camel case: of two neighbours one is no acronym. -/
structure Spelled (ws : List (List Char)) : Prop where
  words : ∀ w ∈ ws, IsWord w
  titles : ws.IsChain fun u v => IsTitle u ∨ IsTitle v

theorem IsWord.apart (hu : IsWord u) (hv : IsWord v) (h : IsTitle u ∨ IsTitle v) : Apart u v := by
  rcases hu with hu | hu
  · exact hu.apart hv
  · rcases h with h | h
    · exact h.apart hv
    · exact hu.apart h

theorem Spelled.apart (h : Spelled ws) : ws.IsChain Apart :=
  h.titles.imp_of_mem_imp fun u v hu hv => (h.words u hu).apart (h.words v hv)

def wordsOf (piece : List Char) : List (List Char) :=
  if piece.isEmpty then [] else splitCase .fresh piece

def firstPiece (s : List Char) : List Char :=
  (separate s).headD []

def readOn (run : Run) (s : List Char) : List (List Char) :=
  resume run (firstPiece s) ++ (separate s).tail.flatMap wordsOf

theorem readOn_ne_nil (run : Run) (s : List Char) : readOn run s ≠ [] :=
  List.append_ne_nil_of_left_ne_nil (resume_ne_nil _ _) _

theorem separate_ne_nil (cs : List Char) : separate cs ≠ [] := by
  cases cs with
  | nil => exact List.cons_ne_nil _ _
  | cons c cs =>
    rw [separate]
    split
    · rw [prepend_eq_glue]
      exact glue_ne_nil _ _
    · exact List.cons_ne_nil _ _

theorem separate_eq (s : List Char) : separate s = firstPiece s :: (separate s).tail := by
  rw [firstPiece, List.headD_eq_head?_getD, List.head?_eq_some_head (separate_ne_nil s)]
  exact (List.cons_head_tail (separate_ne_nil s)).symm

theorem separate_append (hp : ∀ c ∈ p, isAlphanumeric c = true) (s : List Char) :
    separate (p ++ s) = (p ++ firstPiece s) :: (separate s).tail := by
  induction p with
  | nil => exact separate_eq s
  | cons c p ih =>
    rw [List.forall_mem_cons] at hp
    rw [List.cons_append, separate, if_pos hp.1, ih hp.2]
    rfl

theorem firstPiece_append (hp : ∀ c ∈ p, isAlphanumeric c = true) (s : List Char) :
    firstPiece (p ++ s) = p ++ firstPiece s := by
  rw [firstPiece, separate_append hp]
  rfl

theorem firstPiece_cons (hc : isAlphanumeric c = true) (s : List Char) :
    firstPiece (c :: s) = c :: firstPiece s :=
  firstPiece_append (p := [c]) (by simpa using hc) s

theorem isAlphanumeric_of_mem_firstPiece {s : List Char} (hc : c ∈ firstPiece s) :
    isAlphanumeric c = true := by
  induction s with
  | nil => cases hc
  | cons d s ih =>
    by_cases hd : isAlphanumeric d = true
    · rw [firstPiece_cons hd] at hc
      rcases List.mem_cons.1 hc with rfl | hc
      · exact hd
      · exact ih hc
    · rw [firstPiece, separate, if_neg hd] at hc
      cases hc

theorem readOn_append (hp : ∀ c ∈ p, isAlphanumeric c = true) (run : Run) (s : List Char) :
    readOn run (p ++ s) =
      resume run (p ++ firstPiece s) ++ (separate s).tail.flatMap wordsOf := by
  rw [readOn, firstPiece_append hp, separate_append hp]
  rfl

theorem readOn_cons (hc : isAlphanumeric c = true) (run : Run) (s : List Char) :
    readOn run (c :: s) = resume run (c :: firstPiece s) ++ (separate s).tail.flatMap wordsOf :=
  readOn_append (p := [c]) (by simpa using hc) run s

theorem caseWords_append (hp : ∀ c ∈ p, isAlphanumeric c = true) (hne : p ≠ []) (s : List Char) :
    caseWords (p ++ s) =
      splitCase .fresh (p ++ firstPiece s) ++ (separate s).tail.flatMap wordsOf := by
  have hpiece : wordsOf (p ++ firstPiece s) = splitCase .fresh (p ++ firstPiece s) :=
    if_neg (by simp [hne])
  rw [← hpiece, ← List.flatMap_cons, ← separate_append hp]
  rfl

/-- What a word leaves behind for the text `s` is the run. -/
def Leaves (run : Run) (w s : List Char) : Prop :=
  splitCase .fresh (w ++ firstPiece s) = glue w (resume run (firstPiece s))

theorem IsTitle.leaves (h : IsTitle w) (s : List Char) : Leaves .lower w s :=
  h.splitCase_append _

theorem IsLow.leaves (h : IsLow w) (s : List Char) : Leaves .lower w s :=
  h.splitCase_append _ _

theorem IsCapitals.leaves (h : IsCapitals w) {s : List Char}
    (hs : (firstPiece s).head?.any isLowercase = false) : Leaves .upper w s := by
  rw [Leaves, resume_of_ne_lower (by decide)]
  exact h.splitCase_append hs

theorem IsCapital.leaves (h : IsCapital c) (s : List Char) : Leaves .upper [c] s := by
  rw [Leaves, resume_of_ne_lower (by decide)]
  exact splitCase_capital h (.inl (by decide))

theorem isAlphanumeric_of_mem_flatten (h : ∀ u ∈ ws, ∀ c ∈ u, isAlphanumeric c = true) :
    ∀ c ∈ ws.flatten, isAlphanumeric c = true := by
  intro c hc
  obtain ⟨u, hu, hcu⟩ := List.mem_flatten.1 hc
  exact h u hu c hcu

theorem Leaves.caseWords {s : List Char} (h : Leaves run w s) {us : List (List Char)}
    (hapart : (us ++ [w]).IsChain Apart) (hw : w ≠ [])
    (hletters : ∀ u ∈ us ++ [w], ∀ c ∈ u, isAlphanumeric c = true) :
    Text.caseWords ((us ++ [w]).flatten ++ s) = us ++ glue w (readOn run s) := by
  have hflat := isAlphanumeric_of_mem_flatten hletters
  have hne : (us ++ [w]).flatten ≠ [] := by simp [hw]
  rw [caseWords_append hflat hne, splitCase_flatten_append hapart, h, readOn,
    glue_append w (resume_ne_nil _ _), List.append_assoc]

end PathQuery.Text
