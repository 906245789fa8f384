import PathQuery.Proofs.Text.Respelling

/-!
Suffixes of names. Whether a suffix outlives two respellings of a name hangs on the suffix and on
how the name ends, not on the rest of the name.
-/

set_option autoImplicit false

namespace PathQuery.Text

variable {run run' : Run} {c d l : Char} {s u v w : List Char} {us ws : List (List Char)}

abbrev Letters (w : List Char) : Prop :=
  ∀ c ∈ w, c.isAlpha = true

theorem Letters.plain (hw : Letters w) : Plain w :=
  fun c hc => isAlphanum_of_isAlpha (hw c hc)

theorem isUpper_of_isAlpha (hc : c.isAlpha = true) (h : ¬ c.isLower = true) : c.isUpper = true :=
  (isAlpha_iff.1 hc).resolve_right h

theorem isLow_of_isLower (hw : Letters (c :: w)) (h : ∀ d ∈ c :: w, d.isLower = true) :
    IsLow (c :: w) := by
  refine .mk ?_ fun d hd => ?_
  · rw [isLowercase_of_isAlphanum (hw.plain c List.mem_cons_self)]
    exact h c List.mem_cons_self
  · rw [isUppercase_of_isAlphanum (hw.plain d hd)]
    exact isUpper_of_isLower (h d hd)

theorem IsCapitals.isCapital (h : IsCapitals w) : ∀ c ∈ w, IsCapital c := by
  obtain ⟨capitals⟩ := h
  exact capitals

theorem IsCapitals.not_isTitle (h : IsCapitals w) : ¬ IsTitle w := by
  rintro ⟨-, ⟨lower, -⟩⟩
  rw [(h.isCapital _ (by simp)).2] at lower
  exact Bool.false_ne_true lower

theorem Spelled.cons_title (h : Spelled ws) (hw : IsTitle w) : Spelled (w :: ws) where
  words := List.forall_mem_cons.2 ⟨.inl hw, h.words⟩
  titles := by
    cases ws with
    | nil => exact .singleton _
    | cons v ws => exact .cons_cons (.inl hw) h.titles

theorem Spelled.exists_cons_capital (h : Spelled ws) (hc : IsCapital c) :
    ∃ vs, c :: ws.flatten = vs.flatten ∧ Spelled vs := by
  have hone : IsCapitals [c] := ⟨by simpa using hc⟩
  cases ws with
  | nil => exact ⟨[[c]], rfl, by simpa using Or.inr hone, .singleton _⟩
  | cons v ws =>
    obtain ⟨hv, hws⟩ := List.forall_mem_cons.1 h.words
    by_cases htitle : IsTitle v
    · exact ⟨[c] :: v :: ws, rfl, List.forall_mem_cons.2 ⟨.inr hone, h.words⟩,
        .cons_cons (.inr htitle) h.titles⟩
    · obtain ⟨capitals⟩ := hv.resolve_left htitle
      rename_i d rest
      have hlonger : IsCapitals (c :: d :: rest) := ⟨List.forall_mem_cons.2 ⟨hc, capitals⟩⟩
      refine ⟨(c :: d :: rest) :: ws, rfl, List.forall_mem_cons.2 ⟨.inr hlonger, hws⟩, ?_⟩
      cases ws with
      | nil => exact .singleton _
      | cons next ws =>
        obtain ⟨hnext, htail⟩ := List.isChain_cons_cons.1 h.titles
        exact .cons_cons (.inr (hnext.resolve_left htitle)) htail

/-- Letters are words of camel case behind a run of lower case, by induction from their end. -/
theorem exists_words (hw : Letters w) :
    ∃ low ws, w = low ++ ws.flatten ∧ (∀ c ∈ low, c.isLower = true) ∧ Spelled ws := by
  induction w with
  | nil => exact ⟨[], [], rfl, List.forall_mem_nil _, List.forall_mem_nil _, .nil⟩
  | cons c w ih =>
    obtain ⟨hc, hrest⟩ := List.forall_mem_cons.1 hw
    obtain ⟨low, ws, rfl, hlow, hspelled⟩ := ih hrest
    by_cases hlower : c.isLower = true
    · exact ⟨c :: low, ws, rfl, List.forall_mem_cons.2 ⟨hlower, hlow⟩, hspelled⟩
    · have hcapital : IsCapital c :=
        isCapital_of_isUpper (isUpper_of_isAlpha hc hlower)
      cases low with
      | nil =>
        obtain ⟨vs, hvs, hspelled⟩ := hspelled.exists_cons_capital hcapital
        exact ⟨[], vs, hvs, List.forall_mem_nil _, hspelled⟩
      | cons d low =>
        have hletters : Letters (d :: low) := fun e he => hrest e (List.mem_append_left _ he)
        have htitle : IsTitle (c :: d :: low) := .mk hcapital (isLow_of_isLower hletters hlow)
        exact ⟨[], (c :: d :: low) :: ws, rfl, List.forall_mem_nil _, hspelled.cons_title htitle⟩

structure IsName (w : List Char) : Prop where
  letters : Letters w
  capital : w.head?.any Char.isUpper = true

theorem isName_of_all (hw : w.all Char.isAlpha = true)
    (hcapital : w.head?.any Char.isUpper = true) :
    IsName w :=
  ⟨List.all_eq_true.1 hw, hcapital⟩

theorem IsName.exists_spelled (h : IsName w) :
    ∃ us v, w = (us ++ [v]).flatten ∧ Spelled (us ++ [v]) ∧ ∀ u ∈ us ++ [v], Letters u := by
  obtain ⟨letters, capital⟩ := h
  obtain ⟨low, ws, rfl, hlow, hspelled⟩ := exists_words letters
  cases low with
  | cons c low =>
    have hlower : c.isUpper = false := isUpper_of_isLower (hlow c List.mem_cons_self)
    simp [hlower] at capital
  | nil =>
    rw [List.nil_append] at letters capital ⊢
    rcases List.eq_nil_or_concat' ws with rfl | ⟨us, v, rfl⟩
    · cases capital
    · refine ⟨us, v, rfl, hspelled, fun u hu c hc => ?_⟩
      exact letters c (List.mem_flatten.2 ⟨u, hu, hc⟩)

/-- How a name ends: lower case, a capital that is the whole name, a capital behind lower case, or
several capitals. -/
inductive Ending where
  | lower
  | letter
  | initial
  | acronym
  deriving DecidableEq, Repr

def ending (w : List Char) : Ending :=
  match w.reverse with
  | c :: d :: _ => if c.isLower then .lower else if d.isLower then .initial else .acronym
  | _ => .letter

theorem ending_append (w : List Char) (d c : Char) :
    ending (w ++ [d, c]) =
      if c.isLower then .lower else if d.isLower then .initial else .acronym := by
  simp [ending]

/-- The run a word at the end of a name leaves as it is declared. -/
def Ending.declared : Ending → Run
  | .lower => .lower
  | _ => .upper

/-- The run the same word leaves in camel case. Only a capital of its own is left one there. -/
def Ending.respelled : Ending → Run
  | .initial => .upper
  | _ => .lower

theorem isLower_of_isAlpha (hc : c.isAlpha = true) (h : isUppercase c = false) :
    c.isLower = true := by
  rw [isUppercase_of_isAlphanum (isAlphanum_of_isAlpha hc)] at h
  exact (isAlpha_iff.1 hc).resolve_left (by simp [h])

theorem IsTitle.exists_last (h : IsTitle w) (hw : Letters w) :
    ∃ p d c, w = p ++ [d, c] ∧ c.isLower = true := by
  obtain ⟨-, ⟨-, plain⟩⟩ := h
  rename_i first second rest
  obtain ⟨q, c, hq⟩ : ∃ q c, second :: rest = q ++ [c] :=
    (List.eq_nil_or_concat' _).resolve_left (List.cons_ne_nil _ _)
  obtain ⟨p, d, hp⟩ : ∃ p d, first :: q = p ++ [d] :=
    (List.eq_nil_or_concat' _).resolve_left (List.cons_ne_nil _ _)
  have hc : c ∈ second :: rest := by simp [hq]
  refine ⟨p, d, c, ?_, isLower_of_isAlpha (hw c (List.mem_cons_of_mem _ hc)) (plain c hc)⟩
  rw [hq, ← List.cons_append, hp, List.append_assoc]
  rfl

theorem IsCapital.not_isLower (h : IsCapital c) (hc : c.isAlpha = true) : ¬ c.isLower = true := by
  rw [isLower_of_isUpper (h.isUpper (isAlphanum_of_isAlpha hc))]
  exact Bool.false_ne_true

theorem IsTitle.ending_append (h : IsTitle w) (hw : Letters w) (p : List Char) :
    ending (p ++ w) = .lower := by
  obtain ⟨q, d, c, rfl, hlower⟩ := h.exists_last hw
  rw [← List.append_assoc, Text.ending_append, if_pos hlower]

theorem IsTitle.ending_append_capital (h : IsTitle w) (hw : Letters w) (hc : IsCapital c)
    (halpha : c.isAlpha = true) (p : List Char) : ending (p ++ w ++ [c]) = .initial := by
  obtain ⟨q, d, e, rfl, hlower⟩ := h.exists_last hw
  have hsame : p ++ (q ++ [d, e]) ++ [c] = (p ++ q ++ [d]) ++ [e, c] := by simp
  rw [hsame, Text.ending_append, if_neg (hc.not_isLower halpha), if_pos hlower]

theorem IsCapitals.ending_append (h : IsCapitals (w ++ [d, c])) (hw : Letters (w ++ [d, c]))
    (p : List Char) : ending (p ++ (w ++ [d, c])) = .acronym := by
  have capitals := h.isCapital
  have hc := (capitals c (by simp)).not_isLower (hw c (by simp))
  have hd := (capitals d (by simp)).not_isLower (hw d (by simp))
  rw [← List.append_assoc, Text.ending_append, if_neg hc, if_neg hd]

inductive Ends : List (List Char) → List Char → Ending → Prop
  | lower {us : List (List Char)} {w : List Char} (title : IsTitle w) : Ends us w .lower
  | letter {c : Char} (capital : IsCapital c) : Ends [] [c] .letter
  | initial {us : List (List Char)} {c : Char} (behind : us ≠ []) (capital : IsCapital c) :
    Ends us [c] .initial
  | acronym {us : List (List Char)} {p : List Char} {c : Char} (longer : p ≠ [])
    (capitals : IsCapitals (p ++ [c])) : Ends us (p ++ [c]) .acronym

theorem Spelled.ends (h : Spelled (us ++ [w])) (hletters : ∀ u ∈ us ++ [w], Letters u) :
    Ends us w (ending (us ++ [w]).flatten) := by
  have hw : Letters w := hletters w (by simp)
  rw [List.flatten_concat]
  rcases h.words w (by simp) with htitle | hcapitals
  · rw [htitle.ending_append hw]
    exact .lower htitle
  · obtain ⟨p, c, rfl⟩ := (List.eq_nil_or_concat' w).resolve_left (IsWord.ne_nil (.inr hcapitals))
    have hc : IsCapital c := hcapitals.isCapital c (by simp)
    rcases List.eq_nil_or_concat' p with rfl | ⟨q, d, rfl⟩
    · rcases List.eq_nil_or_concat' us with rfl | ⟨vs, v, rfl⟩
      · exact .letter hc
      · -- The word in front of a capital of its own is no acronym, so it ends in lower case.
        have hv : IsTitle v := by
          have hpair := h.titles
          rw [List.append_assoc, List.singleton_append, List.isChain_append_cons_cons] at hpair
          exact hpair.2.1.resolve_right hcapitals.not_isTitle
        rw [List.flatten_concat, List.nil_append,
          hv.ending_append_capital (hletters v (by simp)) hc (hw c (by simp))]
        exact .initial (List.concat_ne_nil _ _) hc
    · rw [List.append_assoc, List.singleton_append] at hcapitals hw ⊢
      rw [hcapitals.ending_append hw]
      have hlast : q ++ [d, c] = q ++ [d] ++ [c] := by simp
      rw [hlast] at hcapitals ⊢
      exact .acronym (List.concat_ne_nil _ _) hcapitals

/-- Behind several capitals the last one is left to the suffix if that starts in lower case. -/
theorem Ends.leaves {e : Ending} (h : Ends us w e)
    (hs : e = .acronym → (firstPiece s).head?.any isLowercase = false) :
    Leaves e.declared w s := by
  cases h with
  | lower title => exact title.leaves s
  | letter capital => exact capital.leaves s
  | initial behind capital => exact capital.leaves s
  | acronym longer capitals => exact capitals.leaves (hs rfl)

theorem IsCapitals.capitalize_append (h : IsCapitals (u ++ [c])) (hu : u ≠ [])
    (hw : Plain (u ++ [c])) : IsTitle (Text.capitalize (u ++ [c])) := by
  obtain ⟨d, rest, rfl⟩ := List.exists_cons_of_ne_nil hu
  exact IsCapitals.capitalize h (List.concat_ne_nil _ _) hw

theorem Ends.leaves_humps {e : Ending} (h : Ends us w e) (hw : IsWord w) (hplain : Plain w) :
    ∃ vs v, humps (us ++ [w]) = vs ++ [v] ∧ ∀ s, Leaves e.respelled v s := by
  cases us with
  | nil =>
    refine ⟨[], lowerWord w, rfl, fun s => ?_⟩
    have hlow := (hw.isLow_lowerWord hplain).leaves s
    cases h with
    | lower title => exact hlow
    | letter capital => exact hlow
    | initial behind capital => exact absurd rfl behind
    | acronym longer capitals => exact hlow
  | cons u us =>
    refine ⟨lowerWord u :: us.map capitalize, capitalize w, by simp [humps], fun s => ?_⟩
    cases h with
    | lower title => exact (title.capitalize hplain).leaves s
    | initial behind capital =>
      rw [capital.capitalize (plain_cons.1 hplain).1]
      exact capital.leaves s
    | acronym longer capitals => exact (capitals.capitalize_append longer hplain).leaves s

theorem readOn_upper_capital (hc : IsCapital c) (halnum : isAlphanumeric c = true)
    (hs : (firstPiece s).head?.any isLowercase = true) :
    readOn .upper (c :: s) =
      [] :: glue [c] (splitCase .fresh (firstPiece s) ++ (separate s).tail.flatMap wordsOf) := by
  rw [readOn_cons halnum, resume_of_ne_lower (by decide), splitCase_upper_of_lower hc hs,
    List.cons_append, glue_append _ (splitCase_ne_nil _ _)]

theorem readOn_capital (hc : IsCapital c) (halnum : isAlphanumeric c = true)
    (hs : (firstPiece s).head?.any isLowercase = true) (hrun : run ≠ .fresh) :
    ∃ ws, ws ≠ [] ∧ readOn run (c :: s) = [] :: ws := by
  cases run with
  | fresh => exact absurd rfl hrun
  | upper => exact ⟨_, glue_ne_nil _ _, readOn_upper_capital hc halnum hs⟩
  | lower =>
    refine ⟨splitCase .fresh (c :: firstPiece s) ++ (separate s).tail.flatMap wordsOf,
      List.append_ne_nil_of_left_ne_nil (splitCase_ne_nil _ _) _, ?_⟩
    rw [readOn_cons halnum, resume_lower_of_capital hc, List.cons_append]

theorem toUppercase_of_isCapital (hc : IsCapital c) (hplain : c.isAlphanum = true) :
    toUppercase c = [c] := by
  rw [toUppercase_of_isAlphanum hplain, toUpper_of_isUpper (hc.isUpper hplain)]

theorem humps_readOn_capital (hc : IsCapital c) (hplain : c.isAlphanum = true)
    (hs : (firstPiece s).head?.any isLowercase = true) :
    ∃ l rest, (humps (readOn .upper (c :: s))).flatten = c :: l :: rest ∧
      isLowercase l = true ∧ isAlphanumeric l = true := by
  obtain ⟨l, piece, hpiece⟩ : ∃ l piece, firstPiece s = l :: piece := by
    cases h : firstPiece s with
    | nil => rw [h] at hs; cases hs
    | cons l piece => exact ⟨l, piece, rfl⟩
  have hl : isLowercase l = true := by simpa [hpiece] using hs
  obtain ⟨x, ws, hwords⟩ := splitCase_fresh_cons l piece
  have hsigma : l ≠ 'Σ' := by
    rintro rfl
    exact absurd hl (by decide)
  refine ⟨l, lowerWord x ++ (ws ++ (separate s).tail.flatMap wordsOf).flatMap capitalize, ?_, hl,
    isAlphanumeric_of_mem_firstPiece (hpiece ▸ List.mem_cons_self)⟩
  rw [readOn_upper_capital hc (isAlphanumeric_of_isAlphanum hplain) hs, hpiece, hwords,
    List.cons_append, glue, humps, List.map_cons, List.singleton_append, capitalize,
    toUppercase_of_isCapital hc hplain, lowerWord_cons hsigma, toLowercase_of_isLowercase hl]
  simp [lowerWord, List.flatMap_def]

/-- Read behind an acronym, a capital in front of lower case ends up behind an underscore. -/
theorem respelled_capital (hc : IsCapital c) (hplain : c.isAlphanum = true)
    (hs : (firstPiece s).head?.any isLowercase = true) (hrun : run ≠ .fresh) :
    ∃ rest, respelled .upper run (c :: s) = '_' :: rest := by
  obtain ⟨l, rest, hhumps, hl, halnum⟩ := humps_readOn_capital hc hplain hs
  have hpiece : (firstPiece (l :: rest)).head?.any isLowercase = true := by
    rw [firstPiece_cons halnum]
    simpa using hl
  obtain ⟨ws, hws, hread⟩ :=
    readOn_capital hc (isAlphanumeric_of_isAlphanum hplain) hpiece hrun
  exact ⟨snakeWords ws, by rw [respelled, hhumps, hread, snakeWords_cons _ hws]; rfl⟩

theorem Spelled.exchange (h : Spelled (us ++ [v])) (hv : IsCapitals v) (hw : IsCapitals w) :
    Spelled (us ++ [w]) := by
  constructor
  · intro u hu
    rcases List.mem_append.1 hu with hu | hu
    · exact h.words u (List.mem_append_left _ hu)
    · rw [List.mem_singleton.1 hu]
      exact .inr hw
  · have htitles := h.titles
    rw [List.isChain_append] at htitles ⊢
    refine ⟨htitles.1, .singleton _, fun u hu x _ => .inl ?_⟩
    exact (htitles.2.2 u hu v rfl).resolve_right hv.not_isTitle

theorem Ending.respelled_ne_fresh (e : Ending) : e.respelled ≠ .fresh := by
  cases e <;> decide

theorem snakeCase_of_ends {e : Ending} (h : Ends us w e) (hspelled : Spelled (us ++ [w]))
    (hplain : ∀ u ∈ us ++ [w], Plain u) :
    snakeCase (us ++ [w]).flatten = snakeWords (us ++ [w]) := by
  have hw : w ≠ [] := (hspelled.words w (by simp)).ne_nil
  have hcase := snakeCase_spelled hspelled.apart hplain hw (h.leaves (s := []) fun _ => rfl)
  have hnothing : readOn e.declared [] = [[]] := by
    rw [readOn]
    exact congrArg (· ++ []) (resume_nil _)
  rwa [List.append_nil, hnothing, snakeWords_singleton, lowerWord, List.append_nil] at hcase

theorem snakeWords_append_capital (us : List (List Char)) (hu : Plain u)
    (hc : c.isAlphanum = true) :
    snakeWords (us ++ [u ++ [c]]) = snakeWords (us ++ [u]) ++ [c.toLower] := by
  have hlower : snakeWords [[c]] = [c.toLower] := by
    rw [snakeWords_singleton, lowerWord_of_plain (plain_cons.2 ⟨hc, List.forall_mem_nil _⟩)]
    rfl
  rw [← hlower, ← snakeWords_glue us hu (List.cons_ne_nil _ _)]
  rfl

/-- A suffix in lower case takes the last capital of an acronym with it. -/
theorem snakeCase_lowerCamelCase_ne (h : Spelled (us ++ [u ++ [c]])) (hu : u ≠ [])
    (hcapitals : IsCapitals (u ++ [c])) (hletters : ∀ v ∈ us ++ [u ++ [c]], Letters v)
    (hs : (firstPiece s).head?.any isLowercase = true) :
    snakeCase (lowerCamelCase ((us ++ [u ++ [c]]).flatten ++ s)) ≠
      snakeCase (us ++ [u ++ [c]]).flatten ++ s := by
  have hc : IsCapital c := hcapitals.isCapital c (by simp)
  have hbefore : IsCapitals u := by
    obtain ⟨d, rest, rfl⟩ := List.exists_cons_of_ne_nil hu
    exact ⟨fun e he => hcapitals.isCapital e (List.mem_append_left _ he)⟩
  have hlast : Letters (u ++ [c]) := hletters _ (by simp)
  have hplain : c.isAlphanum = true := hlast.plain c (by simp)
  -- The name without its last capital, which the suffix has in front.
  have hshort : Spelled (us ++ [u]) := h.exchange hcapitals hbefore
  have hletters' : ∀ v ∈ us ++ [u], Letters v := by
    intro v hv
    rcases List.mem_append.1 hv with hv | hv
    · exact hletters v (List.mem_append_left _ hv)
    · rw [List.mem_singleton.1 hv]
      exact fun e he => hlast e (List.mem_append_left _ he)
  have hplains : ∀ v ∈ us ++ [u], Plain v := fun v hv => (hletters' v hv).plain
  have hleaves : Leaves .upper u (c :: s) := by
    refine hbefore.leaves ?_
    rw [firstPiece_cons (isAlphanumeric_of_isAlphanum hplain)]
    simpa using hc.2
  obtain ⟨vs, v, hhumps, hv⟩ := (hshort.ends hletters').leaves_humps (hshort.words u (by simp))
    (hplains u (by simp))
  obtain ⟨rest, hrest⟩ := respelled_capital hc hplain hs (Ending.respelled_ne_fresh _)
  have htwice := snakeCase_lowerCamelCase hshort hplains hleaves hhumps (hv _)
  have hname := snakeCase_of_ends (.acronym hu hcapitals) h fun v hv => (hletters v hv).plain
  rw [snakeWords_append_capital us (hplains u (by simp)) hplain] at hname
  have htext : (us ++ [u ++ [c]]).flatten ++ s = (us ++ [u]).flatten ++ c :: s := by simp
  rw [htext, htwice, hname, hrest, List.append_assoc, List.singleton_append]
  intro hsame
  have hhead : '_' = c.toLower := (List.cons.inj (List.append_cancel_left hsame)).1
  exact absurd (isAlphanum_toLower hplain) (by rw [← hhead]; decide)

/-- Behind a name with the ending the suffix comes out of camel case as it was. -/
def Keeps (e : Ending) (s : List Char) : Prop :=
  (e = .acronym → (firstPiece s).head?.any isLowercase = false) ∧
    respelled e.declared e.respelled s = s

theorem snakeCase_lowerCamelCase_iff (h : IsName w) (s : List Char) :
    snakeCase (lowerCamelCase (w ++ s)) = snakeCase w ++ s ↔ Keeps (ending w) s := by
  obtain ⟨us, v, rfl, hspelled, hletters⟩ := h.exists_spelled
  have hplain : ∀ u ∈ us ++ [v], Plain u := fun u hu => (hletters u hu).plain
  have hends := hspelled.ends hletters
  generalize ending (us ++ [v]).flatten = e at hends ⊢
  by_cases hs : e = .acronym → (firstPiece s).head?.any isLowercase = false
  · obtain ⟨vs, hump, hhumps, hleaves⟩ := hends.leaves_humps (hspelled.words v (by simp))
      (hplain v (by simp))
    rw [snakeCase_lowerCamelCase hspelled hplain (hends.leaves hs) hhumps (hleaves _),
      snakeCase_of_ends hends hspelled hplain, List.append_cancel_left_eq]
    exact (and_iff_right hs).symm
  · rw [Classical.not_imp] at hs
    obtain ⟨rfl, hlow⟩ := hs
    cases hends with
    | acronym longer capitals =>
      refine iff_of_false (snakeCase_lowerCamelCase_ne hspelled longer capitals hletters ?_)
        fun hkeeps => hlow (hkeeps.1 rfl)
      simpa using hlow

def isKeyWord : List Char → Bool
  | c :: d :: rest => c.isLower && d.isLower && rest.all fun e => e.isLower || e.isDigit
  | _ => false

def underscored (ws : List (List Char)) : List Char :=
  ws.flatMap ('_' :: ·)

theorem isKeyWord_iff : isKeyWord w = true ↔ ∃ c d rest, w = c :: d :: rest ∧ c.isLower = true ∧
    d.isLower = true ∧ ∀ e ∈ rest, e.isLower = true ∨ e.isDigit = true := by
  cases w with
  | nil => simp [isKeyWord]
  | cons c w =>
    cases w with
    | nil => simp [isKeyWord]
    | cons d rest => simp [isKeyWord, and_assoc]

theorem forall_isLower_or_isDigit (h : isKeyWord w = true) :
    ∀ c ∈ w, c.isLower = true ∨ c.isDigit = true := by
  obtain ⟨c, d, rest, rfl, hc, hd, hrest⟩ := isKeyWord_iff.1 h
  simpa [hc, hd] using hrest

theorem plain_of_isKeyWord (h : isKeyWord w = true) : Plain w := by
  intro c hc
  rcases forall_isLower_or_isDigit h c hc with hc | hc
  · exact isAlphanum_of_isAlpha (isAlpha_of_isLower hc)
  · exact isAlphanum_iff.2 (.inr hc)

theorem isUpper_of_isKeyWord (h : isKeyWord w = true) : ∀ c ∈ w, c.isUpper = false := fun c hc =>
  forall_isAlphanum (P := fun c => c.isLower = true ∨ c.isDigit = true → c.isUpper = false)
    (by decide) (plain_of_isKeyWord h c hc) (forall_isLower_or_isDigit h c hc)

theorem lowerWord_of_isKeyWord (h : isKeyWord w = true) : lowerWord w = w := by
  have hplain := plain_of_isKeyWord h
  rw [lowerWord_of_plain hplain]
  conv_rhs => rw [← List.map_id w]
  exact List.map_congr_left fun c hc =>
    toLower_of_not_isUpper (hplain c hc) (isUpper_of_isKeyWord h c hc)

theorem isLow_of_isKeyWord (h : isKeyWord w = true) : IsLow w := by
  obtain ⟨c, d, rest, rfl, hc, -, -⟩ := isKeyWord_iff.1 h
  have hlow := isLow_map_toLower (plain_of_isKeyWord h) (isAlpha_of_isLower hc)
  rwa [← lowerWord_of_plain (plain_of_isKeyWord h), lowerWord_of_isKeyWord h] at hlow

theorem isTitle_of_isKeyWord (h : isKeyWord w = true) : IsTitle (capitalize w) := by
  obtain ⟨c, d, rest, rfl, hc, hd, -⟩ := isKeyWord_iff.1 h
  exact isTitle_capitalize (plain_of_isKeyWord h) (isAlpha_of_isLower hc)
    (isAlpha_of_isLower hd)

theorem separate_underscored (hws : ∀ w ∈ ws, Plain w) : separate (underscored ws) = [] :: ws := by
  induction ws with
  | nil => rfl
  | cons w ws ih =>
    obtain ⟨hw, hws⟩ := List.forall_mem_cons.1 hws
    have hpiece : firstPiece (underscored ws) = [] := by rw [firstPiece, ih hws]; rfl
    have hbar : ¬ isAlphanumeric '_' = true := by decide
    rw [underscored, List.flatMap_cons, List.cons_append, separate, if_neg hbar,
      separate_append fun c hc => isAlphanumeric_of_isAlphanum (hw c hc), ← underscored, hpiece,
      List.append_nil, ih hws]
    rfl

theorem IsLow.wordsOf (h : IsLow w) : wordsOf w = [w] := by
  have hsplit := h.splitCase_append .fresh []
  rw [List.append_nil, resume_nil, glue, List.append_nil] at hsplit
  rw [Text.wordsOf, if_neg (by simpa using h.ne_nil), hsplit]

theorem readOn_underscored (run : Run) (hws : ∀ w ∈ ws, isKeyWord w = true) :
    readOn run (underscored ws) = [] :: ws := by
  have hseparate := separate_underscored fun w hw => plain_of_isKeyWord (hws w hw)
  have hwords : ws.flatMap wordsOf = ws := by
    rw [List.flatMap_congr fun w hw => (isLow_of_isKeyWord (hws w hw)).wordsOf]
    exact List.flatMap_singleton' ws
  rw [readOn, firstPiece, hseparate, List.headD_cons, resume_nil, List.tail_cons, hwords,
    List.singleton_append]

theorem spelled_of_titles (hws : ∀ w ∈ ws, IsTitle w) : Spelled ws := by
  induction ws with
  | nil => exact ⟨List.forall_mem_nil _, .nil⟩
  | cons w ws ih =>
    obtain ⟨hw, hws⟩ := List.forall_mem_cons.1 hws
    exact (ih hws).cons_title hw

theorem splitCase_titles (hws : ∀ w ∈ ws, IsTitle w) (hne : ws ≠ []) :
    splitCase .fresh ws.flatten = ws := by
  obtain ⟨us, w, rfl⟩ := (List.eq_nil_or_concat' ws).resolve_left hne
  have hlast := (hws w (by simp)).splitCase_append []
  rw [List.append_nil, resume_nil, glue, List.append_nil] at hlast
  have hsplit := splitCase_flatten_append (spelled_of_titles hws).apart []
  rwa [List.append_nil, List.append_nil, hlast] at hsplit

theorem resume_titles (hws : ∀ w ∈ ws, IsTitle w) (hrun : run ≠ .fresh) :
    resume run ws.flatten = [] :: ws := by
  cases ws with
  | nil => exact resume_nil run
  | cons w ws =>
    have hw : IsTitle w := hws w List.mem_cons_self
    have hsplit := splitCase_titles hws (List.cons_ne_nil _ _)
    rw [List.flatten_cons] at hsplit ⊢
    cases run with
    | fresh => exact absurd rfl hrun
    | lower => rw [IsWord.resume_lower (.inl hw), hsplit]
    | upper => rw [resume_of_ne_lower (by decide), hw.splitCase_upper_append, hsplit]

theorem snakeWords_cons_eq (u : List Char) (ws : List (List Char)) :
    snakeWords (u :: ws) = lowerWord u ++ underscored (ws.map lowerWord) := by
  induction ws generalizing u with
  | nil => rw [snakeWords_singleton]; exact (List.append_nil _).symm
  | cons w ws ih =>
    rw [snakeWords_cons u (List.cons_ne_nil _ _), ih]
    rfl

theorem readOn_titles (hws : ∀ w ∈ ws, IsTitle w) (hplain : ∀ w ∈ ws, Plain w)
    (hrun : run ≠ .fresh) : readOn run ws.flatten = [] :: ws := by
  have hflat := isAlphanumeric_of_mem_flatten (isAlphanumeric_of_plain hplain)
  have hnothing : firstPiece [] = [] := rfl
  have hread := readOn_append hflat run []
  rw [List.append_nil, hnothing, List.append_nil, resume_titles hws hrun] at hread
  exact hread.trans (List.append_nil _)

theorem map_lowerWord_capitalize (hws : ∀ w ∈ ws, isKeyWord w = true) :
    (ws.map capitalize).map lowerWord = ws := by
  rw [List.map_map]
  conv_rhs => rw [← List.map_id ws]
  refine List.map_congr_left fun w hw => ?_
  exact (lowerWord_capitalize (plain_of_isKeyWord (hws w hw))).trans
    (lowerWord_of_isKeyWord (hws w hw))

/-- Behind every ending, words in lower case become titles in camel case and come back as they were.
-/
theorem keeps_underscored (e : Ending) (hws : ∀ w ∈ ws, isKeyWord w = true) :
    Keeps e (underscored ws) := by
  have hplain : ∀ w ∈ ws, Plain w := fun w hw => plain_of_isKeyWord (hws w hw)
  have hpiece : firstPiece (underscored ws) = [] := by
    rw [firstPiece, separate_underscored hplain]
    rfl
  refine ⟨fun _ => by rw [hpiece]; rfl, ?_⟩
  have hhumps : (humps ([] :: ws)).flatten = (ws.map capitalize).flatten := rfl
  have hread : readOn e.respelled (ws.map capitalize).flatten = [] :: ws.map capitalize :=
    readOn_titles (List.forall_mem_map.2 fun w hw => isTitle_of_isKeyWord (hws w hw))
      (List.forall_mem_map.2 fun w hw => plain_capitalize (hplain w hw)) e.respelled_ne_fresh
  rw [respelled, readOn_underscored _ hws, hhumps, hread, snakeWords_cons_eq,
    map_lowerWord_capitalize hws]
  rfl

end PathQuery.Text
