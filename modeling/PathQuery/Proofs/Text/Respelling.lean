import PathQuery.Proofs.Text.CaseWords

/-!
Names that are written in camel case with a suffix and then word by word again. The name itself
comes out as it would alone; what comes of the suffix hangs on the suffix and on the runs that the
last word of the name leaves, once as it is declared and once in camel case.
-/

set_option autoImplicit false

namespace PathQuery.Text

variable {run run' : Run} {c : Char} {s u v w : List Char} {us ws : List (List Char)}

abbrev Plain (w : List Char) : Prop :=
  ∀ c ∈ w, c.isAlphanum = true

theorem plain_cons : Plain (c :: w) ↔ c.isAlphanum = true ∧ Plain w :=
  List.forall_mem_cons

theorem lowerWord_cons (hc : c ≠ 'Σ') (w : List Char) :
    lowerWord (c :: w) = toLowercase c ++ lowerWord w := by
  rw [lowerWord]
  exact fun h => absurd h hc

theorem lowerWord_append (hw : Plain w) (v : List Char) :
    lowerWord (w ++ v) = w.map Char.toLower ++ lowerWord v := by
  induction w with
  | nil => rfl
  | cons c w ih =>
    obtain ⟨hc, hw⟩ := plain_cons.1 hw
    have hsigma : c ≠ 'Σ' := by
      rintro rfl
      exact absurd hc (by decide)
    rw [List.cons_append, lowerWord_cons hsigma, toLowercase_of_isAlphanum hc, ih hw]
    rfl

theorem lowerWord_of_plain (hw : Plain w) : lowerWord w = w.map Char.toLower := by
  have h := lowerWord_append hw []
  rwa [List.append_nil, lowerWord, List.append_nil] at h

theorem capitalize_cons (h : Plain (c :: w)) (v : List Char) :
    capitalize (c :: w ++ v) = c.toUpper :: lowerWord (w ++ v) := by
  rw [List.cons_append, capitalize, toUppercase_of_isAlphanum (plain_cons.1 h).1]
  rfl

theorem capitalize_append (hw : Plain w) (hne : w ≠ []) (v : List Char) :
    capitalize (w ++ v) = capitalize w ++ lowerWord v := by
  cases w with
  | nil => exact absurd rfl hne
  | cons c w =>
    have hnil := capitalize_cons hw []
    rw [List.append_nil, List.append_nil] at hnil
    have hw' := (plain_cons.1 hw).2
    rw [capitalize_cons hw, hnil, lowerWord_append hw', lowerWord_of_plain hw', List.cons_append]

theorem capitalize_of_plain (h : Plain (c :: w)) :
    capitalize (c :: w) = c.toUpper :: w.map Char.toLower := by
  have hnil := capitalize_cons h []
  rwa [List.append_nil, List.append_nil, lowerWord_of_plain (plain_cons.1 h).2] at hnil

theorem plain_map_toLower (hw : Plain w) : Plain (w.map Char.toLower) :=
  List.forall_mem_map.2 fun c hc => isAlphanum_toLower (hw c hc)

theorem plain_lowerWord (hw : Plain w) : Plain (lowerWord w) := by
  rw [lowerWord_of_plain hw]
  exact plain_map_toLower hw

theorem plain_capitalize (hw : Plain w) : Plain (capitalize w) := by
  cases w with
  | nil => exact nofun
  | cons c w =>
    rw [capitalize_of_plain hw]
    obtain ⟨hc, hw⟩ := plain_cons.1 hw
    exact plain_cons.2 ⟨isAlphanum_toUpper hc, plain_map_toLower hw⟩

theorem map_toLower_map_toLower (hw : Plain w) :
    (w.map Char.toLower).map Char.toLower = w.map Char.toLower := by
  rw [List.map_map]
  refine List.map_congr_left fun c hc => ?_
  exact toLower_of_not_isUpper (isAlphanum_toLower (hw c hc)) (isUpper_toLower (hw c hc))

theorem lowerWord_lowerWord (hw : Plain w) : lowerWord (lowerWord w) = lowerWord w := by
  rw [lowerWord_of_plain (plain_lowerWord hw), lowerWord_of_plain hw, map_toLower_map_toLower hw]

theorem lowerWord_capitalize (hw : Plain w) : lowerWord (capitalize w) = lowerWord w := by
  cases w with
  | nil => rfl
  | cons c w =>
    rw [lowerWord_of_plain (plain_capitalize hw), lowerWord_of_plain hw, capitalize_of_plain hw]
    obtain ⟨hc, hw⟩ := plain_cons.1 hw
    rw [List.map_cons, List.map_cons, toLower_toUpper hc, map_toLower_map_toLower hw]

theorem isUppercase_toLower (hc : c.isAlphanum = true) : isUppercase c.toLower = false := by
  rw [isUppercase_of_isAlphanum (isAlphanum_toLower hc), isUpper_toLower hc]

theorem isLowercase_toLower (hc : c.isAlpha = true) : isLowercase c.toLower = true := by
  rw [isLowercase_of_isAlphanum (isAlphanum_toLower (isAlphanum_of_isAlpha hc)), isLower_toLower hc]

theorem isLow_map_toLower (h : Plain (c :: w)) (hc : c.isAlpha = true) :
    IsLow ((c :: w).map Char.toLower) := by
  refine .mk (isLowercase_toLower hc) fun d hd => ?_
  rw [← List.map_cons] at hd
  obtain ⟨e, he, rfl⟩ := List.mem_map.1 hd
  exact isUppercase_toLower (h e he)

theorem isCapital_of_isUpper (hc : c.isUpper = true) : IsCapital c := by
  have hplain : c.isAlphanum = true := isAlphanum_of_isAlpha (isAlpha_of_isUpper hc)
  exact ⟨(isUppercase_of_isAlphanum hplain).trans hc,
    (isLowercase_of_isAlphanum hplain).trans (isLower_of_isUpper hc)⟩

theorem IsCapital.isUpper (h : IsCapital c) (hc : c.isAlphanum = true) : c.isUpper = true :=
  (isUppercase_of_isAlphanum hc).symm.trans h.1

theorem IsCapital.isAlpha (h : IsCapital c) (hc : c.isAlphanum = true) : c.isAlpha = true :=
  isAlpha_of_isUpper (h.isUpper hc)

theorem isAlpha_of_isLowercase (hc : c.isAlphanum = true) (h : isLowercase c = true) :
    c.isAlpha = true :=
  isAlpha_of_isLower ((isLowercase_of_isAlphanum hc).symm.trans h)

theorem isTitle_capitalize {d : Char} (h : Plain (c :: d :: w)) (hc : c.isAlpha = true)
    (hd : d.isAlpha = true) : IsTitle (capitalize (c :: d :: w)) := by
  rw [capitalize_of_plain h]
  obtain ⟨-, hrest⟩ := plain_cons.1 h
  exact .mk (isCapital_of_isUpper (isUpper_toUpper hc)) (isLow_map_toLower hrest hd)

theorem IsTitle.capitalize (h : IsTitle w) (hw : Plain w) : IsTitle (capitalize w) := by
  obtain ⟨capital, ⟨lower, -⟩⟩ := h
  obtain ⟨hc, hrest⟩ := plain_cons.1 hw
  exact isTitle_capitalize hw (capital.isAlpha hc)
    (isAlpha_of_isLowercase (plain_cons.1 hrest).1 lower)

theorem IsCapitals.capitalize (h : IsCapitals (c :: u)) (hu : u ≠ []) (hw : Plain (c :: u)) :
    IsTitle (capitalize (c :: u)) := by
  obtain ⟨capitals⟩ := h
  obtain ⟨d, rest, rfl⟩ := List.exists_cons_of_ne_nil hu
  obtain ⟨hc, hrest⟩ := plain_cons.1 hw
  exact isTitle_capitalize hw ((capitals c (by simp)).isAlpha hc)
    ((capitals d (by simp)).isAlpha (plain_cons.1 hrest).1)

theorem IsCapital.capitalize (h : IsCapital c) (hc : c.isAlphanum = true) :
    capitalize [c] = [c] := by
  rw [capitalize_of_plain (plain_cons.2 ⟨hc, List.forall_mem_nil _⟩),
    toUpper_of_isUpper (h.isUpper hc), List.map_nil]

theorem IsWord.capitalize (h : IsWord w) (hw : Plain w) : IsWord (capitalize w) := by
  rcases h with h | h
  · exact .inl (h.capitalize hw)
  · obtain ⟨capitals⟩ := h
    rename_i c rest
    cases rest with
    | nil =>
      rw [(capitals c (by simp)).capitalize (plain_cons.1 hw).1]
      exact .inr ⟨capitals⟩
    | cons d rest => exact .inl (IsCapitals.capitalize ⟨capitals⟩ (by simp) hw)

theorem IsWord.isLow_lowerWord (h : IsWord w) (hw : Plain w) : IsLow (lowerWord w) := by
  obtain ⟨c, rest, rfl, hc⟩ := h.exists_capital
  rw [lowerWord_of_plain hw]
  exact isLow_map_toLower hw (hc.isAlpha (plain_cons.1 hw).1)

theorem Spelled.map_capitalize (h : Spelled ws) (hws : ∀ w ∈ ws, Plain w) :
    Spelled (ws.map capitalize) := by
  constructor
  · exact List.forall_mem_map.2 fun w hw => (h.words w hw).capitalize (hws w hw)
  · rw [List.isChain_map]
    exact h.titles.imp_of_mem_imp fun u v hu hv htitles =>
      htitles.imp (·.capitalize (hws u hu)) (·.capitalize (hws v hv))

def snakeWords (ws : List (List Char)) : List Char :=
  ['_'].intercalate (ws.map lowerWord)

/-- The words of a name in camel case, before they are put together. -/
def humps : List (List Char) → List (List Char)
  | [] => []
  | word :: rest => lowerWord word :: rest.map capitalize

theorem snakeCase_eq (cs : List Char) : snakeCase cs = snakeWords (caseWords cs) := rfl

theorem lowerCamelCase_eq (cs : List Char) :
    lowerCamelCase cs = (humps (caseWords cs)).flatten := by
  rw [lowerCamelCase]
  cases caseWords cs with
  | nil => rfl
  | cons word rest => rw [humps, List.flatten_cons, ← List.flatMap_def]

theorem snakeWords_singleton (w : List Char) : snakeWords [w] = lowerWord w :=
  List.intercalate_singleton

theorem snakeWords_cons (u : List Char) (hws : ws ≠ []) :
    snakeWords (u :: ws) = lowerWord u ++ '_' :: snakeWords ws := by
  obtain ⟨v, rest, rfl⟩ := List.exists_cons_of_ne_nil hws
  rw [snakeWords, snakeWords, List.map_cons, List.map_cons, List.intercalate_cons_cons,
    List.append_assoc]
  rfl

theorem snakeWords_glue (us : List (List Char)) (hw : Plain w) (hws : ws ≠ []) :
    snakeWords (us ++ glue w ws) = snakeWords (us ++ [w]) ++ snakeWords ws := by
  induction us with
  | nil =>
    obtain ⟨v, rest, rfl⟩ := List.exists_cons_of_ne_nil hws
    rw [List.nil_append, List.nil_append, glue, snakeWords_singleton, lowerWord_of_plain hw]
    cases rest with
    | nil => rw [snakeWords_singleton, snakeWords_singleton, lowerWord_append hw]
    | cons next rest =>
      rw [snakeWords_cons _ (List.cons_ne_nil _ _), snakeWords_cons _ (List.cons_ne_nil _ _),
        lowerWord_append hw, List.append_assoc]
  | cons u us ih =>
    rw [List.cons_append, List.cons_append,
      snakeWords_cons u (List.append_ne_nil_of_right_ne_nil _ (glue_ne_nil _ _)),
      snakeWords_cons u (List.concat_ne_nil _ _), ih, List.append_assoc, List.cons_append]

theorem flatten_humps_glue (us : List (List Char)) (hw : Plain w) (hne : w ≠ []) (hws : ws ≠ []) :
    (humps (us ++ glue w ws)).flatten = (humps (us ++ [w])).flatten ++ (humps ws).flatten := by
  obtain ⟨v, rest, rfl⟩ := List.exists_cons_of_ne_nil hws
  cases us with
  | nil => simp [glue, humps, lowerWord_append hw, lowerWord_of_plain hw]
  | cons u us => simp [glue, humps, capitalize_append hw hne]

theorem snakeWords_humps (hws : ∀ w ∈ ws, Plain w) : snakeWords (humps ws) = snakeWords ws := by
  cases ws with
  | nil => rfl
  | cons u ws =>
    obtain ⟨hu, hws⟩ := List.forall_mem_cons.1 hws
    have hrest : (ws.map capitalize).map lowerWord = ws.map lowerWord := by
      rw [List.map_map]
      exact List.map_congr_left fun w hw => lowerWord_capitalize (hws w hw)
    rw [humps, snakeWords, snakeWords, List.map_cons, List.map_cons, hrest, lowerWord_lowerWord hu]

theorem plain_humps (hws : ∀ w ∈ ws, Plain w) : ∀ w ∈ humps ws, Plain w := by
  cases ws with
  | nil => exact nofun
  | cons u ws =>
    obtain ⟨hu, hws⟩ := List.forall_mem_cons.1 hws
    exact List.forall_mem_cons.2 ⟨plain_lowerWord hu,
      List.forall_mem_map.2 fun v hv => plain_capitalize (hws v hv)⟩

theorem Spelled.humps_cons (h : Spelled (u :: ws)) (hws : ∀ w ∈ u :: ws, Plain w) :
    IsLow (lowerWord u) ∧ Spelled (ws.map capitalize) := by
  obtain ⟨hu, hplain⟩ := List.forall_mem_cons.1 hws
  obtain ⟨hword, hwords⟩ := List.forall_mem_cons.1 h.words
  exact ⟨hword.isLow_lowerWord hu, Spelled.map_capitalize ⟨hwords, h.titles.tail⟩ hplain⟩

theorem Spelled.apart_humps (h : Spelled ws) (hws : ∀ w ∈ ws, Plain w) :
    (humps ws).IsChain Apart := by
  cases ws with
  | nil => exact .nil
  | cons u ws =>
    obtain ⟨hlow, hrest⟩ := h.humps_cons hws
    rw [humps]
    cases hcapitalized : ws.map capitalize with
    | nil => exact .singleton _
    | cons v rest =>
      rw [hcapitalized] at hrest
      exact .cons_cons (hlow.apart (hrest.words v (by simp))) hrest.apart

theorem IsWord.ne_nil (h : IsWord w) : w ≠ [] := by
  obtain ⟨c, rest, rfl, -⟩ := h.exists_capital
  exact List.cons_ne_nil _ _

theorem IsLow.ne_nil (h : IsLow w) : w ≠ [] := by
  obtain ⟨-, -⟩ := h
  exact List.cons_ne_nil _ _

theorem Spelled.ne_nil_of_mem_humps (h : Spelled ws) (hws : ∀ w ∈ ws, Plain w) :
    ∀ w ∈ humps ws, w ≠ [] := by
  cases ws with
  | nil => exact List.forall_mem_nil _
  | cons u ws =>
    obtain ⟨hlow, hrest⟩ := h.humps_cons hws
    exact List.forall_mem_cons.2 ⟨hlow.ne_nil, fun w hw => (hrest.words w hw).ne_nil⟩

/-- What becomes of a suffix behind two runs, the one of the name as it is declared and the one of
the name in camel case. -/
def respelled (run run' : Run) (s : List Char) : List Char :=
  snakeWords (readOn run' (humps (readOn run s)).flatten)

theorem isAlphanumeric_of_plain (hws : ∀ w ∈ ws, Plain w) :
    ∀ w ∈ ws, ∀ c ∈ w, isAlphanumeric c = true :=
  fun w hw c hc => isAlphanumeric_of_isAlphanum (hws w hw c hc)

theorem snakeCase_spelled (h : (us ++ [w]).IsChain Apart) (hplain : ∀ u ∈ us ++ [w], Plain u)
    (hw : w ≠ []) (hrun : Leaves run w s) :
    snakeCase ((us ++ [w]).flatten ++ s) = snakeWords (us ++ [w]) ++ snakeWords (readOn run s) := by
  rw [snakeCase_eq, hrun.caseWords h hw (isAlphanumeric_of_plain hplain),
    snakeWords_glue us (hplain w (by simp)) (readOn_ne_nil _ _)]

theorem snakeCase_lowerCamelCase (h : Spelled (us ++ [w])) (hplain : ∀ u ∈ us ++ [w], Plain u)
    (hrun : Leaves run w s) {vs : List (List Char)} (hhumps : humps (us ++ [w]) = vs ++ [v])
    (hrun' : Leaves run' v (humps (readOn run s)).flatten) :
    snakeCase (lowerCamelCase ((us ++ [w]).flatten ++ s)) =
      snakeWords (us ++ [w]) ++ respelled run run' s := by
  have hw : w ≠ [] := (h.words w (by simp)).ne_nil
  have hplainv := plain_humps hplain
  have hapart := h.apart_humps hplain
  have hsame := snakeWords_humps hplain
  have hne := h.ne_nil_of_mem_humps hplain
  rw [hhumps] at hplainv hapart hsame hne
  have hv : v ≠ [] := hne v (by simp)
  rw [lowerCamelCase_eq, hrun.caseWords h.apart hw (isAlphanumeric_of_plain hplain),
    flatten_humps_glue us (hplain w (by simp)) hw (readOn_ne_nil _ _), hhumps,
    snakeCase_spelled hapart hplainv hv hrun', hsame]
  rfl

end PathQuery.Text
