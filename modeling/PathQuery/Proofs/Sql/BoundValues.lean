import PathQuery.Proofs.Sql.Placeholders

/-!
What one bound value writes and what it supplies. Two recursions go over the same tree: one writes
placeholders, the other flattens the value for the connection. They part at a key of one part, which
gets a single placeholder whatever its part supplies.
-/

set_option autoImplicit false

namespace PathQuery

namespace Value

mutual

/-- Each key of one part that gets a placeholder of its own supplies exactly one value. -/
def keysFill : Value → Bool
  | .list items => allKeysFill items
  | .entity [part] => part.flatten.length == 1
  | .entity key => allKeysFill key
  | _ => true
termination_by structural v => v

def allKeysFill : List Value → Bool
  | [] => true
  | v :: rest => v.keysFill && allKeysFill rest
termination_by structural vs => vs

end

theorem allKeysFill_iff (vs : List Value) : allKeysFill vs ↔ ∀ v ∈ vs, v.keysFill := by
  induction vs with
  | nil => simp [allKeysFill]
  | cons v vs ih => simp [allKeysFill, ih]

theorem keysFill_of_isScalar {v : Value} (h : v.isScalar) : v.keysFill := by
  cases v <;> first | rfl | simp [isScalar] at h

theorem keysFill_entity {key : List Value} (h : ∀ part, key ≠ [part]) :
    (Value.entity key).keysFill = allKeysFill key := by
  match key, h with
  | [], _ => rfl
  | [part], h => exact absurd rfl (h part)
  | _ :: _ :: _, _ => rfl

theorem flattenAll_eq (vs : List Value) : flattenAll vs = vs.flatMap flatten := by
  induction vs with
  | nil => rfl
  | cons v vs ih => simp [flattenAll, ih]

end Value

namespace Sql

/-- Induction over a value as far as it is written: a key of one part is not entered. -/
@[elab_as_elim]
theorem written_induction {P : Value → Prop} (scalar : ∀ v : Value, v.isScalar → P v)
    (fragment : ∀ sql, P (.raw sql)) (single : ∀ part, P (.entity [part]))
    (items : ∀ vs : List Value, (∀ v ∈ vs, P v) → P (.list vs))
    (parts : ∀ key : List Value, (∀ part, key ≠ [part]) → (∀ v ∈ key, P v) → P (.entity key))
    (v : Value) : P v := by
  refine @Value.rec P (fun vs => ∀ v ∈ vs, P v) ?_ ?_ ?_ ?_ ?_ ?_ ?_ ?_ ?_ items ?entity fragment
    ?nil ?cons v
  case entity =>
    intro key ih
    by_cases h : ∃ part, key = [part]
    · obtain ⟨part, rfl⟩ := h
      exact single part
    · exact parts key (not_exists.1 h) ih
  case nil => simp
  case cons =>
    intro v vs hv hvs
    exact List.forall_mem_cons.2 ⟨hv, hvs⟩
  all_goals intros; exact scalar _ rfl

mutual

/-- The fragments that stand in the text of a value. The part of a one-part key is not written,
nor is a fragment in it. -/
def fragments : Value → List String
  | .raw sql => [sql]
  | .list items => allFragments items
  | .entity [_] => []
  | .entity key => allFragments key
  | _ => []
termination_by structural v => v

def allFragments : List Value → List String
  | [] => []
  | v :: rest => fragments v ++ allFragments rest
termination_by structural vs => vs

end

theorem fragments_entity {key : List Value} (h : ∀ part, key ≠ [part]) :
    fragments (.entity key) = allFragments key := by
  match key, h with
  | [], _ => rfl
  | [part], h => exact absurd rfl (h part)
  | _ :: _ :: _, _ => rfl

theorem fragments_of_isScalar {v : Value} (h : v.isScalar) : fragments v = [] := by
  cases v <;> first | rfl | simp [Value.isScalar] at h

def fragmentMarks (v : Value) : Nat :=
  ((fragments v).flatMap String.toList).count '?'

/-- For each placeholder of a value, in order, the part of the value that it stands for. -/
def slots (v : Value) : List Value :=
  (markedPlaceholders v).filterMap Prod.snd

theorem slots_rest (vs : List Value) : (markedRest vs).filterMap Prod.snd = vs.flatMap slots := by
  induction vs with
  | nil => simp [markedRest]
  | cons v vs ih => simpa [markedRest, slots] using ih

theorem slots_tuple (vs : List Value) :
    (markedTuple vs).filterMap Prod.snd = vs.flatMap slots := by
  cases vs with
  | nil => simp [markedTuple, unmarked]
  | cons v rest => simpa [markedTuple, slots] using slots_rest rest

@[simp] theorem slots_raw (sql : String) : slots (.raw sql) = [] := by
  simp [slots, markedPlaceholders, unmarked]

@[simp] theorem slots_list (items : List Value) : slots (.list items) = items.flatMap slots := by
  simpa [slots, markedPlaceholders] using slots_tuple items

@[simp] theorem slots_part (part : Value) : slots (.entity [part]) = [.entity [part]] := by
  simp [slots, markedPlaceholders]

theorem slots_entity {key : List Value} (h : ∀ part, key ≠ [part]) :
    slots (.entity key) = key.flatMap slots := by
  match key, h with
  | [], _ => rfl
  | [part], h => exact absurd rfl (h part)
  | part :: next :: rest, _ =>
    simpa [slots, markedPlaceholders] using slots_tuple (part :: next :: rest)

theorem slots_of_isScalar {v : Value} (h : v.isScalar) : slots v = [v] := by
  simp [slots, (filter_scalar h).1]

theorem flatten_eq_slots (v : Value) : v.flatten = (slots v).flatMap Value.flatten := by
  induction v using written_induction with
  | scalar v hv => simp [slots_of_isScalar hv]
  | fragment sql => simp [Value.flatten]
  | single part => simp
  | items vs ih =>
    rw [Value.flatten, Value.flattenAll_eq, slots_list, List.flatMap_assoc]
    exact List.flatMap_congr ih
  | parts key hkey ih =>
    rw [Value.flatten, Value.flattenAll_eq, slots_entity hkey, List.flatMap_assoc]
    exact List.flatMap_congr ih

theorem count_tupleRest (vs : List Value) :
    (tupleRest vs).count '?' = (vs.flatMap placeholders).count '?' := by
  induction vs with
  | nil => rfl
  | cons v vs ih => simp [tupleRest, ih]

theorem count_tuple (vs : List Value) :
    (tuple vs).count '?' = (vs.flatMap placeholders).count '?' := by
  cases vs with
  | nil => rfl
  | cons v rest => simp [tuple, count_tupleRest]

theorem count_tuple_eq {vs : List Value}
    (h : ∀ v ∈ vs, (placeholders v).count '?' = (slots v).length + fragmentMarks v) :
    (tuple vs).count '?' =
      (vs.flatMap slots).length + ((allFragments vs).flatMap String.toList).count '?' := by
  rw [count_tuple]
  induction vs with
  | nil => rfl
  | cons v vs ih =>
    rw [List.forall_mem_cons] at h
    simp only [List.flatMap_cons, List.length_append, allFragments, List.flatMap_append,
      List.count_append, h.1, ih h.2, fragmentMarks]
    omega

/-- Apart from those of fragments, a value writes one question mark for each slot. -/
theorem count_placeholders (v : Value) :
    (placeholders v).count '?' = (slots v).length + fragmentMarks v := by
  induction v using written_induction with
  | scalar v hv =>
    simp [placeholders_of_isScalar hv, slots_of_isScalar hv, fragmentMarks,
      fragments_of_isScalar hv]
  | fragment sql => simp [placeholders, fragmentMarks, fragments]
  | single part => simp [placeholders, fragmentMarks, fragments]
  | items vs ih => simpa [placeholders, fragmentMarks, fragments] using count_tuple_eq ih
  | parts key hkey ih =>
    rw [placeholders_entity hkey, slots_entity hkey, fragmentMarks, fragments_entity hkey]
    exact count_tuple_eq ih

def Fills (slot param : Value) : Prop :=
  slot.flatten = [param]

theorem keysFill_iff_slots (v : Value) :
    v.keysFill ↔ ∀ slot ∈ slots v, slot.flatten.length = 1 := by
  induction v using written_induction with
  | scalar v hv =>
    simp [Value.keysFill_of_isScalar hv, slots_of_isScalar hv, Value.flatten_of_isScalar hv]
  | fragment sql => simp [Value.keysFill]
  | single part => simp [Value.keysFill, Value.flatten, Value.flattenAll]
  | items vs ih =>
    rw [Value.keysFill, Value.allKeysFill_iff, slots_list, List.forall_mem_flatMap]
    exact forall₂_congr ih
  | parts key hkey ih =>
    rw [Value.keysFill_entity hkey, Value.allKeysFill_iff, slots_entity hkey,
      List.forall_mem_flatMap]
    exact forall₂_congr ih

theorem fills_iff (vs : List Value) :
    List.Forall₂ Fills vs (vs.flatMap Value.flatten) ↔ ∀ slot ∈ vs, slot.flatten.length = 1 := by
  induction vs with
  | nil => simp
  | cons v vs ih =>
    rw [List.flatMap_cons, List.forall_mem_cons, ← ih]
    constructor
    · intro h
      obtain ⟨param, params, hparam, hparams, heq⟩ := List.forall₂_cons_left_iff.1 h
      have hflat : v.flatten = [param] := hparam
      rw [hflat] at heq ⊢
      obtain rfl : vs.flatMap Value.flatten = params := by simpa using heq
      exact ⟨rfl, hparams⟩
    · rintro ⟨hlength, hrest⟩
      obtain ⟨param, hflat⟩ := List.length_eq_one_iff.1 hlength
      rw [hflat]
      exact .cons hflat hrest

/-- Apart from fragments, a value writes one question mark for each of its slots, and it supplies
scalars only. Parameter for parameter they go into the slots exactly if each key of one part
supplies one value; then it writes as many question marks as it supplies values. -/
theorem value_fills_slots (v : Value) :
    (placeholders v).count '?' = (slots v).length + fragmentMarks v ∧
      (∀ param ∈ v.flatten, param.isScalar = true) ∧
      (v.keysFill = true ↔ List.Forall₂ Fills (slots v) v.flatten) ∧
      (v.keysFill = true →
        (placeholders v).count '?' = v.flatten.length + fragmentMarks v) := by
  have hfills : v.keysFill = true ↔ List.Forall₂ Fills (slots v) v.flatten := by
    rw [flatten_eq_slots, fills_iff]
    exact keysFill_iff_slots v
  refine ⟨count_placeholders v, Value.isScalar_of_mem_flatten v, hfills, fun hkeys => ?_⟩
  rw [count_placeholders, (hfills.1 hkeys).length_eq]

theorem value_fills_slots_of_nested :
    let v : Value := .list [.entity [.int 1, .list [.null, .list []]],
      .entity [.entity [.text "k"]], .raw "f('?')"]
    v.keysFill = true ∧ v.flatten.length = 3 ∧
      (placeholders v).count '?' = v.flatten.length + fragmentMarks v := by
  intro v
  have hkeys : v.keysFill = true := by decide
  exact ⟨hkeys, by decide, (value_fills_slots v).2.2.2 hkeys⟩

/-- A record whose key is another record, which has a key of two parts: one question mark, two
parameters. -/
theorem key_of_composite_key_overfills :
    let v : Value := .entity [.entity [.int 1, .int 2]]
    (placeholders v).count '?' = 1 ∧ fragmentMarks v = 0 ∧ v.flatten.length = 2 ∧
      (placeholders v).count '?' ≠ v.flatten.length + fragmentMarks v := by
  decide

end Sql

end PathQuery
