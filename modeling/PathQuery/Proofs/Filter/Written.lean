import Mathlib.Data.List.Forall2
import PathQuery.Filter.Json
import PathQuery.Proofs.Outcome

/-!
Filters written as JSON and filters put together step by step. A connective is written as a string
in any case, a comparison as an array of three, a group as the array of its steps. Reading the array
of the steps gives the filter that the steps build.
-/

set_option autoImplicit false

namespace PathQuery

def Binary64.isFinite (x : Binary64) : Bool :=
  match x.reading with
  | .finite _ _ _ => true
  | _ => false

namespace Value

mutual

def toJson? : Value → Option Json
  | .null => some .null
  | .bool b => some (.bool b)
  | .int n => some (.number (.integer n.toInt))
  | .float x => if x.isFinite then some (.number (.float x)) else none
  | .text s => some (.string s)
  | .json (.object members) => some (.object members)
  | .list items => (toJsonItems? items).map .array
  | _ => none
termination_by structural v => v

def toJsonItems? : List Value → Option (List Json)
  | [] => some []
  | v :: rest => (toJson? v).bind fun j => (toJsonItems? rest).map (j :: ·)
termination_by structural vs => vs

end

theorem ofNumber_toInt (n : Int64) : ofNumber (.integer n.toInt) = .int n := by
  have hlow := n.le_toInt
  have hhigh := n.toInt_lt
  have h : -(twoTo 63 : Int) ≤ n.toInt ∧ n.toInt < twoTo 63 := by
    simpa [twoTo] using And.intro hlow hhigh
  rw [ofNumber, if_pos h, Int64.ofInt_toInt]

mutual

theorem ofJson_of_toJson? {v : Value} {j : Json} (h : v.toJson? = some j) : ofJson j = v := by
  match v with
  | .null | .bool _ | .text _ =>
    cases h
    rfl
  | .int n =>
    cases h
    exact ofNumber_toInt n
  | .float x =>
    simp only [toJson?] at h
    split at h
    · cases h
      rfl
    · cases h
  | .json (.object members) =>
    cases h
    rfl
  | .list items =>
    simp only [toJson?, Option.map_eq_some_iff] at h
    obtain ⟨js, hjs, rfl⟩ := h
    rw [ofJson, ofJsonItems_of_toJsonItems? hjs]
  | .json .null | .json (.bool _) | .json (.number _) | .json (.string _) | .json (.array _)
  | .blob _ | .timestamp _ | .uuid _ | .entity _ | .raw _ => cases h

theorem ofJsonItems_of_toJsonItems? {vs : List Value} {js : List Json}
    (h : toJsonItems? vs = some js) : ofJsonItems js = vs := by
  match vs with
  | [] =>
    cases h
    rfl
  | v :: rest =>
    simp only [toJsonItems?, Option.bind_eq_some_iff, Option.map_eq_some_iff] at h
    obtain ⟨j, hj, js, hjs, rfl⟩ := h
    rw [ofJsonItems, ofJson_of_toJson? hj, ofJsonItems_of_toJsonItems? hjs]

end

end Value

namespace Text

theorem toUpper_of_isBlank {c : Char} (h : isBlank c = true) : c.toUpper = c := by
  refine dif_neg fun hlower => ?_
  simp only [UInt32.le_iff_toNat_le, isBlank, Bool.or_eq_true, Bool.and_eq_true, decide_eq_true_eq,
    Char.le_def, beq_iff_eq, Char.ext_iff, ← UInt32.toNat_inj, Char.reduceVal, UInt32.reduceToNat]
    at h hlower
  omega

theorem trim_of_forall_not_blank {cs : List Char} (h : ∀ c ∈ cs, isBlank c = false) :
    trim cs = cs := by
  have hdrop {ds : List Char} (hds : ∀ c ∈ ds, isBlank c = false) : ds.dropWhile isBlank = ds := by
    cases ds with
    | nil => rfl
    | cons d ds => exact List.dropWhile_cons_of_neg (by simp [hds d])
  rw [trim, trimStart, hdrop h, trimEnd, hdrop (by simpa using h), List.reverse_reverse]

end Text

namespace Connective

/-- The text is the keyword of the connective, in whatever case. -/
def Spelled (c : Connective) (token : String) : Prop :=
  Text.upperAscii token.toList = c.sql.toList

instance (c : Connective) (token : String) : Decidable (c.Spelled token) :=
  inferInstanceAs (Decidable (_ = _))

theorem not_isBlank_of_mem_sql {c : Connective} {ch : Char} (h : ch ∈ c.sql.toList) :
    Text.isBlank ch = false := by
  have hall : c.sql.toList.all (! Text.isBlank ·) = true := by cases c <;> decide
  simpa using List.all_eq_true.1 hall ch h

/-- A keyword holds no blank, so that trimming leaves it. -/
theorem Spelled.ofText?_eq {c : Connective} {token : String} (h : c.Spelled token) :
    ofText? token.toList = some c := by
  have hblank : ∀ ch ∈ token.toList, Text.isBlank ch = false := by
    intro ch hch
    by_contra hb
    have hmem : ch.toUpper ∈ c.sql.toList := h ▸ List.mem_map_of_mem hch
    rw [Text.toUpper_of_isBlank (by simpa using hb)] at hmem
    exact hb (not_isBlank_of_mem_sql hmem)
  rw [ofText?, Text.trim_of_forall_not_blank hblank, h]
  cases c <;> rfl

theorem Spelled.isToken {c : Connective} {token : String} (h : c.Spelled token) :
    isToken token = true := by
  rw [Connective.isToken, h.ofText?_eq]
  rfl

end Connective

namespace Filter

inductive Step where
  | next (c : Connective)
  | compare (path operator : String) (value : Value)
  | group (steps : List Step)

mutual

def Step.apply (f : Filter) : Step → Filter
  | .next c => f.next c
  | .compare path operator value => f.compare path operator value
  | .group steps => f.group (applyAll empty steps)
termination_by structural s => s

def Step.applyAll (f : Filter) : List Step → Filter
  | [] => f
  | s :: rest => applyAll (s.apply f) rest
termination_by structural ss => ss

end

mutual

/-- The path of a comparison is not a connective: an array that begins with one is a group. -/
def Step.WrittenAs : Step → Json → Prop
  | .next c, j => ∃ token, c.Spelled token ∧ j = .string token
  | .compare path operator value, j =>
    Connective.isToken path = false ∧
      ∃ item, value.toJson? = some item ∧ j = .array [.string path, .string operator, item]
  | .group steps, j => ∃ items, AllWrittenAs steps items ∧ j = .array items
termination_by structural s => s

def Step.AllWrittenAs : List Step → List Json → Prop
  | [], js => js = []
  | s :: rest, js => ∃ j items, s.WrittenAs j ∧ AllWrittenAs rest items ∧ js = j :: items
termination_by structural ss => ss

end

theorem nextToken_of_spelled {c : Connective} {token : String} (h : c.Spelled token) (f : Filter) :
    f.nextToken token = .ok (f.next c) := by
  rw [nextToken, Connective.parse, h.ofText?_eq]
  rfl

theorem Step.triple?_eq_none {steps : List Step} {items : List Json}
    (h : AllWrittenAs steps items) : triple? items = none := by
  unfold triple?
  split
  · next path operator value =>
    match steps with
    | [] => cases h
    | s :: rest =>
      obtain ⟨j, items, hs, -, heq⟩ := h
      cases heq
      cases s with
      | next c =>
        obtain ⟨token, hc, heq⟩ := hs
        cases heq
        rw [if_pos hc.isToken]
      | compare path operator value =>
        obtain ⟨-, item, -, heq⟩ := hs
        cases heq
      | group steps =>
        obtain ⟨items, -, heq⟩ := hs
        cases heq
  · rfl

mutual

theorem pushItem_of_writtenAs {s : Step} {j : Json} (h : s.WrittenAs j) (f : Filter) :
    f.pushItem j = .ok (s.apply f) := by
  match s with
  | .next c =>
    obtain ⟨token, hc, rfl⟩ := h
    rw [pushItem, nextToken_of_spelled hc, Step.apply]
  | .compare path operator value =>
    obtain ⟨hpath, item, hitem, rfl⟩ := h
    simp [pushItem, triple?, hpath, Step.apply, Value.ofJson_of_toJson? hitem]
  | .group steps =>
    obtain ⟨items, hitems, rfl⟩ := h
    simp [pushItem, Step.triple?_eq_none hitems, pushItems_of_writtenAs hitems, Step.apply]

theorem pushItems_of_writtenAs {steps : List Step} {items : List Json}
    (h : Step.AllWrittenAs steps items) (f : Filter) :
    f.pushItems items = .ok (Step.applyAll f steps) := by
  match steps with
  | [] =>
    cases h
    rfl
  | s :: rest =>
    obtain ⟨j, items, hs, hrest, rfl⟩ := h
    rw [pushItems, pushItem_of_writtenAs hs, Step.applyAll]
    exact pushItems_of_writtenAs hrest (s.apply f)

end

/-- Steps written as a JSON array, connectives in any case, comparisons as arrays of three and
groups as arrays of their own steps, are read as the filter that they build: the same criteria in
the same order, each under the same connective and with the same value. -/
theorem ofJson_of_writtenAs {steps : List Step} {items : List Json}
    (h : Step.AllWrittenAs steps items) :
    ofJson (.array items) = .ok (Step.applyAll empty steps) := by
  rw [ofJson]
  simp only [Step.triple?_eq_none h]
  exact pushItems_of_writtenAs h empty

/-- A connective between a comparison and a group goes to the group and not into it. -/
theorem ofJson_of_writtenAs_group :
    ofJson (.array [.array [.string "age", .string ">", .number (.integer 3)], .string "oR",
        .array [.array [.string "name", .string "=", .string "or"],
          .array [.string "tags", .string "IN", .array [.null, .bool true]]]]) =
      .ok
        { criteria :=
            [.compare .and "age" ">" (.int 3),
              .group .or
                [.compare .and "name" "=" (.text "or"),
                  .compare .and "tags" "IN" (.list [.null, .bool true])]] } := by
  have hwritten :
      Step.AllWrittenAs
        [.compare "age" ">" (.int 3), .next .or,
          .group [.compare "name" "=" (.text "or"),
            .compare "tags" "IN" (.list [.null, .bool true])]]
        [.array [.string "age", .string ">", .number (.integer 3)], .string "oR",
          .array [.array [.string "name", .string "=", .string "or"],
            .array [.string "tags", .string "IN", .array [.null, .bool true]]]] :=
    ⟨_, _, ⟨by decide, _, rfl, rfl⟩,
      ⟨_, _, ⟨"oR", by decide, rfl⟩,
        ⟨_, _, ⟨_, ⟨_, _, ⟨by decide, _, rfl, rfl⟩,
          ⟨_, _, ⟨by decide, _, rfl, rfl⟩, rfl, rfl⟩, rfl⟩, rfl⟩, rfl, rfl⟩, rfl⟩, rfl⟩
  exact ofJson_of_writtenAs hwritten

end Filter

end PathQuery
