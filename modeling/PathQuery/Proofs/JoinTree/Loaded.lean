import Mathlib.Data.List.Infix
import PathQuery.Proofs.JoinTree.Chains
import PathQuery.Proofs.JoinTree.Leads
import PathQuery.Proofs.JoinTree.Walks

/-!
Chains whose rows are loaded along. The mark of a selected node says which chains were met already:
only loading sets it, so a node that a path of another clause has made, or joined, is still to be
loaded when its chain is met first.
-/

set_option autoImplicit false

namespace PathQuery.JoinTree

variable {t u : JoinTree}

def chainsOf (names : List String) : List (List String) :=
  names.inits.tail

theorem chainsOf_concat (names : List String) (name : String) :
    chainsOf (names ++ [name]) = chainsOf names ++ [names ++ [name]] := by
  cases names with
  | nil => rfl
  | cons first rest => simp [chainsOf, List.inits_append]

theorem mem_chainsOf {chain names : List String} :
    chain ∈ chainsOf names ↔ chain ≠ [] ∧ chain <+: names := by
  induction names using List.reverseRecOn with
  | nil => simp [chainsOf]
  | append_singleton init name ih =>
    rw [chainsOf_concat, List.mem_append, ih, List.mem_singleton, List.prefix_concat_iff]
    constructor
    · rintro (⟨hne, h⟩ | rfl)
      · exact ⟨hne, .inr h⟩
      · exact ⟨by simp, .inl rfl⟩
    · rintro ⟨hne, rfl | h⟩
      · exact .inr rfl
      · exact .inl ⟨hne, h⟩

theorem exists_walk?_of_prefix {start last : Nat} {chain names : List String}
    (hw : t.walk? start names = some last) (h : chain <+: names) :
    ∃ id, t.walk? start chain = some id := by
  obtain ⟨more, rfl⟩ := h
  rw [walk?_append] at hw
  obtain ⟨id, hid, -⟩ := Option.bind_eq_some_iff.1 hw
  exact ⟨id, hid⟩

/-- The nodes on the way to the end of a chain are those of the chains on its way. -/
theorem WellFormed.pathBetween?_of_walk? (ht : t.WellFormed) {names : List String} {last : Nat}
    (hw : t.walk? rootId names = some last) : t.pathBetween? rootId last =
      some ((chainsOf names).map fun chain => (t.walk? rootId chain).getD rootId) := by
  induction names using List.reverseRecOn generalizing last with
  | nil =>
    obtain rfl : rootId = last := Option.some.inj hw
    exact pathBetween?_self t rootId
  | append_singleton init name ih =>
    obtain ⟨p, r, hp, e, -⟩ := ht.edge_of_walk?_concat hw
    have hne : last ≠ rootId := Nat.ne_of_gt (Nat.zero_lt_of_lt e.lt)
    rw [pathBetween?_of_parent hne e.parent e.lt, ih hp, chainsOf_concat]
    simp [hw]

theorem Reached.walk?_of_lt (h : Reached t u) (ht : t.WellFormed) {chain : List String} {id : Nat}
    (hid : id < t.size) (hw : u.walk? rootId chain = some id) : t.walk? rootId chain = some id := by
  obtain ⟨names, hnames⟩ := ht.exists_walk? hid
  rwa [(h.grown.wellFormed ht).walk?_injective hw (h.walk? hnames)]

theorem selected_select_iff {i id : Nat} (hid : id < t.size) :
    ((t.select i).node id).selected = true ↔ id = i ∨ (t.node id).selected = true := by
  rw [select, selected_joinPath, node_modifyNode]
  by_cases h : id = i
  · simp [h, h ▸ hid]
  · simp [h]

theorem Step.selected (h : Step t u) {id : Nat} (hid : id < t.size)
    (hm : (t.node id).selected = true) : (u.node id).selected = true := by
  cases h with
  | child p name =>
    rcases child_cases t p name with hsame | ⟨r, -, hgrow⟩
    · rwa [hsame]
    · rwa [hgrow, node_grow_ne_size t p name r (Nat.ne_of_lt hid)]
  | attach i leaf => rwa [selected_attach]
  | joinPath i => rwa [selected_joinPath]
  | select i => exact (selected_select_iff hid).2 (.inr hm)
  | require i =>
    rw [JoinTree.require, node_modifyAll]
    split
    · exact hm
    · exact hm

theorem Reached.selected (h : Reached t u) {id : Nat} (hid : id < t.size)
    (hm : (t.node id).selected = true) : (u.node id).selected = true := by
  induction h with
  | start => exact hm
  | step hreached hstep ih => exact hstep.selected (hreached.lt_size hid) ih

/-- The nodes that are selected below the root are those of the chains, and all of these are
joined. -/
structure Loaded (t : JoinTree) (chains : List (List String)) : Prop where
  joined : ∀ chain ∈ chains, ∃ id, t.walk? rootId chain = some id ∧ (t.node id).joined = true
  selected : ∀ chain id, t.walk? rootId chain = some id → chain ≠ [] →
    ((t.node id).selected = true ↔ chain ∈ chains)

theorem loaded_nil (ht : t.WellFormed) (h : Unmarked Node.selected t) : t.Loaded [] where
  joined := by simp
  selected chain id hw hne := by
    have hlt := ht.lt_size_of_walk? ht.nonempty hw
    refine ⟨fun hm => absurd ?_ hne, by simp⟩
    exact ht.eq_nil_of_walk? (h id hlt hm ▸ hw)

theorem Loaded.congr {chains chains' : List (List String)} (h : t.Loaded chains)
    (hmem : ∀ chain, chain ∈ chains' ↔ chain ∈ chains) : t.Loaded chains' where
  joined chain hchain := h.joined chain ((hmem chain).1 hchain)
  selected chain id hw hne := (h.selected chain id hw hne).trans (hmem chain).symm

theorem Loaded.later {chains : List (List String)} (h : t.Loaded chains) (ht : t.WellFormed)
    (hu : Reached t u) (hmarks : NotMarked Node.selected t u) : u.Loaded chains where
  joined chain hchain := by
    obtain ⟨id, hw, hjoined⟩ := h.joined chain hchain
    have hlt := ht.lt_size_of_walk? ht.nonempty hw
    exact ⟨id, hu.walk? hw, (hu.lasts hlt).joined hjoined⟩
  selected chain id hw hne := by
    have hwell := hu.grown.wellFormed ht
    constructor
    · intro hm
      obtain ⟨hlt, hm⟩ := hmarks id (hwell.lt_size_of_walk? hwell.nonempty hw) hm
      exact (h.selected chain id (hu.walk?_of_lt ht hlt hw) hne).1 hm
    · intro hchain
      obtain ⟨id', hw', -⟩ := h.joined chain hchain
      obtain rfl : id' = id := Option.some.inj ((hu.walk? hw').symm.trans hw)
      exact hu.selected (ht.lt_size_of_walk? ht.nonempty hw')
        ((h.selected chain id' hw' hne).2 hchain)

/-- Selecting the node at the end of a chain loads the chain and no other. -/
theorem Loaded.select {chains : List (List String)} (h : t.Loaded chains) (ht : t.WellFormed)
    {chain : List String} {i : Nat} (hw : t.walk? rootId chain = some i) :
    (t.select i).Loaded (chains ++ [chain]) where
  joined c hc := by
    have hselect : Reached t (t.select i) := .step .start (.select i)
    rcases List.mem_append.1 hc with hc | hc
    · obtain ⟨id, hwc, hjoined⟩ := h.joined c hc
      exact ⟨id, hselect.walk? hwc,
        (hselect.lasts (ht.lt_size_of_walk? ht.nonempty hwc)).joined hjoined⟩
    · obtain rfl := List.mem_singleton.1 hc
      exact ⟨i, hselect.walk? hw, joined_select (ht.lt_size_of_walk? ht.nonempty hw)⟩
  selected c id hwc hne := by
    have hselect : Reached t (t.select i) := .step .start (.select i)
    have hwell := hselect.grown.wellFormed ht
    have hlt : id < t.size := by
      have hlt := hwell.lt_size_of_walk? hwell.nonempty hwc
      rwa [(sameShape_select t i).size] at hlt
    have hwc' := hselect.walk?_of_lt ht hlt hwc
    have hsame : id = i ↔ c = chain := by
      constructor
      · rintro rfl
        exact ht.walk?_injective hwc' hw
      · rintro rfl
        exact Option.some.inj (hwc'.symm.trans hw)
    rw [selected_select_iff hlt, h.selected c id hwc' hne, hsame, List.mem_append,
      List.mem_singleton, or_comm]

end PathQuery.JoinTree
