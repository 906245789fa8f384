import PathQuery.Proofs.JoinTree.Marks
import PathQuery.Request

/-!
What the steps of building a statement do to the tree. Each of them is made of steps that find or
create a child, keep a condition or set a mark. Finding a path adds nodes without marks; the clauses
of a statement join nodes, and only its conditions require them.
-/

set_option autoImplicit false

namespace PathQuery

/-- Said of a tree and what comes of it, this stays true while paths are found and conditions kept
at nodes. -/
class KeptByPaths (P : JoinTree → JoinTree → Prop) : Prop where
  refl : ∀ t, P t t
  trans : ∀ {t u v}, P t u → P u v → P t v
  child : ∀ t p name, P t (t.child p name).2
  attach : ∀ t id leaf, P t (t.attach id leaf)

/-- It also stays true while the nodes of columns are joined. -/
class KeptByColumns (P : JoinTree → JoinTree → Prop) : Prop extends KeptByPaths P where
  joinPath : ∀ t id, P t (t.joinPath id)

/-- It stays true whatever clauses do, also while the columns of nodes are loaded along. -/
class KeptByClauses (P : JoinTree → JoinTree → Prop) : Prop extends KeptByColumns P where
  select : ∀ t id, P t (t.select id)

namespace JoinTree

variable {t u : JoinTree}

def NotMarked (mark : Node → Bool) (t u : JoinTree) : Prop :=
  ∀ id, id < u.size → mark (u.node id) = true → id < t.size ∧ mark (t.node id) = true

theorem notMarked_of_node_eq {mark : Node → Bool} (hsize : u.size = t.size)
    (hmark : ∀ id, mark (u.node id) = mark (t.node id)) : NotMarked mark t u := by
  intro id hid hm
  rw [hsize] at hid
  rw [hmark] at hm
  exact ⟨hid, hm⟩

theorem notMarked_child {mark : Node → Bool}
    (hmark : ∀ (n : Node) children, mark { n with children } = mark n)
    (hnew : ∀ (t : JoinTree) p name r, mark (t.sprout p name r) = false) (t : JoinTree) (p : Nat)
    (name : String) : NotMarked mark t (t.child p name).2 := by
  rcases child_cases t p name with hsame | ⟨r, -, heq⟩
  · rw [hsame]
    exact notMarked_of_node_eq rfl fun _ => rfl
  · rw [heq]
    intro id hid hm
    by_cases hlt : id < t.size
    · rw [node_grow_ne_size t p name r (Nat.ne_of_lt hlt), hmark] at hm
      exact ⟨hlt, hm⟩
    · obtain rfl : id = t.size := by
        rw [size_grow] at hid
        omega
      rw [node_grow_size, hnew] at hm
      cases hm

theorem notMarked_trans {mark : Node → Bool} {v : JoinTree} (h : NotMarked mark t u)
    (h' : NotMarked mark u v) : NotMarked mark t v := by
  intro id hid hm
  obtain ⟨hid, hm⟩ := h' id hid hm
  exact h id hid hm

def Unmarked (mark : Node → Bool) (t : JoinTree) : Prop :=
  ∀ id, id < t.size → mark (t.node id) = true → id = rootId

theorem unmarked_of_notMarked {mark : Node → Bool} {s : Schema} {name : String}
    (hstart : ofModel s name = .ok t) (h : NotMarked mark t u) : Unmarked mark u := by
  intro id hid hm
  obtain ⟨hlt, -⟩ := h id hid hm
  rw [size_ofModel hstart] at hlt
  exact Nat.lt_one_iff.1 hlt

theorem joined_attach (t : JoinTree) (i : Nat) (leaf : Condition) (id : Nat) :
    ((t.attach i leaf).node id).joined = (t.node id).joined := by
  rw [attach, node_modifyNode]
  split <;> rfl

theorem required_attach (t : JoinTree) (i : Nat) (leaf : Condition) (id : Nat) :
    ((t.attach i leaf).node id).required = (t.node id).required := by
  rw [attach, node_modifyNode]
  split <;> rfl

theorem joined_joinPath {id : Nat} (hid : id < t.size) : ((t.joinPath id).node id).joined = true :=
  (joined_joinPath_iff hid).2 (.inr (mem_lineage_self t id))

theorem joined_select {id : Nat} (hid : id < t.size) : ((t.select id).node id).joined = true :=
  joined_joinPath (by simpa using hid)

theorem selected_attach (t : JoinTree) (i : Nat) (leaf : Condition) (id : Nat) :
    ((t.attach i leaf).node id).selected = (t.node id).selected := by
  rw [attach, node_modifyNode]
  split <;> rfl

theorem selected_joinPath (t : JoinTree) (i id : Nat) :
    ((t.joinPath i).node id).selected = (t.node id).selected := by
  rw [joinPath, node_modifyAll]
  split <;> rfl

theorem required_select (t : JoinTree) (i id : Nat) :
    ((t.select i).node id).required = (t.node id).required := by
  rw [select, required_joinPath, node_modifyNode]
  split <;> rfl

instance : KeptByPaths (NotMarked Node.joined) where
  refl _ := notMarked_of_node_eq rfl fun _ => rfl
  trans := notMarked_trans
  child := notMarked_child (fun _ _ => rfl) fun _ _ _ _ => rfl
  attach t id leaf := notMarked_of_node_eq (size_modifyNode t id _) (joined_attach t id leaf)

instance : KeptByColumns (NotMarked Node.selected) where
  refl _ := notMarked_of_node_eq rfl fun _ => rfl
  trans := notMarked_trans
  child := notMarked_child (fun _ _ => rfl) fun _ _ _ _ => rfl
  attach t id leaf := notMarked_of_node_eq (size_modifyNode t id _) (selected_attach t id leaf)
  joinPath t id := notMarked_of_node_eq (size_modifyAll t _ _) (selected_joinPath t id)

instance : KeptByClauses (NotMarked Node.required) where
  refl _ := notMarked_of_node_eq rfl fun _ => rfl
  trans := notMarked_trans
  child := notMarked_child (fun _ _ => rfl) fun _ _ _ _ => rfl
  attach t id leaf := notMarked_of_node_eq (size_modifyNode t id _) (required_attach t id leaf)
  joinPath t id := notMarked_of_node_eq (size_modifyAll t _ _) (required_joinPath t id)
  select t id := notMarked_of_node_eq (sameShape_select t id).size (required_select t id)

instance {P Q : JoinTree → JoinTree → Prop} [KeptByPaths P] [KeptByPaths Q] :
    KeptByPaths fun t u => P t u ∧ Q t u where
  refl t := ⟨KeptByPaths.refl t, KeptByPaths.refl t⟩
  trans h h' := ⟨KeptByPaths.trans h.1 h'.1, KeptByPaths.trans h.2 h'.2⟩
  child t p name := ⟨KeptByPaths.child t p name, KeptByPaths.child t p name⟩
  attach t id leaf := ⟨KeptByPaths.attach t id leaf, KeptByPaths.attach t id leaf⟩

instance : KeptByClauses fun _ _ => True where
  refl _ := trivial
  trans _ _ := trivial
  child _ _ _ := trivial
  attach _ _ _ := trivial
  joinPath _ _ := trivial
  select _ _ := trivial

/-- A name that a path takes as one segment, and a segment as one attribute. -/
structure SegmentName (name : String) : Prop where
  nonempty : name ≠ ""
  alone : segments name = [name]
  single : ¬ name.toList.contains ',' = true

theorem resolveFrom_segment {name : String} (h : SegmentName name) (t : JoinTree) (scope : Nat) :
    t.resolveFrom scope name = (.ok (scope, name), t) := by
  simp only [resolveFrom, h.alone]
  simp [descend, h.nonempty]

end JoinTree

namespace Building

open JoinTree

variable {P : JoinTree → JoinTree → Prop} {α β : Type} {t : JoinTree}
  {Q : α → JoinTree → Prop} {R : β → JoinTree → Prop}

/-- Where the step succeeds it leads to a tree that is reached from the one before and related to
it by `P`, and its result satisfies `Q` there. -/
def Leads (P : JoinTree → JoinTree → Prop) (m : Building α) (t : JoinTree)
    (Q : α → JoinTree → Prop) : Prop :=
  ∀ a u, m t = .ok (a, u) → Reached t u ∧ P t u ∧ Q a u

theorem Leads.mono {Q' : α → JoinTree → Prop} {m : Building α} (h : Leads P m t Q)
    (hq : ∀ a u, Reached t u → Q a u → Q' a u) : Leads P m t Q' := by
  intro a u hu
  obtain ⟨hreached, hP, hQ⟩ := h a u hu
  exact ⟨hreached, hP, hq a u hreached hQ⟩

theorem Leads.congr {m n : Building α} (h : m t = n t) (hn : Leads P n t Q) : Leads P m t Q := by
  intro a u hu
  rw [h] at hu
  exact hn a u hu

theorem leads_throw (e : Failure) : Leads P (throw e : Building α) t Q := by
  intro b u hb
  cases hb

theorem leads_get {f : JoinTree → Building β} (h : Leads P (f t) t R) : Leads P (get >>= f) t R :=
  h

theorem leads_ite {c : Prop} [Decidable c] {m n : Building α} (h : c → Leads P m t Q)
    (h' : ¬ c → Leads P n t Q) : Leads P (if c then m else n) t Q := by
  split
  · next hc => exact h hc
  · next hc => exact h' hc

theorem bind_run {m : Building α} {f : α → Building β} {u : JoinTree} {a : α}
    (h : m t = .ok (a, u)) : (m >>= f) t = f a u := by
  change (m t >>= fun p => f p.1 p.2) = f a u
  rw [h]
  rfl

theorem bind_error {m : Building α} {f : α → Building β} {e : Failure} (h : m t = .error e) :
    (m >>= f) t = .error e := by
  change (m t >>= fun p => f p.1 p.2) = .error e
  rw [h]
  rfl

theorem step_eq_ok {f : JoinTree → Except Error α × JoinTree} {a : α} {u : JoinTree}
    (h : f t = (.ok a, u)) : step f t = .ok (a, u) := by
  simp [step, h]

theorem of_step {f : JoinTree → Except Error α × JoinTree} {a : α} {u : JoinTree}
    (h : step f t = .ok (a, u)) : f t = (.ok a, u) := by
  rcases hf : f t with ⟨e | b, v⟩
  · simp [step, hf] at h
  · simpa [step, hf] using h

theorem leads_step {f : JoinTree → Except Error α × JoinTree}
    (h : ∀ a u, f t = (.ok a, u) → Reached t u ∧ P t u ∧ Q a u) : Leads P (step f) t Q :=
  fun a u ha => h a u (of_step ha)

variable [KeptByPaths P]

theorem leads_pure {a : α} (h : Q a t) : Leads P (pure a) t Q := by
  intro b u hb
  obtain ⟨rfl, rfl⟩ : a = b ∧ t = u := Prod.mk.inj (Except.ok.inj hb)
  exact ⟨.start, KeptByPaths.refl t, h⟩

theorem Leads.bind {m : Building α} {f : α → Building β} (h : Leads P m t Q)
    (hf : ∀ a u, Reached t u → Q a u → Leads P (f a) u R) : Leads P (m >>= f) t R := by
  intro b v hv
  change (m t >>= fun p => f p.1 p.2) = .ok (b, v) at hv
  obtain ⟨⟨a, u⟩, hu, hv⟩ := bind_eq_ok_iff.1 hv
  obtain ⟨hreached, hP, ha⟩ := h a u hu
  obtain ⟨hreached', hP', hb⟩ := hf a u hreached ha b v hv
  exact ⟨hreached.trans hreached', KeptByPaths.trans hP hP', hb⟩

theorem leads_lift (x : Except Failure α) :
    Leads P (liftM x : Building α) t fun a u => x = .ok a ∧ u = t := by
  intro a u h
  cases x with
  | error e => cases h
  | ok b =>
    obtain ⟨rfl, rfl⟩ : b = a ∧ t = u := Prod.mk.inj (Except.ok.inj h)
    exact ⟨.start, KeptByPaths.refl t, rfl, rfl⟩

theorem leads_ofExcept (x : Except Error α) :
    Leads P (ofExcept x) t fun a u => x = .ok a ∧ u = t := by
  cases x with
  | error e => exact leads_throw _
  | ok a => exact leads_pure ⟨rfl, rfl⟩

theorem leads_discard (x : Except Error α) :
    Leads P (discard (ofExcept x)) t fun _ u => u = t := by
  cases x with
  | error e =>
    intro b u hb
    cases hb
  | ok a =>
    intro b u hb
    obtain ⟨-, rfl⟩ := Prod.mk.inj (Except.ok.inj hb)
    exact ⟨.start, KeptByPaths.refl t, rfl⟩

omit [KeptByPaths P] in
theorem leads_modify {f : JoinTree → JoinTree} (h : Step t (f t)) (hP : P t (f t)) :
    Leads P (modify f : Building Unit) t fun _ u => u = f t := by
  intro b u hb
  obtain ⟨-, rfl⟩ := Prod.mk.inj (Except.ok.inj hb)
  exact ⟨.step .start h, hP, rfl⟩

/-- The results of a list of steps, where what is said of each stays true in the trees to come. -/
theorem leads_mapM {f : α → Building β} {S : α → β → JoinTree → Prop}
    (hkeep : ∀ a b u v, Reached u v → S a b u → S a b v) (as : List α)
    (hf : ∀ a ∈ as, ∀ u, Reached t u → Leads P (f a) u (S a)) :
    Leads P (as.mapM f) t fun bs u => ∀ b ∈ bs, ∃ a ∈ as, S a b u := by
  induction as generalizing t with
  | nil => exact leads_pure (by simp)
  | cons a as ih =>
    rw [List.mapM_cons]
    refine (hf a List.mem_cons_self t .start).bind fun b u hu hb => ?_
    refine (ih fun a' ha' v hv => hf a' (List.mem_cons_of_mem _ ha') v (hu.trans hv)).bind ?_
    intro bs v hv hbs
    refine leads_pure fun b' hb' => ?_
    rcases List.mem_cons.1 hb' with rfl | hb'
    · exact ⟨a, List.mem_cons_self, hkeep a _ u v hv hb⟩
    · obtain ⟨a', ha', h⟩ := hbs b' hb'
      exact ⟨a', List.mem_cons_of_mem _ ha', h⟩

theorem kept_descend (t : JoinTree) (start : Nat) (names : List String) :
    P t (t.descend start names).2 :=
  descend_of_child KeptByPaths.refl KeptByPaths.trans KeptByPaths.child t start names

theorem kept_descendPath (t : JoinTree) (path : String) (start : Nat) (names : List String) :
    P t (t.descendPath path start names).2 :=
  descendPath_of_child KeptByPaths.refl KeptByPaths.trans KeptByPaths.child t path start names

theorem leads_resolveFrom (ht : t.WellFormed) {start : Nat} (hstart : start < t.size)
    (path : String) : Leads P (resolveFrom start path) t fun p u =>
      p.1 < u.size ∧ u.resolveFrom start path = (.ok p, u) := by
  refine leads_step fun p u h => ?_
  have hreached := reached_resolveFrom t start path
  rw [h] at hreached
  have hdescend := (resolveFrom_eq_ok h).1
  have hkept := kept_descend (P := P) t start (segments path).dropLast
  rw [hdescend] at hkept
  exact ⟨hreached, hkept, ht.lt_size_of_descend hstart hdescend, resolveFrom_again h .start⟩

theorem leads_resolveRelations (ht : t.WellFormed) {start : Nat} (hstart : start < t.size)
    (path : String) : Leads P (step (·.resolveRelations start path)) t fun id u =>
      id < u.size ∧ u.resolveRelations start path = (.ok id, u) := by
  refine leads_step fun id u h => ?_
  have hreached := reached_descendPath t path start (segments path)
  have hkept := kept_descendPath (P := P) t path start (segments path)
  rw [show t.descendPath path start (segments path) = (.ok id, u) from h] at hreached hkept
  have hu := hreached.grown.wellFormed ht
  have hw := (walk?_of_descendPath h).2
  exact ⟨hreached, hkept, hu.lt_size_of_walk? (hreached.lt_size hstart) hw,
    resolveRelations_again h .start⟩

theorem leads_child (ht : t.WellFormed) (parent : Nat) (name : String) :
    Leads P (child parent name) t fun id u =>
      id < u.size ∧ (u.node parent).children.lookup name = some id := by
  refine leads_step fun id u h => ?_
  have hreached := reached_child t parent name
  have hkept := KeptByPaths.child (P := P) t parent name
  rw [h] at hreached hkept
  exact ⟨hreached, hkept, ht.lt_size_of_child h, lookup_of_child h⟩

theorem leads_aliasOf (id : Nat) :
    Leads P (aliasOf id) t fun a u => u = t ∧ a = (t.node id).tableAlias :=
  leads_get (leads_pure ⟨rfl, rfl⟩)

theorem leads_attach (id : Nat) (x : Condition) :
    Leads P (attach id x) t fun _ u => u = t.attach id x :=
  leads_modify (.attach id x) (KeptByPaths.attach t id x)

section Columns

omit [KeptByPaths P]

variable {id : Nat} {name : String}

def listed (name : String) : List String :=
  (Text.splitOn ',' name.toList).map fun s => String.ofList (Text.trim s)

theorem columnsOf_list (h : name.toList.contains ',' = true) :
    columnsOf id name t = .ok ((id, (listed name).map (t.table id).columnOf), t) := by
  unfold columnsOf
  exact congrFun (if_pos h) t

variable (h : ¬ name.toList.contains ',' = true)

include h

theorem columnsOf_attribute (hr : (t.model? id).bind (·.relation? name) = none) :
    columnsOf id name t = .ok ((id, [(t.table id).columnOf name]), t) := by
  unfold columnsOf
  refine (congrFun (if_neg h) t).trans ?_
  simp only [hr]
  rfl

variable {r : Relation} (hr : (t.model? id).bind (·.relation? name) = some r)

include hr

theorem columnsOf_belongsTo (hkind : r.kind = .belongsTo) :
    columnsOf id name t = .ok ((id, [r.current.column]), t) := by
  unfold columnsOf
  refine (congrFun (if_neg h) t).trans ?_
  simp only [hr]
  exact congrFun (if_pos hkind) t

theorem columnsOf_relation (hkind : r.kind ≠ .belongsTo) :
    columnsOf id name t = (do
      let linked ← child id name
      return (linked, ((← get).table linked).primaryKeyColumns) : Building _) t := by
  unfold columnsOf
  refine (congrFun (if_neg h) t).trans ?_
  simp only [hr]
  exact congrFun (if_neg hkind) t

theorem columnsOf_child (hkind : r.kind ≠ .belongsTo) {linked : Nat}
    (hl : (t.node id).children.lookup name = some linked) :
    columnsOf id name t = .ok ((linked, (t.table linked).primaryKeyColumns), t) := by
  have hchild : child id name t = .ok (linked, t) := step_eq_ok (child_of_lookup hl)
  rw [columnsOf_relation h hr hkind]
  change (child id name t >>= fun p => _) = _
  rw [hchild]
  rfl

end Columns

section Segment

omit [KeptByPaths P]

variable {name : String} (h : SegmentName name)

include h

theorem resolveFrom_segment (t : JoinTree) (scope : Nat) :
    resolveFrom scope name t = .ok ((scope, name), t) :=
  step_eq_ok (JoinTree.resolveFrom_segment h t scope)

theorem target_segment {scope : Nat} (hr : (t.model? scope).bind (·.relation? name) = none) :
    target scope name t = .ok ((scope, [(t.table scope).columnOf name]), t) := by
  rw [target, bind_run (resolveFrom_segment h t scope)]
  exact columnsOf_attribute h.single hr

end Segment

theorem leads_columnsOf (ht : t.WellFormed) {id : Nat} (hid : id < t.size) (name : String) :
    Leads P (columnsOf id name) t fun p u =>
      p.1 < u.size ∧ ∀ v, Reached u v → columnsOf id name v = .ok (p, v) := by
  by_cases hcomma : name.toList.contains ',' = true
  · refine Leads.congr (columnsOf_list hcomma) (leads_pure ⟨hid, fun v hv => ?_⟩)
    rw [columnsOf_list hcomma, hv.table_eq hid]
  have hmodel : ∀ v, Reached t v → v.model? id = t.model? id := fun v hv => hv.grown.model? id hid
  cases hr : (t.model? id).bind (·.relation? name) with
  | none =>
    refine Leads.congr (columnsOf_attribute hcomma hr) (leads_pure ⟨hid, fun v hv => ?_⟩)
    rw [columnsOf_attribute hcomma (by rw [hmodel v hv, hr]), hv.table_eq hid]
  | some r =>
    by_cases hkind : r.kind = .belongsTo
    · refine Leads.congr (columnsOf_belongsTo hcomma hr hkind) (leads_pure ⟨hid, fun v hv => ?_⟩)
      rw [columnsOf_belongsTo hcomma (by rw [hmodel v hv, hr]) hkind]
    · refine Leads.congr (columnsOf_relation hcomma hr hkind) ?_
      refine (leads_child ht id name).bind fun linked w hw hlinked => ?_
      refine leads_get (leads_pure ⟨hlinked.1, fun v hv => ?_⟩)
      have hr' : (v.model? id).bind (·.relation? name) = some r := by
        rw [hmodel v (hw.trans hv), hr]
      rw [columnsOf_child hcomma hr' hkind (hv.lookup hlinked.2), hv.table_eq hlinked.1]

theorem leads_target (ht : t.WellFormed) {scope : Nat} (hscope : scope < t.size) (path : String) :
    Leads P (target scope path) t fun p u =>
      p.1 < u.size ∧ ∀ v, Reached u v → target scope path v = .ok (p, v) := by
  refine (leads_resolveFrom ht hscope path).bind fun found u hu hfound => ?_
  refine (leads_columnsOf (hu.grown.wellFormed ht) hfound.1 found.2).mono fun p w hw hp => ?_
  refine ⟨hp.1, fun v hv => ?_⟩
  have hagain : resolveFrom scope path v = .ok (found, v) :=
    step_eq_ok (resolveFrom_again hfound.2 (hw.trans hv))
  change (resolveFrom scope path v >>= fun q => columnsOf q.1.1 q.1.2 q.2) = _
  rw [hagain]
  exact hp.2 v hv

theorem of_columnsOf_relation {t : JoinTree} {id : Nat} {name : String} {r : Relation}
    (hcomma : ¬ name.toList.contains ',' = true)
    (hr : (t.model? id).bind (·.relation? name) = some r) (hkind : r.kind ≠ .belongsTo)
    {p : Nat × List String} (h : columnsOf id name t = .ok (p, t)) :
    (t.node id).children.lookup name = some p.1 ∧ p.2 = (t.table p.1).primaryKeyColumns := by
  rw [columnsOf_relation hcomma hr hkind] at h
  obtain ⟨⟨linked, u⟩, hchild, h⟩ := bind_eq_ok_iff.1 h
  obtain ⟨rfl, rfl⟩ := Prod.mk.inj (Except.ok.inj h)
  exact ⟨lookup_of_child (of_step hchild), rfl⟩

/-- A path that adds no node leads to a node, and its last segment to the columns. -/
theorem of_target {t : JoinTree} (ht : t.WellFormed) {scope : Nat} (hscope : scope < t.size)
    {path : String} {p : Nat × List String} (h : target scope path t = .ok (p, t)) :
    ∃ found, t.resolveFrom scope path = (.ok found, t) ∧
      columnsOf found.1 found.2 t = .ok (p, t) := by
  obtain ⟨⟨found, w⟩, hfound, hcolumns⟩ := bind_eq_ok_iff.1 h
  obtain ⟨hw, -, hlt, hagain⟩ :=
    leads_resolveFrom (P := fun _ _ => True) ht hscope path found w hfound
  obtain ⟨ht', -, -, hcolumnsAgain⟩ := leads_columnsOf (P := fun _ _ => True)
    (hw.grown.wellFormed ht) hlt found.2 p t hcolumns
  exact ⟨found, resolveFrom_again hagain ht', hcolumnsAgain t .start⟩

end Building

end PathQuery
