import PathQuery.Proofs.JoinTree.Anchored
import PathQuery.Proofs.JoinTree.Reached
import PathQuery.Proofs.JoinTree.Regrouped

/-!
Settling keeps the meaning of conditions. Regrouping a mixed list changes nothing of what it asks; a
list under one connective asks for what its parts ask for, and settled conditions stand for those.
-/

set_option autoImplicit false

namespace PathQuery.JoinTree

variable {E : Engine} {t : JoinTree} {s : Schema} {db : Database E} {scalar : Database.Scalar E}
  {scope : Nat} {rows : Nat → Tuple E} {xs : List Condition}

theorem isNormal_regroup (hxs : ∀ x ∈ xs, t.IsNormal x) :
    ∀ y ∈ t.regroup scope xs, t.IsNormal y := by
  intro y hy
  rcases regroup_cases hy with hy | ⟨x, rest, hmembers, rfl⟩
  · exact hxs y hy
  · have hnormal : ∀ z ∈ x :: rest, t.IsNormal z := fun z hz => hxs z (hmembers z hz)
    rw [IsNormal, AreNormal, isNormal_withConnective, areNormal_iff]
    exact List.forall_mem_cons.1 hnormal

def groupHolds (t : JoinTree) (db : Database E) (scalar : Database.Scalar E) (scope : Nat)
    (members : List Condition) (rows : Nat → Tuple E) : Prop :=
  t.Holds db scalar scope rows members

def RunHolds (t : JoinTree) (db : Database E) (scalar : Database.Scalar E) (scope : Nat)
    (rows : Nat → Tuple E) (run : List Condition) : Prop :=
  ∀ m, t.Part db scalar (t.groupHolds db scalar scope) .and scope run m → m rows

theorem holds_iff : t.Holds db scalar scope rows xs ↔
    xs = [] ∨ ∃ run ∈ runs xs, t.RunHolds db scalar scope rows run := by
  constructor
  · intro h
    cases h with
    | nothing => exact .inl rfl
    | @run _ run mem groups near far =>
      refine .inr ⟨run, mem, fun m hm => ?_⟩
      cases hm with
      | near hx hleaf hjoined => exact near _ hx hleaf hjoined
      | group hx => exact groups _ _ hx
      | far hsome => exact far _ hsome
  · rintro (rfl | ⟨run, mem, h⟩)
    · exact .nothing
    · exact .run mem (fun c members hx => h _ (.group hx))
        (fun x hx hleaf hjoined => h _ (.near hx hleaf hjoined)) fun a hsome => h _ (.far hsome)

theorem runHolds_congr {ys : List Condition}
    (h : xs.map (·.withConnective .and) = ys.map (·.withConnective .and)) :
    t.RunHolds db scalar scope rows xs ↔ t.RunHolds db scalar scope rows ys := by
  simp only [RunHolds, part_congr h]

theorem holds_of_and (h : ∀ x ∈ xs.drop 1, x.connective = .and) :
    t.Holds db scalar scope rows xs ↔ t.RunHolds db scalar scope rows xs := by
  rw [holds_iff]
  cases xs with
  | nil =>
    refine iff_of_true (.inl rfl) fun m hm => ?_
    cases hm with
    | near hx _ _ => simp at hx
    | group hx => simp at hx
    | far hsome => simp [leavesAt] at hsome
  | cons x rest =>
    have hrest : ∀ y ∈ rest, y.connective = .and := h
    simp [runs_of_and hrest]

theorem holds_of_or (h : ∀ x ∈ xs.drop 1, x.connective = .or) :
    t.Holds db scalar scope rows xs ↔
      xs = [] ∨ ∃ x ∈ xs, t.RunHolds db scalar scope rows [x] := by
  rw [holds_iff]
  cases xs with
  | nil => simp
  | cons x rest =>
    have hrest : ∀ y ∈ rest, y.connective = .or := h
    simp [runs_of_or hrest]

theorem runHolds_group {c : Connective} {members : List Condition} :
    t.RunHolds db scalar scope rows [.group c members] ↔ t.Holds db scalar scope rows members := by
  simp only [RunHolds, part_single_group, forall_eq]
  rfl

theorem runHolds_near {x : Condition} (hleaf : members? x = none)
    (hjoined : t.anchorAt? scope x = none) :
    t.RunHolds db scalar scope rows [x] ↔ t.LeafHolds db scalar rows x := by
  simp only [RunHolds, part_single_near hleaf hjoined, forall_eq]

/-- Without conditions below a relation to many, each member of a run stands by itself. -/
theorem runHolds_iff_forall (hnone : ∀ x ∈ xs, t.anchorAt? scope x = none) :
    t.RunHolds db scalar scope rows xs ↔ ∀ x ∈ xs, t.RunHolds db scalar scope rows [x] := by
  constructor
  · intro hall x hx m hm
    cases hm with
    | near hy hleaf hjoined =>
      obtain rfl := List.mem_singleton.1 hy
      exact hall _ (.near hx hleaf hjoined)
    | group hy =>
      rw [← List.mem_singleton.1 hy] at hx
      exact hall _ (.group hx)
    | far hsome => simp [leavesAt_single_ne_nil, hnone x hx] at hsome
  · intro hall m hm
    cases hm with
    | near hx hleaf hjoined => exact hall _ hx _ (.near List.mem_cons_self hleaf hjoined)
    | group hx => exact hall _ hx _ (.group List.mem_cons_self)
    | far hsome =>
      obtain ⟨x, hx, ha⟩ := exists_anchorAt?_of_leavesAt hsome
      simp [hnone x hx] at ha

theorem runHolds_ofRun {run : List Condition} {y : Condition} (hrun : run ∈ runs xs)
    (hy : y ∈ ofRun run) :
    t.RunHolds db scalar scope rows [y] ↔ t.RunHolds db scalar scope rows run := by
  have hand := connective_of_mem_runs hrun
  obtain ⟨x, rest, rfl, ⟨rfl, h⟩ | h⟩ := ofRun_eq (ne_nil_of_mem_runs hrun)
  · rw [h, List.mem_singleton] at hy
    rw [hy]
  · rw [h, List.mem_singleton] at hy
    have hmembers : ∀ z ∈ (x.withConnective .and :: rest).drop 1, z.connective = .and := hand
    rw [hy, runHolds_group, holds_of_and hmembers]
    exact runHolds_congr (by simp)

theorem map_eq_of_forall₂ {α β γ : Type} {R : α → β → Prop} {xs : List α} {ys : List β}
    {f : α → γ} {g : β → γ} (h : List.Forall₂ R xs ys)
    (hfg : ∀ x ∈ xs, ∀ y ∈ ys, R x y → f x = g y) : xs.map f = ys.map g := by
  induction h with
  | nil => rfl
  | @cons x y xs ys hxy _ ih =>
    rw [List.map_cons, List.map_cons, hfg x List.mem_cons_self y List.mem_cons_self hxy,
      ih fun x hx y hy => hfg x (List.mem_cons_of_mem _ hx) y (List.mem_cons_of_mem _ hy)]

def Slot.condition : Slot t scope → Condition
  | .kept x _ => x
  | .collected _ x _ => x

theorem Places.conditions_of_kept
    {settleAt : Below t scope → List Condition → Except Failure Settled} {seen : List Nat}
    {slots : List (Slot t scope)} {r : Settled} (h : Places settleAt seen slots r)
    (hkept : ∀ a x needed, .collected a x needed ∉ slots) :
    r.conditions = slots.map Slot.condition := by
  induction h with
  | nil => rfl
  | kept tail ih =>
    rw [List.map_cons, ih fun a x needed hmem => hkept a x needed (List.mem_cons_of_mem _ hmem)]
    rfl
  | again known tail ih => exact absurd List.mem_cons_self (hkept _ _ _)
  | first fresh settled tested tail ih => exact absurd List.mem_cons_self (hkept _ _ _)

section Lists

variable {ys : List Condition} {slots : List (Slot t scope)} {r : Settled} {scene : Scene E}
  (f : t.Filled scope ys slots r)
  (hgroups : t.GroupsStand db scalar scope ys (t.groupHolds db scalar scope))
  (hshows : t.Shows scene rows r.needed)

include f hgroups hshows

theorem letsAll_of_near (hnone : ∀ x ∈ ys, t.anchorAt? scope x = none) :
    db.LetsAll scalar scene r.conditions ↔ t.Holds db scalar scope rows ys := by
  have hkept : ∀ a x needed, Slot.collected a x needed ∉ slots := by
    intro a x needed hmem
    have hx : x ∈ collectedAt a.val slots := List.mem_filterMap.2 ⟨_, hmem, by simp⟩
    obtain ⟨hx, ha⟩ := f.mem_collectedAt hx
    simp [hnone x hx] at ha
  have hsame : ys.map (fun x => (x.connective, t.RunHolds db scalar scope rows [x])) =
      slots.map fun slot => (slot.condition.connective, db.Lets scalar scene slot.condition) := by
    refine map_eq_of_forall₂ f.found fun x hx slot hslot hslotx => ?_
    cases hm : members? x with
    | none =>
      obtain ⟨_, _, -, -, -, ⟨-, rfl⟩ | ⟨a, -, rfl⟩⟩ := slotIn_leaf (f.normal x hx) hm hslotx
      · rw [propext (runHolds_near hm (hnone x hx))]
        exact Prod.ext rfl (propext ((f.near_stands hx hm (hnone x hx)).2 scene rows hshows).symm)
      · exact absurd hslot (hkept _ _ _)
    | some members =>
      obtain ⟨d, rfl⟩ := exists_members hm
      obtain ⟨y, needed, rfl, hstands⟩ := f.group_stands hgroups hx hslot hslotx
      have hconnective := connective_slotIn hslotx
      rw [propext runHolds_group]
      exact Prod.ext hconnective.symm (propext (hstands scene rows hshows).symm)
  rw [Database.letsAll_iff, f.placed.conditions_of_kept hkept, List.map_map]
  have hread := read_iff_runs (fun x => t.RunHolds db scalar scope rows [x]) ys
  rw [hsame] at hread
  rw [holds_iff]
  refine hread.trans (or_congr Iff.rfl (exists_congr fun run => and_congr_right fun hrun => ?_))
  exact (runHolds_iff_forall fun x hx => hnone x (mem_of_mem_runs hrun hx)).symm

variable (htests : ∀ a, scope < a → t.TestStands db scalar a)

include htests

theorem letsAll_of_and (hand : ∀ x ∈ ys.drop 1, x.connective = .and) :
    db.LetsAll scalar scene r.conditions ↔ t.Holds db scalar scope rows ys := by
  have hparts := (f.forall_conditions hand htests hgroups (P := fun x => db.Lets scalar scene x)
    (Q := fun m => m rows) fun x m hm => hm scene rows hshows).1
  rw [Database.letsAll_iff, Connective.read_and, holds_of_and hand]
  · refine Iff.trans ?_ hparts
    simp
  · rw [← List.map_drop, List.forall_mem_map]
    exact connective_drop_of_slots f.found f.placed hand

theorem letsAll_of_or (hne : ys ≠ []) (hor : ∀ x ∈ ys.drop 1, x.connective = .or) :
    db.LetsAll scalar scene r.conditions ↔ ∃ x ∈ ys, t.RunHolds db scalar scope rows [x] := by
  have hparts := (f.forall_conditions hor htests hgroups (P := fun x => db.Lets scalar scene x)
    (Q := fun m => m rows) fun x m hm => hm scene rows hshows).2
  rw [exists_part_or (by simp)] at hparts
  rw [Database.letsAll_iff, f.read_or hne hor, hparts]
  rfl

end Lists

/-- The runs of a mixed list, each as one condition, ask for what the list asks for. -/
theorem exists_runHolds_regrouped :
    (∃ y ∈ (runs xs).flatMap ofRun, t.RunHolds db scalar scope rows [y]) ↔
      ∃ run ∈ runs xs, t.RunHolds db scalar scope rows run := by
  constructor
  · rintro ⟨y, hy, hholds⟩
    obtain ⟨run, hrun, hy⟩ := List.mem_flatMap.1 hy
    exact ⟨run, hrun, (runHolds_ofRun hrun hy).1 hholds⟩
  · rintro ⟨run, hrun, hholds⟩
    obtain ⟨y, hone⟩ := exists_ofRun_eq (ne_nil_of_mem_runs hrun)
    have hy : y ∈ ofRun run := by simp [hone]
    exact ⟨y, List.mem_flatMap.2 ⟨run, hrun, hy⟩, (runHolds_ofRun hrun hy).2 hholds⟩

theorem regrouped_ne_nil (hne : xs ≠ []) : (runs xs).flatMap ofRun ≠ [] := by
  obtain ⟨x, rest, rfl⟩ := List.exists_cons_of_ne_nil hne
  obtain ⟨run, others, hruns⟩ := runs_cons x rest
  obtain ⟨y, hy⟩ := exists_ofRun_eq (List.cons_ne_nil x run)
  simp [hruns, hy]

theorem letsAll_regroup {slots : List (Slot t scope)} {r : Settled} {scene : Scene E}
    (f : t.Filled scope (t.regroup scope xs) slots r)
    (hgroups : t.GroupsStand db scalar scope (t.regroup scope xs) (t.groupHolds db scalar scope))
    (hshows : t.Shows scene rows r.needed) (htests : ∀ a, scope < a → t.TestStands db scalar a) :
    db.LetsAll scalar scene r.conditions ↔ t.Holds db scalar scope rows xs := by
  cases hanchored : xs.any (t.isAnchored scope) with
  | false =>
    have hsame : t.regroup scope xs = xs := by simp [regroup, hanchored]
    rw [hsame] at f hgroups
    exact letsAll_of_near f hgroups hshows (anchorAt?_of_not_anchored hanchored)
  | true =>
    have hne : xs ≠ [] := by
      rintro rfl
      simp at hanchored
    cases hmixed : isMixed xs with
    | true =>
      have hsame : t.regroup scope xs = (runs xs).flatMap ofRun := by
        simp [regroup, hanchored, hmixed]
      rw [hsame] at f hgroups
      rw [letsAll_of_or f hgroups hshows htests (regrouped_ne_nil hne) (connective_regrouped xs),
        exists_runHolds_regrouped, holds_iff]
      simp [hne]
    | false =>
      have hsame : t.regroup scope xs = xs := by simp [regroup, hmixed]
      rw [hsame] at f hgroups
      rcases connective_of_not_mixed hmixed with hand | hor
      · exact letsAll_of_and f hgroups hshows htests hand
      · rw [letsAll_of_or f hgroups hshows htests hne hor, holds_of_or hor]
        simp [hne]

/-- Settled conditions need nodes that relations to one row lead to, and over the rows of these they
hold where the conditions do that were settled. -/
theorem Grounded.settle_holds (g : t.Grounded s db) (scalar : Database.Scalar E) (scope : Nat)
    (xs : List Condition) :
    t.AreNormal xs → ∀ r, t.settle scope xs = .ok r →
      (∀ id ∈ r.needed, id < t.size ∧ t.anchor? scope id = none) ∧
      ∀ scene rows, t.Shows scene rows r.needed →
        (db.LetsAll scalar scene r.conditions ↔ t.Holds db scalar scope rows xs) := by
  induction scope, xs using t.settle_induction with
  | h scope xs ih _ =>
    intro hxs r hr
    have hnormal : ∀ y ∈ t.regroup scope xs, t.IsNormal y := isNormal_regroup (areNormal_iff.1 hxs)
    obtain ⟨slots, hslots, hplaces⟩ := settle_eq_ok hr
    have f : t.Filled scope (t.regroup scope xs) slots r := ⟨hnormal, hslots, hplaces⟩
    have hgroups : t.GroupsStand db scalar scope (t.regroup scope xs)
        (t.groupHolds db scalar scope) :=
      fun d members hmem r' hr' =>
        (ih members (weight_members_regroup rfl hmem) (hnormal _ hmem) r' hr').2
    refine ⟨needed_joined hr, fun scene rows hshows => ?_⟩
    exact letsAll_regroup f hgroups hshows fun a _ => g.testStands scalar a

def rootScene (x : Tuple E) : Scene E :=
  Scene.put (fun _ => nullRow) rootAlias x

namespace Blog

def decls : List ModelDecl :=
  [{ name := "Author", table := "authors", attributes := ["id", "name"]
     relations := [{ name := "articles", form := .hasMany, target := "Article"
                     inverse := some "author" }] },
    { name := "Article", table := "articles", attributes := ["id", "title", "authorId"] }]

def articles : Relation :=
  { name := "articles", kind := .hasMany, current := ⟨"Author", "authors", "id", "id"⟩
    linked := ⟨"Article", "articles", "authorId", "author_id"⟩ }

def schema : Schema :=
  { models := [
      { name := "Author", table := (Table.named "authors").withColumns ["id", "name"]
        relations := [articles], hooks := [] },
      { name := "Article"
        table := ((Table.named "articles").withColumns ["id", "title"]).withColumn
          "authorId" "author_id"
        relations := [articles.reverse.renamed "author"], hooks := [] }]
    settings := {} }

def root : JoinTree :=
  ⟨some schema, (Table.named "authors").withColumns ["id", "name"], [Node.root (some "Author")]⟩

def tree : JoinTree :=
  (root.child rootId "articles").2

def author : Tuple Engine.textual :=
  fun column => [("id", "1"), ("name", "A")].lookup column

def tables : Database Engine.textual :=
  fun name => match name with
    | "authors" => [author]
    | "articles" =>
      [fun column => [("id", "2"), ("title", "'B'"), ("author_id", "1")].lookup column,
        fun column => [("id", "3"), ("title", "'C'"), ("author_id", "1")].lookup column]
    | _ => []

def titled : Condition :=
  .compare .and "articles" ["title"] .eq (.text "B")

def numbered : Condition :=
  .compare .and "articles" ["id"] .eq (.int 3)

theorem plainNames : schema.PlainNames := by
  intro m hm r hr
  simp only [schema, List.mem_cons, List.not_mem_nil, or_false] at hm
  rcases hm with rfl | rfl
  · obtain rfl := List.mem_singleton.1 hr
    exact ⟨by decide, by decide, by decide, by decide⟩
  · obtain rfl := List.mem_singleton.1 hr
    exact ⟨by decide, by decide, by decide, by decide⟩

theorem describes : schema.Describes tables where
  one m hm r hr hone x hx y hy y' hy' := by
    simp only [schema, List.mem_cons, List.not_mem_nil, or_false] at hm
    rcases hm with rfl | rfl
    · obtain rfl := List.mem_singleton.1 hr
      simp [articles, Relation.isToMany] at hone
    · obtain rfl := List.mem_singleton.1 hr
      have hauthor : ∀ z ∈ (articles.reverse.renamed "author").linkedRows tables x, z = author :=
        fun z hz => List.mem_singleton.1 (List.mem_filter.1 hz).1
      rw [hauthor y hy, hauthor y' hy']
  points m hm r hr through hkind := by
    simp only [schema, List.mem_cons, List.not_mem_nil, or_false] at hm
    rcases hm with rfl | rfl
    · obtain rfl := List.mem_singleton.1 hr
      simp [articles] at hkind
    · obtain rfl := List.mem_singleton.1 hr
      simp [articles, Relation.reverse, Relation.renamed] at hkind

theorem exists_settle : ∃ r, tree.settle rootId [titled, numbered] = .ok r := by
  have hanchor : tree.anchor? rootId 1 = some 1 := by
    rw [anchor?, pathBetween?_of_parent (p := rootId) (by decide) rfl (by decide),
      pathBetween?_self]
    rfl
  have hjoined : tree.anchor? 1 1 = none := (JoinedFrom.self tree 1).anchor?_eq
  have hinner : tree.settle 1 [titled, numbered] = .ok ⟨[titled, numbered], [1, 1]⟩ := by
    rw [settle_eq, regroup_of_connective (c := .and) (by decide)]
    simp [slotIn_of_joined (x := titled) rfl rfl hjoined rfl,
      slotIn_of_joined (x := numbered) rfl rfl hjoined rfl, place]
  have hslot : ∀ x ∈ [titled, numbered],
      tree.slotIn rootId x = .ok (.collected ⟨1, by decide, by decide⟩ x []) := by
    intro x hx
    rcases List.mem_cons.1 hx with rfl | hx
    · exact slotIn_of_anchored rfl rfl _ hanchor rfl
    · obtain rfl := List.mem_singleton.1 hx
      exact slotIn_of_anchored rfl rfl _ hanchor rfl
  have htest : ∃ test, tree.semiJoinAt 1 [titled, numbered] ⟨[titled, numbered], [1, 1]⟩ =
      .ok test := ⟨_, rfl⟩
  have hleaves : tree.settle 1 (resetFirst [titled, numbered]) =
      .ok ⟨[titled, numbered], [1, 1]⟩ := hinner
  rw [settle_eq, regroup_of_connective (c := .and) (by decide)]
  simpa [hslot titled (by simp), hslot numbered (by simp), place, collectedAt, hleaves] using htest

end Blog

end PathQuery.JoinTree
