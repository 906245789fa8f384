import PathQuery.Proofs.Request.Selected

/-!
Filters of two criteria. With OR a statement selects the rows that either criterion alone selects;
with AND those that both select, if the paths of the two part behind the first relation to many at
the latest. Where they go on through a second one together, AND asks for a single row of the first
that has both to show, and loses rows that each criterion alone selects.
-/

set_option autoImplicit false

namespace PathQuery

open JoinTree

variable {E : Engine} {db : Database E} {scalar : Database.Scalar E}

namespace JoinTree

variable {t : JoinTree}

theorem Resolves.withConnective {scope : Nat} {x : Criterion} {y : Condition} (c : Connective)
    (h : t.Resolves scope x y) : t.Resolves scope (x.withConnective c) (y.withConnective c) := by
  cases h with
  | compare read found plain about made =>
    rw [Condition.withConnective_withConnective]
    exact .compare read found plain about made
  | hooked read found hooked returned inner => exact .hooked read found hooked returned inner
  | group inner => exact .group inner
  | membership about => exact .membership about
  | columns read about against => exact .columns read about against
  | existence => exact .existence
  | subquery read => exact .subquery read

theorem resolvesAll_pair {scope : Nat} {x x' : Criterion} {ys : List Condition}
    (h : t.ResolvesAll scope [x, x'] ys) :
    ∃ y y', ys = [y, y'] ∧ t.Resolves scope x y ∧ t.Resolves scope x' y' := by
  cases h with
  | cons head tail =>
    cases tail with
    | cons head' tail =>
      cases tail
      exact ⟨_, _, rfl, head, head'⟩

end JoinTree

namespace Criterion

theorem withConnective_withConnective (c d : Connective) (x : Criterion) :
    (x.withConnective d).withConnective c = x.withConnective c := by
  cases x <;> rfl

theorem withConnective_self (x : Criterion) : x.withConnective x.connective = x := by
  cases x <;> rfl

theorem avoidSelects_pair {c d : Criterion} (hc : c.avoidsSelects) (hd : d.avoidsSelects)
    (k : Connective) : avoidSelects [c, d.withConnective k] := by
  have hd' : (d.withConnective k).avoidsSelects = true := by
    cases d <;> exact hd
  simp [avoidSelects, hc, hd']

theorem avoidSelects_single {c : Criterion} (hc : c.avoidsSelects) : avoidSelects [c] := by
  simp [avoidSelects, hc]

end Criterion

namespace Threads

def decls : List ModelDecl :=
  [{ name := "Author", table := "authors", attributes := ["id", "name"]
     relations := [{ name := "articles", form := .hasMany, target := "Article" }] },
    { name := "Article", table := "articles", attributes := ["id", "title", "authorId"]
      relations := [{ name := "comments", form := .hasMany, target := "Comment" }] },
    { name := "Comment", table := "comments", attributes := ["id", "body", "score", "articleId"] }]

def articles : Relation :=
  { name := "articles", kind := .hasMany, current := ⟨"Author", "authors", "id", "id"⟩
    linked := ⟨"Article", "articles", "authorId", "author_id"⟩ }

def comments : Relation :=
  { name := "comments", kind := .hasMany, current := ⟨"Article", "articles", "id", "id"⟩
    linked := ⟨"Comment", "comments", "articleId", "article_id"⟩ }

def schema : Schema :=
  { models := [
      { name := "Author", table := (Table.named "authors").withColumns ["id", "name"]
        relations := [articles], hooks := [] },
      { name := "Article"
        table := ((Table.named "articles").withColumns ["id", "title"]).withColumn
          "authorId" "author_id"
        relations := [comments], hooks := [] },
      { name := "Comment"
        table := ((Table.named "comments").withColumns ["id", "body", "score"]).withColumn
          "articleId" "article_id"
        relations := [], hooks := [] }]
    settings := {} }

def start : JoinTree :=
  ⟨some schema, (Table.named "authors").withColumns ["id", "name"], [Node.root (some "Author")]⟩

def tree : JoinTree :=
  ((start.child rootId "articles").2.child 1 "comments").2

def author : Tuple Engine.textual :=
  fun column => [("id", "1"), ("name", "'C'")].lookup column

def tables : Database Engine.textual :=
  fun name => match name with
    | "authors" => [author]
    | "articles" =>
      [fun column => [("id", "2"), ("title", "'D'"), ("author_id", "1")].lookup column,
        fun column => [("id", "3"), ("title", "'E'"), ("author_id", "1")].lookup column]
    | "comments" =>
      [fun column =>
          [("id", "4"), ("body", "'A'"), ("score", "0"), ("article_id", "2")].lookup column,
        fun column =>
          [("id", "5"), ("body", "'B'"), ("score", "1"), ("article_id", "3")].lookup column]
    | _ => []

theorem forall_relation {P : Relation → Prop} (harticles : P articles) (hcomments : P comments) :
    ∀ m ∈ schema.models, ∀ r ∈ m.relations, P r := by
  simp [schema, harticles, hcomments]

theorem governs : schema.Governs tables where
  resolves := ⟨{}, decls, by with_unfolding_all rfl⟩
  plain := forall_relation ⟨by decide, by decide, by decide, by decide⟩
    ⟨by decide, by decide, by decide, by decide⟩
  hooks := Schema.hooksAvoidSelects_of_nil (by simp [schema])
  describes :=
    { one := forall_relation (fun hone => by cases hone) fun hone => by cases hone
      points := forall_relation (fun _ hkind => by cases hkind) fun _ hkind => by cases hkind }

theorem reached : Reached start tree :=
  (reached_child start rootId "articles").trans (reached_child _ 1 "comments")

def column (scored : Bool) : String :=
  if scored then "score" else "body"

def value (scored : Bool) : Value :=
  if scored then .int 1 else .text "A"

def filter (scored : Bool) : Filter :=
  Filter.empty.eq ("articles/comments/" ++ column scored) (value scored)

def leaf (scored : Bool) : Condition :=
  .compare .and "articles.comments" [column scored] .eq (value scored)

def criterion (scored : Bool) : Criterion :=
  .compare .and ("articles/comments/" ++ column scored) "=" (value scored)

theorem resolves (scored : Bool) : tree.Resolves rootId (criterion scored) (leaf scored) := by
  have hsegments : segments ("articles/comments/" ++ column scored) =
      ["articles", "comments", column scored] := by
    cases scored <;> decide +kernel
  have hfound : tree.resolveFrom rootId ("articles/comments/" ++ column scored) =
      (.ok (2, column scored), tree) := by
    simp only [resolveFrom, hsegments]
    cases scored <;> rfl
  have hplain : (tree.model? 2).bind (·.hook? (column scored)) = none := by cases scored <;> rfl
  have habout : Building.columnsOf 2 (column scored) tree = .ok ((2, [column scored]), tree) := by
    cases scored <;> rfl
  have hmade : Condition.ofColumns (tree.node 2).tableAlias .eq (value scored).dereference
      [column scored] = .ok (leaf scored) := by
    cases scored <;> rfl
  exact Resolves.equals hfound hplain habout hmade rfl

theorem anchors (scored : Bool) : tree.anchorAt? rootId (leaf scored) = some 1 ∧
    tree.anchorAt? 1 (leaf scored) = some 2 ∧ tree.anchorAt? 2 (leaf scored) = none := by
  have howner : tree.owner? (leaf scored) = some 2 := by cases scored <;> rfl
  have hbelow : tree.pathBetween? 1 2 = some [2] := by
    rw [pathBetween?_of_parent (p := 1) (by decide) rfl (by decide), pathBetween?_self]
    rfl
  have hroot : tree.pathBetween? rootId 2 = some [1, 2] :=
    pathBetween?_through (c := 1) rfl (by decide) hbelow
  refine ⟨?_, ?_, ?_⟩
  · rw [anchorAt?_of_owner howner, anchor?, hroot]
    rfl
  · rw [anchorAt?_of_owner howner, anchor?, hbelow]
    rfl
  · rw [anchorAt?_of_owner howner, (JoinedFrom.self tree 2).anchor?_eq]

/-- Conditions on the comments are asked of the comments on one article. -/
theorem holds_iff {tests : List Bool} (hne : tests ≠ []) :
    tree.Holds tables (fun _ _ _ => none) rootId
        (tree.extend tables (fun _ => nullRow) rootId author) (tests.map leaf) ↔
      ∃ article ∈ articles.linkedRows tables author, ∀ scored ∈ tests,
        ∃ comment ∈ comments.linkedRows tables article,
          Engine.textual.compare .eq [comment (column scored)] (value scored) = .holds := by
  have hne' : tests.map leaf ≠ [] := by simpa using hne
  have hand : (tests.map leaf).map (·.withConnective .and) = tests.map leaf := by
    rw [List.map_map]
    rfl
  have hat : ∀ {scope a : Nat}, (∀ scored, tree.anchorAt? scope (leaf scored) = some a) →
      ∀ x ∈ tests.map leaf, tree.anchorAt? scope x = some a := by
    intro scope a h
    rw [List.forall_mem_map]
    exact fun scored _ => h scored
  have hconnective : ∀ x ∈ (tests.map leaf).drop 1, x.connective = .and := by
    rw [← List.map_drop, List.forall_mem_map]
    exact fun _ _ => rfl
  have hjoined : ∀ x ∈ tests.map leaf, tree.anchorAt? 2 x = none := by
    rw [List.forall_mem_map]
    exact fun scored _ => (anchors scored).2.2
  rw [holds_of_and hconnective, runHolds_far hne' (hat fun scored => (anchors scored).1), hand,
    linkedHold_far hne' (hat fun scored => (anchors scored).2.1), hand]
  have harticles : ∀ rows, tree.rowsAt tables rows 1 = articles.linkedRows tables (rows rootId) :=
    fun _ => rfl
  have hcomments : ∀ rows, tree.rowsAt tables rows 2 = comments.linkedRows tables (rows 1) :=
    fun _ => rfl
  have halias : tree.idOfAlias? "articles.comments" = some 2 := rfl
  simp only [linkedHold_near hjoined, List.forall_mem_map, harticles, hcomments, extend_self]
  simp only [leaf, leafHolds_compare halias, extend_self, List.map_cons, List.map_nil]

def titled : Condition :=
  .compare .and "articles" ["title"] .eq (.text "D")

def titling : Criterion :=
  .compare .and "articles/title" "=" (.text "D")

theorem resolves_titled : tree.Resolves rootId titling titled := by
  have hsegments : segments "articles/title" = ["articles", "title"] := by decide +kernel
  have hfound : tree.resolveFrom rootId "articles/title" = (.ok (1, "title"), tree) := by
    simp only [resolveFrom, hsegments]
    rfl
  exact Resolves.equals hfound rfl rfl rfl rfl

/-- Behind the articles only the way to the comments goes on through a relation to many. -/
theorem parted : tree.Parted rootId titled (leaf false) := by
  have howner : tree.owner? titled = some 1 := rfl
  have hnone : tree.anchorAt? 1 titled = none := by
    rw [anchorAt?_of_owner howner, (JoinedFrom.self tree 1).anchor?_eq]
  intro a b _ ha hb
  rw [(anchors false).1] at ha
  obtain rfl := Option.some.inj ha
  simp [hnone] at hb

def request (f : Filter) : Request :=
  { target := .model schema "Author", kind := .select, options := { filter := f } }

theorem losesNoRow {criteria : List Criterion} {ys : List Condition} {st : Statement}
    (h : BuiltOf schema "Author" criteria st) (hys : tree.ResolvesAll rootId criteria ys)
    (heq : ∀ y ∈ ys, ∃ c a names v, y = .compare c a names .eq v) :
    st.LosesNoRow Engine.textual := by
  refine h.losesNoRow governs.plain.undotted rfl reached hys fun y hy hmissing => ?_
  obtain ⟨c, a, names, v, rfl⟩ := heq y hy
  exact hmissing

theorem selects_iff {tests : List Bool} (hne : tests ≠ []) {criteria : List Criterion}
    {st : Statement} (h : BuiltOf schema "Author" criteria st)
    (havoids : Criterion.avoidSelects criteria)
    (hresolves : tree.ResolvesAll rootId criteria (tests.map leaf)) :
    st.Selects tables (fun _ _ _ => none) author ↔
      ∃ article ∈ articles.linkedRows tables author, ∀ scored ∈ tests,
        ∃ comment ∈ comments.linkedRows tables article,
          Engine.textual.compare .eq [comment (column scored)] (value scored) = .holds := by
  have hkept : st.LosesNoRow Engine.textual := by
    refine losesNoRow h hresolves ?_
    rw [List.forall_mem_map]
    exact fun _ _ => ⟨_, _, _, _, rfl⟩
  rw [← holds_iff hne]
  exact h.selects_iff governs havoids hkept rfl List.mem_cons_self reached hresolves

end Threads

namespace BuiltOf

variable {s : Schema} {name : String} {c d : Criterion} {first second both either : Statement}
  {start : JoinTree} {x : Tuple E}

/-- Statements with two criteria, alone and together, agree with OR on the rows that they select,
and with AND as long as the ways to the criteria part. -/
theorem selects_and_or (scalar : Database.Scalar E) (g : s.Governs db) (hc : c.avoidsSelects)
    (hd : d.avoidsSelects) (hfirst : BuiltOf s name [c] first) (hsecond : BuiltOf s name [d] second)
    (hboth : BuiltOf s name [c, d.withConnective .and] both)
    (heither : BuiltOf s name [c, d.withConnective .or] either)
    (hkept : ∀ st : Statement, st ∈ [first, second, both, either] → st.LosesNoRow E)
    (hstart : JoinTree.ofModel s name = .ok start) (hx : x ∈ db (start.table rootId).name) :
    (either.Selects db scalar x ↔ first.Selects db scalar x ∨ second.Selects db scalar x) ∧
      (both.Selects db scalar x → first.Selects db scalar x ∧ second.Selects db scalar x) ∧
      ∀ u y z, Reached start u → u.Resolves rootId c y → u.Resolves rootId d z →
        u.Parted rootId y z →
        (both.Selects db scalar x ↔ first.Selects db scalar x ∧ second.Selects db scalar x) := by
  have hsingle : ∀ {e : Criterion} {st : Statement}, BuiltOf s name [e] st → e.avoidsSelects →
      st ∈ [first, second, both, either] → ∀ {u y}, Reached start u → u.Resolves rootId e y →
      (st.Selects db scalar x ↔
        u.Holds db scalar rootId (u.extend db (fun _ => nullRow) rootId x) [y]) :=
    fun hst he hmem _ _ hu hy => hst.selects_iff g (Criterion.avoidSelects_single he)
      (hkept _ hmem) hstart hx hu (.cons hy .nil)
  have hpair : ∀ {k : Connective} {st : Statement}, BuiltOf s name [c, d.withConnective k] st →
      st ∈ [first, second, both, either] → ∀ {u y z}, Reached start u → u.Resolves rootId c y →
      u.Resolves rootId d z → (st.Selects db scalar x ↔ u.Holds db scalar rootId
        (u.extend db (fun _ => nullRow) rootId x) [y, z.withConnective k]) :=
    fun {k} _ hst hmem _ _ _ hu hy hz => hst.selects_iff g (Criterion.avoidSelects_pair hc hd k)
      (hkept _ hmem) hstart hx hu (.cons hy (.cons (hz.withConnective k) .nil))
  obtain ⟨start', u, ys, hstart', hu, hys⟩ := hboth.exists_tree
  obtain rfl : start' = start := Except.ok.inj (hstart'.symm.trans hstart)
  obtain ⟨y, z, -, hy, hz⟩ := resolvesAll_pair hys
  have hz := hz.withConnective d.connective
  rw [Criterion.withConnective_withConnective, Criterion.withConnective_self] at hz
  refine ⟨?_, fun h => ?_, fun u y z hu hy hz hparted => ?_⟩
  · rw [hpair heither (by simp) hu hy hz, hsingle hfirst hc (by simp) hu hy,
      hsingle hsecond hd (by simp) hu hz]
    exact holds_or
  · rw [hpair hboth (by simp) hu hy hz] at h
    rw [hsingle hfirst hc (by simp) hu hy, hsingle hsecond hd (by simp) hu hz]
    exact h.both
  · rw [hpair hboth (by simp) hu hy hz, hsingle hfirst hc (by simp) hu hy,
      hsingle hsecond hd (by simp) hu hz]
    exact holds_and hparted

/-- Articles titled D, and articles with a comment A, of one author or another. -/
theorem selects_and_or_of_titled :
    let titled := Filter.empty.eq "articles/title" (.text "D")
    let commented := Threads.filter false
    ∃ first second both either, (Threads.request titled).build 1 = .ok first ∧
      (Threads.request commented).build 1 = .ok second ∧
      (Threads.request (titled.extend commented)).build 1 = .ok both ∧
      (Threads.request ((titled.next .or).eq "articles/comments/body" (.text "A"))).build 1 =
        .ok either ∧
      Threads.schema.Governs Threads.tables ∧
      (∀ st : Statement, st ∈ [first, second, both, either] → st.LosesNoRow Engine.textual) ∧
      Threads.author ∈ Threads.tables (Threads.start.table rootId).name ∧
      Threads.tree.Parted rootId Threads.titled (Threads.leaf false) ∧
      (either.Selects Threads.tables (fun _ _ _ => none) Threads.author ↔
        first.Selects Threads.tables (fun _ _ _ => none) Threads.author ∨
          second.Selects Threads.tables (fun _ _ _ => none) Threads.author) ∧
      (both.Selects Threads.tables (fun _ _ _ => none) Threads.author ↔
        first.Selects Threads.tables (fun _ _ _ => none) Threads.author ∧
          second.Selects Threads.tables (fun _ _ _ => none) Threads.author) := by
  intro titled commented
  have hopens : ∀ f ∈ [titled, commented, titled.extend commented,
      (titled.next .or).eq "articles/comments/body" (.text "A")],
      (Threads.request f).opens 1 = true := by decide +kernel
  obtain ⟨first, hfirst⟩ := Request.exists_build rfl (hopens titled (by simp))
  obtain ⟨second, hsecond⟩ := Request.exists_build rfl (hopens commented (by simp))
  obtain ⟨both, hboth⟩ := Request.exists_build rfl (hopens (titled.extend commented) (by simp))
  obtain ⟨either, heither⟩ := Request.exists_build rfl
    (hopens ((titled.next .or).eq "articles/comments/body" (.text "A")) (by simp))
  have hcommented := Threads.resolves false
  have hkept : ∀ st : Statement, st ∈ [first, second, both, either] →
      st.LosesNoRow Engine.textual := by
    have hpair : ∀ k, ∀ y ∈ [Threads.titled, (Threads.leaf false).withConnective k],
        ∃ c a names v, y = .compare c a names .eq v := by
      simp [Threads.titled, Threads.leaf, Condition.withConnective]
    intro st hst
    simp only [List.mem_cons, List.not_mem_nil, or_false] at hst
    rcases hst with rfl | rfl | rfl | rfl
    · exact Threads.losesNoRow (BuiltOf.of_select hfirst) (.cons Threads.resolves_titled .nil)
        (by simp [Threads.titled])
    · exact Threads.losesNoRow (BuiltOf.of_select hsecond) (.cons hcommented .nil)
        (by simp [Threads.leaf])
    · exact Threads.losesNoRow (BuiltOf.of_select hboth)
        (.cons Threads.resolves_titled (.cons (hcommented.withConnective .and) .nil)) (hpair .and)
    · exact Threads.losesNoRow (BuiltOf.of_select heither)
        (.cons Threads.resolves_titled (.cons (hcommented.withConnective .or) .nil)) (hpair .or)
  obtain ⟨hor, -, hand⟩ := selects_and_or (fun _ _ _ => none) Threads.governs rfl rfl
    (BuiltOf.of_select hfirst) (BuiltOf.of_select hsecond) (BuiltOf.of_select hboth)
    (BuiltOf.of_select heither) hkept rfl (List.mem_cons_self : Threads.author ∈ _)
  exact ⟨first, second, both, either, hfirst, hsecond, hboth, heither, Threads.governs, hkept,
    List.mem_cons_self, Threads.parted, hor, hand _ _ _ Threads.reached Threads.resolves_titled
      hcommented Threads.parted⟩

/-- An author whose articles have a comment with the body A and a comment with the score 1 is
selected by either condition. Both together miss the author, since no article has both comments. -/
theorem both_of_comments_miss_author :
    ∃ first second both, (Threads.request (Threads.filter false)).build 1 = .ok first ∧
      (Threads.request (Threads.filter true)).build 1 = .ok second ∧
      (Threads.request ((Threads.filter false).extend (Threads.filter true))).build 1 = .ok both ∧
      Threads.author ∈ Threads.tables "authors" ∧
      first.Selects Threads.tables (fun _ _ _ => none) Threads.author ∧
      second.Selects Threads.tables (fun _ _ _ => none) Threads.author ∧
      ¬ both.Selects Threads.tables (fun _ _ _ => none) Threads.author := by
  have hopens : ∀ f ∈ [Threads.filter false, Threads.filter true,
      (Threads.filter false).extend (Threads.filter true)],
      (Threads.request f).opens 1 = true := by decide +kernel
  obtain ⟨first, hfirst⟩ := Request.exists_build rfl (hopens (Threads.filter false) (by simp))
  obtain ⟨second, hsecond⟩ := Request.exists_build rfl (hopens (Threads.filter true) (by simp))
  obtain ⟨both, hboth⟩ := Request.exists_build rfl
    (hopens ((Threads.filter false).extend (Threads.filter true)) (by simp))
  refine ⟨first, second, both, hfirst, hsecond, hboth, List.mem_cons_self, ?_, ?_, ?_⟩
  · refine (Threads.selects_iff (List.cons_ne_nil false []) (BuiltOf.of_select hfirst) rfl ?_).2 ?_
    · exact .cons (Threads.resolves false) .nil
    · decide +kernel
  · refine (Threads.selects_iff (List.cons_ne_nil true []) (BuiltOf.of_select hsecond) rfl ?_).2 ?_
    · exact .cons (Threads.resolves true) .nil
    · decide +kernel
  · have hboth := Threads.selects_iff (List.cons_ne_nil false [true]) (BuiltOf.of_select hboth) rfl
      (.cons (Threads.resolves false) (.cons ((Threads.resolves true).withConnective .and) .nil))
    rw [hboth]
    decide +kernel

end BuiltOf

end PathQuery
