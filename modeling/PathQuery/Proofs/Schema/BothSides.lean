import PathQuery.Proofs.Schema.Closed

/-!
Edges that are declared from both sides. Each form of declaration takes its keys, columns and join
table from a side of its own; whatever the settings, the tables and their columns are, the two
relations are one edge seen from either end.
-/

set_option autoImplicit false

namespace PathQuery

namespace JoinTable

def swapped (j : JoinTable) : JoinTable :=
  ⟨j.table, j.toColumn, j.fromColumn⟩

end JoinTable

/-- Two declarations of one edge: `d` on the side that is pointed at, or either one of two sides
that a join table links. -/
inductive RelationDecl.Meets (d d' : RelationDecl) : Prop
  | pointedAt (form : d.form = .hasOne ∨ d.form = .hasMany) (other : d'.form = .belongsTo)
    (foreignKey : d'.foreignKey = d.foreignKey) (references : d'.references = d.references)
  | linked (form : d.form = .manyMany) (other : d'.form = .manyMany)
    (unset : d.references = none ∧ d'.references = none)
    (through : d'.through = d.through.map JoinTable.swapped)

theorem Naming.joinTableFor_comm (naming : Naming) (a b : String) :
    naming.joinTableFor a b = naming.joinTableFor b a := by
  unfold joinTableFor
  by_cases hab : a ≤ b
  · by_cases hba : b ≤ a
    · rw [String.le_antisymm hab hba]
    · rw [if_pos hab, if_neg hba]
  · rw [if_neg hab, if_pos ((String.le_total a b).resolve_left hab)]

namespace Schema

variable {naming : Naming} {a b : String} {d d' : RelationDecl}

theorem joinTableOf_swapped (hd : d.target = b) (hd' : d'.target = a)
    (hthrough : d'.through = d.through.map JoinTable.swapped) (current linked : Table) :
    joinTableOf naming b d' linked current = (joinTableOf naming a d current linked).swapped := by
  unfold joinTableOf
  rw [hthrough]
  cases d.through with
  | some j => rfl
  | none => simp [JoinTable.swapped, hd, hd', naming.joinTableFor_comm linked.name]

theorem relationOf_reverse (h : d.Meets d') (hd : d.target = b) (hd' : d'.target = a)
    (current linked : Table) :
    (relationOf naming a d current linked).reverse.renamed d'.name =
      relationOf naming b d' linked current := by
  cases h with
  | pointedAt form other foreignKey references =>
    rcases form with form | form <;>
      simp [relationOf, Relation.reverse, Relation.renamed, form, other, foreignKey, references, hd,
        hd']
  | linked form other unset through =>
    simp [relationOf, Relation.reverse, Relation.renamed, form, other, unset, hd, hd',
      joinTableOf_swapped hd hd' through, JoinTable.swapped]

/-- And back again, except that one row cannot be told from many from the side that points. -/
theorem relationOf_reverse_back (h : d.Meets d') (hmany : d.form ≠ .hasOne) (hd : d.target = b)
    (hd' : d'.target = a) (current linked : Table) :
    (relationOf naming b d' linked current).reverse.renamed d.name =
      relationOf naming a d current linked := by
  rw [← relationOf_reverse h hd hd' current linked]
  cases h with
  | pointedAt form other =>
    have form : d.form = .hasMany := form.resolve_left hmany
    simp [relationOf, Relation.reverse, Relation.renamed, form]
  | linked form other =>
    simp [relationOf, Relation.reverse, Relation.renamed, form]

/-- Two models of a schema that declare one edge from both sides agree about it: but for the name
the relation of either side is that of the other turned round, where it is not declared to lead to
one row. -/
theorem reverse_of_both_sides {settings : Settings} {decls : List ModelDecl} {s : Schema}
    (h : Schema.resolve settings decls = .ok s) {m m' : ModelDecl} (hm : m ∈ decls)
    (hm' : m' ∈ decls) (hd : d ∈ m.relations) (hd' : d' ∈ m'.relations)
    (htarget : d.target = m'.name) (htarget' : d'.target = m.name) (meets : d.Meets d') :
    ∃ r r', s.relation m.name d.name = .ok r ∧ s.relation m'.name d'.name = .ok r' ∧
      r.reverse.renamed d'.name = r' ∧
      (d.form ≠ .hasOne → r'.reverse.renamed d.name = r) := by
  have hsound := sound_of_resolve h
  obtain ⟨current, linked, hcurrent, hlinked, hr⟩ := hsound.declared m hm d hd
  obtain ⟨current', linked', hcurrent', hlinked', hr'⟩ := hsound.declared m' hm' d' hd'
  obtain rfl : linked = current' := by
    rw [htarget, hcurrent'] at hlinked
    exact (Except.ok.inj hlinked).symm
  obtain rfl : current = linked' := by
    rw [htarget', hcurrent] at hlinked'
    exact Except.ok.inj hlinked'
  exact ⟨_, _, hr, hr', relationOf_reverse meets htarget htarget' _ _,
    fun hmany => relationOf_reverse_back meets hmany htarget htarget' _ _⟩

end Schema

namespace Followed

def settings : Settings where
  naming := { columnCase := .asIs, primaryKey := "key", foreignKeySuffix := "Key" }

def follows : RelationDecl where
  name := "follows"
  form := .manyMany
  target := "User"
  through := some ⟨"follows", "follower", "followed"⟩

def followers : RelationDecl where
  name := "followers"
  form := .manyMany
  target := "User"
  through := some ⟨"follows", "followed", "follower"⟩

def blogs : RelationDecl where
  name := "blogs"
  form := .hasMany
  target := "Blog"

def owner : RelationDecl where
  name := "owner"
  form := .belongsTo
  target := "User"

def user : ModelDecl where
  name := "User"
  table := "site.users"
  attributes := ["name"]
  columns := [("key", "user_no")]
  relations := [follows, followers, blogs]

def blog : ModelDecl where
  name := "Blog"
  table := "blogs"
  attributes := ["userKey"]
  columns := [("userKey", "owner_no")]
  relations := [owner]

end Followed

open Followed in
theorem Schema.reverse_of_both_sides_of_users :
    ∃ s, Schema.resolve Followed.settings [user, blog] = .ok s ∧
      (∃ r r', s.relation "User" "follows" = .ok r ∧ s.relation "User" "followers" = .ok r' ∧
        r.reverse.renamed "followers" = r' ∧
        (RelationForm.manyMany ≠ .hasOne → r'.reverse.renamed "follows" = r)) ∧
      ∃ r r', s.relation "User" "blogs" = .ok r ∧ s.relation "Blog" "owner" = .ok r' ∧
        r.reverse.renamed "owner" = r' ∧
        (RelationForm.hasMany ≠ .hasOne → r'.reverse.renamed "blogs" = r) := by
  obtain ⟨s, hs⟩ : ∃ s, Schema.resolve Followed.settings [user, blog] = .ok s :=
    ⟨_, by with_unfolding_all rfl⟩
  have huser : user ∈ [user, blog] := List.mem_cons_self
  have hblog : blog ∈ [user, blog] := List.mem_cons_of_mem _ List.mem_cons_self
  have hfollows : follows ∈ user.relations := by simp [user]
  have hfollowers : followers ∈ user.relations := by simp [user]
  have hblogs : blogs ∈ user.relations := by simp [user]
  have howner : owner ∈ blog.relations := by simp [blog]
  exact ⟨s, hs,
    Schema.reverse_of_both_sides hs huser huser hfollows hfollowers rfl rfl
      (.linked rfl rfl ⟨rfl, rfl⟩ rfl),
    Schema.reverse_of_both_sides hs huser hblog hblogs howner rfl rfl
      (.pointedAt (.inr rfl) rfl rfl rfl)⟩

end PathQuery
