import PathQuery.Proofs.Filter.Normal
import PathQuery.Proofs.JoinTree.Twins

/-!
One filter resolved in two trees of one model. A path leads to twins, whatever numbers they have, so
each criterion comes to the same condition in both trees and speaks of the same nodes.
-/

set_option autoImplicit false

namespace PathQuery

namespace JoinTree

open Building

variable {s : Schema} {t u : JoinTree} {i j : Nat}

abbrev SharedLeaves (t u : JoinTree) (x : Condition) : Prop :=
  EachLeaf (Shared t u) x

theorem sharedLeaves_of_isNormal {x : Condition} (h : t.IsNormal x) (h' : u.IsNormal x) :
    SharedLeaves t u x := by
  have hall : t.AreNormal [x] ∧ u.AreNormal [x] := ⟨⟨h, trivial⟩, h', trivial⟩
  exact eachLeaf_inside (fun y hy hleaf => shared_of_isNormal hleaf (isNormal_of_inside hy hall.1)
    (isNormal_of_inside hy hall.2)) x (.here List.mem_cons_self)

namespace Kin

variable (k : Kin s t u)

include k

theorem columnsOf (h : Twin t u i j) {name : String} {p q : Nat × List String}
    (hp : columnsOf i name t = .ok (p, t)) (hq : columnsOf j name u = .ok (q, u)) :
    Twin t u p.1 q.1 ∧ p.2 = q.2 := by
  by_cases hcomma : name.toList.contains ',' = true
  · rw [columnsOf_list hcomma] at hp hq
    obtain ⟨rfl, -⟩ := Prod.mk.inj (Except.ok.inj hp)
    obtain ⟨rfl, -⟩ := Prod.mk.inj (Except.ok.inj hq)
    exact ⟨h, by rw [k.table_eq h]⟩
  cases hr : (t.model? i).bind (·.relation? name) with
  | none =>
    have hr' : (u.model? j).bind (·.relation? name) = none := by rw [← k.model?_eq h, hr]
    rw [columnsOf_attribute hcomma hr] at hp
    rw [columnsOf_attribute hcomma hr'] at hq
    obtain ⟨rfl, -⟩ := Prod.mk.inj (Except.ok.inj hp)
    obtain ⟨rfl, -⟩ := Prod.mk.inj (Except.ok.inj hq)
    exact ⟨h, by rw [k.table_eq h]⟩
  | some r =>
    have hr' : (u.model? j).bind (·.relation? name) = some r := by rw [← k.model?_eq h, hr]
    by_cases hkind : r.kind = .belongsTo
    · rw [columnsOf_belongsTo hcomma hr hkind] at hp
      rw [columnsOf_belongsTo hcomma hr' hkind] at hq
      obtain ⟨rfl, -⟩ := Prod.mk.inj (Except.ok.inj hp)
      obtain ⟨rfl, -⟩ := Prod.mk.inj (Except.ok.inj hq)
      exact ⟨h, rfl⟩
    · obtain ⟨hc, hcolumns⟩ := of_columnsOf_relation hcomma hr hkind hp
      obtain ⟨hd, hcolumns'⟩ := of_columnsOf_relation hcomma hr' hkind hq
      have htwin := k.child h hc hd
      exact ⟨htwin, by rw [hcolumns, hcolumns', k.table_eq htwin]⟩

theorem target (h : Twin t u i j) {path : String} {p q : Nat × List String}
    (hp : Building.target i path t = .ok (p, t)) (hq : Building.target j path u = .ok (q, u)) :
    Twin t u p.1 q.1 ∧ p.2 = q.2 := by
  obtain ⟨found, hfound, hcolumns⟩ := of_target k.left h.left hp
  obtain ⟨found', hfound', hcolumns'⟩ := of_target k.right h.right hq
  obtain ⟨htwin, hname⟩ := k.resolveFrom h hfound hfound'
  rw [← hname] at hcolumns'
  exact k.columnsOf htwin hcolumns hcolumns'

end Kin

mutual

/-- A criterion comes to one condition, which speaks of the same nodes. -/
theorem Kin.resolves (k : Kin s t u) {i j : Nat} (h : Twin t u i j) {x : Criterion}
    {y y' : Condition} :
    t.Resolves i x y → u.Resolves j x y' → y = y' ∧ SharedLeaves t u y
  | .compare read found plain about made, .compare read' found' plain' about' made' => by
    obtain ⟨hid, hname⟩ := k.resolveFrom h found found'
    dsimp only at hid hname
    subst hname
    obtain ⟨htarget, hcolumns⟩ := k.columnsOf hid about about'
    dsimp only at htarget hcolumns
    subst hcolumns
    rw [read] at read'
    obtain rfl := Except.ok.inj read'
    rw [← htarget.tableAlias] at made'
    have hmade := made
    rw [made'] at hmade
    obtain rfl := Except.ok.inj hmade
    refine ⟨rfl, eachLeaf_withConnective (fun c _ hx => hx.withConnective c) ?_⟩
    refine sharedLeaves_of_isNormal (isNormal_ofColumns htarget.left made) ?_
    rw [htarget.tableAlias] at made'
    exact isNormal_ofColumns htarget.right made'
  | .compare read found plain about made, .hooked read' found' hooked' returned' inner' => by
    obtain ⟨hid, hname⟩ := k.resolveFrom h found found'
    dsimp only at hid hname
    rw [k.model?_eq hid, hname, hooked'] at plain
    cases plain
  | .hooked read found hooked returned inner, .compare read' found' plain' about' made' => by
    obtain ⟨hid, hname⟩ := k.resolveFrom h found found'
    dsimp only at hid hname
    rw [k.model?_eq hid, hname, plain'] at hooked
    cases hooked
  | .hooked read found hooked returned inner, .hooked read' found' hooked' returned' inner' => by
    obtain ⟨hid, hname⟩ := k.resolveFrom h found found'
    dsimp only at hid hname
    rw [k.model?_eq hid, hname, hooked'] at hooked
    obtain rfl := Option.some.inj hooked
    rw [read] at read'
    obtain rfl := Except.ok.inj read'
    rw [returned] at returned'
    obtain rfl := Except.ok.inj returned'
    obtain ⟨rfl, hshared⟩ := k.resolvesAll hid inner inner'
    exact ⟨rfl, hshared⟩
  | .group inner, .group inner' => by
    obtain ⟨rfl, hshared⟩ := k.resolvesAll h inner inner'
    exact ⟨rfl, hshared⟩
  | .membership about, .membership about' => by
    obtain ⟨htwin, hcolumn⟩ := k.target h about about'
    obtain rfl : _ = _ := List.singleton_inj.1 hcolumn
    rw [← htwin.tableAlias]
    refine ⟨rfl, shared_of_isNormal rfl ?_ ?_⟩
    · exact idOfAlias?_ne_none.2 ⟨_, htwin.left, rfl⟩
    · exact idOfAlias?_ne_none.2 ⟨_, htwin.right, htwin.tableAlias.symm⟩
  | .columns read about against, .columns read' about' against' => by
    obtain ⟨hl, hleft⟩ := k.target h about about'
    obtain ⟨hr, hright⟩ := k.target h against against'
    obtain rfl : _ = _ := List.singleton_inj.1 hleft
    obtain rfl : _ = _ := List.singleton_inj.1 hright
    rw [read] at read'
    obtain rfl := Except.ok.inj read'
    rw [← hl.tableAlias, ← hr.tableAlias]
    refine ⟨rfl, shared_of_isNormal rfl ⟨?_, ?_⟩ ⟨?_, ?_⟩⟩
    · exact idOfAlias?_ne_none.2 ⟨_, hl.left, rfl⟩
    · exact idOfAlias?_ne_none.2 ⟨_, hr.left, rfl⟩
    · exact idOfAlias?_ne_none.2 ⟨_, hl.right, hl.tableAlias.symm⟩
    · exact idOfAlias?_ne_none.2 ⟨_, hr.right, hr.tableAlias.symm⟩
  | .existence, .existence => ⟨rfl, .none, .none⟩
  | .subquery read, .subquery read' => by
    rw [read] at read'
    obtain rfl := Except.ok.inj read'
    exact ⟨rfl, .none, .none⟩

theorem Kin.resolvesAll (k : Kin s t u) {i j : Nat} (h : Twin t u i j) {xs : List Criterion}
    {ys ys' : List Condition} :
    t.ResolvesAll i xs ys → u.ResolvesAll j xs ys' → ys = ys' ∧ EachLeafOf (Shared t u) ys
  | .nil, .nil => ⟨rfl, trivial⟩
  | .cons head tail, .cons head' tail' => by
    obtain ⟨rfl, hhead⟩ := k.resolves h head head'
    obtain ⟨rfl, htail⟩ := k.resolvesAll h tail tail'
    exact ⟨rfl, hhead, htail⟩

end

end JoinTree

end PathQuery
