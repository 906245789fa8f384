import PathQuery.Proofs.JoinTree.Shape

/-!
Trees as a statement builds them: steps that find or create a child, keep a condition or set a mark,
in any order, from the root of a model. A step that fails leaves the tree as it is, so every tree
that is reached is well-formed.
-/

set_option autoImplicit false

namespace PathQuery.JoinTree

inductive Step (t : JoinTree) : JoinTree → Prop
  | child (parent : Nat) (name : String) : Step t (t.child parent name).2
  | attach (id : Nat) (leaf : Condition) : Step t (t.attach id leaf)
  | joinPath (id : Nat) : Step t (t.joinPath id)
  | select (id : Nat) : Step t (t.select id)
  | require (id : Nat) : Step t (t.require id)

inductive Reached (start : JoinTree) : JoinTree → Prop
  | start : Reached start start
  | step {t u : JoinTree} : Reached start t → Step t u → Reached start u

theorem Step.grown {t u : JoinTree} (h : Step t u) : Grown t u := by
  cases h with
  | child p name => exact grown_of_child t p name
  | attach id leaf => exact (sameShape_attach t id leaf).grown
  | joinPath id => exact (sameShape_joinPath t id).grown
  | select id => exact (sameShape_select t id).grown
  | require id => exact (sameShape_require t id).grown

theorem Reached.grown {start t : JoinTree} (h : Reached start t) : Grown start t := by
  induction h with
  | start => exact .refl start
  | step _ hstep ih => exact ih.trans hstep.grown

theorem Reached.wellFormed {s : Schema} {name : String} {start t : JoinTree}
    (h : Reached start t) (hs : ofModel s name = .ok start) : t.WellFormed :=
  h.grown.wellFormed (wellFormed_ofModel hs)

theorem Reached.schema {s : Schema} {name : String} {start t : JoinTree}
    (h : Reached start t) (hs : ofModel s name = .ok start) : t.schema = some s := by
  obtain ⟨m, -, rfl⟩ := map_eq_ok_iff.1 hs
  exact h.grown.schema

theorem Reached.trans {start t u : JoinTree} (h : Reached start t) (h' : Reached t u) :
    Reached start u := by
  induction h' with
  | start => exact h
  | step _ hstep ih => exact .step ih hstep

theorem reached_child (t : JoinTree) (p : Nat) (name : String) :
    Reached t (t.child p name).2 :=
  .step .start (.child p name)

theorem reached_descend (t : JoinTree) (start : Nat) (names : List String) :
    Reached t (t.descend start names).2 :=
  descend_of_child (fun _ => .start) .trans reached_child t start names

theorem reached_descendPath (t : JoinTree) (path : String) (start : Nat) (names : List String) :
    Reached t (t.descendPath path start names).2 :=
  descendPath_of_child (fun _ => .start) .trans reached_child t path start names

theorem reached_resolveFrom (t : JoinTree) (start : Nat) (path : String) :
    Reached t (t.resolveFrom start path).2 := by
  unfold resolveFrom
  dsimp only
  split
  · exact .start
  · have hdescend := reached_descend t start (segments path).dropLast
    split
    · next id u hd => rwa [hd] at hdescend
    · next e u hd => rwa [hd] at hdescend

end PathQuery.JoinTree
