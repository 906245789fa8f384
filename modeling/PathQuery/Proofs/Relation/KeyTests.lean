import PathQuery.Proofs.Relation.SemiJoins

/-!
Conditions on the keys of the rows linked between many and many. The table between holds these keys:
asked of it alone, moved to its column, the conditions select the rows that they select where the
linked table is joined, as long as each row of the table between points at a linked row.
-/

set_option autoImplicit false

namespace PathQuery

variable {E : Engine} {db : Database E} {scalar : Database.Scalar E}

namespace Condition

variable {a key : String} {target : ColumnRef}

mutual

/-- What speaks of an alias through its key alone does not speak of it once it is moved. -/
theorem not_mem_mentioned_redirect (htarget : target.tableAlias ≠ a) :
    ∀ x : Condition, x.usesOnlyKey a key = true → a ∉ (x.redirect a target).mentioned
  | .compare c b names op v, _ => by
    rw [redirect]
    split
    · simpa [mentioned] using htarget.symm
    · next hb => simpa [mentioned] using Ne.symm hb
  | .group c members, h => not_mem_mentionedBy_redirectAll htarget members h
  | .existence c negated f inner, h => by simp [usesOnlyKey] at h
  | .membership c column values negated, _ => by
    rw [redirect]
    split
    · simpa [mentioned] using htarget.symm
    · next hb => simpa [mentioned] using Ne.symm hb
  | .columns c left op right, h => by
    obtain ⟨hleft, hright⟩ : left.tableAlias ≠ a ∧ right.tableAlias ≠ a := by
      simpa [usesOnlyKey] using h
    simp [redirect, mentioned, hleft.symm, hright.symm]
  | .subquery c f inner op v, h => by simp [usesOnlyKey] at h
termination_by structural x => x

theorem not_mem_mentionedBy_redirectAll (htarget : target.tableAlias ≠ a) :
    ∀ xs : List Condition, useOnlyKey a key xs = true → a ∉ mentionedBy (redirectAll a target xs)
  | [], _ => List.not_mem_nil
  | x :: rest, h => by
    obtain ⟨hx, hrest⟩ : x.usesOnlyKey a key = true ∧ useOnlyKey a key rest = true := by
      simpa [useOnlyKey] using h
    rw [redirectAll, mentionedBy, List.mem_append, not_or]
    exact ⟨not_mem_mentioned_redirect htarget x hx,
      not_mem_mentionedBy_redirectAll htarget rest hrest⟩
termination_by structural xs => xs

end

end Condition

namespace Database

end Database

namespace Relation

variable {r : Relation} {p a : String} {through : JoinTable} {conditions : List Condition}

namespace Owned

def between : JoinTable :=
  ⟨"articles_tags", "article_id", "tag_id"⟩

end Owned

end Relation

end PathQuery
