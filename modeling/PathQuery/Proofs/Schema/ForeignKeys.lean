import PathQuery.Proofs.Text.Suffixes
import PathQuery.Settings

/-!
The two derivations of a key from a model's name. A join table writes the suffix behind the name in
snake case, as it is configured. A table that holds the key has an attribute first, with the suffix
in camel case, and its column in snake case after that, so the suffix is read for words twice.
-/

set_option autoImplicit false

namespace PathQuery

namespace Text

def Ending.exemplar : Ending → String
  | .lower => "Ab"
  | .letter => "A"
  | .initial => "AbC"
  | .acronym => "AB"

theorem Ending.isName_exemplar (e : Ending) : IsName e.exemplar.toList := by
  cases e <;> exact isName_of_all (by decide) (by decide)

theorem Ending.ending_exemplar (e : Ending) : ending e.exemplar.toList = e := by
  cases e <;> decide

end Text

namespace Naming

variable {naming : Naming} {model : String}

/-- The default column of a key to the model is named as the default column of a join table. -/
def KeysAgree (naming : Naming) (model : String) : Prop :=
  naming.columnFor (naming.foreignKeyAttribute model) = naming.foreignKeyColumn model

theorem keysAgree_of_asIs (h : naming.columnCase = .asIs) (model : String) :
    naming.KeysAgree model := by
  rw [KeysAgree, columnFor, foreignKeyAttribute, h]

theorem keysAgree_iff_of_snake (h : naming.columnCase = .snake) (model : String) :
    naming.KeysAgree model ↔
      Text.snakeCase (Text.lowerCamelCase (model.toList ++ naming.foreignKeySuffix.toList)) =
        Text.snakeCase model.toList ++ naming.foreignKeySuffix.toList := by
  rw [KeysAgree, columnFor, foreignKeyAttribute, foreignKeyColumn, h, ← String.toList_inj]
  simp

theorem keysAgree_iff_keeps (h : naming.columnCase = .snake) (hmodel : Text.IsName model.toList) :
    naming.KeysAgree model ↔
      Text.Keeps (Text.ending model.toList) naming.foreignKeySuffix.toList := by
  rw [keysAgree_iff_of_snake h, Text.snakeCase_lowerCamelCase_iff hmodel]

/-- Names that end alike agree on the same suffixes, so the four shortest decide for all. -/
theorem keysAgree_iff_exemplar (naming : Naming) (hmodel : Text.IsName model.toList) :
    naming.KeysAgree model ↔ naming.KeysAgree (Text.ending model.toList).exemplar := by
  cases hcase : naming.columnCase with
  | asIs => exact iff_of_true (keysAgree_of_asIs hcase _) (keysAgree_of_asIs hcase _)
  | snake =>
    rw [keysAgree_iff_keeps hcase hmodel, keysAgree_iff_keeps hcase (Text.Ending.isName_exemplar _),
      Text.Ending.ending_exemplar]

theorem keysAgree_of_underscored (hmodel : Text.IsName model.toList) {words : List (List Char)}
    (hwords : ∀ w ∈ words, Text.isKeyWord w = true)
    (hsuffix : naming.foreignKeySuffix.toList = Text.underscored words) :
    naming.KeysAgree model := by
  cases hcase : naming.columnCase with
  | asIs => exact keysAgree_of_asIs hcase model
  | snake =>
    rw [keysAgree_iff_keeps hcase hmodel, hsuffix]
    exact Text.keeps_underscored _ hwords

/-- When the key of a model is named alike in both places: always where columns are named like their
attributes; else by the suffix and the end of the name alone; and for every name when the suffix is
words of lower case, each behind an underscore, or nothing. -/
theorem foreign_keys_agree (naming : Naming) (model : String) (hmodel : Text.IsName model.toList) :
    (naming.columnCase = .asIs → naming.KeysAgree model) ∧
      (naming.KeysAgree model ↔ naming.KeysAgree (Text.ending model.toList).exemplar) ∧
      ∀ words : List (List Char), (∀ w ∈ words, Text.isKeyWord w = true) →
        naming.foreignKeySuffix.toList = Text.underscored words → naming.KeysAgree model :=
  ⟨fun h => keysAgree_of_asIs h model, keysAgree_iff_exemplar naming hmodel,
    fun _ hwords hsuffix => keysAgree_of_underscored hmodel hwords hsuffix⟩

theorem foreign_keys_agree_of_default :
    Text.IsName "BlogPost".toList ∧ ({} : Naming).KeysAgree "BlogPost" :=
  have hmodel : Text.IsName "BlogPost".toList := Text.isName_of_all (by decide) (by decide)
  ⟨hmodel, (foreign_keys_agree {} "BlogPost" hmodel).2.2 [['i', 'd']] (by decide) (by decide)⟩

/-- A suffix in camel case stays that in a join table and becomes snake case elsewhere. -/
theorem foreign_keys_differ_of_capital_suffix :
    Text.IsName "Author".toList ∧ ¬ ({ foreignKeySuffix := "Id" } : Naming).KeysAgree "Author" := by
  refine ⟨Text.isName_of_all (by decide) (by decide), ?_⟩
  rw [keysAgree_iff_of_snake rfl]
  decide

end Naming

end PathQuery
