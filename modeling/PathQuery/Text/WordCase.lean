import PathQuery.Text.LetterCase

/-!
Names split into words and joined in another style. Words are separated by characters that are
neither letters nor numbers, by the step from a lower-case to an upper-case letter, and before
the last letter of a run of capitals that a lower-case letter follows.
-/

set_option autoImplicit false

namespace PathQuery.Text

inductive Run where
  | fresh
  | lower
  | upper
  deriving DecidableEq, Repr

/-- The run after a letter that is no boundary; a character without case keeps it. -/
def Run.after (c : Char) (run : Run) : Run :=
  if isLowercase c then .lower else if isUppercase c then .upper else run

def prepend (c : Char) : List (List Char) → List (List Char)
  | [] => [[c]]
  | word :: rest => (c :: word) :: rest

/-- The words of a text without separators. The first word of the answer goes on the word that
is being read, which is empty when a boundary comes first. -/
def splitCase : Run → List Char → List (List Char)
  | _, [] => [[]]
  | run, c :: rest =>
    match rest with
    | [] => [[c]]
    | next :: _ =>
      if run.after c = .lower ∧ isUppercase next then [c] :: splitCase .fresh rest
      else if run = .upper ∧ isUppercase c ∧ isLowercase next then
        [] :: prepend c (splitCase .fresh rest)
      else prepend c (splitCase (run.after c) rest)

def separate : List Char → List (List Char)
  | [] => [[]]
  | c :: rest => if isAlphanumeric c then prepend c (separate rest) else [] :: separate rest

def caseWords (cs : List Char) : List (List Char) :=
  (separate cs).flatMap fun piece => if piece.isEmpty then [] else splitCase .fresh piece

/-- Lower case; a sigma at the end of a word has a form of its own. -/
def lowerWord : List Char → List Char
  | [] => []
  | ['Σ'] => ['ς']
  | c :: rest => toLowercase c ++ lowerWord rest

def capitalize : List Char → List Char
  | [] => []
  | c :: rest => toUppercase c ++ lowerWord rest

def snakeCase (cs : List Char) : List Char :=
  ['_'].intercalate ((caseWords cs).map lowerWord)

def lowerCamelCase (cs : List Char) : List Char :=
  match caseWords cs with
  | [] => []
  | word :: rest => lowerWord word ++ rest.flatMap capitalize

end PathQuery.Text
