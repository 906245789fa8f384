import PathQuery.Error
import PathQuery.Settings
import PathQuery.Statement

/-!
The log of executed statements. Long statements are cut to a number of bytes, never inside a
character.
-/

set_option autoImplicit false

namespace PathQuery

inductive LogLevel where
  | error
  | warn
  | info
  | debug
  | trace
  deriving DecidableEq, Repr, Inhabited

namespace LogLevel

def ofNumber? : Nat → Option LogLevel
  | 1 => some .error
  | 2 => some .warn
  | 3 => some .info
  | 4 => some .debug
  | 5 => some .trace
  | _ => none

def ofName? (cs : List Char) : Option LogLevel :=
  let names :=
    [("error", error), ("warn", .warn), ("info", .info), ("debug", .debug), ("trace", .trace)]
  names.findSome? fun (name, level) =>
    if Text.eqAsciiCase cs name.toList then some level else none

def digits? (cs : List Char) : Option (List Char) :=
  let ds := if cs.head? = some '+' then cs.drop 1 else cs
  if ds ≠ [] ∧ ds.all Text.isDigit then some ds else none

/-- A number from one to five, or a name in any ASCII case. -/
def ofText? (cs : List Char) : Option LogLevel :=
  match digits? cs with
  | some ds => ofNumber? (Text.decimalValue ds)
  | none => ofName? cs

end LogLevel

structure StatementLog where
  level : LogLevel := .debug
  maxLength : Option Nat := some 200
  deriving DecidableEq, Repr, Inhabited

structure LogEntry where
  level : LogLevel
  kind : StatementKind
  paramCount : Nat
  sql : String
  deriving DecidableEq, Repr

namespace StatementLog

def ofSettings (s : LogSettings) : Except Error StatementLog :=
  match LogLevel.ofText? s.level.toList with
  | some level => .ok { level, maxLength := s.maxLength }
  | none => .error (.settings (.unknownLevel s.level))

/-- The last place between characters that is at most `n` bytes behind the start of a text: it is
looked for from there downwards. There is none where the search would go below zero. -/
def boundary? (s : String) (n : Nat) : Option s.Pos :=
  if h : String.Pos.Raw.IsValid s ⟨n⟩ then some (s.pos ⟨n⟩ h)
  else
    match n with
    | 0 => none
    | n + 1 => boundary? s n

theorem isSome_boundary? (s : String) (n : Nat) : (boundary? s n).isSome := by
  induction n with
  | zero =>
    have hstart : String.Pos.Raw.IsValid s ⟨0⟩ := String.Pos.Raw.isValid_zero
    rw [boundary?, dif_pos hstart]
    rfl
  | succ n ih =>
    rw [boundary?]
    split
    · rfl
    · exact ih

def cut (limit : Nat) (s : String) : String :=
  (s.sliceTo ((boundary? s (min limit s.utf8ByteSize)).get (isSome_boundary? s _))).copy

/-- A text within the limit stays whole; a longer one is cut and marked with three dots. -/
def truncate (log : StatementLog) (s : String) : String :=
  match log.maxLength with
  | some limit => if limit < s.utf8ByteSize then cut limit s ++ "..." else s
  | none => s

def entry (log : StatementLog) (kind : StatementKind) (sql : String) (paramCount : Nat) :
    LogEntry :=
  { level := log.level, kind, paramCount, sql := log.truncate sql }

end StatementLog

end PathQuery
