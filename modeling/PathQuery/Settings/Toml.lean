import PathQuery.Error
import PathQuery.Settings
import PathQuery.Toml.Document

/-!
Settings read from a TOML document with the sections `naming` and `log`. What is not set keeps
its default and unknown keys are skipped. A section may also be an array of its values in order;
what follows them is not looked at.
-/

set_option autoImplicit false

namespace PathQuery

open Toml (parse?)

/-- A section with the given keys: the value under a key, or at its place in an array. Under other
keys there must be readable values; a time is a section that sets nothing. -/
def Toml.section? (keys : List String) : Toml → Option (String → Option Toml)
  | .table entries =>
    if entries.all fun (key, v) => keys.contains key || v.isReadable then
      some fun key => entries.lookup key
    else none
  | .array items => some fun key => items[keys.idxOf key]?
  | .datetime => some fun _ => none
  | _ => none

def Toml.readOr {α : Type} (default : α) (read? : Toml → Option α) : Option Toml → Option α
  | none => some default
  | some v => read? v

def Toml.text? : Toml → Option String
  | .string s => some s
  | _ => none

def ColumnCase.ofName? : String → Option ColumnCase
  | "snake" => some .snake
  | "as_is" => some .asIs
  | _ => none

/-- A name, or a table with the name as its only key and nothing under it. -/
def ColumnCase.ofToml? : Toml → Option ColumnCase
  | .string s => ofName? s
  | .table [(s, .table [])] => ofName? s
  | .table [(s, .array [])] => ofName? s
  | _ => none

def Naming.ofToml? (v : Toml) : Option Naming := do
  let get ← v.section? ["column_case", "primary_key", "foreign_key_suffix", "join_table_separator"]
  let defaults : Naming := {}
  return {
    columnCase := ← Toml.readOr defaults.columnCase ColumnCase.ofToml? (get "column_case")
    primaryKey := ← Toml.readOr defaults.primaryKey Toml.text? (get "primary_key")
    foreignKeySuffix :=
      ← Toml.readOr defaults.foreignKeySuffix Toml.text? (get "foreign_key_suffix")
    joinTableSeparator :=
      ← Toml.readOr defaults.joinTableSeparator Toml.text? (get "join_table_separator") }

def Toml.length? : Toml → Option (Option Nat)
  | .integer (some n) => if 0 ≤ n ∧ n < twoTo 64 then some (some n.toNat) else none
  | _ => none

def LogSettings.ofToml? (v : Toml) : Option LogSettings := do
  let get ← v.section? ["level", "max_sql_length"]
  let defaults : LogSettings := {}
  return {
    level := ← Toml.readOr defaults.level Toml.text? (get "level")
    maxLength := ← Toml.readOr defaults.maxLength Toml.length? (get "max_sql_length") }

def Settings.ofToml (text : String) : Except Error Settings :=
  let settings? : Option Settings := do
    let get ← (Toml.table (← parse? text)).section? ["naming", "log"]
    return {
      naming := ← Toml.readOr {} Naming.ofToml? (get "naming")
      log := ← Toml.readOr {} LogSettings.ofToml? (get "log") }
  match settings? with
  | some s => .ok s
  | none => .error (.settings .unreadableText)

end PathQuery
