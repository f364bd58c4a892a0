import ApiDescriptors.Json.Printer
import ApiDescriptors.Text.Quoted

/-!
Reading records from JSON values. A record is given as an object, whose members are read in the
order they stand in, or as an array, whose items are the fields in the order of declaration.

A fault names the place inside the value and what is wrong there.
-/

namespace ApiDescriptors.Record

-- One step into a value.
inductive Crumb
  | field (name : String)
  | item (index : Nat)
deriving DecidableEq, Repr

inductive Problem
  | wrongType (found : Json) (expected : String)
  | missing (field : String)
  -- An array without an item for the field at `index`.
  | tooShort (index : Nat) (record : String) (fields : Nat)
  | tooLong (length : Nat)

structure Fault where
  path    : List Crumb := []
  problem : Problem

-- A value in the words of a message.
def describe : Json → String
  | .null         => "null"
  | .bool value   => "boolean \x60" ++ (if value then "true" else "false") ++ "\x60"
  | .int value    => "integer \x60" ++ Number.decimalInt value ++ "\x60"
  | .double value => "floating point \x60" ++ Json.numberLayout.write value ++ "\x60"
  | .str text     => "string " ++ quoted text
  | .arr _        => "sequence"
  | .obj _        => "map"

def Problem.message : Problem → String
  | wrongType found expected => "invalid type: " ++ describe found ++ ", expected " ++ expected
  | missing field            => "missing field \x60" ++ field ++ "\x60"
  | tooShort index record fields =>
    "invalid length " ++ Number.decimal index ++ ", expected struct " ++ record ++ " with "
      ++ Number.decimal fields ++ " elements"
  | tooLong length =>
    "invalid length " ++ Number.decimal length ++ ", expected fewer elements in array"

namespace Crumb

def text (first : Bool) : Crumb → String
  | field name => if first then name else "." ++ name
  | item index => "[" ++ Number.decimal index ++ "]"

-- The path as text, such as `tags[0]`.
def pathText : List Crumb → String
  | []            => ""
  | crumb :: path => crumb.text true ++ String.join (path.map (text false))

end Crumb

abbrev Reader (α : Type) := Json → Except Fault α

-- Faults inside happened below `crumb`.
def within {α} (crumb : Crumb) (result : Except Fault α) : Except Fault α :=
  result.mapError fun fault => { fault with path := crumb :: fault.path }

def refuse {α} (expected : String) : Reader α :=
  fun value => .error { problem := .wrongType value expected }

def text : Reader String
  | .str s => .ok s
  | value  => refuse "a string" value

def flag : Reader Bool
  | .bool b => .ok b
  | value   => refuse "a boolean" value

def any : Reader Json := .ok

def table : Reader Members
  | .obj members => .ok members
  | value        => refuse "a map" value

def listOf {α} (item : Reader α) : Reader (List α)
  | .arr items => items.zipIdx.mapM fun (value, i) => within (.item i) (item value)
  | value      => refuse "a sequence" value

def optional {α} (content : Reader α) : Reader (Option α)
  | .null => .ok none
  | value => some <$> content value

-- What an absent field means.
inductive Absence
  -- A fault, in either notation.
  | refused
  -- Nothing in an object, a fault in an array.
  | refusedInArray
  -- The default.
  | allowed
deriving DecidableEq

-- How to read a record of type `α`, starting from its default.
structure Rules (α : Type) where
  name   : String
  fields : List (String × Absence)
  start  : α
  set    : String → Json → α → Except Fault α

namespace Rules

variable {α : Type}

def ofMembers (rules : Rules α) (members : Members) : Except Fault α := do
  let record ← members.foldlM (fun record (name, value) =>
    if (rules.fields.lookup name).isSome then within (.field name) (rules.set name value record)
    else .ok record) rules.start
  let absent := rules.fields.find? fun (name, absence) =>
    absence = .refused ∧ (members.lookup name).isNone
  match absent with
  | some (name, _) => .error { problem := .missing name }
  | none           => .ok record

def ofItems (rules : Rules α) (items : List Json) : Except Fault α := do
  let record ← rules.fields.zipIdx.foldlM (fun record ((name, absence), i) =>
    match items[i]? with
    | some value => within (.item i) (rules.set name value record)
    | none       =>
      if absence = .allowed then .ok record
      else .error { problem := .tooShort i rules.name rules.fields.length }) rules.start
  if rules.fields.length < items.length then .error { problem := .tooLong items.length }
  else .ok record

def read (rules : Rules α) : Reader α
  | .obj members => rules.ofMembers members
  | .arr items   => rules.ofItems items
  | value        => refuse ("struct " ++ rules.name) value

end Rules
end ApiDescriptors.Record
