import ApiDescriptors.Json.Basic
import ApiDescriptors.Number.Layout

/-!
JSON text: on one line without blanks, or with one member or item a line, indented by two spaces.
-/

namespace ApiDescriptors.Json

-- Floating-point numbers in JSON text: the sign of an exponent is always written.
def numberLayout : Number.Layout := { exponentSign := "+" }

def escape (c : Char) : List Char :=
  match c with
  | '\x22' => ['\\', '\x22']
  | '\\'   => ['\\', '\\']
  | '\x08' => ['\\', 'b']
  | '\x0c' => ['\\', 'f']
  | '\n'   => ['\\', 'n']
  | '\r'   => ['\\', 'r']
  | '\t'   => ['\\', 't']
  | c      =>
    if c.toNat < 0x20 then
      ['\\', 'u', '0', '0', Number.digitChar (c.toNat / 16), Number.digitChar (c.toNat % 16)]
    else [c]

def stringText (text : String) : String :=
  String.ofList <| '\x22' :: text.toList.flatMap escape ++ ['\x22']

def scalarText : Json → String
  | bool value   => if value then "true" else "false"
  | int value    => Number.decimalInt value
  | double value => numberLayout.write value
  | str text     => stringText text
  | _            => "null"

def openBrace : String := "\x7b"
def closeBrace : String := "\x7d"

mutual

def compact : Json → String
  | arr items   => "[" ++ ",".intercalate (compactItems items) ++ "]"
  | obj members => openBrace ++ ",".intercalate (compactMembers members) ++ closeBrace
  | scalar      => scalar.scalarText

def compactItems : List Json → List String
  | []            => []
  | item :: items => item.compact :: compactItems items

def compactMembers : List (String × Json) → List String
  | []                       => []
  | (name, value) :: members => (stringText name ++ ":" ++ value.compact) :: compactMembers members

end

-- A bracketed list with one entry a line, `depth` levels deep.
def block (opening closing : String) (depth : Nat) (entries : List String) : String :=
  match entries with
  | [] => opening ++ closing
  | _  =>
    let indent := String.ofList (List.replicate (2 * depth) ' ')
    let line (entry : String) := "\n" ++ indent ++ "  " ++ entry
    opening ++ ",".intercalate (entries.map line) ++ "\n" ++ indent ++ closing

mutual

def pretty (depth : Nat) : Json → String
  | arr items   => block "[" "]" depth (prettyItems (depth + 1) items)
  | obj members => block openBrace closeBrace depth (prettyMembers (depth + 1) members)
  | scalar      => scalar.scalarText

def prettyItems (depth : Nat) : List Json → List String
  | []            => []
  | item :: items => item.pretty depth :: prettyItems depth items

def prettyMembers (depth : Nat) : List (String × Json) → List String
  | []                       => []
  | (name, value) :: members =>
    (stringText name ++ ": " ++ value.pretty depth) :: prettyMembers depth members

end

end ApiDescriptors.Json
