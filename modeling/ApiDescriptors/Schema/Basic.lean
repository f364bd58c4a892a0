import ApiDescriptors.FieldType
import ApiDescriptors.Reference

/-!
Schemas: what the document declares at one node, with links to other schemas by the nodes where
those stand.
-/

namespace ApiDescriptors

namespace Schema

inductive Form
  -- Stands for another schema: a reference, or an `allOf` with one entry.
  | aliasOf (target : Pointer)
  | object (properties : List (String × Pointer)) (required : List String)
  | array (items : Pointer)
  | scalar (type : ScalarType)
deriving DecidableEq

def Form.links : Form → List Pointer
  | aliasOf target      => [target]
  | object properties _ => properties.map (·.2)
  | array items         => [items]
  | scalar _            => []

end Schema

structure Schema where
  node        : Pointer
  description : Option String := none
  format      : Option String := none
  nullable    : Bool          := false
  -- The values of an enumeration.
  choices     : List Json     := []
  form        : Schema.Form

namespace Schema

def links (s : Schema) : List Pointer :=
  s.form.links

def isObject (s : Schema) : Bool :=
  match s.form with
  | .object .. => true
  | _          => false

-- Reading a schema

inductive Kind
  | object
  | array
  | scalar (type : ScalarType)

-- The kind that a type name stands for; a file is a string.
def Kind.ofName? (name : String) : Option Kind :=
  match name with
  | "object" => some .object
  | "array"  => some .array
  | "file"   => some (.scalar .string)
  | name     => (ScalarType.ofKey? name).map .scalar

def stringMember (node : Pointer) (members : Members) (key : String) : Result (Option String) :=
  match members.lookup key with
  | none             => .ok none
  | some (.str text) => .ok (some text)
  | some _           => refuse (node.child key) .notString

def boolMember (node : Pointer) (members : Members) (key : String) : Result Bool :=
  match members.lookup key with
  | none               => .ok false
  | some (.bool value) => .ok value
  | some _             => refuse (node.child key) .notBoolean

-- One of the two marks is enough; the second is not looked at after the first.
def isMarkedNullable (node : Pointer) (members : Members) : Result Bool := do
  if ← boolMember node members "nullable" then return true
  else boolMember node members "x-nullable"

-- The names in a type list, and whether `null` is among them.
def typeNames (node : Pointer) : List Json → Result (List String × Bool)
  | []                 => .ok ([], false)
  | .str name :: names => do
    let (others, nullable) ← typeNames node names
    return if name = "null" then (others, true) else (name :: others, nullable)
  | _ :: _             => refuse (node.child "type") .typeNameNotString

-- The type name that a schema declares, if any, and whether its type list has `null`.
def typeName (node : Pointer) (members : Members) : Result (Option String × Bool) :=
  match members.lookup "type" with
  | none              => .ok (none, false)
  | some (.str name)  => .ok (some name, false)
  | some (.arr names) => do
    match ← typeNames node names with
    | ([name], nullable) => return (some name, nullable)
    | _                  => refuse (node.child "type") .typeListNotSingle
  | some _            => refuse (node.child "type") .notString

-- The kind of a schema. Without a type it shows from `properties` or `items`.
def kindOf (node : Pointer) (members : Members) (type : Option String) : Result Kind :=
  match type with
  | some name =>
    match Kind.ofName? name with
    | some kind => .ok kind
    | none      => refuse (node.child "type") (.schemaType name)
  | none =>
    if (members.lookup "properties").isSome then .ok .object
    else if (members.lookup "items").isSome then .ok .array
    else refuse node .schemaWithoutType

def propertiesOf (node : Pointer) (members : Members) : Result (List (String × Pointer)) :=
  let place := node.child "properties"
  match members.lookup "properties" with
  | none             => .ok []
  | some (.obj list) => .ok (list.map fun (name, _) => (name, place.child name))
  | some _           => refuse place .notObject

def requiredNames (node : Pointer) (members : Members) : Result (List String) :=
  match members.lookup "required" with
  | none               => .ok []
  | some (.arr values) => values.mapM fun
    | .str name => .ok name
    | _         => refuse (node.child "required") .notStringList
  | some _             => refuse (node.child "required") .notStringList

def formOf (node : Pointer) (members : Members) : Kind → Result Form
  | .object      => return .object (← propertiesOf node members) (← requiredNames node members)
  | .array       =>
    if (members.lookup "items").isSome then .ok (.array (node.child "items"))
    else refuse node .arrayWithoutItems
  | .scalar type => .ok (.scalar type)

-- A file without a format is binary.
def fileFormat (members : Members) : Option String :=
  match members.lookup "type" with
  | some (.str "file") => some "binary"
  | _                  => none

def choicesOf (node : Pointer) (members : Members) : Result (List Json) :=
  match members.lookup "enum" with
  | none               => .ok []
  | some (.arr values) => .ok values
  | some _             => refuse (node.child "enum") .notArray

-- The rest of a schema that stands for no other.
def readConcrete (node : Pointer) (members : Members) (description : Option String) : Result Schema := do
  let nullable       ← isMarkedNullable node members
  let (type, listed) ← typeName node members
  let kind           ← kindOf node members type
  let format         ← stringMember node members "format"
  let choices        ← choicesOf node members
  let form           ← formOf node members kind
  return {
    node, description, choices, form
    format   := format.or (fileFormat members)
    nullable := nullable || listed
  }

def unsupported : List String :=
  ["oneOf", "anyOf", "not"]

-- Reads the schema at a node of the document.
def read (d : Document) (node : Pointer) (value : Json) : Result Schema :=
  match value with
  | .obj members => do
    let description ← stringMember node members "description"
    match ← reference? node value with
    | some reference => return { node, description, form := .aliasOf (← d.target node reference).1 }
    | none           =>
      match unsupported.find? fun keyword => (members.lookup keyword).isSome with
      | some keyword => refuse node (.composition keyword)
      | none         =>
        match members.lookup "allOf" with
        | none            => readConcrete node members description
        | some (.arr [_]) =>
          return { node, description, form := .aliasOf ((node.child "allOf").child "0") }
        | some _          => refuse (node.child "allOf") .allOfNotSingle
  | _ => refuse node .schemaNotObject

end Schema
end ApiDescriptors
