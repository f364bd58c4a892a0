import ApiDescriptors.Error
import ApiDescriptors.Json.Printer
import ApiDescriptors.Yaml.Value

/-!
Documents: an API description as a JSON tree, and the dialect that it is written in.

The tree is made from a YAML value. Keys become strings, tags are dropped, and the merge key `<<`
is resolved: its members stand first, and an explicit member overrides a merged one.
-/

namespace ApiDescriptors

inductive Dialect
  | swagger2
  | openapi3
deriving DecidableEq, Repr

structure Document where
  root    : Json
  dialect : Dialect

namespace Members

-- Adds the members of `source` whose names are new.
def merge (members source : Members) : Members :=
  source.foldl (fun members (name, value) => members.insertNew name value) members

-- Overrides and adds members in order.
def override (members source : Members) : Members :=
  source.foldl (fun members (name, value) => members.insert name value) members

end Members

namespace Document

-- Floating-point keys are written without a sign before a positive exponent.
def keyLayout : Number.Layout := {}

def scalarKey? : Yaml.Scalar → Option String
  | .null           => none
  | .bool value     => some (if value then "true" else "false")
  | .int value      => some (Number.decimalInt value)
  | .double value   => some (keyLayout.write value)
  | .infinity true  => some "-.inf"
  | .infinity false => some ".inf"
  | .nan            => some ".nan"
  | .str text       => some text

-- The name that a key becomes; only scalars other than null have one.
def key? : Yaml.Value → Option String
  | .scalar s => scalarKey? s
  | _         => none

def ofScalar (node : Pointer) : Yaml.Scalar → Result Json
  | .null         => .ok .null
  | .bool value   => .ok (.bool value)
  | .int value    => .ok (.int value)
  | .double value => .ok (.double value)
  | .str text     => .ok (.str text)
  | .infinity _   => refuse node .numberNotFinite
  | .nan          => refuse node .numberNotFinite

def mergeKey : String := "<<"

-- The mappings that a merge draws from, the first one taking precedence.
def mergeSources (node : Pointer) : Json → Result (List Members)
  | .obj members => .ok [members]
  | .arr items   => items.mapM fun item =>
    match item with
    | .obj members => .ok members
    | _            => refuse node .mergeItemNotMapping
  | _            => refuse node .mergeNotMapping

mutual

-- The tree of a YAML value that stands at `node`.
def tree (node : Pointer) : Yaml.Value → Result Json
  | .scalar s       => ofScalar node s
  | .seq items      => .arr <$> treeItems node 0 items
  | .map entries    => do
    let (merged, explicit) ← treeEntries node [] [] entries
    return .obj (merged.override explicit)
  | .tagged _ value => tree node value

def treeItems (node : Pointer) (index : Nat) : List Yaml.Value → Result (List Json)
  | []            => .ok []
  | item :: items => do
    let first  ← tree (node.child (Number.decimal index)) item
    let others ← treeItems node (index + 1) items
    return first :: others

-- The merged and the explicit members of a mapping.
def treeEntries (node : Pointer) (merged explicit : Members) :
    List (Yaml.Value × Yaml.Value) → Result (Members × Members)
  | []                      => .ok (merged, explicit)
  | (key, value) :: entries =>
    match key? key with
    | none      => refuse node .keyNotScalar
    | some name => do
      let value ← tree (node.child name) value
      if name = mergeKey then
        let sources ← mergeSources (node.child name) value
        treeEntries node (sources.foldl Members.merge merged) explicit entries
      else
        treeEntries node merged (explicit ++ [(name, value)]) entries

end

-- A version as text; other values than strings in their JSON form.
def versionText : Json → String
  | .str text => text
  | value     => value.compact

-- The dialect that the version field of a document declares.
def dialectOf (root : Json) : Result Dialect :=
  match root with
  | .obj members =>
    match members.lookup "openapi", members.lookup "swagger" with
    | some version, _ =>
      if (versionText version).startsWith "3." then .ok .openapi3
      else refuse ⟨["openapi"]⟩ (.openapiVersion (versionText version))
    | none, some version =>
      if (versionText version).startsWith "2." then .ok .swagger2
      else refuse ⟨["swagger"]⟩ (.swaggerVersion (versionText version))
    | none, none => refuse .root .noVersion
  | _ => refuse .root .rootNotMapping

def ofValue (value : Yaml.Value) : Result Document := do
  let root ← tree .root value
  return { root, dialect := ← dialectOf root }

-- Reads a document from YAML text, of which JSON text is a special case.
def ofText (text : String) : Result Document :=
  match Yaml.Value.ofText? text with
  | some value => ofValue value
  | none       => .error .unreadable

-- The value at a node.
def get? (d : Document) (node : Pointer) : Option Json :=
  node.lookup? d.root

-- Where the named schemas stand.
def schemaTable (d : Document) : Pointer :=
  match d.dialect with
  | .swagger2 => ⟨["definitions"]⟩
  | .openapi3 => ⟨["components", "schemas"]⟩

-- The members of the object at a node. Nothing and null are no object, and no fault either.
def objectAt (d : Document) (node : Pointer) : Result (Option Members) :=
  match d.get? node with
  | none                => .ok none
  | some .null          => .ok none
  | some (.obj members) => .ok (some members)
  | some _              => refuse node .notObject

end Document

-- The name of a schema that stands in a table of named schemas, of either dialect.
def Pointer.declaredName? (p : Pointer) : Option String :=
  match p.segments with
  | ["definitions", name]           => some name
  | ["components", "schemas", name] => some name
  | _                               => none

end ApiDescriptors
