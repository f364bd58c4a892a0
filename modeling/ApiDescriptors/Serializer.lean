import ApiDescriptors.DerivedName
import ApiDescriptors.Namespace
import ApiDescriptors.Schema.Resolution

/-!
Serializers: one for each object schema, with a field for each property.

Named schemas claim their class names before the others are given theirs, so a name never depends
on the order in which the schemas were discovered.
-/

namespace ApiDescriptors

structure Field where
  -- The name of the property.
  name        : String
  identifier  : String
  type        : FieldType
  required    : Bool
  nullable    : Bool
  description : Option String
  choices     : List Json

-- The class name of a serializer and the name that it was made from.
structure ClassName where
  className : String
  name      : String
  -- The name was declared, and not made up from the place of the schema.
  declared  : Bool
deriving DecidableEq

structure Serializer where
  className   : String
  name        : String
  declared    : Bool
  schema      : Pointer
  description : Option String
  fields      : List Field
  -- The other schemas that the fields refer to, in the order of first use.
  dependsOn   : List Pointer

namespace Serializer

def field (ids : Identifiers) (r : Resolution) (required : List String) (name : String) (node : Pointer) :
    Result Field := do
  return {
    name
    identifier  := ids.snake name
    type        := ← r.fieldType node
    required    := name ∈ required
    nullable    := r.isNullable node
    description := r.description? node
    choices     := r.choices node
  }

-- The fields of properties, whose identifiers must differ. `seen` are the identifiers of the
-- properties before, with their nodes.
def fieldsFrom (ids : Identifiers) (r : Resolution) (required : List String) (seen : List (String × Pointer)) :
    List (String × Pointer) → Result (List Field)
  | []                         => .ok []
  | (name, node) :: properties =>
    let identifier := ids.snake name
    match seen.lookup identifier with
    | some first => .error (.duplicateName .ofField identifier first node)
    | none       => do
      let first  ← field ids r required name node
      let others ← fieldsFrom ids r required (seen ++ [(identifier, node)]) properties
      return first :: others

-- The schemas that fields refer to, other than `self`, each at its first use.
def dependencies (self : Pointer) (fields : List Field) : List Pointer :=
  fields.foldl add []
where
  add (found : List Pointer) (field : Field) : List Pointer :=
    match field.type.innermost? with
    | some schema => if schema = self ∨ schema ∈ found then found else found ++ [schema]
    | none        => found

def fieldsOf (ids : Identifiers) (r : Resolution) (schema : Schema) : Result (List Field) :=
  match schema.form with
  | .object properties required => fieldsFrom ids r required [] properties
  | _                           => .ok []

-- Class names

-- How serializers are named: identifiers, and what ends a class name.
structure Naming where
  ids    : Identifiers
  suffix : String

-- Claims the names that the document declares.
def claimDeclared (naming : Naming) (classes : Namespace) :
    List Schema → Result (List (Schema × Option ClassName) × Namespace)
  | []                => .ok ([], classes)
  | schema :: schemas =>
    match schema.node.declaredName? with
    | none      => do
      let (others, classes) ← claimDeclared naming classes schemas
      return ((schema, none) :: others, classes)
    | some name => do
      let (className, classes) ← classes.claim (naming.ids.className name naming.suffix) schema.node
      let (others, classes) ← claimDeclared naming classes schemas
      return ((schema, some { className, name, declared := true }) :: others, classes)

-- Gives the remaining schemas names that are free.
def nameOthers (naming : Naming) (classes : Namespace) :
    List (Schema × Option ClassName) → List (Schema × ClassName) × Namespace
  | []                           => ([], classes)
  | (schema, some name) :: named =>
    let (others, classes) := nameOthers naming classes named
    ((schema, name) :: others, classes)
  | (schema, none) :: named      =>
    let name := DerivedName.schema schema.node naming.ids.casing
    let (className, classes) := classes.claimFree naming.ids name naming.suffix schema.node
    let (others, classes) := nameOthers naming classes named
    ((schema, { className, name, declared := false }) :: others, classes)

def ofSchema (ids : Identifiers) (r : Resolution) (schema : Schema) (name : ClassName) : Result Serializer := do
  let fields ← fieldsOf ids r schema
  return {
    className   := name.className
    name        := name.name
    declared    := name.declared
    schema      := schema.node
    description := schema.description
    fields
    dependsOn   := dependencies schema.node fields
  }

-- The serializers of object schemas, in their order, and the class names taken so far.
def ofSchemas (naming : Naming) (classes : Namespace) (r : Resolution) (schemas : List Schema) :
    Result (List Serializer × Namespace) := do
  let (declared, classes) ← claimDeclared naming classes schemas
  let (named, classes) := nameOthers naming classes declared
  let serializers ← named.mapM fun (schema, name) => ofSchema naming.ids r schema name
  return (serializers, classes)

def find? (serializers : List Serializer) (schema : Pointer) : Option Serializer :=
  serializers.find? (·.schema = schema)

end Serializer
end ApiDescriptors
