import ApiDescriptors.Serializer
import ApiDescriptors.SuccessStatus
import ApiDescriptors.Template

/-!
Verbs: what is generated for one operation of a path.
-/

namespace ApiDescriptors

structure SerializerRef where
  schema    : Pointer
  className : String
deriving DecidableEq

structure Argument where
  -- The name that the document declares.
  name        : String
  identifier  : String
  location    : Location
  required    : Bool
  type        : FieldType
  description : Option String
deriving DecidableEq

structure BodyUse where
  mediaType  : String
  required   : Bool
  type       : FieldType
  serializer : Option SerializerRef
  -- The body is a list of what the serializer describes.
  many       : Bool
deriving DecidableEq

structure Verb where
  method         : Method
  functionName   : String
  operationId    : Option String
  location       : Pointer
  summary        : Option String
  description    : Option String
  tags           : List String
  deprecated     : Bool
  arguments      : List Argument
  body           : Option BodyUse
  responseStatus : Option String
  responseType   : Option FieldType
  serializer     : Option SerializerRef
  -- The response is a list of what the serializer describes.
  many           : Bool
  standalone     : Bool
deriving DecidableEq

namespace Verb

def pathArguments (v : Verb) : List Argument :=
  v.arguments.filter (·.location = .path)

-- The arguments that are taken from the request when it is handled.
def requestArguments (v : Verb) : List Argument :=
  v.arguments.filter (·.location ≠ .path)

-- Names

-- The function name that an operation asks for, or one made from its path.
def nameFor (ids : Identifiers) (path : String) (op : Operation) : String :=
  match op.object.functionName.or op.object.operationId with
  | some name => ids.snake name
  | none      => ids.sanitize (DerivedName.handler op.method path ids.casing)

-- Arguments

-- The type of a parameter that has no schema.
def plainType (node : Pointer) (object : ParameterObject) : Result FieldType :=
  let scalar (name : String) : Result ScalarType :=
    match ScalarType.ofKey? name with
    | some type => .ok type
    | none      => refuse node (.parameterType name)
  match object.type, object.items with
  | none,         _          => refuse node .parameterWithoutType
  | some "array", none       => refuse node .arrayParameterWithoutItems
  | some "array", some items => return .array (.scalar (← scalar items.type) items.format)
  | some name,    _          => return .scalar (← scalar name) object.format

def parameterType (r : Resolution) (p : Parameter) : Result FieldType :=
  match p.schema with
  | some schema => r.fieldType schema
  | none        => plainType p.node p.object

def argument (ids : Identifiers) (r : Resolution) (p : Parameter) : Result Argument := do
  return {
    name        := p.object.name
    identifier  := ids.snake p.object.name
    location    := p.location
    required    := p.location = .path || p.object.required.getD false
    type        := ← parameterType r p
    description := p.object.description.or (p.schema.bind r.description?)
  }

-- The arguments of an operation. Those in the path must have different identifiers; `seen` are
-- the identifiers of the ones before, with their names.
def argumentsFrom (ids : Identifiers) (r : Resolution) (operation : Pointer) (seen : List (String × String)) :
    List Parameter → Result (List Argument)
  | []              => .ok []
  | p :: parameters =>
    let name := p.object.name
    let identifier := ids.snake name
    match p.location, seen.lookup identifier with
    | .path, some other => .error (.duplicateParameter (other ++ " / " ++ name) operation)
    | location, _       => do
      let first  ← argument ids r p
      let seen   := if location = .path then seen ++ [(identifier, name)] else seen
      let others ← argumentsFrom ids r operation seen parameters
      return first :: others

-- The placeholders of a path and the arguments in the path must be the same.
def matchPath (path : String) (operation : Pointer) (arguments : List Argument) : Result Unit := do
  let placeholders := Template.placeholders (← Template.parse path)
  let declared     := (arguments.filter (·.location = .path)).map (·.name)
  let missing      := placeholders.filter (· ∉ declared)
  let undeclared   := declared.filter (· ∉ placeholders)
  if missing.isEmpty && undeclared.isEmpty then .ok ()
  else .error (.parameterMismatch path operation missing undeclared)

-- Body and response

def serializerRef (serializers : List Serializer) (schema : Pointer) : Result SerializerRef :=
  match Serializer.find? serializers schema with
  | some s => .ok { schema, className := s.className }
  | none   => .error (.notBuilt schema)

-- A schema as it is used for a body or a response: its type, its serializer, and whether that is
-- used for a list.
def schemaUse (r : Resolution) (serializers : List Serializer) (schema : Pointer) :
    Result (FieldType × Option SerializerRef × Bool) := do
  let type ← r.fieldType schema
  match r.usage? schema with
  | none       => return (type, none, false)
  | some usage => return (type, some (← serializerRef serializers usage.schema), usage.many)

def bodyUse (r : Resolution) (serializers : List Serializer) (body : Option Body) : Result (Option BodyUse) :=
  match body with
  | none      => .ok none
  | some body =>
    match body.schema with
    | none        => .ok none
    | some schema => do
      let (type, serializer, many) ← schemaUse r serializers schema
      return some { mediaType := body.mediaType, required := body.required, type, serializer, many }

-- Builds the verb of an operation and claims its function name.
def ofOperation (ids : Identifiers) (r : Resolution) (serializers : List Serializer) (path : String)
    (functions : Namespace) (op : Operation) : Result (Verb × Namespace) := do
  let (functionName, functions) ← functions.claim (nameFor ids path op) op.node
  let arguments ← argumentsFrom ids r op.node [] op.parameters
  matchPath path op.node arguments
  let body ← bodyUse r serializers op.body
  let success := SuccessStatus.select? (·.status) op.responses
  let (responseType, serializer, many) ←
    match success.bind (·.schema) with
    | none        => pure (none, none, false)
    | some schema => do
      let (type, serializer, many) ← schemaUse r serializers schema
      pure (some type, serializer, many)
  let verb : Verb := {
    method         := op.method
    functionName
    operationId    := op.object.operationId
    location       := op.node
    summary        := op.object.summary
    description    := op.object.description
    tags           := op.object.tags
    deprecated     := op.object.deprecated
    arguments
    body
    responseStatus := success.map (·.status)
    responseType
    serializer
    many
    standalone     := op.object.standalone
  }
  return (verb, functions)

end Verb

structure PathVerbs where
  path  : String
  node  : Pointer
  verbs : List Verb

namespace PathVerbs

def verbsFrom (ids : Identifiers) (r : Resolution) (serializers : List Serializer) (path : String)
    (functions : Namespace) : List Operation → Result (List Verb × Namespace)
  | []               => .ok ([], functions)
  | op :: operations => do
    let (verb, functions) ← Verb.ofOperation ids r serializers path functions op
    let (others, functions) ← verbsFrom ids r serializers path functions operations
    return (verb :: others, functions)

-- The verbs of all paths. Function names are claimed in the order of the operations.
def ofEntries (ids : Identifiers) (r : Resolution) (serializers : List Serializer) (functions : Namespace) :
    List PathEntry → Result (List PathVerbs × Namespace)
  | []               => .ok ([], functions)
  | entry :: entries => do
    let (verbs, functions) ← verbsFrom ids r serializers entry.template functions entry.operations
    let (others, functions) ← ofEntries ids r serializers functions entries
    return ({ path := entry.template, node := entry.node, verbs } :: others, functions)

end PathVerbs
end ApiDescriptors
