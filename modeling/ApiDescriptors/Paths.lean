import ApiDescriptors.Method
import ApiDescriptors.Objects
import ApiDescriptors.Reference

/-!
The paths of a document and their operations, in the order of declaration. References on path
items, parameters, request bodies and responses are followed; schemas are recorded as the nodes
where they stand.
-/

namespace ApiDescriptors

structure Parameter where
  node     : Pointer
  location : Location
  object   : ParameterObject
  schema   : Option Pointer

-- A request body, from `requestBody` or from a parameter in the body.
structure Body where
  node      : Pointer
  mediaType : String
  required  : Bool
  schema    : Option Pointer

structure Response where
  -- The status as it is declared: `200`, `2XX` or `default`.
  status    : String
  node      : Pointer
  mediaType : Option String
  schema    : Option Pointer

structure Operation where
  method     : Method
  node       : Pointer
  object     : OperationObject
  -- The parameters of the operation, then those of its path.
  parameters : List Parameter
  body       : Option Body
  responses  : List Response

-- The nodes of the schemas that an operation declares.
def Operation.schemaSites (op : Operation) : List Pointer :=
  op.parameters.filterMap (·.schema)
    ++ (op.body.bind (·.schema)).toList
    ++ op.responses.filterMap (·.schema)

structure PathEntry where
  template   : String
  node       : Pointer
  operations : List Operation

-- What an entry of a parameter list declares.
inductive Declared
  | parameter (p : Parameter)
  | body (b : Body)

namespace Paths

-- The schema of a media type in the `content` of an object at `node`.
def mediaSchema (content : Members) (node : Pointer) (mediaType : String) : Option Pointer :=
  let media := (node.child "content").child mediaType
  ((content.lookup mediaType).bind (·.get? "schema")).map fun _ => media.child "schema"

-- Where the schema of a parameter stands.
def parameterSchema (node : Pointer) (object : ParameterObject) : Option Pointer :=
  match object.schema, object.content with
  | some _, _            => some (node.child "schema")
  | none,   some content => (mediaType? content).bind (mediaSchema content node)
  | none,   none         => none

def declared (d : Document) (node : Pointer) (value : Json) : Result Declared := do
  let (node, value) ← d.follow node value
  let object ← ParameterObject.rules.readAt node value
  let schema := parameterSchema node object
  if object.location = "body" ∧ d.dialect = .swagger2 then
    match schema with
    | none        => refuse node .bodyWithoutSchema
    | some schema =>
      return .body { node, mediaType := "application/json", required := object.required.getD false, schema }
  else match Location.ofKey? object.location with
    | none          => refuse (node.child "in") (.parameterLocation object.location)
    | some location => return .parameter { node, location, object, schema }

def declaredList (d : Document) (list : Pointer) (values : List Json) : Result (List Declared) :=
  values.zipIdx.mapM fun (value, i) => declared d (list.child (Number.decimal i)) value

structure Inputs where
  parameters : List Parameter := []
  body       : Option Body    := none

namespace Inputs

-- A parameter is known by its name and its location.
def has (inputs : Inputs) (p : Parameter) : Bool :=
  inputs.parameters.any fun q => q.object.name = p.object.name ∧ q.location = p.location

def add (inputs : Inputs) (p : Parameter) : Inputs :=
  { inputs with parameters := inputs.parameters ++ [p] }

-- Adds what the operation itself declares; nothing may be declared twice.
def addOwn (operation : Pointer) (inputs : Inputs) : Declared → Result Inputs
  | .parameter p =>
    if inputs.has p then .error (.duplicateParameter p.object.name operation) else .ok (inputs.add p)
  | .body b      =>
    if inputs.body.isSome then .error (.duplicateParameter "body" operation)
    else .ok { inputs with body := some b }

-- Adds what the path declares, unless it is there already.
def addInherited (inputs : Inputs) : Declared → Inputs
  | .parameter p => if inputs.has p then inputs else inputs.add p
  | .body b      => { inputs with body := inputs.body.or (some b) }

def ofDeclared (operation : Pointer) (own inherited : List Declared) : Result Inputs := do
  return inherited.foldl addInherited (← own.foldlM (addOwn operation) {})

end Inputs

def requestBody (d : Document) (node : Pointer) (value : Json) : Result Body := do
  let (node, value) ← d.follow node value
  let object ← RequestBodyObject.rules.readAt node value
  match mediaType? object.content with
  | none           => refuse node .bodyWithoutContent
  | some mediaType =>
    return { node, mediaType, required := object.required, schema := mediaSchema object.content node mediaType }

def response (d : Document) (status : String) (node : Pointer) (value : Json) : Result Response := do
  let (node, value) ← d.follow node value
  let object ← ResponseObject.rules.readAt node value
  match object.schema, object.content with
  | some _, _            => return { status, node, mediaType := none, schema := some (node.child "schema") }
  | none,   some content =>
    let mediaType := mediaType? content
    return { status, node, mediaType, schema := mediaType.bind (mediaSchema content node) }
  | none,   none         => return { status, node, mediaType := none, schema := none }

def isExtension (key : String) : Bool :=
  key.startsWith "x-"

def operation (d : Document) (inherited : List Declared) (method : Method) (node : Pointer) (value : Json) :
    Result Operation := do
  let object ← OperationObject.rules.readAt node value
  let own ← declaredList d (node.child "parameters") object.parameters
  let inputs ← Inputs.ofDeclared node own inherited
  let body ←
    match object.requestBody with
    | some value => some <$> requestBody d (node.child "requestBody") value
    | none       => pure inputs.body
  let responses ← (object.responses.filter fun (status, _) => !isExtension status).mapM fun (status, value) =>
    response d status ((node.child "responses").child status) value
  return { method, node, object, parameters := inputs.parameters, body, responses }

-- Keys of a path item that declare no operation.
def isPassive (key : String) : Bool :=
  isExtension key || key ∈ ["parameters", "$ref", "summary", "description", "servers"]

-- The parameters that all operations of a path item share.
def sharedParameters (d : Document) (node : Pointer) (item : Members) : Result (List Declared) :=
  match item.lookup "parameters" with
  | none               => .ok []
  | some (.arr values) => declaredList d (node.child "parameters") values
  | some _             => refuse (node.child "parameters") .notArray

def pathItem (d : Document) (node : Pointer) (value : Json) : Result (List Operation) := do
  let (node, value) ← d.follow node value
  match value with
  | .obj item =>
    let shared ← sharedParameters d node item
    (item.filter fun (key, _) => !isPassive key).mapM fun (key, value) =>
      match Method.ofKey? key with
      | some method => operation d shared method (node.child key) value
      | none        => refuse (node.child key) (.unknownPathItemField key)
  | _ => refuse node .pathItemNotObject

def entry (d : Document) (template : String) (node : Pointer) (value : Json) : Result PathEntry :=
  if template.startsWith "/" then do
    return { template, node, operations := ← pathItem d node value }
  else refuse node .pathWithoutSlash

end Paths

def Document.paths (d : Document) : Result (List PathEntry) := do
  let table : Pointer := ⟨["paths"]⟩
  match ← d.objectAt table with
  | none         => return []
  | some members =>
    (members.filter fun (template, _) => !Paths.isExtension template).mapM fun (template, value) =>
      Paths.entry d template (table.child template) value

end ApiDescriptors
