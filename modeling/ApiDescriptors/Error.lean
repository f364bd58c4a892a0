import ApiDescriptors.Options
import ApiDescriptors.Pointer
import ApiDescriptors.Record

/-!
Why a document gives no descriptors. A cause names the node of the document where it was found.
-/

namespace ApiDescriptors

-- What is wrong with a node of the document.
inductive Problem
  -- The document as a whole
  | rootNotMapping
  | noVersion
  | openapiVersion (version : String)
  | swaggerVersion (version : String)
  | keyNotScalar
  | numberNotFinite
  | mergeNotMapping
  | mergeItemNotMapping
  -- The kind of a value
  | notObject
  | notArray
  | notString
  | notBoolean
  | notStringList
  -- Paths and operations
  | pathWithoutSlash
  | pathItemNotObject
  | unknownPathItemField (key : String)
  | bodyWithoutSchema
  | parameterLocation (location : String)
  | bodyWithoutContent
  -- Schemas
  | schemaNotFound
  | schemaNotObject
  | composition (keyword : String)
  | allOfNotSingle
  | arrayWithoutItems
  | typeNameNotString
  | typeListNotSingle
  | schemaType (name : String)
  | schemaWithoutType
  -- Parameters without a schema
  | parameterWithoutType
  | arrayParameterWithoutItems
  | parameterType (name : String)

def Problem.message : Problem → String
  | rootNotMapping             => "document root must be a mapping"
  | noVersion                  => "Invalid OpenAPI document: missing 'openapi' or 'swagger' version field."
  | openapiVersion version     =>
    "Unsupported OpenAPI version: " ++ version ++ ". Only 3.x is supported by this parser."
  | swaggerVersion version     =>
    "Unsupported Swagger version: " ++ version ++ ". Only 2.0 is supported for legacy compatibility."
  | keyNotScalar               => "mapping keys must be scalars"
  | numberNotFinite            => "non-finite number"
  | mergeNotMapping            => "merge value must be a mapping or a sequence of mappings"
  | mergeItemNotMapping        => "merge sequence must contain only mappings"
  | notObject                  => "value must be an object"
  | notArray                   => "value must be an array"
  | notString                  => "value must be a string"
  | notBoolean                 => "value must be a boolean"
  | notStringList              => "value must be a list of strings"
  | pathWithoutSlash           => "path must begin with '/'"
  | pathItemNotObject          => "path item must be an object"
  | unknownPathItemField key   => "unknown path item field '" ++ key ++ "'"
  | bodyWithoutSchema          => "body parameter requires a 'schema'"
  | parameterLocation location => "unsupported parameter location '" ++ location ++ "'"
  | bodyWithoutContent         => "request body declares no content"
  | schemaNotFound             => "schema not found"
  | schemaNotObject            => "schema must be an object"
  | composition keyword        => "composition keyword '" ++ keyword ++ "' is not supported"
  | allOfNotSingle             => "only a single-entry 'allOf' is supported"
  | arrayWithoutItems          => "array schema requires 'items'"
  | typeNameNotString          => "type names must be strings"
  | typeListNotSingle          => "a type list must name exactly one type besides 'null'"
  | schemaType name            => "unsupported schema type '" ++ name ++ "'"
  | schemaWithoutType          => "schema declares no type"
  | parameterWithoutType       => "parameter declares neither 'schema' nor 'type'"
  | arrayParameterWithoutItems => "array parameter requires 'items'"
  | parameterType name         => "unsupported parameter type '" ++ name ++ "'"

-- The kinds of names that must not clash.
inductive NameKind
  | ofClass
  | ofFunction
  | ofField
deriving DecidableEq, Repr

def NameKind.text : NameKind → String
  | ofClass    => "class"
  | ofFunction => "function"
  | ofField    => "field"

inductive Error
  -- The text is no YAML document.
  | unreadable
  | options (fault : Options.Fault)
  | invalid (node : Pointer) (problem : Problem)
  -- An object of the document that is no record of its kind.
  | undecodable (node : Pointer) (fault : Record.Fault)
  | repeatedPlaceholder (path name : String)
  | badReference (fault : Pointer.Fault)
  | unresolved (reference : String) (holder : Pointer)
  -- The pointers visited; the last one repeats an earlier one.
  | cycle (chain : List Pointer)
  | duplicateName (kind : NameKind) (name : String) (first second : Pointer)
  | duplicateParameter (name : String) (operation : Pointer)
  | parameterMismatch (path : String) (operation : Pointer) (missing undeclared : List String)
  | inconsistentParameter (path name : String)
  | notLoaded (schema : Pointer)
  | notBuilt (schema : Pointer)

namespace Error

def location (node : Pointer) (path : List Record.Crumb) : String :=
  match path with
  | [] => node.text
  | _  => node.text ++ " (" ++ Record.Crumb.pathText path ++ ")"

def parse (location message : String) : String :=
  "Parse error at " ++ location ++ ": " ++ message

def general (message : String) : String :=
  "General Error: " ++ message

def message : Error → String
  | unreadable                     => "Failed to parse OpenAPI YAML"
  | options fault                  => parse "build options" fault.message
  | invalid node problem           => parse node.text problem.message
  | undecodable node fault         => parse (location node fault.path) fault.problem.message
  | repeatedPlaceholder path name  =>
    parse path ("path template contains duplicate path parameter '" ++ name ++ "'")
  | badReference (.outside reference) =>
    general ("reference '" ++ reference ++ "' points outside the loaded document")
  | badReference (.malformed reference) =>
    general ("reference '" ++ reference ++ "' is not a JSON pointer")
  | unresolved reference holder    =>
    "Unresolved reference '" ++ reference ++ "' at " ++ holder.text
  | cycle chain                    =>
    "Cyclic alias chain: " ++ " -> ".intercalate (chain.map Pointer.text)
  | duplicateName kind name first second =>
    "Duplicate " ++ kind.text ++ " name '" ++ name ++ "' derived for " ++ first.text ++ " and " ++ second.text
  | duplicateParameter name operation =>
    "Duplicate parameter '" ++ name ++ "' in operation " ++ operation.text
  | parameterMismatch path operation missing undeclared =>
    "Path parameter mismatch for '" ++ path ++ "' (" ++ operation.text
      ++ "): placeholders without parameter [" ++ ", ".intercalate missing
      ++ "], path parameters without placeholder [" ++ ", ".intercalate undeclared ++ "]"
  | inconsistentParameter path name =>
    "Path parameter '" ++ name ++ "' of '" ++ path ++ "' is declared with conflicting types"
  | notLoaded schema               => general ("schema " ++ schema.text ++ " was not loaded")
  | notBuilt schema                => general ("no serializer was built for " ++ schema.text)

end Error

abbrev Result := Except Error

-- Refuses a node of the document.
def refuse {α} (node : Pointer) (problem : Problem) : Result α :=
  .error (.invalid node problem)

namespace Record.Rules

-- Reads a record at a node of the document.
def readAt {α} (rules : Rules α) (node : Pointer) (value : Json) : Result α :=
  (rules.read value).mapError (.undecodable node)

end Record.Rules
end ApiDescriptors
