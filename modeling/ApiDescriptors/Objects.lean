import ApiDescriptors.Record

/-!
The objects of an API document that describe operations. Schemas, and everything that may be a
reference, stay JSON values here.
-/

namespace ApiDescriptors

open Record

structure OperationObject where
  operationId  : Option String := none
  summary      : Option String := none
  description  : Option String := none
  tags         : List String   := []
  deprecated   : Bool          := false
  parameters   : List Json     := []
  requestBody  : Option Json   := none
  responses    : Members       := []
  -- Overrides the name that would be derived for the operation.
  functionName : Option String := none
  -- The operation is handled on its own and not by the endpoint of its path.
  standalone   : Bool          := false

namespace OperationObject

def rules : Rules OperationObject where
  name := "ShimOperation"
  fields := [
    ("operationId",            .refusedInArray),
    ("summary",                .refusedInArray),
    ("description",            .refusedInArray),
    ("tags",                   .allowed),
    ("deprecated",             .allowed),
    ("parameters",             .allowed),
    ("requestBody",            .refusedInArray),
    ("responses",              .refused),
    ("x-appgen-function-name", .refusedInArray),
    ("x-appgen-standalone",    .allowed)
  ]
  start := {}
  set name value o :=
    match name with
    | "operationId"            => return { o with operationId := ← optional text value }
    | "summary"                => return { o with summary := ← optional text value }
    | "description"            => return { o with description := ← optional text value }
    | "tags"                   => return { o with tags := ← listOf text value }
    | "deprecated"             => return { o with deprecated := ← flag value }
    | "parameters"             => return { o with parameters := ← listOf any value }
    | "requestBody"            => return { o with requestBody := ← optional any value }
    | "responses"              => return { o with responses := ← table value }
    | "x-appgen-function-name" => return { o with functionName := ← optional text value }
    | "x-appgen-standalone"    => return { o with standalone := ← flag value }
    | _                        => return o

end OperationObject

-- The items of an array parameter that has no schema.
structure ItemsObject where
  type   : String        := ""
  format : Option String := none

def ItemsObject.rules : Rules ItemsObject where
  name   := "ShimLegacyItems"
  fields := [("type", .refused), ("format", .refusedInArray)]
  start  := {}
  set name value o :=
    match name with
    | "type"   => return { o with type := ← text value }
    | "format" => return { o with format := ← optional text value }
    | _        => return o

structure ParameterObject where
  name        : String             := ""
  location    : String             := ""
  description : Option String      := none
  required    : Option Bool        := none
  schema      : Option Json        := none
  -- Media types, the alternative to `schema`.
  content     : Option Members     := none
  type        : Option String      := none
  format      : Option String      := none
  items       : Option ItemsObject := none

namespace ParameterObject

def rules : Rules ParameterObject where
  name := "ShimParameter"
  fields := [
    ("name",        .refused),
    ("in",          .refused),
    ("description", .refusedInArray),
    ("required",    .refusedInArray),
    ("schema",      .refusedInArray),
    ("content",     .refusedInArray),
    ("type",        .refusedInArray),
    ("format",      .refusedInArray),
    ("items",       .refusedInArray)
  ]
  start := {}
  set name value o :=
    match name with
    | "name"        => return { o with name := ← text value }
    | "in"          => return { o with location := ← text value }
    | "description" => return { o with description := ← optional text value }
    | "required"    => return { o with required := ← optional flag value }
    | "schema"      => return { o with schema := ← optional any value }
    | "content"     => return { o with content := ← optional table value }
    | "type"        => return { o with type := ← optional text value }
    | "format"      => return { o with format := ← optional text value }
    | "items"       => return { o with items := ← optional ItemsObject.rules.read value }
    | _             => return o

end ParameterObject

structure RequestBodyObject where
  description : Option String := none
  required    : Bool          := false
  content     : Members       := []

def RequestBodyObject.rules : Rules RequestBodyObject where
  name   := "ShimRequestBody"
  fields := [("description", .refusedInArray), ("required", .allowed), ("content", .allowed)]
  start  := {}
  set name value o :=
    match name with
    | "description" => return { o with description := ← optional text value }
    | "required"    => return { o with required := ← flag value }
    | "content"     => return { o with content := ← table value }
    | _             => return o

structure ResponseObject where
  description : Option String  := none
  schema      : Option Json    := none
  content     : Option Members := none

def ResponseObject.rules : Rules ResponseObject where
  name   := "ShimResponse"
  fields := [("description", .refusedInArray), ("schema", .refusedInArray), ("content", .refusedInArray)]
  start  := {}
  set name value o :=
    match name with
    | "description" => return { o with description := ← optional text value }
    | "schema"      => return { o with schema := ← optional any value }
    | "content"     => return { o with content := ← optional table value }
    | _             => return o

-- The media type to read a body from: JSON itself, else the first type built on JSON, else the
-- first there is.
def mediaType? (content : Members) : Option String :=
  if (content.lookup "application/json").isSome then some "application/json"
  else (content.names.find? (·.endsWith "+json")).or content.names.head?

end ApiDescriptors
