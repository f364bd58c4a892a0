import ApiDescriptors.Json.Printer
import ApiDescriptors.Registry

/-!
The manifest: a registry as one JSON document, with the serializers in dependency order.
-/

namespace ApiDescriptors.Manifest

def pointer (p : Pointer) : Json :=
  .str p.text

def strings (texts : List String) : Json :=
  .arr (texts.map .str)

-- A value that may be absent, as null.
def optional {α} (encode : α → Json) (value : Option α) : Json :=
  (value.map encode).getD .null

-- A member that is left out when its value is absent.
def present (name : String) (value : Option String) : Members :=
  value.toList.map fun text => (name, .str text)

def fieldType : FieldType → Json
  | .scalar type format =>
    .obj ([("kind", .str "scalar"), ("scalar", .str type.key)] ++ present "format" format)
  | .object schema      => .obj [("kind", .str "object"), ("schema", pointer schema)]
  | .array items        => .obj [("kind", .str "array"), ("items", fieldType items)]

def serializerRef (s : SerializerRef) : Json :=
  .obj [("schema", pointer s.schema), ("serializer_class_name", .str s.className)]

def field (f : Field) : Json :=
  let choices := if f.choices.isEmpty then [] else [("choices", Json.arr f.choices)]
  .obj <| [
    ("name",      .str f.name),
    ("attribute", .str f.identifier),
    ("type",      fieldType f.type),
    ("required",  .bool f.required),
    ("nullable",  .bool f.nullable)
  ] ++ present "description" f.description ++ choices

def serializer (s : Serializer) : Json :=
  .obj <| [
    ("serializer_class_name", .str s.className),
    ("name",                  .str s.name),
    ("declared",              .bool s.declared),
    ("schema",                pointer s.schema)
  ] ++ present "description" s.description ++ [
    ("fields",     .arr (s.fields.map field)),
    ("depends_on", .arr (s.dependsOn.map pointer))
  ]

def argument (a : Argument) : Json :=
  .obj <| [
    ("name",       .str a.name),
    ("identifier", .str a.identifier),
    ("in_",        .str a.location.key),
    ("required",   .bool a.required),
    ("type",       fieldType a.type)
  ] ++ present "description" a.description

def body (b : BodyUse) : Json := .obj [
  ("media_type",            .str b.mediaType),
  ("required",              .bool b.required),
  ("type",                  fieldType b.type),
  ("serializer_descriptor", optional serializerRef b.serializer),
  ("many",                  .bool b.many)
]

def verb (v : Verb) : Json := .obj [
  ("verb",                  .str v.method.text),
  ("function_name",         .str v.functionName),
  ("operation_id",          optional .str v.operationId),
  ("location",              pointer v.location),
  ("summary",               optional .str v.summary),
  ("description",           optional .str v.description),
  ("tags",                  strings v.tags),
  ("deprecated",            .bool v.deprecated),
  ("parameters",            .arr (v.arguments.map argument)),
  ("request_body",          optional body v.body),
  ("response_status",       optional .str v.responseStatus),
  ("response_type",         optional fieldType v.responseType),
  ("serializer_descriptor", optional serializerRef v.serializer),
  ("many",                  .bool v.many),
  ("standalone",            .bool v.standalone)
]

def segment : Route.Segment → Json
  | .literal text                  => .obj [("kind", .str "literal"), ("value", .str text)]
  | .argument name identifier type => .obj [
    ("kind",       .str "param"),
    ("name",       .str name),
    ("identifier", .str identifier),
    ("type",       fieldType type)
  ]

def route (r : Route) : Json :=
  .arr (List.map segment r)

def endpoint (e : Endpoint) : Json := .obj [
  ("class_name", .str e.className),
  ("path",       .str e.path),
  ("route",      route e.route),
  ("verbs",      .arr (e.verbs.map verb))
]

def handler (h : Handler) : Json := .obj [
  ("path",  .str h.path),
  ("route", route h.route),
  ("verb",  verb h.verb)
]

-- The serializers by the texts of their schemas. Of two with one text the later is kept.
def serializers (list : List Serializer) : Members :=
  Members.override [] (list.map fun s => (s.schema.text, serializer s))

def ofRegistry (g : Registry) : Json := .obj [
  ("endpoints",           .arr (g.endpoints.map endpoint)),
  ("serializers",         .obj (serializers g.dependencyOrder)),
  ("individual_handlers", .arr (g.handlers.map handler))
]

-- The name of the file that a manifest is written to.
def fileName : String := "descriptors.json"

-- The text of the file.
def render (g : Registry) : String :=
  (ofRegistry g).pretty 0 ++ "\n"

-- The files that a registry is rendered to, each with what is in it.
def files (g : Registry) : List (String × String) :=
  [(fileName, render g)]

end ApiDescriptors.Manifest
