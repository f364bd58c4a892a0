import ApiDescriptors.Method
import ApiDescriptors.Pointer
import ApiDescriptors.Text.Words

/-!
Names for what a document leaves without one.
-/

namespace ApiDescriptors.DerivedName

-- The name of an operation: `GET /users/{id}` is `get_users_id`.
def handler (method : Method) (path : String) (casing : Casing := {}) : String :=
  let words := casing.snake path
  method.key ++ "_" ++ (if words = "" then "root" else words)

-- The class name of an endpoint, without a suffix: `/pets/{petId}` is `PetsPetId`.
def endpoint (path : String) (casing : Casing := {}) : String :=
  let words := casing.upperCamel path
  if words = "" then "Root" else words

-- Keys on the way to a schema that say nothing about what it is.
def structuralKeys : List String := [
  "definitions", "components", "schemas", "properties", "paths", "responses", "requestBodies",
  "requestBody", "parameters", "schema", "allOf"
]

-- The telling parts of the keys on the way to a schema. The media type below `content` is passed
-- over.
def schemaParts (casing : Casing) : List String → List String
  | []                       => []
  | ["content"]              => []
  | "content" :: _ :: others => schemaParts casing others
  | key :: others            =>
    if key = "items" then "Item" :: schemaParts casing others
    else if key ∈ structuralKeys then schemaParts casing others
    else casing.upperCamel key :: schemaParts casing others

-- The name of a schema, from the place where it stands.
def schema (p : Pointer) (casing : Casing := {}) : String :=
  let name := String.join (schemaParts casing p.segments)
  if name = "" then "Anonymous" else name

end ApiDescriptors.DerivedName
