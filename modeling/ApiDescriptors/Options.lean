import ApiDescriptors.Number.Layout
import ApiDescriptors.Text.Quoted
import ApiDescriptors.Yaml.Value

/-!
The options of a run, and reading them from YAML text. Fields are read as they come, so the first
fault in the text is the one that counts; a faulty ending shows only when all fields are sound.
-/

namespace ApiDescriptors

structure Options where
  serializerSuffix           : String      := "Serializer"
  endpointSuffix             : String      := "View"
  -- Words reserved beside the built-in ones.
  reservedWords              : List String := []
  -- Named schemas get a serializer even where no operation reaches them.
  includeUnreferencedSchemas : Bool        := false
deriving DecidableEq

namespace Options

inductive Problem
  | unknownField (name : String)
  | duplicateField (name : String)
  | wrongType (found expected : String)
  -- A scalar whose text is not of the kind that its tag names.
  | wrongText (text kind : String)
  | unreadable

structure Fault where
  -- The field, and the place in it; empty for the text as a whole.
  path    : String := ""
  problem : Problem

def fieldNames : List String :=
  ["serializer-suffix", "endpoint-suffix", "reserved-words", "include-unreferenced-schemas"]

def Problem.detail : Problem → String
  | unknownField name        =>
    "unknown field \x60" ++ name ++ "\x60, expected one of "
      ++ ", ".intercalate (fieldNames.map fun field => "\x60" ++ field ++ "\x60")
  | duplicateField name      => "duplicate field \x60" ++ name ++ "\x60"
  | wrongType found expected => "invalid type: " ++ found ++ ", expected " ++ expected
  | wrongText text kind      => "invalid value: string " ++ quoted text ++ ", expected " ++ kind
  | unreadable               => ""

-- The message of a fault. What concerns neither a field nor a type is not told in detail, and a
-- place that the detail goes on to name is left out.
def Fault.message (fault : Fault) : String :=
  let place  := if fault.path = "" then "" else fault.path ++ ": "
  let detail := place ++ fault.problem.detail
  let speaksOf (topic : String) : Bool := 1 < (detail.splitOn topic).length
  if speaksOf "unknown field" || speaksOf "invalid type" || speaksOf "duplicate field" then
    (detail.splitOn " at line ").headD detail
  else "malformed YAML"

namespace Reader

open Yaml

abbrev Rest := List (Event × Nat)

def describeScalar : Scalar → String
  | .null            => "unit value"
  | .bool value      => "boolean \x60" ++ (if value then "true" else "false") ++ "\x60"
  | .int value       =>
    let width :=
      if Int.pow 2 64 ≤ value then " as u128" else if value < -Int.pow 2 63 then " as i128" else ""
    "integer \x60" ++ Number.decimalInt value ++ "\x60" ++ width
  | .double value    => "floating point \x60" ++ Number.Layout.writeInFull value ++ "\x60"
  | .infinity true   => "floating point \x60-inf\x60"
  | .infinity false  => "floating point \x60inf\x60"
  | .nan             => "floating point \x60NaN\x60"
  | .str text        => "string " ++ quoted text

def mismatch (event : Event) (expected : String) : Problem :=
  match event with
  | .scalar props text style =>
    match Scalar.resolve props.tag text style with
    | .ok s       => .wrongType (describeScalar s) expected
    | .error kind => .wrongText text kind
  | .sequenceStart _ => .wrongType "sequence" expected
  | .mappingStart _  => .wrongType "map" expected
  | _                => .unreadable

-- Reads a node at `path`: where it starts, and at an alias where its anchor starts. The events
-- after the node follow from the ones inside only when it is no alias.
def atNode {α} (source : Resolved) (path : String) (read : Event → Rest → Except Fault (α × Rest)) (rest : Rest) :
    Except Fault (α × Rest) :=
  match rest with
  | (.aliasOf _, number) :: rest =>
    match source.target number with
    | (event, _) :: inner => do return ((← read event inner).1, rest)
    | []                  => .error { path, problem := .unreadable }
  | (event, _) :: rest => read event rest
  | []                 => .error { path, problem := .unreadable }

-- The text of a scalar, whatever it would mean by itself.
def text (source : Resolved) (path expected : String) : Rest → Except Fault (String × Rest) :=
  atNode source path fun event rest =>
    match event with
    | .scalar _ text _ => .ok (text, rest)
    | event            => .error { path, problem := mismatch event expected }

-- A plain word, or a literal block with the tag of booleans.
def flag (source : Resolved) (path : String) : Rest → Except Fault (Bool × Rest) :=
  atNode source path fun event rest =>
    let value? := match event with
      | .scalar props text style =>
        if style = Style.plain ∨ (style = Style.literal ∧ props.tag = some (Scalar.tagPrefix ++ "bool")) then
          Scalar.bool? text
        else none
      | _ => none
    match value? with
    | some (.bool value) => .ok (value, rest)
    | _                  => .error { path, problem := mismatch event "a boolean" }

-- A sequence of texts; an empty plain scalar is an empty sequence.
def texts (source : Resolved) (path : String) : Rest → Except Fault (List String × Rest) :=
  atNode source path fun event rest =>
    match event with
    | .sequenceStart _    => items (rest.length + 1) [] rest
    | .scalar _ "" .plain => .ok ([], rest)
    | event               => .error { path, problem := mismatch event "a sequence" }
where
  items : Nat → List String → Rest → Except Fault (List String × Rest)
    | 0,        _,    _                         => .error { path, problem := .unreadable }
    | _ + 1,    done, (.sequenceEnd, _) :: rest => .ok (done.reverse, rest)
    | fuel + 1, done, rest                      => do
      let place := path ++ "[" ++ Number.decimal done.length ++ "]"
      let (item, rest) ← text source place "a string" rest
      items fuel (item :: done) rest

-- The members of the mapping; `seen` are the fields read before.
def fields (source : Resolved) :
    Nat → List String → Options → Rest → Except Fault Options
  | 0,        _,    _,       _                        => .error { problem := .unreadable }
  | _ + 1,    _,    options, (.mappingEnd, _) :: _    => .ok options
  | fuel + 1, seen, options, rest                     => do
    let path := match rest with
      | (.scalar _ name _, _) :: _ => name
      | _                          => "?"
    let (name, rest) ← text source "" "field identifier" rest
    if name ∉ fieldNames then throw { problem := .unknownField name }
    if name ∈ seen then throw { problem := .duplicateField name }
    let (options, rest) ←
      match name with
      | "serializer-suffix" => do
        let (value, rest) ← text source path "a string" rest
        pure ({ options with serializerSuffix := value }, rest)
      | "endpoint-suffix" => do
        let (value, rest) ← text source path "a string" rest
        pure ({ options with endpointSuffix := value }, rest)
      | "reserved-words" => do
        let (value, rest) ← texts source path rest
        pure ({ options with reservedWords := value }, rest)
      | _ => do
        let (value, rest) ← flag source path rest
        pure ({ options with includeUnreferencedSchemas := value }, rest)
    fields source fuel (name :: seen) options rest

end Reader

-- Reads options. A text without a document, or with an empty one, leaves all at their defaults.
def ofText (text : String) : Except Fault Options := do
  let source := Yaml.Resolved.ofText text
  let options ←
    match source.events with
    | []                             => pure {}
    | (.scalar _ "" .plain, _) :: _  => pure {}
    | (.mappingStart _, _) :: rest   => Reader.fields source (rest.length + 1) [] {} rest
    | (event, _) :: _                => throw { problem := Reader.mismatch event "struct BuildOptions" }
  if source.complete then pure options else throw { problem := .unreadable }

end Options
end ApiDescriptors
