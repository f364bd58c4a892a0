import ApiDescriptors.Verb

/-!
Endpoints: one class for each path, with the verbs of that path. Standalone verbs are handlers of
their own instead.
-/

namespace ApiDescriptors

namespace Route

inductive Segment
  | literal (text : String)
  | argument (name identifier : String) (type : FieldType)
deriving DecidableEq

end Route

abbrev Route := List Route.Segment

structure Endpoint where
  className : String
  path      : String
  route     : Route
  verbs     : List Verb
deriving DecidableEq

structure Handler where
  path  : String
  route : Route
  verb  : Verb
deriving DecidableEq

-- What is generated for the paths of a document.
structure Endpoints where
  endpoints : List Endpoint := []
  handlers  : List Handler  := []

namespace Route

-- The arguments that the verbs of a path declare for a placeholder.
def declarations (verbs : List Verb) (name : String) : List Argument :=
  verbs.flatMap fun verb => verb.arguments.filter fun a => a.location = .path ∧ a.name = name

-- The first declaration of a placeholder types it; the others must agree up to formats.
def segment (path : String) (first : Pointer) (verbs : List Verb) : Template.Part → Result Segment
  | .literal text     => .ok (.literal text)
  | .placeholder name =>
    match declarations verbs name with
    | []              => .error (.parameterMismatch path first [name] [])
    | main :: others  =>
      if others.any fun a => !a.type.agrees main.type then
        .error (.inconsistentParameter path name)
      else .ok (.argument name main.identifier main.type)

-- The route of a path; `first` is the place of its first operation.
def ofPath (path : String) (first : Pointer) (verbs : List Verb) : Result Route := do
  (← Template.parse path).mapM (segment path first verbs)

end Route

namespace Endpoints

-- How endpoints are named: identifiers, and what ends a class name.
abbrev Naming := Serializer.Naming

-- What one path adds.
def ofPath (naming : Naming) (classes : Namespace) (entry : PathVerbs) :
    Result (Endpoints × Namespace) :=
  match entry.verbs with
  | []         => .ok ({}, classes)
  | first :: _ => do
    let path  := entry.path
    let route ← Route.ofPath path first.location entry.verbs
    let handlers := (entry.verbs.filter (·.standalone)).map fun verb => { path, route, verb : Handler }
    let verbs    := entry.verbs.filter (!·.standalone)
    if verbs.isEmpty then return ({ handlers }, classes)
    else
      let base := DerivedName.endpoint path naming.ids.casing
      let (className, classes) := classes.claimFree naming.ids base naming.suffix entry.node
      return ({ endpoints := [{ className, path, route, verbs }], handlers }, classes)

def ofPaths (naming : Naming) (classes : Namespace) : List PathVerbs → Result (Endpoints × Namespace)
  | []               => .ok ({}, classes)
  | entry :: entries => do
    let (first, classes) ← ofPath naming classes entry
    let (others, classes) ← ofPaths naming classes entries
    let all := {
      endpoints := first.endpoints ++ others.endpoints
      handlers  := first.handlers ++ others.handlers
    }
    return (all, classes)

end Endpoints
end ApiDescriptors
