import ApiDescriptors.Endpoint

/-!
The registry: everything that is generated for one document.
-/

namespace ApiDescriptors

structure Registry where
  dialect     : Dialect
  graph       : SchemaGraph
  -- The serializers in the order of discovery, no two for one schema.
  serializers : List Serializer
  endpoints   : List Endpoint
  handlers    : List Handler

namespace Options

def identifiers (o : Options) : Identifiers :=
  .reserving o.reservedWords

def serializerNaming (o : Options) : Serializer.Naming :=
  ⟨o.identifiers, o.serializerSuffix⟩

def endpointNaming (o : Options) : Endpoints.Naming :=
  ⟨o.identifiers, o.endpointSuffix⟩

end Options

namespace Registry

-- The schemas from which serializers are discovered.
def discoveryRoots (g : SchemaGraph) (o : Options) : List Pointer :=
  if o.includeUnreferencedSchemas then g.roots ++ g.named else g.roots

-- Builds the registry of a document, with names that are made by `ids`.
def buildNamed (ids : Identifiers) (d : Document) (o : Options) : Result Registry := do
  let paths ← d.paths
  let graph ← SchemaGraph.load d paths
  let r ← Resolution.ofGraph graph
  let objects := r.discover (discoveryRoots graph o)
  let (serializers, classes) ← Serializer.ofSchemas ⟨ids, o.serializerSuffix⟩ ⟨.ofClass, []⟩ r objects
  let (verbs, _) ← PathVerbs.ofEntries ids r serializers ⟨.ofFunction, []⟩ paths
  let (all, _) ← Endpoints.ofPaths ⟨ids, o.endpointSuffix⟩ classes verbs
  return { dialect := d.dialect, graph, serializers, endpoints := all.endpoints, handlers := all.handlers }

-- Builds the registry of a document.
def build (d : Document) (o : Options) : Result Registry :=
  buildNamed o.identifiers d o

def ofText (text : String) (o : Options) : Result Registry := do
  build (← Document.ofText text) o

def serializer? (g : Registry) (schema : Pointer) : Option Serializer :=
  Serializer.find? g.serializers schema

-- Dependency order

theorem perm_cons_eraseIdx {α} {l : List α} {i : Nat} {a : α} (h : l[i]? = some a) :
    l.Perm (a :: l.eraseIdx i) := by
  induction l generalizing i with
  | nil => simp at h
  | cons b l ih =>
    cases i with
    | zero   => simp_all
    | succ i => exact ((ih (by simpa using h)).cons b).trans (.swap ..)

-- A serializer that waits for its dependencies, and those not looked at yet.
structure Frame where
  serializer : Serializer
  rest       : List Pointer

-- Depth-first search along dependencies. `unvisited` are the serializers not begun; a serializer
-- comes after its dependencies, except where these lead back to it.
def orderFrom (unvisited : List Serializer) (stack : List Frame) : List Serializer :=
  match stack with
  | [] =>
    match unvisited with
    | []          => []
    | s :: others => orderFrom others [⟨s, s.dependsOn⟩]
  | ⟨s, []⟩ :: stack => s :: orderFrom unvisited stack
  | ⟨s, dependency :: rest⟩ :: stack =>
    match unvisited.findIdx? (·.schema = dependency) with
    | some i =>
      match _hn : unvisited[i]? with
      | some next => orderFrom (unvisited.eraseIdx i) (⟨next, next.dependsOn⟩ :: ⟨s, rest⟩ :: stack)
      | none      => orderFrom unvisited (⟨s, rest⟩ :: stack)
    | none => orderFrom unvisited (⟨s, rest⟩ :: stack)
termination_by (unvisited.flatMap (·.dependsOn)).length + 2 * unvisited.length +
  (stack.flatMap (·.rest)).length + stack.length
decreasing_by
  · simp only [List.flatMap_cons, List.flatMap_nil, List.length_append, List.length_cons,
      List.length_nil]
    omega
  · simp only [List.flatMap_cons, List.length_append, List.length_cons]
    omega
  · have hs := perm_cons_eraseIdx _hn
    have hd := (hs.flatMap_right (·.dependsOn)).length_eq
    have hl := hs.length_eq
    simp only [List.flatMap_cons, List.length_append, List.length_cons] at hd hl ⊢
    omega
  · simp only [List.flatMap_cons, List.length_append, List.length_cons]
    omega
  · simp only [List.flatMap_cons, List.length_append, List.length_cons]
    omega

-- The serializers, each after those that its fields refer to. Where references form a cycle it is
-- broken at the reference that closes it; otherwise the order of discovery decides.
def dependencyOrder (g : Registry) : List Serializer :=
  orderFrom g.serializers []

end Registry
end ApiDescriptors
