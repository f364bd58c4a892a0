import ApiDescriptors.Schema.Graph

/-!
What schemas stand for. Aliases are followed to the first schema that is none, its canonical
schema; a use of a schema is described by the schemas on the way and by the canonical one.
-/

namespace ApiDescriptors

theorem length_erase_lt {α} [BEq α] [LawfulBEq α] {a : α} {l : List α} (h : a ∈ l) :
    (l.erase a).length < l.length := by
  rw [List.length_erase_of_mem h]
  have := List.length_pos_of_mem h
  omega

namespace SchemaGraph

-- The schemas from `node` along alias targets to the first that is no alias. `unvisited` are the
-- nodes that may still come up, `visited` those that did; coming back to one of these is a fault.
def aliasChainFrom (g : SchemaGraph) (unvisited visited : List Pointer) (node : Pointer) :
    Result (List Schema) :=
  match g.get? node with
  | none        => .ok []
  | some schema =>
    match schema.form with
    | .aliasOf target =>
      if _h : target ∈ unvisited then do
        let rest ← g.aliasChainFrom (unvisited.erase target) (visited ++ [target]) target
        return schema :: rest
      else .error (.cycle (visited ++ [target]))
    | _ => .ok [schema]
termination_by unvisited.length
decreasing_by exact length_erase_lt _h

def aliasChain (g : SchemaGraph) (node : Pointer) : Result (List Schema) :=
  g.aliasChainFrom (g.nodes.erase node) [node] node

-- Canonical nodes as far as they are known, at the places of the schemas that have them.
abbrev Table := List (Option Pointer)

def known? (g : SchemaGraph) (table : Table) (node : Pointer) : Option Pointer :=
  (g.index? node).bind fun i => table[i]?.join

def note (g : SchemaGraph) (canonical : Pointer) (table : Table) (node : Pointer) : Table :=
  match g.index? node with
  | some i => table.set i (some canonical)
  | none   => table

-- Follows alias targets from `node` to a node that is no alias or whose canonical node is known:
-- the nodes on the way, with the canonical one for all of them.
def canonicalFrom (g : SchemaGraph) (table : Table) (unvisited visited : List Pointer)
    (node : Pointer) : Result (List Pointer × Pointer) :=
  match g.known? table node with
  | some canonical => .ok (visited, canonical)
  | none           =>
    match (g.get? node).map (·.form) with
    | some (Schema.Form.aliasOf target) =>
      if _h : target ∈ unvisited then
        g.canonicalFrom table (unvisited.erase target) (visited ++ [target]) target
      else .error (.cycle (visited ++ [target]))
    | _ => .ok (visited, node)
termination_by unvisited.length
decreasing_by exact length_erase_lt _h

-- Finds the canonical node of a node that has none yet.
def settle (g : SchemaGraph) (table : Table) (node : Pointer) : Result Table :=
  if (g.known? table node).isSome then .ok table
  else do
    let (way, canonical) ← g.canonicalFrom table (g.nodes.erase node) [node] node
    return way.foldl (g.note canonical) table

end SchemaGraph

-- A graph whose aliases all lead to a schema that is none.
structure Resolution where
  graph      : SchemaGraph
  -- The canonical nodes of the schemas, in the order of the graph.
  canonicals : List Pointer

namespace Resolution

def ofGraph (graph : SchemaGraph) : Result Resolution := do
  let table ← graph.nodes.foldlM graph.settle (List.replicate graph.schemas.length none)
  return { graph, canonicals := table.filterMap id }

def canonical? (r : Resolution) (node : Pointer) : Option Schema :=
  (r.graph.index? node).bind fun i => r.canonicals[i]?.bind r.graph.get?

-- The alias chain of a schema, both ends included.
def chain (r : Resolution) (node : Pointer) : List Schema :=
  (r.graph.aliasChain node).toOption.getD []

-- A use accepts null when a schema on its alias chain does.
def isNullable (r : Resolution) (node : Pointer) : Bool :=
  (r.chain node).any (·.nullable)

-- The description at the use itself, or else the one of the canonical schema.
def description? (r : Resolution) (node : Pointer) : Option String :=
  ((r.chain node).head?.bind (·.description)).or ((r.canonical? node).bind (·.description))

def choices (r : Resolution) (node : Pointer) : List Json :=
  ((r.canonical? node).map (·.choices)).getD []

-- The type at a use. `unvisited` are the array schemas that may still come up, `arrays` those
-- that did, from the outside in.
def fieldTypeFrom (r : Resolution) (unvisited arrays : List Pointer) (node : Pointer) :
    Result FieldType :=
  match r.canonical? node with
  | none        => .error (.notLoaded node)
  | some schema =>
    match schema.form with
    | .array items =>
      if _h : schema.node ∈ unvisited then do
        return .array (← r.fieldTypeFrom (unvisited.erase schema.node) (arrays ++ [schema.node]) items)
      else .error (.cycle (arrays ++ [schema.node]))
    | .object ..   => .ok (.object schema.node)
    | .scalar type => .ok (.scalar type schema.format)
    | .aliasOf _   => .error (.notLoaded node)
termination_by unvisited.length
decreasing_by exact length_erase_lt _h

-- The type of a schema where it is used. An array that contains itself has none.
def fieldType (r : Resolution) (node : Pointer) : Result FieldType :=
  r.fieldTypeFrom r.graph.nodes [] node

-- How a use consumes an object schema: one object, or an array of them.
structure Usage where
  schema : Pointer
  many   : Bool
deriving DecidableEq

def usage? (r : Resolution) (node : Pointer) : Option Usage := do
  let schema ← r.canonical? node
  match schema.form with
  | .object ..   => some ⟨schema.node, false⟩
  | .array items =>
    let item ← r.canonical? items
    if item.isObject then some ⟨item.node, true⟩ else none
  | _ => none

-- The greatest number of links of a schema.
def width (r : Resolution) : Nat :=
  (r.graph.schemas.map (·.links.length)).max?.getD 0

theorem length_links_le_width {r : Resolution} {node : Pointer} {schema : Schema}
    (h : r.canonical? node = some schema) : schema.links.length ≤ r.width := by
  obtain ⟨_, _, h⟩ := Option.bind_eq_some_iff.mp h
  obtain ⟨_, _, h⟩ := Option.bind_eq_some_iff.mp h
  exact List.le_max?_getD_of_mem (List.mem_map_of_mem (List.mem_of_find?_eq_some h))

-- The canonical object schemas that the nodes on a stack lead to, depth first.
def discoverFrom (r : Resolution) (unvisited stack : List Pointer) : List Schema :=
  match stack with
  | []            => []
  | node :: stack =>
    match _hc : r.canonical? node with
    | none        => r.discoverFrom unvisited stack
    | some schema =>
      if _h : schema.node ∈ unvisited then
        let others := r.discoverFrom (unvisited.erase schema.node) (schema.links ++ stack)
        if schema.isObject then schema :: others else others
      else r.discoverFrom unvisited stack
termination_by unvisited.length * (r.width + 1) + stack.length
decreasing_by
  · simp
  · have hl := length_links_le_width _hc
    have he := Nat.mul_le_mul_right (r.width + 1) (length_erase_lt _h)
    rw [Nat.succ_mul] at he
    simp only [List.length_append, List.length_cons]
    omega
  · simp

-- The canonical object schemas that can be reached from `roots`, in the order of discovery:
-- depth first, the properties of an object in the order of declaration.
def discover (r : Resolution) (roots : List Pointer) : List Schema :=
  r.discoverFrom r.graph.nodes roots

end Resolution
end ApiDescriptors
