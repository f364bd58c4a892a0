import ApiDescriptors.Paths
import ApiDescriptors.Schema.Basic

/-!
The schemas of a document: the named ones, those that operations declare, and all that are linked
from these. Each stands in the graph once, in the order in which it was first mentioned.
-/

namespace ApiDescriptors

structure SchemaGraph where
  schemas : List Schema
  -- The named schemas, in the order of declaration.
  named   : List Pointer
  -- The schemas that operations declare, in the order of declaration.
  roots   : List Pointer

namespace SchemaGraph

def nodes (g : SchemaGraph) : List Pointer :=
  g.schemas.map (·.node)

def get? (g : SchemaGraph) (node : Pointer) : Option Schema :=
  g.schemas.find? (·.node = node)

-- The place of a schema in the order of the graph.
def index? (g : SchemaGraph) (node : Pointer) : Option Nat :=
  g.schemas.findIdx? (·.node = node)

-- Loading

-- Schemas that were read, and nodes that were mentioned and are still to be read.
structure Loading where
  loaded  : List Schema  := []
  pending : List Pointer := []

namespace Loading

def knows (l : Loading) (node : Pointer) : Bool :=
  l.loaded.any (·.node = node) || node ∈ l.pending

-- Mentions a node. One that is known already stays at its place.
def mention (l : Loading) (node : Pointer) : Loading :=
  if l.knows node then l else { l with pending := l.pending ++ [node] }

def mentionAll (l : Loading) (nodes : List Pointer) : Loading :=
  nodes.foldl mention l

-- Reads the pending nodes in turn, and those that they mention.
def run (d : Document) : Nat → Loading → Result (List Schema)
  | 0,        l => .ok l.loaded
  | fuel + 1, l =>
    match l.pending with
    | []           => .ok l.loaded
    | node :: rest =>
      match d.get? node with
      | none       => refuse node .schemaNotFound
      | some value => do
        let schema ← Schema.read d node value
        run d fuel ({ loaded := l.loaded ++ [schema], pending := rest : Loading }.mentionAll schema.links)

end Loading

-- More than the nodes that can be mentioned: each lies below one of the first mentioned or below
-- the target of a reference.
def loadLimit (d : Document) (first : List Pointer) : Nat :=
  (first.length + (d.root.textsAt "$ref").length) * d.root.size + 1

-- The nodes of the named schemas.
def namedSchemas (d : Document) : Result (List Pointer) := do
  match ← d.objectAt d.schemaTable with
  | none         => return []
  | some members => return members.names.map d.schemaTable.child

def load (d : Document) (paths : List PathEntry) : Result SchemaGraph := do
  let named ← namedSchemas d
  let roots := paths.flatMap fun entry => entry.operations.flatMap (·.schemaSites)
  let first := named ++ roots
  let schemas ← Loading.run d (loadLimit d first) (({} : Loading).mentionAll first)
  return { schemas, named, roots }

end SchemaGraph
end ApiDescriptors
