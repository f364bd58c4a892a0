import ApiDescriptors.Document

/-!
References: an object with the member `$ref` stands for another node of the document.
-/

namespace ApiDescriptors

-- The reference that a value at `node` is, if it is one.
def reference? (node : Pointer) (value : Json) : Result (Option String) :=
  match value.get? "$ref" with
  | none                  => .ok none
  | some (.str reference) => .ok (some reference)
  | some _                => refuse (node.child "$ref") .notString

namespace Document

-- The node that a reference at `holder` names, with its value.
def target (d : Document) (holder : Pointer) (reference : String) : Result (Pointer × Json) :=
  match Pointer.parse reference with
  | .error _  => .error (.unresolved reference holder)
  | .ok node  =>
    match d.get? node with
    | some value => .ok (node, value)
    | none       => .error (.unresolved reference holder)

-- Follows references from `node`. The nodes visited, in order, are `chain`; one that comes up
-- again ends the way.
def followFrom (d : Document) :
    Nat → List Pointer → Pointer → Json → Result (Pointer × Json)
  | 0,        chain, _,    _     => .error (.cycle chain)
  | fuel + 1, chain, node, value => do
    match ← reference? node value with
    | none           => return (node, value)
    | some reference =>
      let (next, value) ← d.target node reference
      if next ∈ chain then .error (.cycle (chain ++ [next]))
      else d.followFrom fuel (chain ++ [next]) next value

-- More than the nodes that references can lead to.
def referenceLimit (d : Document) : Nat :=
  (d.root.textsAt "$ref").length + 2

-- Follows references until a value that is none.
def follow (d : Document) (node : Pointer) (value : Json) : Result (Pointer × Json) := do
  match ← reference? node value with
  | none   => return (node, value)
  | some _ => d.followFrom d.referenceLimit [node] node value

end Document
end ApiDescriptors
