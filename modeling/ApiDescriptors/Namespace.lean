import ApiDescriptors.Error
import ApiDescriptors.Identifiers

/-!
Namespaces: the names given out so far, each with the node of the document that claimed it.
-/

namespace ApiDescriptors

structure Namespace where
  kind    : NameKind
  claimed : List (String × Pointer) := []

namespace Namespace

def contains (ns : Namespace) (name : String) : Bool :=
  (ns.claimed.lookup name).isSome

def add (ns : Namespace) (name : String) (node : Pointer) : Namespace :=
  { ns with claimed := (name, node) :: ns.claimed }

@[simp]
theorem contains_add (ns : Namespace) (name other : String) (node : Pointer) :
    (ns.add name node).contains other = (other == name || ns.contains other) := by
  cases h : other == name <;> simp [contains, add, List.lookup_cons, h]

-- Claims a name, which no other node may have claimed before.
def claim (ns : Namespace) (name : String) (node : Pointer) : Result (String × Namespace) :=
  match ns.claimed.lookup name with
  | some first => .error (.duplicateName ns.kind name first node)
  | none       => .ok (name, ns.add name node)

-- The candidates for a name that need not be exact: a number comes between base and suffix from
-- the second one on.
def candidate (ids : Identifiers) (base suffix : String) (n : Nat) : String :=
  ids.sanitize (base ++ (if n = 0 then "" else Number.decimal (n + 1)) ++ suffix)

-- The first candidate that is free. As many candidates as there are names, and one more, are
-- enough to find one.
def freeName (ns : Namespace) (ids : Identifiers) (base suffix : String) : String :=
  let indices := List.range (ns.claimed.length + 1)
  candidate ids base suffix <|
    (indices.find? fun n => !ns.contains (candidate ids base suffix n)).getD ns.claimed.length

def claimFree (ns : Namespace) (ids : Identifiers) (base suffix : String) (node : Pointer) :
    String × Namespace :=
  let name := ns.freeName ids base suffix
  (name, ns.add name node)

end Namespace
end ApiDescriptors
