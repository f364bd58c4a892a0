import ApiDescriptors.Number.Double

/-!
JSON values. The members of an object keep their order; a name is looked up at its first
occurrence.
-/

namespace ApiDescriptors

inductive Json
  | null
  | bool (value : Bool)
  | int (value : Int)
  | double (value : Number.Double)
  | str (text : String)
  | arr (items : List Json)
  | obj (members : List (String × Json))
deriving Inhabited

abbrev Members := List (String × Json)

namespace Members

-- Gives `name` the value, at its old place if it has one.
def insert (members : Members) (name : String) (value : Json) : Members :=
  match members with
  | []               => [(name, value)]
  | (n, v) :: others => if n = name then (n, value) :: others else (n, v) :: insert others name value

-- Adds `name` at the end unless it is there already.
def insertNew (members : Members) (name : String) (value : Json) : Members :=
  if (members.lookup name).isSome then members else members ++ [(name, value)]

def names (members : Members) : List String :=
  members.map (·.1)

end Members

namespace Json

def get? (name : String) : Json → Option Json
  | obj members => members.lookup name
  | _           => none

def str? : Json → Option String
  | str text => some text
  | _        => none

def arr? : Json → Option (List Json)
  | arr items => some items
  | _         => none

def obj? : Json → Option Members
  | obj members => some members
  | _           => none

mutual

-- The number of values in a tree.
def size : Json → Nat
  | arr items   => 1 + sizeItems items
  | obj members => 1 + sizeMembers members
  | _           => 1

def sizeItems : List Json → Nat
  | []            => 0
  | item :: items => item.size + sizeItems items

def sizeMembers : List (String × Json) → Nat
  | []                    => 0
  | (_, value) :: members => value.size + sizeMembers members

end

mutual

-- Every text that stands under the name `key`, at any depth.
def textsAt (key : String) : Json → List String
  | arr items   => textsInItems key items
  | obj members => textsInMembers key members
  | _           => []

def textsInItems (key : String) : List Json → List String
  | []            => []
  | item :: items => item.textsAt key ++ textsInItems key items

def textsInMembers (key : String) : List (String × Json) → List String
  | []                       => []
  | (name, value) :: members =>
    (if name = key then value.str?.toList else []) ++ value.textsAt key ++ textsInMembers key members

end

end Json
end ApiDescriptors
