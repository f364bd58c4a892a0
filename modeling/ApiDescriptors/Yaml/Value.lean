import ApiDescriptors.Yaml.Events
import ApiDescriptors.Yaml.Scalar

/-!
The value of a YAML document: a tree without aliases, whose mappings have distinct keys.

Aliases are written out, so a short text may stand for a large tree. Collections nest at most 128
levels deep, and aliases are followed at most a hundred times for every event of the document.
-/

namespace ApiDescriptors.Yaml

inductive Value
  | scalar (s : Scalar)
  | seq (items : List Value)
  | map (entries : List (Value × Value))
  | tagged (tag : String) (value : Value)
deriving Inhabited

namespace Value

def sameScalar : Scalar → Scalar → Bool
  | .double x, .double y => x.equals y
  | x,         y         => x = y

mutual

-- Equality as keys: numbers by value, mappings without regard to the order of their entries.
def same : Value → Value → Bool
  | scalar x,   scalar y   => sameScalar x y
  | seq xs,     seq ys     => sameItems xs ys
  | map xs,     map ys     => xs.length == ys.length && sameEntries xs ys
  | tagged t x, tagged u y => t == u && x.same y
  | _,          _          => false

def sameItems : List Value → List Value → Bool
  | [],      []      => true
  | x :: xs, y :: ys => x.same y && sameItems xs ys
  | _,       _       => false

-- Every entry of the first list is in the second.
def sameEntries : List (Value × Value) → List (Value × Value) → Bool
  | [],           _  => true
  | (k, v) :: xs, ys => ys.any (fun entry => k.same entry.1 && v.same entry.2) && sameEntries xs ys

end
end Value

-- The places of the anchored nodes of a document. An anchor gets the number of names known
-- before it; of two nodes with one number the later counts.
structure Anchors where
  names  : List (String × Nat) := []
  places : List (Nat × Nat)    := []

def Anchors.declare (a : Anchors) (name : String) (place : Nat) : Anchors :=
  let number := a.names.length
  let names  := if (a.names.lookup name).isSome then a.names.filter (·.1 ≠ name) else a.names
  { names := (name, number) :: names, places := (number, place) :: a.places }

-- The events of a document with its aliases resolved to the numbers of anchors.
structure Resolved where
  events   : List (Event × Nat)
  -- The number of events.
  size     : Nat
  anchors  : Anchors
  complete : Bool

namespace Resolved

-- Resolves every alias against the anchors before it. The events end before an alias without
-- an anchor.
def ofEvents (source : Events) : Resolved :=
  go {} [] 0 source.events
where
  go (anchors : Anchors) (done : List (Event × Nat)) (place : Nat) : List Event → Resolved
    | []          => ⟨done.reverse, place, anchors, source.complete⟩
    | .aliasOf name :: rest =>
      match anchors.names.lookup name with
      | some number => go anchors ((.aliasOf name, number) :: done) (place + 1) rest
      | none        => ⟨done.reverse, place, anchors, false⟩
    | event :: rest =>
      let anchors := match event.anchor? with
        | some name => anchors.declare name place
        | none      => anchors
      go anchors ((event, 0) :: done) (place + 1) rest

def ofText (text : String) : Resolved :=
  ofEvents (Events.ofText text)

-- The events from an anchored node on.
def target (r : Resolved) (number : Nat) : List (Event × Nat) :=
  match r.anchors.places.lookup number with
  | some place => r.events.drop place
  | none       => []

end Resolved

namespace Value

-- Reading a value counts the aliases followed.
abbrev Read := StateT Nat Option

abbrev Rest := List (Event × Nat)

-- How to read the nodes inside a collection; none when collections may not nest any further.
abbrev Inner := Option (Rest → Read (Value × Rest))

namespace Read

def items (inner : Rest → Read (Value × Rest)) : Nat → List Value → Rest → Read (List Value × Rest)
  | 0,        _,    _ => failure
  | fuel + 1, done, rest =>
    match rest with
    | (.sequenceEnd, _) :: rest => pure (done.reverse, rest)
    | rest                      => do
      let (item, rest) ← inner rest
      items inner fuel (item :: done) rest

def entries (inner : Rest → Read (Value × Rest)) :
    Nat → List (Value × Value) → Rest → Read (List (Value × Value) × Rest)
  | 0,        _,    _ => failure
  | fuel + 1, done, rest =>
    match rest with
    | (.mappingEnd, _) :: rest => pure (done.reverse, rest)
    | rest                     => do
      let (key, rest) ← inner rest
      guard !(done.any (key.same ·.1))
      let (value, rest) ← inner rest
      entries inner fuel ((key, value) :: done) rest

-- The tag of an application stays with the value. It must have a name behind its sign.
def withTag (tag : Option String) (value : Value) : Read Value :=
  match tag.filter Scalar.isLocalTag with
  | some "!" => failure
  | some tag => pure (.tagged tag value)
  | none     => pure value

-- Reads a node that is no alias.
def node (limit : Nat) (inner : Inner) : Rest → Read (Value × Rest)
  | (.scalar props text style, _) :: rest => do
    let s ← (Scalar.resolve props.tag text style).toOption
    if let .int n := s then guard (-Int.pow 2 63 ≤ n ∧ n < Int.pow 2 64)
    return (← withTag props.tag (.scalar s), rest)
  | (.sequenceStart props, _) :: rest => do
    let (items, rest) ← items (← inner) limit [] rest
    return (← withTag props.tag (.seq items), rest)
  | (.mappingStart props, _) :: rest => do
    let (entries, rest) ← entries (← inner) limit [] rest
    return (← withTag props.tag (.map entries), rest)
  | _ => failure

-- Reads a node; an alias is read at its anchor.
def value (source : Resolved) (inner : Inner) : Rest → Read (Value × Rest)
  | (.aliasOf _, number) :: rest => do
    let followed ← get
    guard (followed < 100 * source.size)
    set (followed + 1)
    let (value, _) ← node (source.size + 1) inner (source.target number)
    return (value, rest)
  | rest => node (source.size + 1) inner rest

-- Reads a node that may hold `depth` levels of collections.
def nested (source : Resolved) : Nat → Rest → Read (Value × Rest)
  | 0,         rest => value source none rest
  | depth + 1, rest => value source (some (nested source depth)) rest

end Read

def depthLimit : Nat := 128

-- The value of a text that is one document; a text without a document is null.
def ofText? (text : String) : Option Value := do
  let source := Resolved.ofText text
  guard source.complete
  if source.events.isEmpty then return .scalar .null
  let ((value, _), _) ← (Read.nested source depthLimit source.events).run 0
  return value

end Value
end ApiDescriptors.Yaml
