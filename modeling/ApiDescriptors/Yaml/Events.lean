import ApiDescriptors.Yaml.Tokens

/-!
The events of a YAML document: scalars, aliases, and the starts and ends of collections. They are
recognised by a pushdown automaton over the tokens, whose stack says what is expected next.

A text holds one document. Of a text that is faulty, or goes on after its first document, the
events before the fault remain.
-/

namespace ApiDescriptors.Yaml

-- The anchor and the tag in front of a node.
structure Props where
  anchor : Option String := none
  tag    : Option String := none

inductive Event
  | aliasOf (name : String)
  | scalar (props : Props) (text : String) (style : Style)
  | sequenceStart (props : Props)
  | sequenceEnd
  | mappingStart (props : Props)
  | mappingEnd

def Event.anchor? : Event → Option String
  | .scalar props .. | .sequenceStart props | .mappingStart props => props.anchor
  | _ => none

structure Events where
  events   : List Event
  -- The events are those of a whole document, and nothing follows it.
  complete : Bool

namespace Events

inductive Expected
  | node (block indentless : Bool)
  | blockEntry
  | indentlessEntry
  | blockKey
  | blockValue
  | flowEntry (first : Bool)
  | pairKey
  | pairValue
  | pairEnd
  | flowKey (first : Bool)
  | flowValue
  | noFlowValue

-- A place in the tokens, with the expansions of tag handles in force.
structure State where
  tokens  : List Token
  handles : List (String × String)
  stack   : List Expected

def emptyScalar (props : Props := {}) : Event :=
  .scalar props "" .plain

-- What a step gives: the new state and the events in order.
abbrev Step := Option (State × List Event)

namespace State

-- Leaves an empty scalar where one of `ends` follows, and expects a node otherwise.
def nodeUnless (s : State) (ends : List Token) (block indentless : Bool) (stack : List Expected) : Step := do
  let next ← s.tokens.head?
  if next ∈ ends then some ({ s with stack }, [emptyScalar])
  else some ({ s with stack := .node block indentless :: stack }, [])

-- The tag that a handle and a suffix make; an undefined handle makes none.
def expand? (s : State) (handle suffix : String) : Option String :=
  if handle = "" then some suffix
  else (s.handles.lookup handle).map (· ++ suffix)

-- Reads an anchor and a tag, in either order.
def props? (s : State) : Option (Props × List Token) :=
  match s.tokens with
  | .anchor a :: .tag h t :: rest => (s.expand? h t).map fun tag => (⟨a, tag⟩, rest)
  | .tag h t :: .anchor a :: rest => (s.expand? h t).map fun tag => (⟨a, tag⟩, rest)
  | .anchor a :: rest             => some (⟨a, none⟩, rest)
  | .tag h t :: rest              => (s.expand? h t).map fun tag => (⟨none, tag⟩, rest)
  | rest                          => some ({}, rest)

def node? (s : State) (block indentless : Bool) (stack : List Expected) : Step := do
  if let .aliasOf name :: rest := s.tokens then
    return ({ s with tokens := rest, stack }, [.aliasOf name])
  let (props, tokens) ← s.props?
  match tokens with
  | [] => none
  | token :: rest =>
    let opening (expected : Expected) (event : Event) : Step :=
      some ({ s with tokens := rest, stack := expected :: stack }, [event])
    match token, block with
    | .blockEntry, _ =>
      if indentless then some ({ s with tokens, stack := .indentlessEntry :: stack }, [.sequenceStart props])
      else empty? props tokens
    | .scalar text style, _ =>
      -- The bare tag `!` says no more than that there is a scalar.
      let props := if props.tag = some "!" then { props with tag := none } else props
      some ({ s with tokens := rest, stack }, [.scalar props text style])
    | .flowSequenceStart,  _    => opening (.flowEntry true) (.sequenceStart props)
    | .flowMappingStart,   _    => opening (.flowKey true) (.mappingStart props)
    | .blockSequenceStart, true => opening .blockEntry (.sequenceStart props)
    | .blockMappingStart,  true => opening .blockKey (.mappingStart props)
    | _,                   _    => empty? props tokens
where
  -- A node may consist of an anchor or a tag alone.
  empty? (props : Props) (tokens : List Token) : Step :=
    if props.anchor.isSome ∨ props.tag.isSome then some ({ s with tokens, stack }, [emptyScalar props])
    else none

-- An entry of a flow sequence; one that starts like a key is a mapping with one member.
def flowItem? (s : State) (stack : List Expected) : Step :=
  match s.tokens with
  | .key :: rest => some ({ s with tokens := rest, stack := .pairKey :: stack }, [.mappingStart {}])
  | _ :: _       => some ({ s with stack := .node false false :: .flowEntry false :: stack }, [])
  | []           => none

-- A member of a flow mapping; one that does not start like a key has no value.
def flowMember? (s : State) (stack : List Expected) : Step :=
  match s.tokens with
  | .key :: rest =>
    { s with tokens := rest }.nodeUnless [.value, .flowEntry, .flowMappingEnd] false false (.flowValue :: stack)
  | _ :: _       => some ({ s with stack := .node false false :: .noFlowValue :: stack }, [])
  | []           => none

def step? (s : State) (expected : Expected) (stack : List Expected) : Step :=
  let past (rest : List Token) : State := { s with tokens := rest }
  match expected, s.tokens with
  | .node block indentless, _ => s.node? block indentless stack
  | .blockEntry, .blockEntry :: rest =>
    (past rest).nodeUnless [.blockEntry, .blockEnd] true false (.blockEntry :: stack)
  | .blockEntry, .blockEnd :: rest => some ({ past rest with stack }, [.sequenceEnd])
  | .indentlessEntry, .blockEntry :: rest =>
    (past rest).nodeUnless [.blockEntry, .key, .value, .blockEnd] true false (.indentlessEntry :: stack)
  | .indentlessEntry, _ :: _ => some ({ s with stack }, [.sequenceEnd])
  | .blockKey, .key :: rest =>
    (past rest).nodeUnless [.key, .value, .blockEnd] true true (.blockValue :: stack)
  | .blockKey, .blockEnd :: rest => some ({ past rest with stack }, [.mappingEnd])
  | .blockValue, .value :: rest =>
    (past rest).nodeUnless [.key, .value, .blockEnd] true true (.blockKey :: stack)
  | .blockValue, _ :: _ => some ({ s with stack := .blockKey :: stack }, [emptyScalar])
  | .flowEntry _, .flowSequenceEnd :: rest => some ({ past rest with stack }, [.sequenceEnd])
  | .flowEntry true, _ => s.flowItem? stack
  | .flowEntry false, .flowEntry :: .flowSequenceEnd :: rest =>
    some ({ past rest with stack }, [.sequenceEnd])
  | .flowEntry false, .flowEntry :: rest => (past rest).flowItem? stack
  | .pairKey, token :: rest =>
    if token ∈ [.value, .flowEntry, .flowSequenceEnd] then
      some ({ past rest with stack := .pairValue :: stack }, [emptyScalar])
    else some ({ s with stack := .node false false :: .pairValue :: stack }, [])
  | .pairValue, .value :: rest =>
    (past rest).nodeUnless [.flowEntry, .flowSequenceEnd] false false (.pairEnd :: stack)
  | .pairValue, _ :: _ => some ({ s with stack := .pairEnd :: stack }, [emptyScalar])
  | .pairEnd, _ => some ({ s with stack := .flowEntry false :: stack }, [.mappingEnd])
  | .flowKey _, .flowMappingEnd :: rest => some ({ past rest with stack }, [.mappingEnd])
  | .flowKey true, _ => s.flowMember? stack
  | .flowKey false, .flowEntry :: .flowMappingEnd :: rest =>
    some ({ past rest with stack }, [.mappingEnd])
  | .flowKey false, .flowEntry :: rest => (past rest).flowMember? stack
  | .flowValue, .value :: rest =>
    (past rest).nodeUnless [.flowEntry, .flowMappingEnd] false false (.flowKey false :: stack)
  | .flowValue, _ :: _ => some ({ s with stack := .flowKey false :: stack }, [emptyScalar])
  | .noFlowValue, _ :: _ => some ({ s with stack := .flowKey false :: stack }, [emptyScalar])
  | _, _ => none

-- Runs the automaton until nothing is expected any more. The events are collected last one
-- first; the remaining tokens are given when the node was read to its end.
def run : Nat → List Event → State → List Event × Option (List Token)
  | 0,        events, _ => (events, none)
  | fuel + 1, events, s =>
    match s.stack with
    | []                => (events, some s.tokens)
    | expected :: stack =>
      match s.step? expected stack with
      | none             => (events, none)
      | some (s, gained) => run fuel (gained.reverse ++ events) s

end State

-- The tag handles that need no directive.
def standardHandles : List (String × String) :=
  [("!", "!"), ("!!", "tag:yaml.org,2002:")]

-- Reads the directives before a document.
def directives? (version : Bool) (handles : List (String × String)) :
    List Token → Option (List (String × String) × List Token)
  | .version major minor :: rest =>
    if version ∨ major ≠ 1 ∨ (minor ≠ 1 ∧ minor ≠ 2) then none else directives? true handles rest
  | .tagHandle handle expansion :: rest =>
    if (handles.lookup handle).isSome then none
    else directives? version (handles ++ [(handle, expansion)]) rest
  | rest => some (handles ++ standardHandles, rest)

def isDirective : Token → Bool
  | .version ..   => true
  | .tagHandle .. => true
  | _             => false

-- The tokens after a document end the text.
def endText (tokens : List Token) : Bool :=
  tokens.dropWhile (· = .documentEnd) = [.streamEnd]

-- The events of a document whose directives have been read.
def ofContent (handles : List (String × String)) (tokens : List Token) : Events :=
  match State.run (8 * tokens.length + 8) [] ⟨tokens, handles, [.node true false]⟩ with
  | (events, some rest) => ⟨events.reverse, endText rest⟩
  | (events, none)      => ⟨events.reverse, false⟩

def isContent : Token → Bool
  | .documentStart | .documentEnd | .streamEnd => false
  | token => !isDirective token

-- The events of a text. A text without a document has no events.
def ofText (text : String) : Events :=
  match Token.ofText text with
  | []           => ⟨[], false⟩
  | [.streamEnd] => ⟨[], true⟩
  | tokens@(first :: _) =>
    if first = .documentStart || isDirective first then
      match directives? false [] tokens with
      | some (handles, .documentStart :: rest) =>
        match rest with
        | []         => ⟨[], false⟩
        | token :: _ => if isContent token then ofContent handles rest else ⟨[emptyScalar], endText rest⟩
      | _ => ⟨[], false⟩
    else ofContent standardHandles tokens

end Events
end ApiDescriptors.Yaml
