/-!
The tokens of YAML text. Indentation shows as tokens of its own: a block collection opens with
`blockSequenceStart` or `blockMappingStart` and closes with `blockEnd`.
-/

namespace ApiDescriptors.Yaml

-- How a scalar is written.
inductive Style
  | plain
  | quoted
  | literal
  | folded
deriving DecidableEq, Repr

inductive Token
  | streamEnd
  | version (major minor : Nat)
  | tagHandle (handle expansion : String)
  | documentStart
  | documentEnd
  | blockSequenceStart
  | blockMappingStart
  | blockEnd
  | flowSequenceStart
  | flowSequenceEnd
  | flowMappingStart
  | flowMappingEnd
  | blockEntry
  | flowEntry
  | key
  | value
  | aliasOf (name : String)
  | anchor (name : String)
  | tag (handle suffix : String)
  | scalar (text : String) (style : Style)
deriving DecidableEq, Repr

end ApiDescriptors.Yaml
