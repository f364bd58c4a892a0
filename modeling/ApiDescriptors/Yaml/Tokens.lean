import ApiDescriptors.Text.Utf8
import ApiDescriptors.Yaml.ScalarText

/-!
Cutting YAML text into tokens.

A key of a mapping is recognised only at the colon after it, so a token that may turn out to be
the start of a key is held back until that is decided. Of a faulty text the tokens remain that were
let go before the fault; the tokens of any other text end with `streamEnd`.
-/

namespace ApiDescriptors.Yaml

-- A place where a key without a question mark may have begun.
structure OpenKey where
  -- The key starts a line of a block mapping, so a colon has to follow.
  required : Bool
  -- The number of tokens before the key.
  number   : Nat
  index    : Nat
  line     : Nat
  column   : Nat

structure Scan where
  cursor     : Cursor
  -- The indentation of the innermost block collection; negative outside of all.
  indent     : Int            := -1
  outer      : List Int       := []
  -- An open key for each level of flow collections, innermost first.
  keys       : List (Option OpenKey) := [none]
  keyAllowed : Bool           := true
  -- The tokens let go, last one first, and their number.
  released   : List Token     := []
  count      : Nat            := 0
  held       : List Token     := []

namespace Scan

def inFlow (s : Scan) : Bool :=
  1 < s.keys.length

def push (s : Scan) (t : Token) : Scan :=
  { s with held := s.held ++ [t] }

-- Puts a token before the one with the given number.
def insertAt (s : Scan) (number : Nat) (t : Token) : Scan :=
  let n := number - s.count
  { s with held := s.held.take n ++ t :: s.held.drop n }

def allowKey (s : Scan) (allowed : Bool) : Scan :=
  { s with keyAllowed := allowed }

-- A key lies on one line and within 1024 characters. One that does not is no key any more.
def dropStaleKeys? (s : Scan) : Option Scan := do
  let keys ← s.keys.mapM fun
    | none     => some none
    | some key =>
      if key.line < s.cursor.line ∨ key.index + 1024 < s.cursor.index then
        if key.required then none else some none
      else some (some key)
  some { s with keys }

-- Gives up the open key of the innermost level.
def dropKey? (s : Scan) : Option Scan :=
  match s.keys with
  | some key :: keys => if key.required then none else some { s with keys := none :: keys }
  | _                => some s

-- Opens a key at this place where one may stand.
def openKey? (s : Scan) : Option Scan := do
  if !s.keyAllowed then some s
  else
    let c := s.cursor
    let key : OpenKey := {
      required := !s.inFlow && s.indent = c.column
      number   := s.count + s.held.length
      index    := c.index
      line     := c.line
      column   := c.column
    }
    let s ← s.dropKey?
    some { s with keys := some key :: s.keys.drop 1 }

-- Opens a block collection when the place is right of the current indentation.
def indentTo (s : Scan) (column : Nat) (opening : Token) (number : Option Nat := none) : Scan :=
  if s.inFlow ∨ column ≤ s.indent then s
  else
    let s := { s with indent := column, outer := s.indent :: s.outer }
    match number with
    | some n => s.insertAt n opening
    | none   => s.push opening

-- Closes the block collections that are indented further than `column`.
def unindentTo (s : Scan) (column : Int) : Scan :=
  if s.inFlow then s else go s.outer s
where
  go : List Int → Scan → Scan
    | [],             s => s
    | outer :: rest,  s =>
      if s.indent ≤ column then s
      else go rest { s with indent := outer, outer := rest, held := s.held ++ [.blockEnd] }

-- Passes over blanks, comments and line ends.
def skipToToken (s : Scan) : Scan :=
  go s.cursor.limit s
where
  go : Nat → Scan → Scan
    | 0,        s => s
    | fuel + 1, s =>
      let c := s.cursor
      let c := if c.index = 0 ∧ c.head? = some '\ufeff' then c.skip else c
      let c := c.skipWhile fun d => d = ' ' || (d = '\t' && (s.inFlow || !s.keyAllowed))
      let c := if c.head? = some '#' then c.skipToLineEnd else c
      if c.atBreak then go fuel { s with cursor := c.skipBreak, keyAllowed := s.keyAllowed || !s.inFlow }
      else { s with cursor := c }

-- Reads one sign as a token.
def sign (s : Scan) (t : Token) (length : Nat := 1) : Scan :=
  { s with cursor := s.cursor.skip length }.push t

def flowStart? (s : Scan) (t : Token) : Option Scan := do
  let s ← s.openKey?
  some ({ s with keys := none :: s.keys, keyAllowed := true }.sign t)

def flowEnd? (s : Scan) (t : Token) : Option Scan := do
  let s ← s.dropKey?
  let keys := if s.inFlow then s.keys.drop 1 else s.keys
  some ({ s with keys, keyAllowed := false }.sign t)

def flowEntry? (s : Scan) : Option Scan := do
  some ((← s.dropKey?).allowKey true |>.sign .flowEntry)

def blockEntry? (s : Scan) : Option Scan := do
  guard (s.inFlow || s.keyAllowed)
  let s := s.indentTo s.cursor.column .blockSequenceStart
  some ((← s.dropKey?).allowKey true |>.sign .blockEntry)

def key? (s : Scan) : Option Scan := do
  guard (s.inFlow || s.keyAllowed)
  let s := s.indentTo s.cursor.column .blockMappingStart
  some ((← s.dropKey?).allowKey (!s.inFlow) |>.sign .key)

def value? (s : Scan) : Option Scan :=
  match s.keys with
  | some key :: keys =>
    let s := s.insertAt key.number .key
    let s := s.indentTo key.column .blockMappingStart key.number
    some ({ s with keys := none :: keys, keyAllowed := false }.sign .value)
  | _ => do
    guard (s.inFlow || s.keyAllowed)
    let s := s.indentTo s.cursor.column .blockMappingStart
    some (s.allowKey (!s.inFlow) |>.sign .value)

-- Ends every block collection, at a directive, a document mark or the end of the text.
def closeAll? (s : Scan) : Option Scan := do
  some ((← (s.unindentTo (-1)).dropKey?).allowKey false)

-- Reads the name after `*` or `&`.
def name? (s : Scan) (token : String → Token) : Option Scan := do
  let s := (← s.openKey?).allowKey false
  let (name, c) := s.cursor.skip.takeWhile isNameChar
  guard !name.isEmpty
  guard (endsWord c.head? || c.head?.any fun d => d ∈ ['?', ':', ',', ']', '\x7d', '%', '@', '\x60'])
  some ({ s with cursor := c }.push (token (String.ofList name)))

-- Characters of a tag beside those of names; the last three stand in verbatim tags and in
-- directives only.
def isTagChar (verbatim : Bool) (c : Char) : Bool :=
  isNameChar c || c ∈ [';', '/', '?', ':', '@', '&', '=', '+', '$', '.', '%', '!', '~', '*', '\x27', '(', ')']
    || (verbatim && c ∈ [',', '[', ']'])

-- Reads the characters of a tag. Percent-encoded bytes have to form whole sequences.
def tagText? (verbatim : Bool) (c : Cursor) : Option (List Char × Cursor) := do
  let (word, c) := c.takeWhile (isTagChar verbatim)
  some (← decode word.length word [] 0, c)
where
  flush (bytes : List Nat) : List Char := Utf8.decode bytes.reverse
  -- `bytes` holds a sequence that is still `missing` some bytes.
  decode : Nat → List Char → List Nat → Nat → Option (List Char)
    | 0,        [],                  _,     missing => if missing = 0 then some [] else none
    | fuel + 1, '%' :: x :: y :: cs, bytes, missing => do
      let b := (← Number.ofDigits? 16 [x]) * 16 + (← Number.ofDigits? 16 [y])
      if missing = 0 then
        let missing ←
          if b < 0x80 then some 0
          else if 0xc0 ≤ b ∧ b < 0xe0 then some 1
          else if 0xe0 ≤ b ∧ b < 0xf0 then some 2
          else if 0xf0 ≤ b ∧ b < 0xf8 then some 3
          else none
        if missing = 0 then (flush [b] ++ ·) <$> decode fuel cs [] 0
        else decode fuel cs [b] missing
      else
        guard (0x80 ≤ b ∧ b < 0xc0)
        if missing = 1 then (flush (b :: bytes) ++ ·) <$> decode fuel cs [] 0
        else decode fuel cs (b :: bytes) (missing - 1)
    | fuel + 1, c :: cs,             _,     missing =>
      if missing = 0 ∧ c ≠ '%' then (c :: ·) <$> decode fuel cs [] 0 else none
    | _,        [],                  _,     missing => if missing = 0 then some [] else none
    | 0,        _ :: _,              _,     _       => none

-- Reads a tag handle: `!`, or a name between two exclamation marks. Outside of directives the
-- second mark may be missing; the text is then the start of a suffix.
def handle? (directive : Bool) (c : Cursor) : Option (List Char × Cursor) := do
  guard (c.head? = some '!')
  let (name, c) := c.skip.takeWhile isNameChar
  let handle := '!' :: name
  if c.head? = some '!' then some (handle ++ ['!'], c.skip)
  else if directive && handle ≠ ['!'] then none
  else some (handle, c)

def tag? (s : Scan) : Option Scan := do
  let s := (← s.openKey?).allowKey false
  let (handle, suffix, c) ←
    if s.cursor.ahead? 1 = some '<' then do
      let (text, c) ← tagText? true (s.cursor.skip 2)
      guard (!text.isEmpty && c.head? = some '>')
      some ([], text, c.skip)
    else do
      let (handle, c) ← handle? false s.cursor
      let (text, c) ← tagText? false c
      if 1 < handle.length && handle.getLast? = some '!' then
        guard !text.isEmpty
        some (handle, text, c)
      else
        let suffix := handle.drop 1 ++ text
        some (if suffix.isEmpty then ([], ['!'], c) else (['!'], suffix, c))
  guard (c.atWordEnd || (s.inFlow && c.head? = some ','))
  some ({ s with cursor := c }.push (.tag (String.ofList handle) (String.ofList suffix)))

def versionNumber? (c : Cursor) : Option (Nat × Cursor) := do
  let (digits, c) := c.takeWhile Char.isDigit
  guard (digits.length ≤ 9)
  some (← Number.ofDigits? 10 digits, c)

def directive? (s : Scan) : Option Scan := do
  let s ← s.closeAll?
  let (name, c) := s.cursor.skip.takeWhile isNameChar
  guard c.atWordEnd
  let c := c.skipWhile isBlank
  let (token, c) ←
    if name = ['Y', 'A', 'M', 'L'] then do
      let (major, c) ← versionNumber? c
      guard (c.head? = some '.')
      let (minor, c) ← versionNumber? c.skip
      some (Token.version major minor, c)
    else if name = ['T', 'A', 'G'] then do
      let (handle, c) ← handle? true c
      guard (c.head?.any isBlank)
      let (text, c) ← tagText? true (c.skipWhile isBlank)
      guard (!text.isEmpty && c.atWordEnd)
      some (Token.tagHandle (String.ofList handle) (String.ofList text), c)
    else none
  some ({ s with cursor := ← c.restOfLine? }.push token)

def documentMark? (s : Scan) (t : Token) : Option Scan := do
  some ((← s.closeAll?).sign t 3)

def blockScalar? (s : Scan) (style : Style) : Option Scan := do
  let s := (← s.dropKey?).allowKey true
  let (text, c) ← Block.read? (style = .literal) s.indent s.cursor.skip
  some ({ s with cursor := c }.push (.scalar (String.ofList text) style))

def quotedScalar? (s : Scan) (double : Bool) : Option Scan := do
  let s := (← s.openKey?).allowKey false
  let (text, c) ← Quote.read? double s.cursor.skip
  some ({ s with cursor := c }.push (.scalar (String.ofList text) .quoted))

def plainScalar? (s : Scan) : Option Scan := do
  let s := (← s.openKey?).allowKey false
  let (text, atLineStart, c) ← Plain.read? s.inFlow (s.indent + 1).toNat s.cursor
  some ({ s with cursor := c, keyAllowed := atLineStart }.push (.scalar (String.ofList text) .plain))

def indicators : List Char :=
  ['-', '?', ':', ',', '[', ']', '\x7b', '\x7d', '#', '&', '*', '!', '|', '>', '\x27', '\x22', '%', '@', '\x60']

-- A plain scalar may begin with `c` when `next` follows.
def beginsPlain (inFlow : Bool) (c : Char) (next : Option Char) : Bool :=
  !(isBlank c || isBreak c || c ∈ indicators)
    || (c = '-' && !next.any isBlank)
    || (!inFlow && (c = '?' || c = ':') && !endsWord next)

-- Reads the next token, and with it the block collections that end before it.
def next? (s : Scan) : Option Scan := do
  let s ← s.skipToToken.dropStaleKeys?
  let s := s.unindentTo s.cursor.column
  let c := s.cursor
  let wordEnds := endsWord (c.ahead? 1)
  match c.head? with
  | none   =>
    let c := if c.column = 0 then c else { c with column := 0, line := c.line + 1 }
    some ((← { s with cursor := c }.closeAll?).push .streamEnd)
  | some d =>
    if c.column = 0 ∧ d = '%' then s.directive?
    else if c.atMark ['-', '-', '-'] then s.documentMark? .documentStart
    else if c.atMark ['.', '.', '.'] then s.documentMark? .documentEnd
    else if d = '[' then s.flowStart? .flowSequenceStart
    else if d = '\x7b' then s.flowStart? .flowMappingStart
    else if d = ']' then s.flowEnd? .flowSequenceEnd
    else if d = '\x7d' then s.flowEnd? .flowMappingEnd
    else if d = ',' then s.flowEntry?
    else if d = '-' ∧ wordEnds then s.blockEntry?
    else if d = '?' ∧ (s.inFlow ∨ wordEnds) then s.key?
    else if d = ':' ∧ (s.inFlow ∨ wordEnds) then s.value?
    else if d = '*' then s.name? .aliasOf
    else if d = '&' then s.name? .anchor
    else if d = '!' then s.tag?
    else if d = '|' ∧ !s.inFlow then s.blockScalar? .literal
    else if d = '>' ∧ !s.inFlow then s.blockScalar? .folded
    else if d = '\x27' then s.quotedScalar? false
    else if d = '\x22' then s.quotedScalar? true
    else if beginsPlain s.inFlow d (c.ahead? 1) then s.plainScalar?
    else none

-- Lets go of the tokens before the first open key.
def release (s : Scan) : Scan :=
  let n := match (s.keys.filterMap fun key => key.map (·.number)).min? with
    | some number => number - s.count
    | none        => s.held.length
  { s with
    released := (s.held.take n).reverse ++ s.released
    count    := s.count + (s.held.take n).length
    held     := s.held.drop n }

def run : Nat → Scan → List Token
  | 0,        s => s.released.reverse
  | fuel + 1, s =>
    match s.next? with
    | none      => s.released.reverse
    | some next =>
      match next.dropStaleKeys? with
      | none      => s.released.reverse
      | some next =>
        let next := next.release
        if next.released.head? = some .streamEnd then next.released.reverse else run fuel next

end Scan

-- Cuts a text into tokens. A text with a character that is not allowed has none.
def Token.ofText (text : String) : List Token :=
  let cs := text.toList
  let limit := cs.length + 2
  if cs.all isAllowed then Scan.run limit { cursor := { rest := cs, limit } } else []

end ApiDescriptors.Yaml
