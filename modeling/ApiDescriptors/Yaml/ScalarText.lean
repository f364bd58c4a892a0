import ApiDescriptors.Number.Digits
import ApiDescriptors.Yaml.Cursor
import ApiDescriptors.Yaml.Token

/-!
Reading the text of scalars: plain, quoted, and the two block styles. Line ends inside a scalar
are folded: one of them is a space, of several the first is dropped.
-/

namespace ApiDescriptors.Yaml

-- What stands between two words of a scalar.
structure Gap where
  -- A line has ended in the gap, or is taken to have ended.
  folds  : Bool      := false
  blanks : List Char := []
  -- The first line end; none after an escaped one.
  first  : List Char := []
  more   : List Char := []

namespace Gap

def text (g : Gap) : List Char :=
  if !g.folds then g.blanks
  else if g.first = ['\n'] then (if g.more.isEmpty then [' '] else g.more)
  else g.first ++ g.more

-- Reads blanks and line ends. A tab that stands left of column `least` in a line after the first
-- is refused.
def read? (least : Nat) (g : Gap) (c : Cursor) : Option (Gap × Cursor) :=
  go c.limit g c
where
  go : Nat → Gap → Cursor → Option (Gap × Cursor)
    | 0,        g, c => some (g, c)
    | fuel + 1, g, c =>
      match c.head? with
      | none   => some (g, c)
      | some d =>
        if isBlank d then
          if g.folds then
            if d = '\t' ∧ c.column < least then none else go fuel g c.skip
          else go fuel { g with blanks := g.blanks ++ [d] } c.skip
        else if isBreak d then
          let (line, c) := c.readBreak
          if g.folds then go fuel { g with more := g.more ++ line } c
          else go fuel { g with folds := true, blanks := [], first := line } c
        else some (g, c)

end Gap

namespace Plain

def flowEnds : List Char := [',', '[', ']', '\x7b', '\x7d']

-- The next word of a plain scalar. In a flow collection a colon must not touch a bracket.
def word? (inFlow : Bool) : List Char → Option (List Char)
  | []      => some []
  | c :: cs =>
    if isBlank c || isBreak c then some []
    else if inFlow && c = ':' && cs.head?.any (fun d => d = '?' ∨ d ∈ flowEnds) then none
    else if c = ':' && endsWord cs.head? then some []
    else if inFlow && c ∈ flowEnds then some []
    else (word? inFlow cs).map (c :: ·)

-- Reads a plain scalar; lines that continue it are indented to column `least`. Also tells
-- whether the scalar was left at the start of a line.
def read? (inFlow : Bool) (least : Nat) (c : Cursor) : Option (List Char × Bool × Cursor) :=
  go c.limit [] {} c
where
  go : Nat → List Char → Gap → Cursor → Option (List Char × Bool × Cursor)
    | 0,        text, gap, c => some (text, gap.folds, c)
    | fuel + 1, text, gap, c =>
      if c.atDocumentMark || c.head? = some '#' then some (text, gap.folds, c)
      else do
        let word ← word? inFlow c.rest
        let after := c.skip word.length
        let (text, gap) := if word.isEmpty then (text, gap) else (text ++ gap.text ++ word, {})
        if !(after.head?.any isBlank || after.atBreak) then some (text, gap.folds, after)
        else
          let (gap, after) ← gap.read? least after
          if !inFlow && after.column < least then some (text, gap.folds, after)
          else go fuel text gap after

end Plain

namespace Quote

-- The characters that a single letter after a backslash stands for.
def shortEscape? : Char → Option Char
  | '0'    => some '\x00'
  | 'a'    => some '\x07'
  | 'b'    => some '\x08'
  | 't'    => some '\t'
  | '\t'   => some '\t'
  | 'n'    => some '\n'
  | 'v'    => some '\x0b'
  | 'f'    => some '\x0c'
  | 'r'    => some '\r'
  | 'e'    => some '\x1b'
  | ' '    => some ' '
  | '\x22' => some '\x22'
  | '/'    => some '/'
  | '\\'   => some '\\'
  | 'N'    => some '\u0085'
  | '_'    => some '\u00a0'
  | 'L'    => some '\u2028'
  | 'P'    => some '\u2029'
  | _      => none

-- The number of hexadecimal digits after a backslash and this letter.
def codeLength? : Char → Option Nat
  | 'x' => some 2
  | 'u' => some 4
  | 'U' => some 8
  | _   => none

-- The character that the escape after a backslash stands for, and the length of the escape.
def escape? : List Char → Option (Char × Nat)
  | []      => none
  | c :: cs =>
    match shortEscape? c with
    | some d => some (d, 2)
    | none   => do
      let length ← codeLength? c
      let digits := cs.take length
      guard (digits.length = length)
      let code ← Number.ofDigits? 16 digits
      guard (code.isValidChar)
      some (Char.ofNat code, length + 2)

-- The next word of a quoted scalar, and whether it ends with an escaped line end.
def word? (double : Bool) : Nat → List Char → Cursor → Option (List Char × Bool × Cursor)
  | 0,        word, c => some (word.reverse, false, c)
  | fuel + 1, word, c =>
    match c.rest with
    | []        => some (word.reverse, false, c)
    | d :: rest =>
      if isBlank d || isBreak d then some (word.reverse, false, c)
      else if !double && d = '\x27' then
        if rest.head? = some '\x27' then word? double fuel ('\x27' :: word) (c.skip 2)
        else some (word.reverse, false, c)
      else if double && d = '\x22' then some (word.reverse, false, c)
      else if double && d = '\\' then
        if rest.head?.any isBreak then some (word.reverse, true, c.skip.skipBreak)
        else do
          let (e, length) ← escape? rest
          word? double fuel (e :: word) (c.skip length)
      else word? double fuel (d :: word) c.skip

-- Reads the rest of a quoted scalar after its opening quote.
def read? (double : Bool) (c : Cursor) : Option (List Char × Cursor) :=
  go c.limit [] c
where
  go : Nat → List Char → Cursor → Option (List Char × Cursor)
    | 0,        _,    _ => none
    | fuel + 1, text, c => do
      guard (!c.atDocumentMark && !c.atEnd)
      let (word, escaped, c) ← word? double c.limit [] c
      let text := text ++ word
      if c.head? = some (if double then '\x22' else '\x27') then some (text, c.skip)
      else
        let (gap, c) ← Gap.read? 0 { folds := escaped } c
        go fuel (text ++ gap.text) c

end Quote

namespace Block

-- What becomes of the line ends after a block scalar.
inductive Chomping
  | strip
  | clip
  | keep
deriving DecidableEq

structure Header where
  chomping : Chomping   := .clip
  indent   : Option Nat := none

-- Reads the signs after `|` or `>`: chomping and indentation, in either order.
def header? (c : Cursor) : Option (Header × Cursor) := do
  let (chomping, c) := chomping c
  let (indent, c) ← indent? c
  let (chomping, c) :=
    if chomping = .clip ∧ indent.isSome then Block.header?.chomping c else (chomping, c)
  some ({ chomping, indent }, ← c.restOfLine?)
where
  chomping (c : Cursor) : Chomping × Cursor :=
    match c.head? with
    | some '+' => (.keep, c.skip)
    | some '-' => (.strip, c.skip)
    | _        => (.clip, c)
  indent? (c : Cursor) : Option (Option Nat × Cursor) :=
    match c.head? with
    | some d => if d.isDigit then (if d = '0' then none else some (some (d.toNat - '0'.toNat), c.skip))
                else some (none, c)
    | none   => some (none, c)

-- Reads empty lines and the indentation of the next line: the line ends, the greatest column
-- reached, and the place. With `indent` given, no blank right of it is passed over.
def emptyLines? (indent : Option Nat) (c : Cursor) : Option (List Char × Nat × Cursor) :=
  go c.limit [] 0 c
where
  go : Nat → List Char → Nat → Cursor → Option (List Char × Nat × Cursor)
    | 0,        breaks, widest, c => some (breaks, widest, c)
    | fuel + 1, breaks, widest, c => do
      let spaces := (c.rest.takeWhile (· = ' ')).length
      let c := c.skip <| match indent with
        | some n => min spaces (n - c.column)
        | none   => spaces
      let widest := max widest c.column
      guard !(c.head? = some '\t' && indent.all (c.column < ·))
      if c.atBreak then
        let (line, c) := c.readBreak
        go fuel (breaks ++ line) widest c
      else some (breaks, widest, c)

-- Reads a block scalar after its sign; `parent` is the indentation of the collection it is in.
def read? (literal : Bool) (parent : Int) (c : Cursor) : Option (List Char × Cursor) := do
  let (header, c) ← header? c
  let given := header.indent.map fun n => if 0 ≤ parent then parent.toNat + n else n
  let (breaks, widest, c) ← emptyLines? given c
  let indent := given.getD (max widest (max (parent + 1).toNat 1))
  let (text, last, breaks, c) ← lines indent c.limit [] [] breaks false c
  let text := if header.chomping = .strip then text else text ++ last
  some (if header.chomping = .keep then text ++ breaks else text, c)
where
  -- `last` is the end of the line before, `breaks` the empty lines since.
  lines (indent : Nat) :
      Nat → List Char → List Char → List Char → Bool → Cursor →
        Option (List Char × List Char × List Char × Cursor)
    | 0,        text, last, breaks, _,        c => some (text, last, breaks, c)
    | fuel + 1, text, last, breaks, afterBlank, c =>
      if c.column ≠ indent || c.atEnd then some (text, last, breaks, c)
      else do
        let blank := c.head?.any isBlank
        let joint :=
          if !literal && last = ['\n'] && !afterBlank && !blank then
            (if breaks.isEmpty then [' '] else [])
          else last
        let (line, c) := c.takeWhile fun _ => true
        let (last, c) := c.readBreak
        let text := text ++ joint ++ breaks ++ line
        let (breaks, _, c) ← emptyLines? (some indent) c
        lines indent fuel text last breaks blank c

end Block
end ApiDescriptors.Yaml
