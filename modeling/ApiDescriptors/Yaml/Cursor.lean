/-!
A place in YAML text: what is still to be read, and how far reading has come.
-/

namespace ApiDescriptors.Yaml

-- Ends a line: carriage return, line feed, next line, line separator, paragraph separator.
def isBreak (c : Char) : Bool :=
  c = '\r' ∨ c = '\n' ∨ c = '\u0085' ∨ c = '\u2028' ∨ c = '\u2029'

def isBlank (c : Char) : Bool :=
  c = ' ' ∨ c = '\t'

-- Nothing of a word follows: a blank, the end of a line or the end of the text.
def endsWord : Option Char → Bool
  | none   => true
  | some c => isBlank c || isBreak c

-- Names of anchors, directives and tag handles are made of these.
def isNameChar (c : Char) : Bool :=
  c.isAlphanum ∨ c = '_' ∨ c = '-'

-- Characters that YAML text may hold.
def isAllowed (c : Char) : Bool :=
  let n := c.toNat
  n = 0x09 ∨ n = 0x0a ∨ n = 0x0d ∨ (0x20 ≤ n ∧ n ≤ 0x7e) ∨ n = 0x85 ∨ (0xa0 ≤ n ∧ n ≤ 0xfffd) ∨ 0x10000 ≤ n

structure Cursor where
  rest   : List Char
  -- More than the characters of the whole text; no loop over them runs more often.
  limit  : Nat
  index  : Nat := 0
  line   : Nat := 0
  column : Nat := 0

namespace Cursor

def head? (c : Cursor) : Option Char :=
  c.rest.head?

-- The character `n` places ahead.
def ahead? (c : Cursor) (n : Nat) : Option Char :=
  c.rest[n]?

def atEnd (c : Cursor) : Bool :=
  c.rest.isEmpty

def atBreak (c : Cursor) : Bool :=
  c.head?.any isBreak

def atWordEnd (c : Cursor) : Bool :=
  endsWord c.head?

-- Passes over `n` characters of a line.
def skip (c : Cursor) (n : Nat := 1) : Cursor :=
  { c with rest := c.rest.drop n, index := c.index + n, column := c.column + n }

-- The longest run of characters in `p`, none of which ends a line.
def takeWhile (c : Cursor) (p : Char → Bool) : List Char × Cursor :=
  let word := c.rest.takeWhile fun d => p d && !isBreak d
  (word, c.skip word.length)

def skipWhile (c : Cursor) (p : Char → Bool) : Cursor :=
  (c.takeWhile p).2

def skipToLineEnd (c : Cursor) : Cursor :=
  c.skipWhile fun _ => true

-- Reads the end of a line. All forms count as a line feed but the two Unicode separators, which
-- stand for themselves.
def readBreak (c : Cursor) : List Char × Cursor :=
  match c.rest with
  | '\r' :: '\n' :: rest => (['\n'], { c with rest, index := c.index + 2, line := c.line + 1, column := 0 })
  | d :: rest            =>
    if isBreak d then
      ([if d = '\u2028' ∨ d = '\u2029' then d else '\n'],
        { c with rest, index := c.index + 1, line := c.line + 1, column := 0 })
    else ([], c)
  | []                   => ([], c)

def skipBreak (c : Cursor) : Cursor :=
  c.readBreak.2

-- A line starts here with `mark` as a word of its own.
def atMark (c : Cursor) (mark : List Char) : Bool :=
  c.column = 0 && mark.isPrefixOf c.rest && endsWord (c.ahead? mark.length)

-- The marks between documents.
def atDocumentMark (c : Cursor) : Bool :=
  c.atMark ['-', '-', '-'] || c.atMark ['.', '.', '.']

-- The end of a line that may hold nothing more than a comment.
def restOfLine? (c : Cursor) : Option Cursor :=
  let c := c.skipWhile isBlank
  let c := if c.head? = some '#' then c.skipToLineEnd else c
  if c.atEnd ∨ c.atBreak then some c.skipBreak else none

end Cursor
end ApiDescriptors.Yaml
