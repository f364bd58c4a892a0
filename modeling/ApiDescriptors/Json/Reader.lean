import ApiDescriptors.Json.Basic
import ApiDescriptors.Number.Reader

/-!
Reading JSON text. The members of an object stay in the order of the text; of two members with
one name the later gives the value, at the place of the earlier.
-/

namespace ApiDescriptors.Json.Reader

def skipBlanks (cs : List Char) : List Char :=
  cs.dropWhile fun c => c = ' ' ∨ c = '\t' ∨ c = '\n' ∨ c = '\r'

-- The code unit of a `\u` escape.
def unit? (a b c d : Char) : Option Nat :=
  Number.ofDigits? 16 [a, b, c, d]

-- The rest of a string after its opening quote.
def string (read : List Char) : List Char → Option (String × List Char)
  | '\x22' :: cs => some (String.ofList read.reverse, cs)
  | '\\' :: 'u' :: a :: b :: c :: d :: '\\' :: 'u' :: a' :: b' :: c' :: d' :: cs =>
    match unit? a b c d, unit? a' b' c' d' with
    | some high, some low =>
      if 0xd800 ≤ high ∧ high < 0xdc00 ∧ 0xdc00 ≤ low ∧ low < 0xe000 then
        string (Char.ofNat (0x10000 + (high - 0xd800) * 0x400 + (low - 0xdc00)) :: read) cs
      else
        string (Char.ofNat high :: read) ('\\' :: 'u' :: a' :: b' :: c' :: d' :: cs)
    | _, _ => none
  | '\\' :: 'u' :: a :: b :: c :: d :: cs => do string (Char.ofNat (← unit? a b c d) :: read) cs
  | '\\' :: 'b' :: cs => string ('\x08' :: read) cs
  | '\\' :: 'f' :: cs => string ('\x0c' :: read) cs
  | '\\' :: 'n' :: cs => string ('\n' :: read) cs
  | '\\' :: 'r' :: cs => string ('\r' :: read) cs
  | '\\' :: 't' :: cs => string ('\t' :: read) cs
  | '\\' :: c :: cs   => if c = '\x22' ∨ c = '\\' ∨ c = '/' then string (c :: read) cs else none
  | c :: cs           => if c.toNat < 0x20 then none else string (c :: read) cs
  | []                => none
termination_by cs => cs.length

-- Whether `c` can stand in a number.
def isNumberPart (c : Char) : Bool :=
  c.isDigit ∨ c = '+' ∨ c = '-' ∨ c = '.' ∨ c = 'e' ∨ c = 'E'

-- The number that a word is for. Whole numbers of 64 bits are kept as they are.
def ofWord? (word : List Char) : Option Json := do
  let fraction ← Number.Fraction.ofText? word
  if word.all fun c => c.isDigit ∨ c = '-' then
    let n : Int := (Number.ofDigits? 10 fraction.whole).getD 0
    let n := if fraction.negative then -n else n
    if -Int.pow 2 63 ≤ n ∧ n < Int.pow 2 64 ∧ word ≠ ['-', '0'] then
      return .int n
  return .double (← fraction.toDouble?)

def number (cs : List Char) : Option (Json × List Char) :=
  (ofWord? (cs.takeWhile isNumberPart)).map fun v => (v, cs.dropWhile isNumberPart)

mutual

-- Reads one value; `fuel` bounds the number of brackets and entries still to be read.
def value (fuel : Nat) (cs : List Char) : Option (Json × List Char) :=
  match fuel with
  | 0        => none
  | fuel + 1 =>
    match skipBlanks cs with
    | 'n' :: 'u' :: 'l' :: 'l' :: cs        => some (.null, cs)
    | 't' :: 'r' :: 'u' :: 'e' :: cs        => some (.bool true, cs)
    | 'f' :: 'a' :: 'l' :: 's' :: 'e' :: cs => some (.bool false, cs)
    | '\x22' :: cs                          => (string [] cs).map fun (text, cs) => (.str text, cs)
    | '[' :: cs                             =>
      match skipBlanks cs with
      | ']' :: cs => some (.arr [], cs)
      | cs        => items fuel [] cs
    | '\x7b' :: cs                          =>
      match skipBlanks cs with
      | '\x7d' :: cs => some (.obj [], cs)
      | cs           => members fuel [] cs
    | cs                                    => number cs

def items (fuel : Nat) (read : List Json) (cs : List Char) : Option (Json × List Char) :=
  match fuel with
  | 0        => none
  | fuel + 1 =>
    match value fuel cs with
    | none            => none
    | some (item, cs) =>
      match skipBlanks cs with
      | ',' :: cs => items fuel (item :: read) cs
      | ']' :: cs => some (.arr (item :: read).reverse, cs)
      | _         => none

def members (fuel : Nat) (read : Members) (cs : List Char) : Option (Json × List Char) :=
  match fuel with
  | 0        => none
  | fuel + 1 =>
    match skipBlanks cs with
    | '\x22' :: cs =>
      match string [] cs with
      | none            => none
      | some (name, cs) =>
        match skipBlanks cs with
        | ':' :: cs =>
          match value fuel cs with
          | none             => none
          | some (entry, cs) =>
            let read := read.insert name entry
            match skipBlanks cs with
            | ',' :: cs    => members fuel read cs
            | '\x7d' :: cs => some (.obj read, cs)
            | _            => none
        | _ => none
    | _ => none

end

end Reader

-- Reads a text that is one JSON value.
def ofText? (text : String) : Option Json :=
  let cs := text.toList
  match Reader.value (2 * cs.length + 2) cs with
  | some (value, rest) => if (Reader.skipBlanks rest).isEmpty then some value else none
  | none               => none

end ApiDescriptors.Json
