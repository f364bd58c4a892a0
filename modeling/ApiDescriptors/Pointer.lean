import ApiDescriptors.Json.Basic
import ApiDescriptors.Number.Digits
import ApiDescriptors.Text.Percent
import ApiDescriptors.Text.Split

/-!
Pointers into a document: a list of keys, written `#/a/b`. In a key `~` is written `~0` and `/` is
written `~1`; reading also undoes percent-encoding.
-/

namespace ApiDescriptors

structure Pointer where
  segments : List String
deriving DecidableEq, Repr, Inhabited

namespace Pointer

def root : Pointer := ⟨[]⟩

def child (p : Pointer) (segment : String) : Pointer :=
  ⟨p.segments ++ [segment]⟩

theorem child_inj {p q : Pointer} {segment other : String} :
    p.child segment = q.child other ↔ p = q ∧ segment = other := by
  cases p
  cases q
  simp [child]

def isRoot (p : Pointer) : Bool :=
  p.segments.isEmpty

def last? (p : Pointer) : Option String :=
  p.segments.getLast?

-- Text form

def escape : Char → List Char
  | '~' => ['~', '0']
  | '/' => ['~', '1']
  | c   => [c]

def unescape : List Char → List Char
  | '~' :: '0' :: cs => '~' :: unescape cs
  | '~' :: '1' :: cs => '/' :: unescape cs
  | c :: cs          => c :: unescape cs
  | []               => []

def segmentText (segment : String) : List Char :=
  '/' :: segment.toList.flatMap escape

def text (p : Pointer) : String :=
  String.ofList <| '#' :: p.segments.flatMap segmentText

instance : ToString Pointer := ⟨text⟩

def readSegment (cs : List Char) : String :=
  String.ofList <| unescape <| Percent.decode cs

-- Why a reference is no pointer into the document.
inductive Fault
  -- It names another document, or nothing.
  | outside (reference : String)
  -- What follows `#` does not start with a slash.
  | malformed (reference : String)
deriving DecidableEq, Repr

-- The part of a reference that is a pointer: what follows the first `#`, if nothing stands
-- before it, or a whole reference without `#` that starts with a slash.
def fragment? (reference : List Char) : Option (List Char) :=
  match reference with
  | '#' :: cs => some cs
  | '/' :: _  => if '#' ∈ reference then none else some reference
  | _         => none

-- Reads `#/a/b`, `/a/b` or `#`.
def parse (reference : String) : Except Fault Pointer :=
  match fragment? reference.toList with
  | none             => .error (.outside reference)
  | some []          => .ok root
  | some ('/' :: cs) => .ok ⟨(splitAt '/' cs).map readSegment⟩
  | some _           => .error (.malformed reference)

-- Lookup

-- The position that a segment names in an array: decimal digits, after a plus sign or not.
def position? (segment : String) : Option Nat :=
  match segment.toList with
  | '+' :: cs => Number.ofDigits? 10 cs
  | cs        => Number.ofDigits? 10 cs

-- The value that a segment leads to.
def step? (value : Json) (segment : String) : Option Json :=
  match value with
  | .obj members => members.lookup segment
  | .arr items   => (position? segment).bind fun i => items[i]?
  | _            => none

def lookup? (p : Pointer) (value : Json) : Option Json :=
  p.segments.foldlM step? value

@[simp]
theorem lookup?_root (value : Json) : root.lookup? value = some value :=
  rfl

@[simp]
theorem lookup?_child (p : Pointer) (segment : String) (value : Json) :
    (p.child segment).lookup? value = (p.lookup? value).bind (step? · segment) := by
  simp [lookup?, child]

end Pointer
end ApiDescriptors
