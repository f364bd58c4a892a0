import ApiDescriptors.Error

/-!
Path templates, such as `/pets/{petId}/photos`: literal text and placeholders. A placeholder is a
nonempty name between braces that holds no brace and no slash; other braces are literal text.
-/

namespace ApiDescriptors.Template

inductive Part
  | literal (text : String)
  | placeholder (name : String)
deriving DecidableEq, Repr

def isNameChar (c : Char) : Bool :=
  c ≠ '\x7b' && c ≠ '\x7d' && c ≠ '/'

-- The name of a placeholder whose opening brace was read, and the text after it.
def name? (cs : List Char) : Option (List Char × List Char) :=
  match cs.takeWhile isNameChar, cs.dropWhile isNameChar with
  | [],          _              => none
  | name@(_ :: _), '\x7d' :: rest => some (name, rest)
  | _,           _              => none

def literal (word : List Char) : List Part :=
  if word.isEmpty then [] else [.literal (String.ofList word.reverse)]

-- Cuts a template. `word` is the literal text read so far, last character first.
def cut (word : List Char) : List Char → List Part
  | []      => literal word
  | c :: cs =>
    if c = '\x7b' then
      match _h : name? cs with
      | some (name, rest) => literal word ++ .placeholder (String.ofList name) :: cut [] rest
      | none              => cut (c :: word) cs
    else cut (c :: word) cs
termination_by cs => cs.length
decreasing_by
  all_goals simp_wf
  have shorter : (cs.dropWhile isNameChar).length ≤ cs.length :=
    (List.dropWhile_sublist isNameChar).length_le
  unfold name? at _h
  split at _h <;> simp_all
  omega

def placeholders (parts : List Part) : List String :=
  parts.filterMap fun
    | .placeholder name => some name
    | .literal _        => none

-- The first name that stands in a list for the second time.
def repeated? : List String → List String → Option String
  | _,    []            => none
  | seen, name :: names => if name ∈ seen then some name else repeated? (name :: seen) names

-- Reads a template, which may name a placeholder once only.
def parse (path : String) : Result (List Part) :=
  let parts := cut [] path.toList
  match repeated? [] (placeholders parts) with
  | some name => .error (.repeatedPlaceholder path name)
  | none      => .ok parts

end ApiDescriptors.Template
