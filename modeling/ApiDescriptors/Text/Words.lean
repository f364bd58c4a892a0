import ApiDescriptors.Text.CharacterClass
import ApiDescriptors.Text.LetterCase

/-!
Words of a name, and the two ways to join them again: `snake_case` and `UpperCamelCase`.

A name breaks at every character that is neither a letter nor a digit, between a lower-case
letter and the capital after it (`petId`), and before the last capital of a run that goes on in
lower case (`HTTPServer`).
-/

namespace ApiDescriptors.Words

-- The case of the letters read so far in a word.
inductive Run
  | start
  | lower
  | upper
deriving DecidableEq

def Run.next (run : Run) (c : Char) : Run :=
  if isLowercase c then .lower else if isUppercase c then .upper else run

-- The longest stretches of letters and digits, empty ones included.
def stretches (cs : List Char) : List (List Char) :=
  go [] cs
where
  -- `word` holds the stretch read so far, last character first.
  go (word : List Char) : List Char → List (List Char)
    | []      => [word.reverse]
    | c :: cs => if isAlphanumeric c then go (c :: word) cs else word.reverse :: go [] cs

-- Cuts a stretch of letters and digits at its changes of case.
def cut (stretch : List Char) : List (List Char) :=
  go .start [] stretch
where
  go (run : Run) (word : List Char) : List Char → List (List Char)
    | []              => []
    | [c]             => [(c :: word).reverse]
    | c :: next :: cs =>
      if run.next c = .lower ∧ isUppercase next then
        (c :: word).reverse :: go .start [] (next :: cs)
      else if run = .upper ∧ isUppercase c ∧ isLowercase next then
        word.reverse :: go .start [c] (next :: cs)
      else
        go (run.next c) (c :: word) (next :: cs)

def split (name : String) : List (List Char) :=
  (stretches name.toList).flatMap cut

-- A word in lower case; a sigma that ends the word takes its final form.
def lower : List Char → List Char
  | []      => []
  | ['Σ']   => ['ς']
  | c :: cs => lowerImage c ++ lower cs

def capitalize : List Char → List Char
  | []      => []
  | c :: cs => upperImage c ++ lower cs

end Words

-- The words in lower case, joined by underscores.
def snakeCase (name : String) : String :=
  String.ofList <| List.intercalate ['_'] <| (Words.split name).map Words.lower

-- The capitalized words, joined without a sign.
def upperCamelCase (name : String) : String :=
  String.ofList <| (Words.split name).flatMap Words.capitalize

-- The two ways to join words, for those that make names of them.
structure Casing where
  snake      : String → String := snakeCase
  upperCamel : String → String := upperCamelCase

end ApiDescriptors
