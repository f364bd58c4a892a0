import ApiDescriptors.Text.Words

/-!
Identifiers: nonempty words of ASCII letters, digits and underscores that start with no digit and
are not reserved.
-/

namespace ApiDescriptors

structure Identifiers where
  reserved : List String
  casing   : Casing := {}

namespace Identifiers

-- Words that no generated name may be.
def builtinReserved : List String := [
  "False", "None", "True", "and", "as", "assert", "async", "await", "break", "class",
  "continue", "def", "del", "elif", "else", "except", "finally", "for", "from", "global", "if",
  "import", "in", "is", "lambda", "nonlocal", "not", "or", "pass", "raise", "return", "self",
  "try", "while", "with", "yield"
]

-- The built-in reserved words and some more.
def reserving (words : List String) : Identifiers where
  reserved := builtinReserved ++ words

def isIdentifierChar (c : Char) : Bool :=
  c.isAlphanum || c = '_'

-- Replaces what may not stand in an identifier, and puts an underscore before a leading digit.
def normalize (candidate : List Char) : List Char :=
  match candidate.map fun c => if isIdentifierChar c then c else '_' with
  | []      => ['_']
  | c :: cs => if c.isDigit then '_' :: c :: cs else c :: cs

-- The identifier nearest to a word; a reserved word gets an underscore at its end.
def sanitize (ids : Identifiers) (candidate : String) : String :=
  let word := String.ofList (normalize candidate.toList)
  if word ∈ ids.reserved then word.push '_' else word

-- The identifier of an attribute, a parameter or a function.
def snake (ids : Identifiers) (name : String) : String :=
  ids.sanitize (ids.casing.snake name)

-- The name of a class, ending with `suffix`.
def className (ids : Identifiers) (name suffix : String) : String :=
  ids.sanitize (ids.casing.upperCamel name ++ suffix)

end Identifiers
end ApiDescriptors
