import ApiDescriptors.Pointer

/-!
Types as they are seen where a schema is used. An object is named by its schema and never written
out, so types are finite where schemas refer to themselves.
-/

namespace ApiDescriptors

inductive ScalarType
  | string
  | integer
  | number
  | boolean
deriving DecidableEq, Repr

namespace ScalarType

def key : ScalarType → String
  | string  => "string"
  | integer => "integer"
  | number  => "number"
  | boolean => "boolean"

def ofKey? (key : String) : Option ScalarType :=
  [string, integer, number, boolean].find? (·.key = key)

@[simp]
theorem ofKey?_key (t : ScalarType) : ofKey? t.key = some t := by
  cases t <;> rfl

end ScalarType

inductive FieldType
  | scalar (type : ScalarType) (format : Option String)
  | object (schema : Pointer)
  | array (items : FieldType)
deriving DecidableEq, Repr

namespace FieldType

def object? : FieldType → Option Pointer
  | object schema => some schema
  | _             => none

def scalar? : FieldType → Option ScalarType
  | scalar type _ => some type
  | _             => none

-- The schema of the objects at the core of nested arrays.
def innermost? : FieldType → Option Pointer
  | scalar ..     => none
  | object schema => some schema
  | array items   => items.innermost?

-- Types that are the same but for the formats of their scalars.
def agrees : FieldType → FieldType → Bool
  | scalar type _, scalar other _ => type = other
  | array items,   array others   => items.agrees others
  | type,          other          => type = other

end FieldType
end ApiDescriptors
