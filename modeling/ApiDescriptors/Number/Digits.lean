/-!
Numerals: the value of a word of digits in a given radix, and the word for a value.
-/

namespace ApiDescriptors.Number

-- The value of `c` as a digit; letters of either case follow the decimal digits.
def digitValue? (radix : Nat) (c : Char) : Option Nat :=
  let value? :=
    if c.isDigit then some (c.toNat - '0'.toNat)
    else if 'a' ≤ c ∧ c ≤ 'z' then some (c.toNat - 'a'.toNat + 10)
    else if 'A' ≤ c ∧ c ≤ 'Z' then some (c.toNat - 'A'.toNat + 10)
    else none
  value?.filter (· < radix)

-- Reads a nonempty word of digits.
def ofDigits? (radix : Nat) : List Char → Option Nat
  | []          => none
  | word@(_ :: _) => word.foldlM (fun n c => (n * radix + ·) <$> digitValue? radix c) 0

def digitChar (d : Nat) : Char :=
  if d < 10 then Char.ofNat ('0'.toNat + d) else Char.ofNat ('a'.toNat + (d - 10))

-- The digits of `n`, without leading zeros.
def toDigits (radix n : Nat) : List Char :=
  go (n + 1) n []
where
  go : Nat → Nat → List Char → List Char
    | 0,        _, word => word
    | fuel + 1, n, word =>
      let word := digitChar (n % radix) :: word
      if n / radix = 0 then word else go fuel (n / radix) word

-- Decimal text of a natural number.
def decimal (n : Nat) : String :=
  String.ofList (toDigits 10 n)

-- Decimal text of an integer.
def decimalInt (n : Int) : String :=
  if n < 0 then "-" ++ decimal n.natAbs else decimal n.natAbs

end ApiDescriptors.Number
