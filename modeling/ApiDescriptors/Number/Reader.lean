import ApiDescriptors.Number.Double
import ApiDescriptors.Number.Digits

/-!
Reading a decimal fraction such as `-1.5e3`: the floating-point number nearest to it.
-/

namespace ApiDescriptors.Number

-- The parts of a decimal fraction: `(whole fraction) * 10 ^ (exponent - fraction.length)`.
structure Fraction where
  negative : Bool
  whole    : List Char
  fraction : List Char
  exponent : Int

namespace Fraction

def exponentOf? : List Char → Option Int
  | '-' :: ds => (ofDigits? 10 ds).map fun n => -(n : Int)
  | '+' :: ds => (ofDigits? 10 ds).map fun n => (n : Int)
  | ds        => (ofDigits? 10 ds).map fun n => (n : Int)

-- Reads digits with a point, and an exponent. One digit must stand before or after the point; the
-- exponent may be missing.
def ofUnsigned? (negative : Bool) (text : List Char) : Option Fraction := do
  let whole := text.takeWhile Char.isDigit
  let text  := text.dropWhile Char.isDigit
  let (fraction, text) := match text with
    | '.' :: cs => (cs.takeWhile Char.isDigit, cs.dropWhile Char.isDigit)
    | cs        => ([], cs)
  guard !(whole.isEmpty && fraction.isEmpty)
  let exponent ← match text with
    | []        => some 0
    | 'e' :: cs => exponentOf? cs
    | 'E' :: cs => exponentOf? cs
    | _         => none
  some ⟨negative, whole, fraction, exponent⟩

-- Reads a decimal fraction, with a sign or without one.
def ofText? : List Char → Option Fraction
  | '-' :: cs => ofUnsigned? true cs
  | '+' :: cs => ofUnsigned? false cs
  | cs        => ofUnsigned? false cs

-- The nearest floating-point number; none beyond the greatest one.
def toDouble? (f : Fraction) : Option Double :=
  let n := (ofDigits? 10 (f.whole ++ f.fraction)).getD 0
  let e := f.exponent - f.fraction.length
  let size : Int := (toDigits 10 n).length + e
  if n = 0 then some ⟨f.negative, 0, Double.leastExponent⟩
  -- Far outside the range the powers of ten need not be written out.
  else if 400 < size then none
  else if size < -400 then some ⟨f.negative, 0, Double.leastExponent⟩
  else if 0 ≤ e then Double.ofQuotient? f.negative (n * Nat.pow 10 e.toNat) 1
  else Double.ofQuotient? f.negative n (Nat.pow 10 (-e).toNat)

end Fraction
end ApiDescriptors.Number
