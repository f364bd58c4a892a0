/-!
Finite binary floating-point numbers of 53 bits, as exact values, and the rounding of a quotient
of natural numbers to the nearest of them.
-/

namespace ApiDescriptors.Number

-- The number `mantissa * 2 ^ exponent`, negated on demand; zero keeps its sign.
structure Double where
  negative : Bool
  mantissa : Nat
  exponent : Int
deriving DecidableEq, Repr

namespace Double

def leastExponent : Int := -1074
def greatestExponent : Int := 971

-- Equal as numbers: the zeros are one number.
def equals (x y : Double) : Bool :=
  (x.mantissa = 0 ∧ y.mantissa = 0) ∨ x = y

-- `n * 2 ^ e` as a quotient.
def scale (n : Nat) (e : Int) : Nat × Nat :=
  if 0 ≤ e then (n * Nat.pow 2 e.toNat, 1) else (n, Nat.pow 2 (-e).toNat)

-- The quotient rounded to a natural number, a tie to the even neighbour.
def roundDiv (num den : Nat) : Nat :=
  let q := num / den
  let r := num % den
  if 2 * r < den then q
  else if den < 2 * r then q + 1
  else q + q % 2

-- The number nearest to `num / den`; none when that is beyond the greatest one.
def ofQuotient? (negative : Bool) (num den : Nat) : Option Double :=
  if num = 0 then some ⟨negative, 0, leastExponent⟩
  else
    -- `num / den` lies between `2 ^ (size - 1)` and `2 ^ (size + 1)`.
    let size : Int := (num.log2 : Int) - den.log2
    let at_ (e : Int) : Nat :=
      if 0 ≤ e then roundDiv num (den * Nat.pow 2 e.toNat)
      else roundDiv (num * Nat.pow 2 (-e).toNat) den
    let fine := max leastExponent (size - 53)
    let e := if at_ fine < Nat.pow 2 53 then fine else fine + 1
    let m := at_ e
    let (m, e) := if m < Nat.pow 2 53 then (m, e) else (m / 2, e + 1)
    if greatestExponent < e then none else some ⟨negative, m, e⟩

end Double
end ApiDescriptors.Number
