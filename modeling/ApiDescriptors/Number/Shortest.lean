import ApiDescriptors.Number.Double
import ApiDescriptors.Number.Digits

/-!
The shortest decimal that reads back as a given floating-point number. For one digit, two digits
and so on, the two neighbours of the number on the decimal grid are tried; the first grid with a
neighbour inside the rounding interval wins, and of two such neighbours the nearer one.
-/

namespace ApiDescriptors.Number

-- `digits` as a numeral, times `10 ^ exponent`; the numeral has no zero at its end.
structure Decimal where
  digits   : List Char
  exponent : Int

namespace Decimal

-- `n * 10 ^ e ≤ num / den`.
def atMost (n : Nat) (e : Int) (num den : Nat) : Bool :=
  if 0 ≤ e then n * Nat.pow 10 e.toNat * den ≤ num else n * den ≤ num * Nat.pow 10 (-e).toNat

-- The quotient of `num / den` and `10 ^ e`, rounded down.
def quotient (num den : Nat) (e : Int) : Nat :=
  if 0 ≤ e then num / (den * Nat.pow 10 e.toNat) else num * Nat.pow 10 (-e).toNat / den

-- The exponent of the leading decimal digit of `num / den`.
def leadingExponent (num den : Nat) : Int :=
  -- An estimate from the binary sizes that is never too small, and too great by one at most.
  let estimate : Int := (((num.log2 : Int) - den.log2 + 1) * 30103) / 100000 + 1
  if atMost 1 estimate num den then estimate
  else if atMost 1 (estimate - 1) num den then estimate - 1
  else estimate - 2

end Decimal

namespace Double

-- The real numbers that round to `x` (sign apart), scaled by a common denominator: lower end,
-- value, upper end and denominator, and whether the ends belong to the interval.
def interval (x : Double) : Nat × Nat × Nat × Nat × Bool :=
  let m := x.mantissa
  -- Below a power of two the grid is twice as fine.
  let finer := m = Nat.pow 2 52 ∧ leastExponent < x.exponent
  let below := if finer then 4 * m - 1 else 4 * m - 2
  let (unit, den) := scale 1 (x.exponent - 2)
  (below * unit, 4 * m * unit, (4 * m + 2) * unit, den, m % 2 = 0)

-- The shortest digits of the absolute value of `x`.
def shortest (x : Double) : Decimal :=
  if x.mantissa = 0 then ⟨['0'], 0⟩
  else
    let (low, value, high, den, closed) := x.interval
    let lead := Decimal.leadingExponent value den
    let inside (n : Nat) (e : Int) : Bool :=
      let (num, scaleDen) :=
        if 0 ≤ e then (n * Nat.pow 10 e.toNat * den, 1) else (n * den, Nat.pow 10 (-e).toNat)
      if closed then low * scaleDen ≤ num && num ≤ high * scaleDen
      else low * scaleDen < num && num < high * scaleDen
    -- Twice the distance of `n * 10 ^ e` from the value decides between the two neighbours.
    let lowerIsNearer (n : Nat) (e : Int) : Bool :=
      let (mid, scaleDen) :=
        if 0 ≤ e then ((2 * n + 1) * Nat.pow 10 e.toNat * den, 1)
        else ((2 * n + 1) * den, Nat.pow 10 (-e).toNat)
      if 2 * value * scaleDen = mid then n % 2 = 0 else 2 * value * scaleDen < mid
    let onGrid? (count : Nat) : Option (Nat × Int) :=
      let e := lead - count + 1
      let n := Decimal.quotient value den e
      match inside n e, inside (n + 1) e with
      | true,  true  => some (if lowerIsNearer n e then n else n + 1, e)
      | true,  false => some (n, e)
      | false, true  => some (n + 1, e)
      | false, false => none
    match (List.range 17).findSome? (onGrid? <| · + 1) with
    | some (n, e) =>
      let word  := toDigits 10 n
      let kept  := (word.reverse.dropWhile (· = '0')).reverse
      ⟨kept, e + (word.length - kept.length : Nat)⟩
    | none => ⟨['0'], 0⟩

end Double
end ApiDescriptors.Number
