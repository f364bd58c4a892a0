import ApiDescriptors.Number.Shortest

/-!
How the digits of a floating-point number are laid out: positional notation with at least one
digit on either side of the point, or scientific notation for the very large and very small.
-/

namespace ApiDescriptors.Number

structure Layout where
  -- Positional notation while the point stands at most this far right of the first digit.
  widest       : Int := 16
  -- Positional notation while at most this many zeros stand between point and first digit.
  leadingZeros : Nat := 4
  -- The sign written before an exponent that is not negative.
  exponentSign : String := ""

namespace Layout

-- Writes the shortest digits of `x`.
def write (layout : Layout) (x : Double) : String :=
  let sign := if x.negative then "-" else ""
  if x.mantissa = 0 then sign ++ "0.0"
  else
    let ⟨digits, exponent⟩ := x.shortest
    let point : Int := digits.length + exponent
    if 0 ≤ exponent ∧ point ≤ layout.widest then
      sign ++ String.ofList (digits ++ List.replicate exponent.toNat '0') ++ ".0"
    else if 0 < point ∧ point ≤ layout.widest then
      sign ++ String.ofList (digits.take point.toNat) ++ "." ++ String.ofList (digits.drop point.toNat)
    else if point ≤ 0 ∧ -layout.leadingZeros ≤ point then
      sign ++ "0." ++ String.ofList (List.replicate (-point).toNat '0' ++ digits)
    else
      let power := point - 1
      let fraction := if digits.length = 1 then [] else '.' :: digits.drop 1
      sign ++ String.ofList (digits.take 1 ++ fraction) ++ "e"
        ++ (if 0 ≤ power then layout.exponentSign else "") ++ decimalInt power

-- Every digit in positional notation, however many zeros that takes.
def writeInFull (x : Double) : String :=
  let sign := if x.negative then "-" else ""
  let ⟨digits, exponent⟩ := x.shortest
  let point : Int := digits.length + exponent
  if x.mantissa = 0 then sign ++ "0.0"
  else if 0 ≤ exponent then
    sign ++ String.ofList (digits ++ List.replicate exponent.toNat '0') ++ ".0"
  else if 0 < point then
    sign ++ String.ofList (digits.take point.toNat) ++ "." ++ String.ofList (digits.drop point.toNat)
  else
    sign ++ "0." ++ String.ofList (List.replicate (-point).toNat '0' ++ digits)

end Layout
end ApiDescriptors.Number
