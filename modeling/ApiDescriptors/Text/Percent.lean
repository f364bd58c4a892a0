import ApiDescriptors.Number.Digits
import ApiDescriptors.Text.Utf8

/-!
Percent-encoding: `%` and two hexadecimal digits stand for a byte. A run of such bytes is read as
UTF-8; characters that stand for themselves are kept.
-/

namespace ApiDescriptors.Percent

-- The byte that `%xy` stands for.
def byte? (x y : Char) : Option Nat := do
  let high ← Number.digitValue? 16 x
  let low  ← Number.digitValue? 16 y
  some (high * 16 + low)

def decode (cs : List Char) : List Char :=
  go [] cs
where
  -- `run` holds the bytes since the last character that stood for itself, last byte first.
  go (run : List Nat) : List Char → List Char
    | '%' :: x :: y :: cs =>
      match byte? x y with
      | some b => go (b :: run) cs
      | none   => Utf8.decode run.reverse ++ '%' :: go [] (x :: y :: cs)
    | c :: cs => Utf8.decode run.reverse ++ c :: go [] cs
    | []      => Utf8.decode run.reverse

end ApiDescriptors.Percent
