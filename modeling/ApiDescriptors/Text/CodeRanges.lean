import ApiDescriptors.Number.Digits

/-!
Sets of characters, as the ranges of code points that a Unicode property lists.
-/

namespace ApiDescriptors

-- A set of characters: ascending, disjoint ranges of code points, both ends included.
structure CodeRanges where
  ranges : List (Nat × Nat)

namespace CodeRanges

def contains (r : CodeRanges) (c : Char) : Bool :=
  go c.toNat r.ranges
where
  -- The ranges ascend, so a range that starts above `n` ends the search.
  go (n : Nat) : List (Nat × Nat) → Bool
    | []                  => false
    | (low, high) :: rest => low ≤ n && (n ≤ high || go n rest)

def hexNumeral (text : String) : Nat :=
  (Number.ofDigits? 16 text.toList).getD 0

-- Reads a table of hexadecimal ranges, such as `30-39 41-5a aa`.
def ofLines (lines : List String) : CodeRanges where
  ranges := (lines.flatMap (·.splitOn " ")).map fun range =>
    match range.splitOn "-" with
    | [low, high] => (hexNumeral low, hexNumeral high)
    | _           => (hexNumeral range, hexNumeral range)

end CodeRanges
end ApiDescriptors
