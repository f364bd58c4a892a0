/-!
Reading bytes as UTF-8. A sequence that is broken off or out of range is replaced by U+FFFD, one
replacement for the longest part that could still have begun a character.
-/

namespace ApiDescriptors.Utf8

def replacement : Char := '\ufffd'

-- What a leading byte announces: the bits it contributes, how many bytes follow, and the range
-- of the first of those. Later ones range over `0x80` to `0xbf`.
def lead? (b : Nat) : Option (Nat × Nat × Nat × Nat) :=
  if 0xc2 ≤ b ∧ b ≤ 0xdf then some (b - 0xc0, 1, 0x80, 0xbf)
  else if b = 0xe0       then some (0,        2, 0xa0, 0xbf)
  else if b = 0xed       then some (0xd,      2, 0x80, 0x9f)
  else if 0xe1 ≤ b ∧ b ≤ 0xef then some (b - 0xe0, 2, 0x80, 0xbf)
  else if b = 0xf0       then some (0,        3, 0x90, 0xbf)
  else if 0xf1 ≤ b ∧ b ≤ 0xf3 then some (b - 0xf0, 3, 0x80, 0xbf)
  else if b = 0xf4       then some (4,        3, 0x80, 0x8f)
  else none

-- A character whose leading bytes gave `code`, with `missing` bytes to come.
structure Opened where
  code    : Nat
  missing : Nat
  low     : Nat
  high    : Nat

def decode (bytes : List Nat) : List Char :=
  go none bytes
where
  go : Option Opened → List Nat → List Char
    | none,   []      => []
    | some _, []      => [replacement]
    | none,   b :: bs => start b (go · bs)
    | some p, b :: bs =>
      if p.low ≤ b ∧ b ≤ p.high then
        let code := p.code * 64 + (b - 0x80)
        if p.missing ≤ 1 then Char.ofNat code :: go none bs
        else go (some ⟨code, p.missing - 1, 0x80, 0xbf⟩) bs
      else
        replacement :: start b (go · bs)
  start (b : Nat) (rest : Option Opened → List Char) : List Char :=
    if b < 0x80 then Char.ofNat b :: rest none
    else match lead? b with
      | some (code, missing, low, high) => rest (some ⟨code, missing, low, high⟩)
      | none                            => replacement :: rest none

end ApiDescriptors.Utf8
