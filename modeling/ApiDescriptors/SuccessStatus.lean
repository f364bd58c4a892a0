import ApiDescriptors.Number.Digits

/-!
Which response of an operation tells what the operation returns: `200` where it is declared, else
the lowest status of success, and the range `2XX` only where no such status is declared.
-/

namespace ApiDescriptors.SuccessStatus

-- The code that a status denotes, with or without a plus sign.
def code? (status : String) : Option Nat :=
  let digits := match status.toList with
    | '+' :: cs => cs
    | cs        => cs
  (Number.ofDigits? 10 digits).filter (· < Nat.pow 2 16)

def isRange (status : String) : Bool :=
  status.toList.map Char.toLower = ['2', 'x', 'x']

-- The rank of a status of success; the range ranks after every code.
def rank? (status : String) : Option Nat :=
  if isRange status then some 300
  else (code? status).filter fun code => 200 ≤ code ∧ code < 300

-- The better of two ranked entries; of equals the first.
def better {α} (best : Option (Nat × α)) (entry : Nat × α) : Option (Nat × α) :=
  match best with
  | none                 => some entry
  | some (rank, current) => if entry.1 < rank then some entry else some (rank, current)

variable {α : Type}

-- The entries that tell of success, with their ranks.
def ranked (status : α → String) (entries : List α) : List (Nat × α) :=
  entries.filterMap fun entry => (rank? (status entry)).map (·, entry)

def select? (status : α → String) (entries : List α) : Option α :=
  (entries.find? (status · = "200")).or <|
    ((ranked status entries).foldl better none).map (·.2)

end ApiDescriptors.SuccessStatus
