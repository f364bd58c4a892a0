/-!
Cutting text at a sign.
-/

namespace ApiDescriptors

-- The parts between the occurrences of `sign`; one part when there is none.
def splitAt (sign : Char) : List Char → List (List Char)
  | []      => [[]]
  | c :: cs =>
    if c = sign then [] :: splitAt sign cs
    else match splitAt sign cs with
      | []            => [[c]]
      | part :: parts => (c :: part) :: parts

end ApiDescriptors
