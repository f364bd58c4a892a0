import ApiDescriptors.Text.CharacterClass
import ApiDescriptors.Number.Digits

/-!
Text between double quotes, as error messages show it: quotes, backslashes and line ends are
escaped, and so is every character that would not be seen on its own.
-/

namespace ApiDescriptors.Quoted

def codeEscape (c : Char) : List Char :=
  ['\\', 'u', '\x7b'] ++ Number.toDigits 16 c.toNat ++ ['\x7d']

def escape (c : Char) : List Char :=
  match c with
  | '\x00' => ['\\', '0']
  | '\t'   => ['\\', 't']
  | '\r'   => ['\\', 'r']
  | '\n'   => ['\\', 'n']
  | '\\'   => ['\\', '\\']
  | '\x22' => ['\\', '\x22']
  | c      => if isGraphemeExtend c || !isPrintable c then codeEscape c else [c]

end Quoted

def quoted (text : String) : String :=
  String.ofList <| '\x22' :: text.toList.flatMap Quoted.escape ++ ['\x22']

end ApiDescriptors
