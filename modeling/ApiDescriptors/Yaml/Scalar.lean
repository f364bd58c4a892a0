import ApiDescriptors.Number.Reader
import ApiDescriptors.Yaml.Token

/-!
What a scalar means: the plain words of the core schema (null, booleans, integers in four radices,
floating-point numbers), and the tags that ask for one of these kinds.
-/

namespace ApiDescriptors.Yaml

inductive Scalar
  | null
  | bool (value : Bool)
  | int (value : Int)
  | double (value : Number.Double)
  | infinity (negative : Bool)
  | nan
  | str (text : String)
deriving DecidableEq

namespace Scalar

def null? (text : String) : Option Scalar :=
  if text ∈ ["null", "Null", "NULL", "~"] then some null else none

def bool? (text : String) : Option Scalar :=
  if text ∈ ["true", "True", "TRUE"] then some (bool true)
  else if text ∈ ["false", "False", "FALSE"] then some (bool false)
  else none

def withoutPlus : List Char → List Char
  | '+' :: cs => cs
  | cs        => cs

-- Digits after a zero that leads them, such as `007`; these are no number.
def hasLeadingZero (cs : List Char) : Bool :=
  match cs with
  | '+' :: cs => zeroThenDigits cs
  | '-' :: cs => zeroThenDigits cs
  | cs        => zeroThenDigits cs
where
  zeroThenDigits : List Char → Bool
    | '0' :: cs => !cs.isEmpty && cs.all Char.isDigit
    | _         => false

-- A number with the prefix of its radix.
def prefixed? : List Char → Option Nat
  | '0' :: 'x' :: ds => Number.ofDigits? 16 ds
  | '0' :: 'o' :: ds => Number.ofDigits? 8 ds
  | '0' :: 'b' :: ds => Number.ofDigits? 2 ds
  | _                => none

-- The integer that a word denotes, if it fits into 128 bits.
def integer? (cs : List Char) : Option Int :=
  let unsigned? := (prefixed? (withoutPlus cs)).or <|
    if hasLeadingZero cs then none else Number.ofDigits? 10 (withoutPlus cs)
  match unsigned?.filter (· < Nat.pow 2 128) with
  | some n => some n
  | none   =>
    match cs with
    | '-' :: ds =>
      let n? := (prefixed? ds).or <| if hasLeadingZero cs then none else Number.ofDigits? 10 ds
      (n?.filter (· ≤ Nat.pow 2 127)).map fun n => -(n : Int)
    | _ => none

def float? (text : String) : Option Scalar :=
  let cs := text.toList
  let unsigned := String.ofList (withoutPlus cs)
  if unsigned ∈ [".inf", ".Inf", ".INF"] then some (infinity false)
  else if text ∈ ["-.inf", "-.Inf", "-.INF"] then some (infinity true)
  else if text ∈ [".nan", ".NaN", ".NAN"] then some nan
  else match cs with
    | '+' :: '+' :: _ => none
    | '+' :: '-' :: _ => none
    | _               => do return double (← (← Number.Fraction.ofText? cs).toDouble?)

-- A plain word; one that is none of the others is a string.
def ofPlain (text : String) : Scalar :=
  if text = "" then null
  else
    let cs := text.toList
    let number? := match integer? cs with
      | some n => some (int n)
      | none   => if hasLeadingZero cs then none else float? text
    (((null? text).or (bool? text)).or number?).getD (str text)

def tagPrefix : String := "tag:yaml.org,2002:"

-- A tag of an application, such as `!pet`; these mark a value without changing it.
def isLocalTag (tag : String) : Bool :=
  tag.startsWith "!"

-- A scalar as its tag asks. With a tag of the core schema the text has to be of that kind; the
-- name of the kind is given when it is not.
def resolve (tag : Option String) (text : String) (style : Style) : Except String Scalar :=
  let untagged := if style = .plain then ofPlain text else str text
  match tag with
  | none     => .ok untagged
  | some tag =>
    if tag = tagPrefix ++ "bool" then orElse "a boolean" (bool? text)
    else if tag = tagPrefix ++ "int" then orElse "an integer" ((integer? text.toList).map int)
    else if tag = tagPrefix ++ "float" then orElse "a float" (float? text)
    else if tag = tagPrefix ++ "null" then orElse "null" (null? text)
    else if isLocalTag tag then .ok untagged
    else .ok (str text)
where
  orElse (kind : String) : Option Scalar → Except String Scalar
    | some scalar => .ok scalar
    | none        => .error kind

end Scalar
end ApiDescriptors.Yaml
