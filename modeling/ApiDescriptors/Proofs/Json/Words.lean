import ApiDescriptors.Json.Printer
import ApiDescriptors.Json.Reader
import ApiDescriptors.Proofs.Numerals
import Mathlib.Data.List.TakeWhile

namespace ApiDescriptors

namespace Number.Fraction

variable {ds : List Char}

theorem ofUnsigned?_digits (hd : ∀ c ∈ ds, c.isDigit) (hn : ds ≠ []) (negative : Bool) :
    ofUnsigned? negative ds = some ⟨negative, ds, [], 0⟩ := by
  rw [ofUnsigned?, List.takeWhile_eq_self_iff.mpr hd, List.dropWhile_eq_nil_iff.mpr hd,
    List.isEmpty_eq_false_iff.mpr hn]
  rfl

theorem ofText?_digits (hd : ∀ c ∈ ds, c.isDigit) (hn : ds ≠ []) :
    ofText? ds = some ⟨false, ds, [], 0⟩ := by
  rw [ofText?.eq_def]
  split
  case h_1 => exact absurd (hd '-' List.mem_cons_self) (by decide)
  case h_2 => exact absurd (hd '+' List.mem_cons_self) (by decide)
  case h_3 => exact ofUnsigned?_digits hd hn false

end Number.Fraction

namespace Json

open Reader

-- Strings

theorem unit?_control : ∀ n < 0x20,
    unit? '0' '0' (Number.digitChar (n / 16)) (Number.digitChar (n % 16)) = some n := by
  decide

theorem string_of_unit?_eq_none {a b c d : Char} (hu : unit? a b c d = none)
    (read cs : List Char) : string read ('\\' :: 'u' :: a :: b :: c :: d :: cs) = none := by
  rw [string.eq_def]
  split <;> grind

-- An escape that is no high surrogate is read alone; a faulty one behind it fails either way.
theorem string_of_unit? {a b c d : Char} {n : Nat} (hu : unit? a b c d = some n)
    (hn : n < 0xd800) (read cs : List Char) :
    string read ('\\' :: 'u' :: a :: b :: c :: d :: cs) = string (Char.ofNat n :: read) cs := by
  rw [string.eq_def]
  split
  case h_2 a' b' c' d' cs he =>
    cases he
    cases hl : unit? a' b' c' d'
    case none     => simp only [hu, string_of_unit?_eq_none hl]
    case some low =>
      simp only [hu]
      exact if_neg (by omega)
  all_goals grind

theorem string_plain {c : Char} (hq : c ≠ '\x22') (hb : c ≠ '\\') (hc : ¬c.toNat < 0x20)
    (read cs : List Char) : string read (c :: cs) = string (c :: read) cs := by
  rw [string.eq_def]
  split <;> grind

-- Every character is read from its escape.
theorem string_escape (c : Char) (read cs : List Char) :
    string read (escape c ++ cs) = string (c :: read) cs := by
  unfold escape
  split
  case h_8 hq hb _ _ _ _ _ =>
    split
    case isTrue hc =>
      have hu := string_of_unit? (unit?_control c.toNat hc) (by omega) read cs
      rwa [Char.ofNat_toNat] at hu
    case isFalse hc => exact string_plain hq hb hc read cs
  all_goals simp [string]

theorem string_append (text read cs : List Char) :
    string read (text.flatMap escape ++ '\x22' :: cs) =
      some (String.ofList (read.reverse ++ text), cs) := by
  induction text generalizing read
  case nil => simp [string]
  case cons c text hi =>
    rw [List.flatMap_cons, List.append_assoc, string_escape, hi, List.reverse_cons,
      List.append_assoc, List.singleton_append]

-- A string is read up to its own closing quote.
theorem string_flatMap_escape (text : String) (cs : List Char) :
    string [] (text.toList.flatMap escape ++ '\x22' :: cs) = some (text, cs) := by
  rw [string_append, List.reverse_nil, List.nil_append, String.ofList_toList]

theorem toList_stringText (text : String) :
    (stringText text).toList = '\x22' :: (text.toList.flatMap escape ++ ['\x22']) :=
  String.toList_ofList

theorem stringText_injective : Function.Injective stringText := by
  intro text text' h
  have hw := (toList_stringText text).symm.trans (h ▸ toList_stringText text')
  have ht := string_flatMap_escape text []
  rw [(List.cons.inj hw).right, string_flatMap_escape] at ht
  exact (congrArg Prod.fst (Option.some.inj ht)).symm

-- Numbers

variable {v : Json} {cs rest : List Char}

-- What can stand behind a number.
def Stops (rest : List Char) : Prop :=
  ∀ c ∈ rest.head?, isNumberPart c = false

theorem number_eq_some_nil_iff :
    number cs = some (v, []) ↔ ofWord? cs = some v ∧ ∀ c ∈ cs, isNumberPart c := by
  rw [number, Option.map_eq_some_iff, ← List.takeWhile_eq_self_iff]
  constructor
  case mp =>
    rintro ⟨v', hv, he⟩
    obtain ⟨rfl, hd⟩ := Prod.mk.inj he
    have ht : cs.takeWhile isNumberPart = cs :=
      List.takeWhile_eq_self_iff.mpr (List.dropWhile_eq_nil_iff.mp hd)
    exact ⟨ht ▸ hv, ht⟩
  case mpr =>
    rintro ⟨hw, hp⟩
    refine ⟨v, by rwa [hp], ?_⟩
    rw [List.dropWhile_eq_nil_iff.mpr (List.takeWhile_eq_self_iff.mp hp)]

theorem number_append (h : number cs = some (v, [])) (hr : Stops rest) :
    number (cs ++ rest) = some (v, rest) := by
  obtain ⟨hw, hp⟩ := number_eq_some_nil_iff.mp h
  have hstop : rest.takeWhile isNumberPart = [] ∧ rest.dropWhile isNumberPart = rest := by
    cases rest
    case nil => exact ⟨rfl, rfl⟩
    case cons c rest =>
      have hc : ¬isNumberPart c := by simp [hr c rfl]
      exact ⟨List.takeWhile_cons_of_neg hc, List.dropWhile_cons_of_neg hc⟩
  rw [number, List.takeWhile_append_of_pos hp, List.dropWhile_append_of_pos hp, hstop.left,
    hstop.right, List.append_nil, hw, Option.map_some]

theorem exists_part_of_number (h : number cs = some (v, [])) :
    ∃ c cs', cs = c :: cs' ∧ isNumberPart c := by
  obtain ⟨hw, hp⟩ := number_eq_some_nil_iff.mp h
  cases cs
  case nil       => cases hw
  case cons c cs => exact ⟨c, cs, rfl, hp c List.mem_cons_self⟩

theorem number_of_whole {negative : Bool} {ds : List Char} {m : Nat} {n : Int}
    (hf : Number.Fraction.ofText? cs = some ⟨negative, ds, [], 0⟩)
    (hc : ∀ c ∈ cs, c.isDigit ∨ c = '-') (hm : Number.ofDigits? 10 ds = some m)
    (hn : (if negative then -(m : Int) else m) = n) (hz : cs ≠ ['-', '0'])
    (hl : -Int.pow 2 63 ≤ n) (hu : n < Int.pow 2 64) : number cs = some (.int n, []) := by
  have hparts : ∀ c ∈ cs, isNumberPart c := by
    intro c hmem
    obtain hd | rfl := hc c hmem
    case inl => simp [isNumberPart, hd]
    case inr => rfl
  have hall : cs.all (fun c => c.isDigit ∨ c = '-') := by simpa using hc
  refine number_eq_some_nil_iff.mpr ⟨?_, hparts⟩
  simp only [ofWord?, hf, hm, Option.bind_eq_bind, Option.bind_some, Option.getD_some, hall,
    if_true, hn]
  rw [if_pos ⟨hl, hu, hz⟩]
  rfl

-- A whole number of 64 bits is read as it is written.
theorem number_decimalInt {n : Int} (hl : -Int.pow 2 63 ≤ n) (hu : n < Int.pow 2 64) :
    number (Number.decimalInt n).toList = some (.int n, []) := by
  have hd : ∀ c ∈ Nat.toDigits 10 n.natAbs, c.isDigit := fun _ => Number.isDigit_of_mem_toDigits
  have hc : ∀ c ∈ Nat.toDigits 10 n.natAbs, c.isDigit ∨ c = '-' := fun c hc => .inl (hd c hc)
  have hm : Number.ofDigits? 10 (Nat.toDigits 10 n.natAbs) = some n.natAbs :=
    Number.ofDigits?_toDigits _
  rw [Number.decimalInt]
  split
  case isTrue hneg =>
    have hz : Nat.toDigits 10 n.natAbs ≠ ['0'] := by
      intro he
      have hn : n.natAbs = 0 := Number.toDigits_injective he
      omega
    rw [String.toList_append, Number.toList_decimal]
    refine number_of_whole (Number.Fraction.ofUnsigned?_digits hd Nat.toDigits_ne_nil true)
      (List.forall_mem_cons.mpr ⟨.inr rfl, hc⟩) hm ?_ ?_ hl hu
    · change -(n.natAbs : Int) = n
      omega
    · exact fun he => hz (List.cons.inj he).right
  case isFalse hpos =>
    have hz : Nat.toDigits 10 n.natAbs ≠ ['-', '0'] :=
      fun he => absurd (hd '-' (he ▸ List.mem_cons_self)) (by decide)
    rw [Number.toList_decimal]
    refine number_of_whole (Number.Fraction.ofText?_digits hd Nat.toDigits_ne_nil) hc hm ?_ hz hl hu
    exact Int.natAbs_of_nonneg (Int.not_lt.mp hpos)

end Json
end ApiDescriptors
