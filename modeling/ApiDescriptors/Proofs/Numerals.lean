import ApiDescriptors.Number.Digits
import Mathlib.Data.List.Basic
import Mathlib.Logic.Function.Basic

namespace ApiDescriptors.Number

-- Decimal numerals are those of the standard library.

theorem digitChar_eq {d : Nat} (h : d < 10) : digitChar d = d.digitChar := by
  have hall : ∀ d < 10, digitChar d = d.digitChar := by decide
  exact hall d h

theorem go_eq {fuel n : Nat} (h : n < fuel) (word : List Char) :
    toDigits.go 10 fuel n word = Nat.toDigits 10 n ++ word := by
  induction fuel generalizing n word
  case zero => omega
  case succ fuel hi =>
    have hd : digitChar (n % 10) = (n % 10).digitChar := digitChar_eq (Nat.mod_lt n (by decide))
    rw [toDigits.go]
    split
    case isTrue hz =>
      have hn : n < 10 := by omega
      rw [Nat.toDigits_of_lt_base hn, hd, Nat.mod_eq_of_lt hn, List.singleton_append]
    case isFalse hz =>
      have hn : 10 ≤ n := by omega
      rw [hi (by omega), Nat.toDigits_of_base_le (n := n) (by decide) hn, hd, List.append_assoc,
        List.singleton_append]

theorem toDigits_eq (n : Nat) : toDigits 10 n = Nat.toDigits 10 n := by
  rw [toDigits, go_eq (Nat.lt_succ_self n), List.append_nil]

@[simp]
theorem toList_decimal (n : Nat) : (decimal n).toList = Nat.toDigits 10 n := by
  rw [decimal, toDigits_eq, String.toList_ofList]

theorem toDigits_injective : Function.Injective (Nat.toDigits 10) := by
  intro m n h
  have hm : Nat.ofDigitChars 10 (Nat.toDigits 10 m) 0 = m := Nat.ofDigitChars_ten_toDigits
  rw [← hm, h, Nat.ofDigitChars_ten_toDigits]

theorem isDigit_of_mem_toDigits {c : Char} {n : Nat} (h : c ∈ Nat.toDigits 10 n) : c.isDigit :=
  Nat.isDigit_of_mem_toDigits (by decide) (by decide) h

theorem digitChar_of_isDigit {c : Char} (h : c.isDigit) :
    c.toNat - '0'.toNat < 10 ∧ (c.toNat - '0'.toNat).digitChar = c := by
  have hc : 48 ≤ c.toNat ∧ c.toNat ≤ 57 := by
    simpa [Char.isDigit, UInt32.le_iff_toNat_le] using h
  have hz : '0'.toNat = 48 := rfl
  have hl : c.toNat - '0'.toNat < 10 := by omega
  refine ⟨hl, Char.toNat_inj.mp ?_⟩
  rw [Nat.toNat_digitChar_of_lt_ten hl]
  omega

theorem digitValue?_of_isDigit {c : Char} (h : c.isDigit) :
    digitValue? 10 c = some (c.toNat - '0'.toNat) := by
  simpa [digitValue?, h] using (digitChar_of_isDigit h).left

theorem foldlM_digitValue? {cs : List Char} (h : ∀ c ∈ cs, c.isDigit) (n : Nat) :
    cs.foldlM (fun n c => (n * 10 + ·) <$> digitValue? 10 c) n =
      some (Nat.ofDigitChars 10 cs n) := by
  induction cs generalizing n
  case nil => rfl
  case cons c cs hi =>
    have ⟨hc, hcs⟩ := List.forall_mem_cons.mp h
    rw [List.foldlM_cons, digitValue?_of_isDigit hc, Nat.ofDigitChars_cons, Nat.mul_comm 10]
    exact hi hcs _

theorem isDigit_of_digitValue? {c : Char} {d : Nat} (h : digitValue? 10 c = some d) :
    c.isDigit := by
  by_contra hc
  have hn : digitValue? 10 c = none := by
    simp only [digitValue?, hc]
    grind
  cases hn.symm.trans h

theorem isDigit_of_mem_of_foldlM {cs : List Char} {m n : Nat}
    (h : cs.foldlM (fun n c => (n * 10 + ·) <$> digitValue? 10 c) n = some m) :
    ∀ c ∈ cs, c.isDigit := by
  induction cs generalizing n
  case nil => nofun
  case cons c cs hi =>
    obtain ⟨_, hc, hcs⟩ := Option.bind_eq_some_iff.mp h
    obtain ⟨_, hd, _⟩ := Option.map_eq_some_iff.mp hc
    exact List.forall_mem_cons.mpr ⟨isDigit_of_digitValue? hd, hi hcs⟩

-- Digits that are read behind a number stay behind its own.
theorem toDigits_ofDigitChars {cs : List Char} (h : ∀ c ∈ cs, c.isDigit) {n : Nat} (hn : 0 < n) :
    Nat.toDigits 10 (Nat.ofDigitChars 10 cs n) = Nat.toDigits 10 n ++ cs := by
  induction cs generalizing n
  case nil => exact (List.append_nil _).symm
  case cons c cs hi =>
    obtain ⟨hc, hcs⟩ := List.forall_mem_cons.mp h
    obtain ⟨hl, hd⟩ := digitChar_of_isDigit hc
    rw [Nat.ofDigitChars_cons, hi hcs (by omega),
      ← Nat.toDigits_append_toDigits (by decide) hn hl, Nat.toDigits_of_lt_base hl, hd,
      List.append_assoc, List.singleton_append]

-- Zeros come before the digits of a number, and nothing else does.
theorem exists_zeros {cs : List Char} (h : ∀ c ∈ cs, c.isDigit) (hn : cs ≠ []) :
    ∃ zeros, cs = List.replicate zeros '0' ++ Nat.toDigits 10 (Nat.ofDigitChars 10 cs 0) := by
  induction cs
  case nil => exact absurd rfl hn
  case cons c cs hi =>
    obtain ⟨hc, hcs⟩ := List.forall_mem_cons.mp h
    obtain ⟨hl, hd⟩ := digitChar_of_isDigit hc
    rw [Nat.ofDigitChars_cons, Nat.mul_zero, Nat.zero_add]
    by_cases hz : c.toNat - '0'.toNat = 0
    case neg =>
      refine ⟨0, ?_⟩
      rw [toDigits_ofDigitChars hcs (Nat.pos_of_ne_zero hz), Nat.toDigits_of_lt_base hl, hd]
      rfl
    case pos =>
      rw [hz] at hd ⊢
      subst hd
      cases cs
      case nil => exact ⟨0, rfl⟩
      case cons c' cs =>
        obtain ⟨zeros, he⟩ := hi hcs (List.cons_ne_nil _ _)
        exact ⟨zeros + 1, congrArg ('0' :: ·) he⟩

theorem isDigit_of_mem_numeral {c : Char} {zeros n : Nat}
    (h : c ∈ List.replicate zeros '0' ++ Nat.toDigits 10 n) : c.isDigit := by
  obtain h | h := List.mem_append.mp h
  case inl => rw [List.eq_of_mem_replicate h]; rfl
  case inr => exact isDigit_of_mem_toDigits h

-- A numeral is read as the number whose digits it ends with, behind zeros.
theorem ofDigits?_eq_some_iff {cs : List Char} {n : Nat} :
    ofDigits? 10 cs = some n ↔ ∃ zeros, cs = List.replicate zeros '0' ++ Nat.toDigits 10 n := by
  constructor
  case mp =>
    intro h
    cases cs
    case nil => cases h
    case cons c cs =>
      have hd := isDigit_of_mem_of_foldlM h
      have he : some (Nat.ofDigitChars 10 (c :: cs) 0) = some n :=
        (foldlM_digitValue? hd 0).symm.trans h
      cases he
      exact exists_zeros hd (List.cons_ne_nil _ _)
  case mpr =>
    rintro ⟨zeros, rfl⟩
    have hd : ∀ c ∈ List.replicate zeros '0' ++ Nat.toDigits 10 n, c.isDigit :=
      fun _ => isDigit_of_mem_numeral
    have hf := foldlM_digitValue? hd 0
    rw [Nat.ofDigitChars_append, Nat.ofDigitChars_replicate_zero, Nat.mul_zero,
      Nat.ofDigitChars_ten_toDigits] at hf
    cases hc : List.replicate zeros '0' ++ Nat.toDigits 10 n
    case nil       => exact absurd (List.append_eq_nil_iff.mp hc).right Nat.toDigits_ne_nil
    case cons c cs => rwa [ofDigits?, ← hc]

theorem ofDigits?_toDigits (n : Nat) : ofDigits? 10 (Nat.toDigits 10 n) = some n :=
  ofDigits?_eq_some_iff.mpr ⟨0, rfl⟩

end ApiDescriptors.Number
