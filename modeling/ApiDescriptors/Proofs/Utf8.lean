import ApiDescriptors.Text.Utf8
import Mathlib.Data.List.Count

namespace ApiDescriptors.Utf8

variable {b code missing low high : Nat} {c : Char} {bytes rest : List Nat}

-- Bytes give as many characters at most; a character that was begun before them gives one more.
theorem length_go_le (bytes : List Nat) :
    (decode.go none bytes).length ≤ bytes.length ∧
      ∀ p, (decode.go (some p) bytes).length ≤ bytes.length + 1 := by
  induction bytes
  case nil => exact ⟨Nat.le_refl 0, fun _ => Nat.le_refl 1⟩
  case cons b bytes hi =>
    have ⟨hnone, hsome⟩ := hi
    have hstart : (decode.start b (decode.go · bytes)).length ≤ bytes.length + 1 := by
      simp only [decode.start]
      split
      · exact Nat.succ_le_succ hnone
      · split
        · exact hsome _
        · exact Nat.succ_le_succ hnone
    refine ⟨hstart, fun p => ?_⟩
    simp only [decode.go, List.length_cons]
    split
    case isFalse => exact Nat.succ_le_succ hstart
    case isTrue =>
      split
      · exact Nat.succ_le_succ (Nat.le_succ_of_le hnone)
      · exact Nat.le_succ_of_le (hsome _)

theorem length_decode_le (bytes : List Nat) : (decode bytes).length ≤ bytes.length :=
  (length_go_le bytes).left

theorem ofNat_eq_iff (h : 0 < c.toNat) {n : Nat} : Char.ofNat n = c ↔ n = c.toNat := by
  constructor
  case mp =>
    rintro rfl
    by_cases hn : n.isValidChar
    case pos => rw [Char.ofNat, dif_pos hn]; rfl
    case neg => rw [Char.ofNat, dif_neg hn] at h; exact absurd h (Nat.lt_irrefl 0)
  case mpr => rintro rfl; exact Char.ofNat_toNat c

-- What has been read of a character lets it end up beyond ASCII only.
structure Opened.Beyond (p : Opened) : Prop where
  low  : 0x80 ≤ p.low
  more : 2 ≤ p.code * 64 + (p.low - 0x80)
  last : p.missing ≤ 1 → 0x80 ≤ p.code * 64 + (p.low - 0x80)

theorem beyond_of_lead? (h : lead? b = some (code, missing, low, high)) :
    Opened.Beyond ⟨code, missing, low, high⟩ := by
  simp only [lead?] at h
  grind [Opened.Beyond]

theorem Opened.Beyond.step {p : Opened} (h : p.Beyond) (hb : p.low ≤ b) :
    Opened.Beyond ⟨p.code * 64 + (b - 0x80), p.missing - 1, 0x80, 0xbf⟩ := by
  obtain ⟨hlow, hmore, _⟩ := h
  constructor <;> simp only <;> omega

-- Characters of ASCII stand for their bytes, and no other bytes give one.
theorem count_go (h : 0 < c.toNat) (hc : c.toNat < 0x80) (bytes : List Nat) :
    (decode.go none bytes).count c = bytes.count c.toNat ∧
      ∀ p : Opened, p.Beyond → (decode.go (some p) bytes).count c = bytes.count c.toNat := by
  have hr : replacement ≠ c := by
    rintro rfl
    exact absurd hc (by decide)
  induction bytes
  case nil => exact ⟨rfl, fun _ _ => by simp [decode.go, hr]⟩
  case cons b bytes hi =>
    obtain ⟨hnone, hsome⟩ := hi
    have hstart : (decode.start b (decode.go · bytes)).count c = (b :: bytes).count c.toNat := by
      simp only [decode.start]
      split
      case isTrue => simp [List.count_cons, hnone, ofNat_eq_iff h]
      case isFalse hb =>
        have hne : b ≠ c.toNat := by omega
        rw [List.count_cons_of_ne hne]
        split
        case h_1 hl => exact hsome _ (beyond_of_lead? hl)
        case h_2    => rw [List.count_cons_of_ne hr, hnone]
    refine ⟨hstart, fun p hp => ?_⟩
    simp only [decode.go]
    split
    case isFalse => rw [List.count_cons_of_ne hr, hstart]
    case isTrue hb =>
      have hlow := hp.low
      have hne : b ≠ c.toNat := by omega
      rw [List.count_cons_of_ne hne]
      split
      case isTrue hm =>
        have hlast := hp.last hm
        have hcode : Char.ofNat (p.code * 64 + (b - 0x80)) ≠ c := by
          rw [ne_eq, ofNat_eq_iff h]
          omega
        rw [List.count_cons_of_ne hcode, hnone]
      case isFalse => exact hsome _ (hp.step hb.left)

theorem count_decode (h : 0 < c.toNat) (hc : c.toNat < 0x80) (bytes : List Nat) :
    (decode bytes).count c = bytes.count c.toNat :=
  (count_go h hc bytes).left

-- A byte of ASCII ends what was begun before it.
theorem decode_cons_of_lt (hb : b < 0x80) (bytes : List Nat) :
    decode (b :: bytes) = Char.ofNat b :: decode bytes := by
  simp [decode, decode.go, decode.start, hb]

theorem go_append (hb : b < 0x80) (bytes rest : List Nat) :
    decode.go none (bytes ++ b :: rest) = decode.go none bytes ++ Char.ofNat b :: decode rest ∧
      ∀ p : Opened, p.Beyond →
        decode.go (some p) (bytes ++ b :: rest) =
          decode.go (some p) bytes ++ Char.ofNat b :: decode rest := by
  induction bytes
  case nil =>
    refine ⟨decode_cons_of_lt hb rest, fun p hp => ?_⟩
    have hlow := hp.low
    have hn : ¬(p.low ≤ b ∧ b ≤ p.high) := by omega
    simp [decode.go, decode.start, decode, hb, hn]
  case cons a bytes hi =>
    obtain ⟨hnone, hsome⟩ := hi
    have hstart : decode.start a (decode.go · (bytes ++ b :: rest)) =
        decode.start a (decode.go · bytes) ++ Char.ofNat b :: decode rest := by
      simp only [decode.start]
      split
      case isTrue => rw [hnone, List.cons_append]
      case isFalse =>
        split
        case h_1 hl => exact hsome _ (beyond_of_lead? hl)
        case h_2    => rw [hnone, List.cons_append]
    refine ⟨hstart, fun p hp => ?_⟩
    simp only [List.cons_append, decode.go]
    split
    case isFalse => rw [hstart, List.cons_append]
    case isTrue hb =>
      split
      case isTrue  => rw [hnone, List.cons_append]
      case isFalse => exact hsome _ (hp.step hb.left)

theorem decode_append (hb : b < 0x80) (bytes rest : List Nat) :
    decode (bytes ++ b :: rest) = decode bytes ++ Char.ofNat b :: decode rest :=
  (go_append hb bytes rest).left

theorem go_some_ne_nil (p : Opened) (bytes : List Nat) : decode.go (some p) bytes ≠ [] := by
  induction bytes generalizing p
  case nil => nofun
  case cons b bytes hi =>
    simp only [decode.go]
    split
    case isFalse => nofun
    case isTrue =>
      split
      case isTrue  => nofun
      case isFalse => exact hi _

theorem decode_eq_nil_iff : decode bytes = [] ↔ bytes = [] := by
  cases bytes
  case nil => simp [decode, decode.go]
  case cons b bytes =>
    simp only [decode, decode.go, decode.start, reduceCtorEq, iff_false]
    split
    case isTrue => nofun
    case isFalse =>
      split
      case h_1 => exact go_some_ne_nil _ _
      case h_2 => nofun

end ApiDescriptors.Utf8
