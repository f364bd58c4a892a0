import ApiDescriptors.Proofs.Utf8
import ApiDescriptors.Text.Percent
import Mathlib.Data.List.Infix

namespace ApiDescriptors

namespace Percent

def isHexDigit (c : Char) : Bool :=
  c.isDigit || ('a' ≤ c && c ≤ 'f') || ('A' ≤ c && c ≤ 'F')

-- Characters among which a percent sign has two hexadecimal digits after it.
def Encoded (cs : List Char) : Prop :=
  ∃ x y, isHexDigit x ∧ isHexDigit y ∧ ['%', x, y] <:+: cs

-- Characters among which an encoded byte stands for the character `c`.
def Encodes (c : Char) (cs : List Char) : Prop :=
  ∃ x y, byte? x y = some c.toNat ∧ ['%', x, y] <:+: cs

variable {c d x y : Char} {cs rest : List Char} {b : Nat} {run : List Nat}

theorem isSome_digitValue?_iff : (Number.digitValue? 16 c).isSome ↔ isHexDigit c := by
  have hle (c c' : Char) : c ≤ c' ↔ c.toNat ≤ c'.toNat := UInt32.le_iff_toNat_le
  have hd : c.isDigit ↔ '0' ≤ c ∧ c ≤ '9' := by simp [Char.isDigit, Char.le_def]
  simp only [Number.digitValue?, isHexDigit, Bool.or_eq_true, Bool.and_eq_true, decide_eq_true_eq,
    hd, hle, Char.reduceToNat]
  split
  case isTrue => simp [Option.filter]; omega
  case isFalse =>
    split
    case isTrue  => simp [Option.filter]; omega
    case isFalse => split <;> simp [Option.filter] <;> omega

theorem isSome_byte?_iff : (byte? x y).isSome ↔ isHexDigit x ∧ isHexDigit y := by
  rw [← isSome_digitValue?_iff, ← isSome_digitValue?_iff]
  cases hx : Number.digitValue? 16 x <;> cases hy : Number.digitValue? 16 y <;> simp [byte?, hx, hy]

theorem isHexDigit_of_byte? (h : byte? x y = some b) : isHexDigit x ∧ isHexDigit y :=
  isSome_byte?_iff.mp (Option.isSome_of_mem h)

theorem byte?_eq_none (h : ¬(isHexDigit x ∧ isHexDigit y)) : byte? x y = none := by
  rwa [← isSome_byte?_iff, Option.not_isSome_iff_eq_none] at h

theorem ne_of_isHexDigit (h : isHexDigit c) : c ≠ '%' ∧ c ≠ '~' ∧ c ≠ '/' := by
  refine ⟨?_, ?_, ?_⟩ <;> rintro rfl <;> revert h <;> decide

theorem exists_infix_cons_iff {P : Char → Char → Prop} :
    (∃ x y, P x y ∧ ['%', x, y] <:+: d :: cs) ↔
      (∃ x y rest, P x y ∧ d = '%' ∧ cs = x :: y :: rest) ∨
        ∃ x y, P x y ∧ ['%', x, y] <:+: cs := by
  simp only [List.infix_cons_iff]
  constructor
  case mp =>
    rintro ⟨x, y, hp, ⟨rest, he⟩ | hi⟩
    · cases he; exact .inl ⟨x, y, rest, hp, rfl, rfl⟩
    · exact .inr ⟨x, y, hp, hi⟩
  case mpr =>
    rintro (⟨x, y, rest, hp, rfl, rfl⟩ | ⟨x, y, hp, hi⟩)
    · exact ⟨x, y, hp, .inl ⟨rest, rfl⟩⟩
    · exact ⟨x, y, hp, .inr hi⟩

theorem encoded_cons_iff :
    Encoded (c :: cs) ↔
      (∃ x y rest, isHexDigit x ∧ isHexDigit y ∧ c = '%' ∧ cs = x :: y :: rest) ∨ Encoded cs := by
  simpa only [Encoded, and_assoc] using
    exists_infix_cons_iff (P := fun x y => isHexDigit x ∧ isHexDigit y)

theorem encoded_cons_of_ne (h : c ≠ '%') : Encoded (c :: cs) ↔ Encoded cs := by
  simp [encoded_cons_iff, h]

theorem encodes_cons_iff :
    Encodes c (d :: cs) ↔
      (∃ x y rest, byte? x y = some c.toNat ∧ d = '%' ∧ cs = x :: y :: rest) ∨ Encodes c cs :=
  exists_infix_cons_iff

theorem not_encodes_nil : ¬Encodes c [] := by
  rintro ⟨_, _, _, h⟩
  exact absurd (List.infix_nil.mp h) (List.cons_ne_nil _ _)

theorem encodes_cons_of_ne (h : d ≠ '%') : Encodes c (d :: cs) ↔ Encodes c cs := by
  simp [encodes_cons_iff, h]

-- A character that begins no encoded byte is kept.
theorem go_cons (h : ∀ x y rest, c = '%' → cs = x :: y :: rest → byte? x y = none) :
    decode.go run (c :: cs) = Utf8.decode run.reverse ++ c :: decode.go [] cs := by
  rw [decode.go.eq_def]
  split
  case h_1 x y rest he => cases he; rw [h x y rest rfl rfl]
  case h_2 he          => cases he; rfl
  case h_3 he          => cases he

theorem go_cons_of_ne (h : c ≠ '%') :
    decode.go run (c :: cs) = Utf8.decode run.reverse ++ c :: decode.go [] cs :=
  go_cons fun _ _ _ hc _ => absurd hc h

theorem decode_cons_of_ne (h : c ≠ '%') : decode (c :: cs) = c :: decode cs := by
  rw [decode, go_cons_of_ne h]
  rfl

-- Characters that stand for no byte are kept.
theorem go_of_not_encoded (h : ¬Encoded cs) : decode.go run cs = Utf8.decode run.reverse ++ cs := by
  have hnil : Utf8.decode [] = [] := rfl
  fun_induction decode.go run cs
  case case1 x y cs b hb hi =>
    have ⟨hx, hy⟩ := isSome_byte?_iff.mp (Option.isSome_of_mem hb)
    exact absurd ⟨x, y, hx, hy, List.prefix_append _ cs |>.isInfix⟩ h
  case case2 hi =>
    rw [hi fun he => h (encoded_cons_iff.mpr (.inr he)), List.reverse_nil, hnil, List.nil_append]
  case case3 hi =>
    rw [hi fun he => h (encoded_cons_iff.mpr (.inr he)), List.reverse_nil, hnil, List.nil_append]
  case case4 => rw [List.append_nil]

theorem decode_of_not_encoded (h : ¬Encoded cs) : decode cs = cs := by
  rw [decode, go_of_not_encoded h]
  rfl

theorem go_eq_nil_iff : decode.go run cs = [] ↔ run = [] ∧ cs = [] := by
  fun_induction decode.go run cs
  case case1 hi => simp [hi]
  case case2    => simp
  case case3    => simp
  case case4    => simp [Utf8.decode_eq_nil_iff]

theorem decode_eq_nil_iff : decode cs = [] ↔ cs = [] := by
  simp [decode, go_eq_nil_iff]

-- A character of ASCII that takes no part in encoded bytes.
structure Neutral (c : Char) : Prop where
  pos     : 0 < c.toNat
  ascii   : c.toNat < 0x80
  digit   : ¬isHexDigit c
  percent : c ≠ '%'

-- An encoded byte does not reach over a neutral character.
theorem byte?_eq_none_of_append {l : List Char} (hc : Neutral c) (hno : ∀ x y l, cs ≠ x :: y :: l)
    (he : cs ++ c :: rest = x :: y :: l) : byte? x y = none := by
  refine byte?_eq_none ?_
  rintro ⟨hx, hy⟩
  cases cs
  case nil => cases he; exact hc.digit hx
  case cons _ cs =>
    cases cs
    case nil  => cases he; exact hc.digit hy
    case cons => exact hno _ _ _ rfl

-- What is behind a neutral character is decoded on its own.
theorem go_append_cons (hc : Neutral c) :
    decode.go run (cs ++ c :: rest) = decode.go run cs ++ c :: decode rest := by
  fun_induction decode.go run cs
  case case1 hb hi => simp only [List.cons_append, decode.go, hb, hi]
  case case2 hb hi =>
    simp only [List.cons_append, decode.go, hb, List.append_assoc] at hi ⊢
    rw [hi]
  case case3 run d cs hno hi =>
    have hlit (x y : Char) (l : List Char) (hd : d = '%') (he : cs ++ c :: rest = x :: y :: l) :
        byte? x y = none :=
      byte?_eq_none_of_append hc (fun x y l => hno x y l hd) he
    rw [List.cons_append, go_cons hlit, hi, List.append_assoc, List.cons_append]
  case case4 run => rw [List.nil_append, go_cons_of_ne hc.percent, decode]

theorem decode_append_cons (hc : Neutral c) :
    decode (cs ++ c :: rest) = decode cs ++ c :: decode rest :=
  go_append_cons hc

-- An encoded byte of ASCII stands for its character, whatever is encoded around it.
theorem go_append_run (hb : b < 0x80) (more run : List Nat) (cs : List Char) :
    decode.go (more ++ b :: run) cs =
      Utf8.decode run.reverse ++ Char.ofNat b :: decode.go more cs := by
  have hd (more : List Nat) : Utf8.decode (more ++ b :: run).reverse =
      Utf8.decode run.reverse ++ Char.ofNat b :: Utf8.decode more.reverse := by
    simp [Utf8.decode_append hb]
  fun_induction decode.go more cs
  case case1 ha hi => simp only [decode.go, ha, ← hi, List.cons_append]
  case case2 ha _  => simp only [decode.go, ha, hd, List.append_assoc, List.cons_append]
  case case3 hno _ =>
    rw [go_cons fun x y rest hc he => absurd he (hno x y rest hc), hd, List.append_assoc,
      List.cons_append]
  case case4       => simp only [decode.go, hd]

-- There is a `c` for each `c` that was there, and for each that was encoded.
structure Counts (c : Char) (run : List Nat) (cs : List Char) : Prop where
  le     : run.count c.toNat + cs.count c ≤ (decode.go run cs).count c
  eq_iff : (decode.go run cs).count c = run.count c.toNat + cs.count c ↔ ¬Encodes c cs

theorem Counts.cons (hc : Neutral c) (h : Counts c [] cs)
    (hk : decode.go run (d :: cs) = Utf8.decode run.reverse ++ d :: decode.go [] cs)
    (hn : ¬∃ x y rest, byte? x y = some c.toNat ∧ d = '%' ∧ cs = x :: y :: rest) :
    Counts c run (d :: cs) := by
  obtain ⟨hle, heq⟩ := h
  have hrun : (Utf8.decode run.reverse).count c = run.count c.toNat := by
    rw [Utf8.count_decode hc.pos hc.ascii, List.count_reverse]
  have he : Encodes c (d :: cs) ↔ Encodes c cs := by rw [encodes_cons_iff, or_iff_right hn]
  have hcount : (decode.go run (d :: cs)).count c + cs.count c =
      run.count c.toNat + (d :: cs).count c + (decode.go [] cs).count c := by
    rw [hk, List.count_append, List.count_cons, List.count_cons, hrun]
    omega
  rw [List.count_nil, Nat.zero_add] at hle heq
  constructor
  case le => omega
  case eq_iff =>
    rw [he, ← heq]
    omega

theorem counts (hc : Neutral c) (run : List Nat) (cs : List Char) : Counts c run cs := by
  fun_induction decode.go run cs
  case case1 run x y cs b hb hi =>
    obtain ⟨hle, heq⟩ := hi
    obtain ⟨hx, hy⟩ := isHexDigit_of_byte? hb
    have hcs : ('%' :: x :: y :: cs).count c = cs.count c := by
      have hcx : x ≠ c := by rintro rfl; exact hc.digit hx
      have hcy : y ≠ c := by rintro rfl; exact hc.digit hy
      rw [List.count_cons_of_ne hc.percent.symm, List.count_cons_of_ne hcx,
        List.count_cons_of_ne hcy]
    have he : Encodes c ('%' :: x :: y :: cs) ↔ b = c.toNat ∨ Encodes c cs := by
      rw [encodes_cons_iff, encodes_cons_of_ne (ne_of_isHexDigit hx).left,
        encodes_cons_of_ne (ne_of_isHexDigit hy).left]
      simp [hb]
    have hgo : decode.go run ('%' :: x :: y :: cs) = decode.go (b :: run) cs := by
      simp only [decode.go, hb]
    rw [List.count_cons] at hle heq
    constructor <;> rw [hgo, hcs]
    case le => omega
    case eq_iff =>
      rw [he]
      by_cases hbc : b = c.toNat
      case pos =>
        subst hbc
        rw [beq_self_eq_true, if_pos rfl] at hle
        exact iff_of_false (by omega) (not_not_intro (.inl rfl))
      case neg => simpa [hbc] using heq
  case case2 x y cs hb hi =>
    refine hi.cons hc (by simp only [decode.go, hb]) ?_
    rintro ⟨_, _, _, hs, _, he⟩
    cases he
    cases hb.symm.trans hs
  case case3 d cs hno hi =>
    refine hi.cons hc (go_cons fun x y rest hd he => absurd he (hno x y rest hd)) ?_
    rintro ⟨x, y, rest, _, hd, he⟩
    exact hno x y rest hd he
  case case4 run =>
    have hrun : (decode.go run []).count c = run.count c.toNat + [].count c := by
      rw [decode.go, Utf8.count_decode hc.pos hc.ascii, List.count_reverse, List.count_nil,
        Nat.add_zero]
    exact ⟨Nat.le_of_eq hrun.symm, iff_of_true hrun not_encodes_nil⟩

theorem count_decode_eq_iff (hc : Neutral c) :
    (decode cs).count c = cs.count c ↔ ¬Encodes c cs := by
  simpa [decode] using (counts hc [] cs).eq_iff

theorem mem_decode_iff (hc : Neutral c) : c ∈ decode cs ↔ c ∈ cs ∨ Encodes c cs := by
  have hle : cs.count c ≤ (decode cs).count c := by simpa [decode] using (counts hc [] cs).le
  rw [← List.count_pos_iff, ← List.count_pos_iff]
  by_cases he : Encodes c cs
  case pos =>
    have hn : (decode cs).count c ≠ cs.count c := fun hn => (count_decode_eq_iff hc).mp hn he
    exact iff_of_true (by omega) (.inr he)
  case neg => rw [(count_decode_eq_iff hc).mpr he, or_iff_left he]

end Percent
end ApiDescriptors
