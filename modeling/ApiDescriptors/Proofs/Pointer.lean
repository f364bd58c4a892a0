import ApiDescriptors.Pointer
import ApiDescriptors.Proofs.Percent
import ApiDescriptors.Proofs.Split
import Mathlib.Data.List.Basic

namespace ApiDescriptors

variable {c : Char} {cs part : List Char} {run : List Nat}

namespace Pointer

-- Escaping

theorem escape_of_ne (ht : c ≠ '~') (hs : c ≠ '/') : escape c = [c] := by
  simp [escape]

theorem unescape_cons_of_ne (h : c ≠ '~') : unescape (c :: cs) = c :: unescape cs := by
  rw [unescape.eq_def]
  split <;> simp_all

theorem unescape_escape (cs : List Char) : unescape (cs.flatMap escape) = cs := by
  induction cs
  case nil => rfl
  case cons c cs hi =>
    rw [List.flatMap_cons]
    fun_cases escape c
    case case1      => simp [unescape, hi]
    case case2      => simp [unescape, hi]
    case case3 ht _ => rw [List.singleton_append, unescape_cons_of_ne ht, hi]

theorem slash_not_mem_escape (cs : List Char) : '/' ∉ cs.flatMap escape := by
  intro h
  have ⟨c, _, hc⟩ := List.mem_flatMap.mp h
  fun_cases escape c
  case case1      => simp [escape] at hc
  case case2      => simp [escape] at hc
  case case3 ht hs => exact hs (List.mem_singleton.mp (escape_of_ne ht hs ▸ hc)).symm

-- The parts between the slashes are the escaped segments.
theorem splitAt_segments (h : '/' ∉ part) (segments : List String) :
    splitAt '/' (part ++ segments.flatMap segmentText) =
      part :: segments.map (·.toList.flatMap escape) := by
  induction segments generalizing part
  case nil => rw [List.flatMap_nil, List.append_nil, splitAt_of_not_mem h]; rfl
  case cons segment segments hi =>
    rw [List.flatMap_cons, segmentText, List.cons_append, splitAt_append, splitAt_of_not_mem h,
      hi (slash_not_mem_escape _), List.singleton_append, List.map_cons]

theorem escape_injective :
    Function.Injective fun segment : String => segment.toList.flatMap escape := by
  intro s t h
  have h := congrArg unescape h
  simp only [unescape_escape] at h
  exact String.toList_inj.mp h

-- Pointers that are written alike are the same.
theorem text_injective : Function.Injective text := by
  intro ⟨segments⟩ ⟨segments'⟩ h
  have h := List.cons.inj (String.ofList_injective h) |>.right
  have h := congrArg (splitAt '/') h
  rw [← List.nil_append (List.flatMap ..), splitAt_segments List.not_mem_nil,
    ← List.nil_append (List.flatMap ..), splitAt_segments List.not_mem_nil] at h
  exact congrArg mk (List.map_injective_iff.mpr escape_injective (List.cons.inj h).right)

theorem parse_text_eq (p : Pointer) :
    parse p.text = .ok ⟨p.segments.map fun segment =>
      readSegment (segment.toList.flatMap escape)⟩ := by
  have ⟨segments⟩ := p
  cases segments
  case nil => rfl
  case cons segment segments =>
    have hs := splitAt_segments (slash_not_mem_escape segment.toList) segments
    simp [parse, text, fragment?, segmentText, hs]

-- Reading back

theorem eq_cons_of_escape_eq_cons {x : Char} {rest : List Char} (hx : Percent.isHexDigit x)
    (h : cs.flatMap escape = x :: rest) : ∃ cs', cs = x :: cs' ∧ cs'.flatMap escape = rest := by
  have ⟨_, ht, hs⟩ := Percent.ne_of_isHexDigit hx
  cases cs
  case nil => cases h
  case cons c cs =>
    rw [List.flatMap_cons] at h
    fun_cases escape c
    case case1 => cases h; exact absurd rfl ht
    case case2 => cases h; exact absurd rfl ht
    case case3 hct hcs =>
      rw [escape_of_ne hct hcs] at h
      cases h
      exact ⟨cs, rfl, rfl⟩

-- Escaping leaves encoded bytes as they are and makes no new ones.
theorem encoded_escape_iff : Percent.Encoded (cs.flatMap escape) ↔ Percent.Encoded cs := by
  induction cs
  case nil => rfl
  case cons c cs hi =>
    rw [List.flatMap_cons]
    fun_cases escape c
    case case1 => simp [Percent.encoded_cons_of_ne, hi]
    case case2 => simp [Percent.encoded_cons_of_ne, hi]
    case case3 =>
      rw [List.singleton_append, Percent.encoded_cons_iff, Percent.encoded_cons_iff, hi]
      refine or_congr_left ⟨?_, ?_⟩
      case refine_1 =>
        rintro ⟨x, y, rest, hx, hy, hc, he⟩
        obtain ⟨_, rfl, htail⟩ := eq_cons_of_escape_eq_cons hx he
        obtain ⟨cs', rfl, _⟩ := eq_cons_of_escape_eq_cons hy htail
        exact ⟨x, y, cs', hx, hy, hc, rfl⟩
      case refine_2 =>
        rintro ⟨x, y, rest, hx, hy, hc, rfl⟩
        have ⟨_, hxt, hxs⟩ := Percent.ne_of_isHexDigit hx
        have ⟨_, hyt, hys⟩ := Percent.ne_of_isHexDigit hy
        refine ⟨x, y, rest.flatMap escape, hx, hy, hc, ?_⟩
        simp [List.flatMap_cons, escape_of_ne hxt hxs, escape_of_ne hyt hys]

-- A character is kept if it does not start an escape.
theorem unescape_cons (c : Char) (cs : List Char) :
    (∃ d rest, c = '~' ∧ cs = d :: rest ∧ (d = '0' ∨ d = '1')) ∨
      unescape (c :: cs) = c :: unescape cs := by
  rw [unescape.eq_def]
  split
  case h_1 rest he => cases he; exact .inl ⟨_, rest, rfl, rfl, .inl rfl⟩
  case h_2 rest he => cases he; exact .inl ⟨_, rest, rfl, rfl, .inr rfl⟩
  case h_3 he      => cases he; exact .inr rfl
  case h_4 he      => cases he

theorem length_unescape_escape {d : Char} (h : d = '0' ∨ d = '1') (cs : List Char) :
    (unescape ('~' :: d :: cs)).length = (unescape (d :: cs)).length := by
  obtain rfl | rfl := h <;> simp [unescape]

theorem length_unescape_cons_le (c : Char) (cs : List Char) :
    (unescape (c :: cs)).length ≤ (unescape cs).length + 1 := by
  obtain ⟨d, cs, rfl, rfl, hd⟩ | h := unescape_cons c cs
  case inl => rw [length_unescape_escape hd]; exact Nat.le_succ _
  case inr => rw [h, List.length_cons]

theorem length_unescape_append_le (cs cs' : List Char) :
    (unescape (cs ++ cs')).length ≤ cs.length + (unescape cs').length := by
  induction cs
  case nil => simp
  case cons c cs hi =>
    have := length_unescape_cons_le c (cs ++ cs')
    simp only [List.cons_append, List.length_cons]
    omega

-- A character that starts an escape before percent-encoding is undone starts one after it too, so
-- undoing it behind the character makes as much of a difference as without it, or more.
theorem length_unescape_cons_decode_le (c : Char) (cs : List Char) :
    (unescape (c :: Percent.decode cs)).length + (unescape cs).length ≤
      (unescape (c :: cs)).length + (unescape (Percent.decode cs)).length := by
  obtain ⟨d, cs, rfl, rfl, hd⟩ | h := unescape_cons c cs
  case inl =>
    have hne : d ≠ '%' := by rintro rfl; simp at hd
    rw [Percent.decode_cons_of_ne hne, length_unescape_escape hd, length_unescape_escape hd,
      Nat.add_comm]
  case inr =>
    have := length_unescape_cons_le c (Percent.decode cs)
    rw [h, List.length_cons]
    omega

theorem length_unescape_run_le (run : List Nat) (cs : List Char) :
    (unescape (Utf8.decode run.reverse ++ cs)).length ≤ run.length + (unescape cs).length := by
  have happ := length_unescape_append_le (Utf8.decode run.reverse) cs
  have hrun := Utf8.length_decode_le run.reverse
  rw [List.length_reverse] at hrun
  omega

-- Characters that get no longer when percent-encoding is undone in them, behind bytes that were
-- encoded, and shorter if a byte is encoded there.
structure Shrinks (run : List Nat) (cs : List Char) : Prop where
  le : (unescape (Percent.decode.go run cs)).length ≤ run.length + (unescape cs).length
  lt : Percent.Encoded cs →
    (unescape (Percent.decode.go run cs)).length < run.length + (unescape cs).length

-- A character that starts no encoded byte leaves the difference to what is behind it.
theorem Shrinks.cons (h : Shrinks [] cs)
    (hc : Percent.decode.go run (c :: cs) =
      Utf8.decode run.reverse ++ c :: Percent.decode.go [] cs)
    (hn : ¬∃ x y rest, Percent.isHexDigit x ∧ Percent.isHexDigit y ∧ c = '%' ∧
      cs = x :: y :: rest) : Shrinks run (c :: cs) := by
  have hrun := length_unescape_run_le run (c :: Percent.decode cs)
  have hcons := length_unescape_cons_decode_le c cs
  have ⟨hle, hlt⟩ := h
  rw [← Percent.decode] at hc hle hlt
  constructor <;> rw [hc]
  case le =>
    rw [List.length_nil] at hle
    omega
  case lt =>
    intro h
    have hlt := hlt ((Percent.encoded_cons_iff.mp h).resolve_left hn)
    rw [List.length_nil] at hlt
    omega

-- Three characters stand for one byte, and bytes give as many characters at most.
theorem shrinks (run : List Nat) (cs : List Char) : Shrinks run cs := by
  fun_induction Percent.decode.go run cs
  case case1 run x y cs b hb hi =>
    obtain ⟨hx, hy⟩ := Percent.isSome_byte?_iff.mp (Option.isSome_of_mem hb)
    obtain ⟨_, hxt, _⟩ := Percent.ne_of_isHexDigit hx
    obtain ⟨_, hyt, _⟩ := Percent.ne_of_isHexDigit hy
    have hle := hi.le
    simp only [List.length_cons] at hle
    constructor <;> simp only [Percent.decode.go, hb, ne_eq, Char.reduceEq, not_false_eq_true,
      unescape_cons_of_ne, hxt, hyt, List.length_cons]
    case le => omega
    case lt => omega
  case case2 x y cs hb hi =>
    refine hi.cons (by simp only [Percent.decode.go, hb]) ?_
    rintro ⟨_, _, _, hx, hy, _, he⟩
    cases he
    exact absurd hb (Option.isSome_iff_ne_none.mp (Percent.isSome_byte?_iff.mpr ⟨hx, hy⟩))
  case case3 c cs hno hi =>
    refine hi.cons ?_ ?_
    case refine_1 =>
      rw [Percent.decode.go]
      exact hno
    case refine_2 =>
      rintro ⟨x, y, rest, _, _, hc, he⟩
      exact hno x y rest hc he
  case case4 run =>
    have hrun := length_unescape_run_le run []
    rw [List.append_nil] at hrun
    refine ⟨hrun, ?_⟩
    rintro ⟨_, _, _, _, h⟩
    exact absurd (List.infix_nil.mp h) (List.cons_ne_nil _ _)

-- A segment is read back as it was, unless percent signs in it are taken for encoded bytes.
theorem readSegment_escape_eq_iff (segment : String) :
    readSegment (segment.toList.flatMap escape) = segment ↔ ¬Percent.Encoded segment.toList := by
  rw [← encoded_escape_iff]
  constructor
  case mp =>
    intro h he
    have hlt := (shrinks [] (segment.toList.flatMap escape)).lt he
    have h := congrArg String.toList h
    rw [readSegment, String.toList_ofList, Percent.decode] at h
    simp only [h, unescape_escape, List.length_nil, Nat.zero_add, Nat.lt_irrefl] at hlt
  case mpr =>
    intro he
    rw [readSegment, Percent.decode_of_not_encoded he, unescape_escape, String.ofList_toList]

-- Every pointer can be read from its text, and it is read as itself if and only if no segment has
-- a percent sign with two hexadecimal digits after it.
theorem parse_text (p : Pointer) :
    ∃ q, parse p.text = .ok q ∧
      (q = p ↔ ∀ segment ∈ p.segments, ¬Percent.Encoded segment.toList) := by
  refine ⟨_, parse_text_eq p, ?_⟩
  have ⟨segments⟩ := p
  have hself := List.map_inj_left (l := segments) (g := id)
    (f := fun segment => readSegment (segment.toList.flatMap escape))
  simp only [List.map_id, id_eq, readSegment_escape_eq_iff] at hself
  rw [mk.injEq, hself]

end Pointer
end ApiDescriptors
