import ApiDescriptors.Text.Split
import Mathlib.Data.List.Basic
import Mathlib.Data.List.Count

namespace ApiDescriptors

variable {sign : Char} {part : List Char}

theorem splitAt_ne_nil (sign : Char) (cs : List Char) : splitAt sign cs ≠ [] := by
  cases cs
  case nil => nofun
  case cons =>
    rw [splitAt]
    split
    · nofun
    · split <;> nofun

theorem splitAt_of_not_mem (h : sign ∉ part) : splitAt sign part = [part] := by
  induction part
  case nil => rfl
  case cons c part hi =>
    have ⟨hne, hn⟩ := List.ne_and_not_mem_of_not_mem_cons h
    rw [splitAt, if_neg hne.symm, hi hn]

-- Text is cut at each sign on its own.
theorem splitAt_append (sign : Char) (cs rest : List Char) :
    splitAt sign (cs ++ sign :: rest) = splitAt sign cs ++ splitAt sign rest := by
  induction cs
  case nil => simp [splitAt]
  case cons c cs hi =>
    rw [List.cons_append, splitAt, splitAt, hi]
    split
    case isTrue  => rfl
    case isFalse =>
      cases hs : splitAt sign cs
      case nil  => exact absurd hs (splitAt_ne_nil sign cs)
      case cons => rfl

theorem length_splitAt (sign : Char) (cs : List Char) :
    (splitAt sign cs).length = cs.count sign + 1 := by
  induction cs
  case nil => rfl
  case cons c cs hi =>
    rw [splitAt]
    split
    case isTrue he => rw [he, List.length_cons, hi, List.count_cons_self]
    case isFalse hne =>
      cases hs : splitAt sign cs
      case nil  => exact absurd hs (splitAt_ne_nil sign cs)
      case cons => rw [List.count_cons_of_ne hne, ← hi, hs]; rfl

theorem splitAt_cons_of_ne {sign c : Char} (h : c ≠ sign) (cs : List Char) :
    ∃ part parts, splitAt sign (c :: cs) = (c :: part) :: parts := by
  cases hs : splitAt sign cs
  case nil  => exact absurd hs (splitAt_ne_nil sign cs)
  case cons part parts => exact ⟨part, parts, by rw [splitAt, if_neg h, hs]⟩

-- Text that is changed between signs only is cut at the same signs.
theorem splitAt_of_between {sign : Char} {f : List Char → List Char}
    (hf : ∀ part rest, f (part ++ sign :: rest) = f part ++ sign :: f rest)
    (hn : ∀ part, sign ∉ part → sign ∉ f part) (cs : List Char) :
    splitAt sign (f cs) = (splitAt sign cs).map f := by
  by_cases h : sign ∈ cs
  case neg => rw [splitAt_of_not_mem h, splitAt_of_not_mem (hn cs h), List.map_singleton]
  case pos =>
    obtain ⟨part, rest, rfl, hp⟩ := List.eq_append_cons_of_mem h
    rw [hf, splitAt_append, splitAt_append, splitAt_of_between hf hn rest, List.map_append,
      splitAt_of_not_mem hp, splitAt_of_not_mem (hn part hp), List.map_singleton]
termination_by cs.length

end ApiDescriptors
