import ApiDescriptors.Identifiers
import Mathlib.Data.List.Basic

namespace ApiDescriptors

-- The shape of an identifier: ASCII letters, digits and underscores, with no digit at the start.
structure IsIdentifier (word : String) : Prop where
  nonempty : word ≠ ""
  chars    : ∀ c ∈ word.toList, c.isAlphanum ∨ c = '_'
  head     : ∀ c ∈ word.toList.head?, c.isDigit = false

-- An underscore at its end leaves an identifier one: the first character is still the first.
theorem IsIdentifier.push {word : String} (h : IsIdentifier word) :
    IsIdentifier (word.push '_') where
  nonempty he := by simpa using congrArg String.toList he
  chars c hc  := by
    rw [String.toList_push, List.mem_append, List.mem_singleton] at hc
    exact hc.elim (h.chars c) .inr
  head c hc   := by
    have hne : word.toList ≠ [] := fun he => h.nonempty (String.toList_eq_nil_iff.mp he)
    rw [String.toList_push, List.head?_append_of_ne_nil _ hne] at hc
    exact h.head c hc

namespace Identifiers

variable {ids : Identifiers} {cs : List Char} {c : Char} {candidate : String}

-- Words

theorem normalize_ne_nil (cs : List Char) : normalize cs ≠ [] := by
  rw [normalize]
  split
  case h_1 => nofun
  case h_2 => split <;> nofun

theorem isIdentifierChar_of_mem_map
    (h : c ∈ cs.map fun c => if isIdentifierChar c then c else '_') : isIdentifierChar c := by
  have ⟨c', _, he⟩ := List.mem_map.mp h
  subst he
  split
  case isTrue hc => exact hc
  case isFalse   => rfl

theorem isIdentifierChar_of_mem_normalize (h : c ∈ normalize cs) : isIdentifierChar c := by
  rw [normalize] at h
  split at h
  case h_1 => cases List.mem_singleton.mp h; rfl
  case h_2 first others hm =>
    have hc (hc : c ∈ first :: others) : isIdentifierChar c := isIdentifierChar_of_mem_map (hm ▸ hc)
    split at h
    case isFalse => exact hc h
    case isTrue  =>
      cases List.mem_cons.mp h
      case inl he => cases he; rfl
      case inr h  => exact hc h

theorem isDigit_of_mem_head?_normalize (h : c ∈ (normalize cs).head?) : c.isDigit = false := by
  rw [normalize] at h
  split at h
  case h_1 => cases h; rfl
  case h_2 =>
    split at h
    case isTrue     => cases h; rfl
    case isFalse hd => cases h; exact Bool.eq_false_iff.mpr hd

-- What a candidate is made into before it is looked up among the reserved words.
def wordOf (candidate : String) : String :=
  String.ofList (normalize candidate.toList)

theorem isIdentifier_wordOf (candidate : String) : IsIdentifier (wordOf candidate) where
  nonempty h := normalize_ne_nil _ (String.ofList_eq_empty_iff.mp h)
  chars c h  := by
    simpa [isIdentifierChar] using isIdentifierChar_of_mem_normalize (String.toList_ofList ▸ h)
  head c h   := isDigit_of_mem_head?_normalize (String.toList_ofList ▸ h)

-- Reserved words

theorem sanitize_of_mem (h : wordOf candidate ∈ ids.reserved) :
    ids.sanitize candidate = (wordOf candidate).push '_' :=
  if_pos h

theorem sanitize_of_not_mem (h : wordOf candidate ∉ ids.reserved) :
    ids.sanitize candidate = wordOf candidate :=
  if_neg h

theorem isIdentifier_sanitize (ids : Identifiers) (candidate : String) :
    IsIdentifier (ids.sanitize candidate) := by
  by_cases h : wordOf candidate ∈ ids.reserved
  case pos => exact sanitize_of_mem h ▸ (isIdentifier_wordOf candidate).push
  case neg => exact sanitize_of_not_mem h ▸ isIdentifier_wordOf candidate

-- The underscore is put at the end of a reserved word once. The outcome is not looked up again, so
-- it may be reserved too.
theorem exists_of_sanitize_mem_reserved (h : ids.sanitize candidate ∈ ids.reserved) :
    ∃ word ∈ ids.reserved, ids.sanitize candidate = word.push '_' := by
  by_cases hw : wordOf candidate ∈ ids.reserved
  case pos => exact ⟨_, hw, sanitize_of_mem hw⟩
  case neg => exact absurd (sanitize_of_not_mem hw ▸ h) hw

theorem push_not_mem_builtinReserved (word : String) : word.push '_' ∉ builtinReserved := by
  have hall : ∀ reserved ∈ builtinReserved, reserved.toList.getLast? ≠ some '_' := by decide
  intro h
  exact hall _ h (by simp)

end Identifiers
end ApiDescriptors
