import ApiDescriptors.Proofs.Namespace
import ApiDescriptors.Proofs.Numerals
import Mathlib.Data.Finset.Card

namespace ApiDescriptors

namespace Identifiers

-- Where an identifier is made of a word, signs become underscores and underscores are added. The
-- digits of the word stay as they are, so they tell identifiers apart.
def digits (word : List Char) : List Char :=
  word.filter (·.isDigit)

@[simp]
theorem digits_append (word word' : List Char) :
    digits (word ++ word') = digits word ++ digits word' :=
  List.filter_append ..

theorem digits_replace (c : Char) :
    digits [if isIdentifierChar c then c else '_'] = digits [c] := by
  split
  case isTrue     => rfl
  case isFalse hc =>
    have hd : c.isDigit = false := by
      simp only [isIdentifierChar, Char.isAlphanum, Bool.or_eq_true, not_or, Bool.not_eq_true] at hc
      exact hc.left.right
    simp [digits, hd]

theorem digits_map_replace (word : List Char) :
    digits (word.map fun c => if isIdentifierChar c then c else '_') = digits word := by
  induction word
  case nil => rfl
  case cons c word hi =>
    rw [List.map_cons, ← List.singleton_append, digits_append, digits_replace, hi, ← digits_append,
      List.singleton_append]

theorem digits_normalize (word : List Char) : digits (normalize word) = digits word := by
  rw [← digits_map_replace word, normalize]
  split
  case h_1 hw => rw [hw]; rfl
  case h_2 hw =>
    rw [hw]
    split <;> rfl

theorem digits_sanitize (ids : Identifiers) (candidate : String) :
    digits (ids.sanitize candidate).toList = digits candidate.toList := by
  rw [sanitize]
  split
  case isTrue =>
    have hu : digits ['_'] = [] := rfl
    rw [String.toList_push, digits_append, String.toList_ofList, digits_normalize, hu,
      List.append_nil]
  case isFalse => rw [String.toList_ofList, digits_normalize]

end Identifiers

namespace Namespace

variable {ns : Namespace} {ids : Identifiers} {base suffix : String} {n : Nat}

theorem digits_candidate :
    Identifiers.digits (candidate ids base suffix n).toList =
      Identifiers.digits base.toList ++ (if n = 0 then [] else Nat.toDigits 10 (n + 1)) ++
        Identifiers.digits suffix.toList := by
  have hd : Identifiers.digits (Nat.toDigits 10 (n + 1)) = Nat.toDigits 10 (n + 1) :=
    List.filter_eq_self.mpr fun _ hc => Number.isDigit_of_mem_toDigits hc
  rw [candidate, Identifiers.digits_sanitize]
  split
  case isTrue  => simp
  case isFalse => simp [hd]

theorem candidate_injective (ids : Identifiers) (base suffix : String) :
    Function.Injective (candidate ids base suffix) := by
  intro m n h
  have hd := congrArg (fun name => Identifiers.digits name.toList) h
  simp only [digits_candidate] at hd
  have hd := List.append_cancel_left (List.append_cancel_right hd)
  have hne (k : Nat) : Nat.toDigits 10 k ≠ [] := Nat.toDigits_ne_nil
  split at hd <;> split at hd
  case isTrue.isTrue hm hn   => rw [hm, hn]
  case isTrue.isFalse        => exact absurd hd.symm (hne _)
  case isFalse.isTrue        => exact absurd hd (hne _)
  case isFalse.isFalse       => exact Nat.succ.inj (Number.toDigits_injective hd)

theorem contains_iff {name : String} : ns.contains name ↔ name ∈ ns.claimed.map (·.1) := by
  rw [contains, List.lookup_isSome_iff, List.mem_map]
  exact exists_congr fun _ => and_congr_right' (beq_iff_eq.trans eq_comm)

-- The names that were claimed.
def names (ns : Namespace) : Finset String :=
  (ns.claimed.map (·.1)).toFinset

-- No two candidates are alike, so those before a free one are as many names.
theorem le_card_names (ht : ∀ m < n, ns.contains (candidate ids base suffix m)) :
    n ≤ ns.names.card := by
  have hs : (Finset.range n).image (candidate ids base suffix) ⊆ ns.names := by
    intro name hm
    have ⟨m, hm, he⟩ := Finset.mem_image.mp hm
    exact List.mem_toFinset.mpr (contains_iff.mp (he ▸ ht m (Finset.mem_range.mp hm)))
  have hl := Finset.card_le_card hs
  rwa [Finset.card_image_of_injective _ (candidate_injective ids base suffix),
    Finset.card_range] at hl

-- One of the candidates is free, for there are more of them than names.
theorem exists_contains_candidate_eq_false (ns : Namespace) (ids : Identifiers)
    (base suffix : String) :
    ∃ n ∈ List.range (ns.claimed.length + 1),
      ns.contains (candidate ids base suffix n) = false := by
  by_contra hall
  have hn : ns.claimed.length + 1 ≤ ns.names.card := le_card_names fun m hm => by
    by_contra hc
    exact hall ⟨m, List.mem_range.mpr hm, by simpa using hc⟩
  have hl : ns.names.card ≤ (ns.claimed.map (·.1)).length := List.toFinset_card_le _
  rw [List.length_map] at hl
  omega

-- The first candidate that is free.
theorem exists_freeName_eq_candidate (ns : Namespace) (ids : Identifiers) (base suffix : String) :
    ∃ n, ns.freeName ids base suffix = candidate ids base suffix n ∧
      ns.contains (candidate ids base suffix n) = false ∧
      ∀ m < n, ns.contains (candidate ids base suffix m) := by
  have hs : ((List.range (ns.claimed.length + 1)).find? fun n =>
      !ns.contains (candidate ids base suffix n)).isSome := by
    have ⟨n, hn, hf⟩ := exists_contains_candidate_eq_false ns ids base suffix
    exact List.find?_isSome.mpr ⟨n, hn, by simp [hf]⟩
  have ⟨n, hn⟩ := Option.isSome_iff_exists.mp hs
  have ⟨hf, _, hfirst⟩ := List.find?_range_eq_some.mp hn
  refine ⟨n, ?_, ?_, fun m hm => ?_⟩
  · rw [freeName, hn, Option.getD_some]
  · simpa using hf
  · simpa using hfirst m hm

theorem contains_freeName (ns : Namespace) (ids : Identifiers) (base suffix : String) :
    ns.contains (ns.freeName ids base suffix) = false :=
  have ⟨_, he, hf, _⟩ := ns.exists_freeName_eq_candidate ids base suffix
  he ▸ hf

-- Trying candidates

-- Candidates that are tried one after the other, from one of them on, until one is free. There is
-- no bound on their number here.
inductive Tries (ns : Namespace) (ids : Identifiers) (base suffix : String) :
    Nat → List String → Prop
  | free {n : Nat} : ns.contains (candidate ids base suffix n) = false →
    Tries ns ids base suffix n [candidate ids base suffix n]
  | taken {n : Nat} {tried} : ns.contains (candidate ids base suffix n) →
    Tries ns ids base suffix (n + 1) tried →
    Tries ns ids base suffix n (candidate ids base suffix n :: tried)

theorem Tries.unique {tried tried' : List String} (h : ns.Tries ids base suffix n tried)
    (h' : ns.Tries ids base suffix n tried') : tried = tried' := by
  induction h generalizing tried'
  case free hf =>
    cases h'
    case free       => rfl
    case taken ht _ => exact absurd ht (Bool.eq_false_iff.mp hf)
  case taken ht _ hi =>
    cases h'
    case free hf    => exact absurd ht (Bool.eq_false_iff.mp hf)
    case taken _ h' => rw [hi h']

theorem tries_range' {start : Nat}
    (hf : ns.contains (candidate ids base suffix (start + n)) = false)
    (ht : ∀ m < n, ns.contains (candidate ids base suffix (start + m))) :
    ns.Tries ids base suffix start
      ((List.range' start (n + 1)).map (candidate ids base suffix)) := by
  induction n generalizing start
  case zero => exact .free hf
  case succ n hi =>
    rw [List.range'_succ, List.map_cons]
    refine .taken (ht 0 n.succ_pos) (hi ?_ fun m hm => ?_)
    · rwa [Nat.add_assoc, Nat.add_comm 1]
    · rw [Nat.add_assoc, Nat.add_comm 1]
      exact ht (m + 1) (Nat.succ_lt_succ hm)

-- How a name that need not be exact is found: candidates are tried in turn, and the first that is
-- free is claimed. No more of them are tried than there are names, and one.
structure FirstFree (ns : Namespace) (ids : Identifiers) (base suffix : String) (n : Nat) :
    Prop where
  taken  : ∀ m < n, ns.contains (candidate ids base suffix m)
  free   : ns.contains (candidate ids base suffix n) = false
  bound  : n ≤ ns.names.card
  tries  : ∀ tried, ns.Tries ids base suffix 0 tried ↔
    tried = (List.range (n + 1)).map (candidate ids base suffix)
  claims : ∀ node, ns.claimFree ids base suffix node =
    (candidate ids base suffix n, ns.add (candidate ids base suffix n) node)

theorem exists_firstFree (ns : Namespace) (ids : Identifiers) (base suffix : String) :
    Function.Injective (candidate ids base suffix) ∧ ∃ n, ns.FirstFree ids base suffix n := by
  have ⟨n, he, hf, ht⟩ := ns.exists_freeName_eq_candidate ids base suffix
  have htries : ns.Tries ids base suffix 0
      ((List.range (n + 1)).map (candidate ids base suffix)) := by
    rw [List.range_eq_range']
    exact tries_range' (by rwa [Nat.zero_add]) fun m hm => by rw [Nat.zero_add]; exact ht m hm
  refine ⟨candidate_injective ids base suffix, n, ht, hf, le_card_names ht, fun tried => ?_, ?_⟩
  · exact ⟨fun h => h.unique htries, fun h => h ▸ htries⟩
  · exact fun node => by rw [claimFree, he]

end Namespace
end ApiDescriptors
