import ApiDescriptors.Proofs.Result
import ApiDescriptors.Template
import Mathlib.Data.List.Nodup

namespace ApiDescriptors.Template

variable {cs word name rest : List Char} {seen names : List String} {path : String}
  {parts : List Part}

def Part.text : Part → List Char
  | .literal text     => text.toList
  | .placeholder name => '\x7b' :: name.toList ++ ['\x7d']

-- The template that is made of some parts.
def write (parts : List Part) : String :=
  String.ofList (parts.flatMap (·.text))

theorem name?_eq_some (h : name? cs = some (name, rest)) : cs = name ++ '\x7d' :: rest := by
  have hcs := List.takeWhile_append_dropWhile (p := isNameChar) (l := cs)
  simp only [name?] at h
  split at h <;> cases h
  rw [← hcs]
  simp [*]

theorem text_literal (word : List Char) : (literal word).flatMap (·.text) = word.reverse := by
  simp only [literal]
  split
  case isTrue he => rw [List.isEmpty_iff.mp he]; rfl
  case isFalse   => simp [Part.text]

-- Cutting loses no character.
theorem text_cut (word cs : List Char) : (cut word cs).flatMap (·.text) = word.reverse ++ cs := by
  fun_induction cut word cs
  case case1 word => rw [text_literal, List.append_nil]
  case case2 word cs name rest h hi =>
    rw [List.flatMap_append, List.flatMap_cons, hi, text_literal, name?_eq_some h]
    simp [Part.text]
  case case3 hi => rw [hi]; simp
  case case4 hi => rw [hi]; simp

theorem repeated?_eq_none :
    repeated? seen names = none ↔ names.Nodup ∧ ∀ name ∈ names, name ∉ seen := by
  induction names generalizing seen
  case nil => simp [repeated?]
  case cons name names hi =>
    simp only [repeated?]
    split
    case isTrue hm  => simp [hm]
    case isFalse hn =>
      rw [hi, List.nodup_cons, List.forall_mem_cons]
      grind

theorem parse_eq_ok :
    parse path = .ok parts ↔ parts = cut [] path.toList ∧ (placeholders parts).Nodup := by
  simp only [parse]
  split
  case h_1 name hr =>
    refine ⟨nofun, ?_⟩
    rintro ⟨rfl, hn⟩
    have hnone : repeated? [] (placeholders (cut [] path.toList)) = none :=
      repeated?_eq_none.mpr ⟨hn, fun _ _ => List.not_mem_nil⟩
    cases hr.symm.trans hnone
  case h_2 hr =>
    rw [Except.ok.injEq, eq_comm, iff_self_and]
    rintro rfl
    exact (repeated?_eq_none.mp hr).left

theorem failsWith_parse {P : Error → Prop} (h : ∀ name, P (.repeatedPlaceholder path name)) :
    (parse path).FailsWith P := by
  simp only [parse]
  split
  · exact .error (h _)
  · exact .ok _

theorem write_of_parse (h : parse path = .ok parts) : write parts = path := by
  rw [write, (parse_eq_ok.mp h).left, text_cut, List.reverse_nil, List.nil_append,
    String.ofList_toList]

end ApiDescriptors.Template
