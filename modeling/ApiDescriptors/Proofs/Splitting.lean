import ApiDescriptors.Proofs.Template
import Mathlib.Data.List.Chain
import Mathlib.Data.List.TakeWhile

namespace ApiDescriptors.Template

-- What may stand between the braces of a placeholder.
structure IsName (name : List Char) : Prop where
  nonempty : name ≠ []
  opening  : '\x7b' ∉ name
  closing  : '\x7d' ∉ name
  slash    : '/' ∉ name

-- A name in braces is a part of a text, and comes after what is before.
def Occurs (cs before name : List Char) : Prop :=
  IsName name ∧ ∃ after, cs = before ++ '\x7b' :: (name ++ '\x7d' :: after)

-- A name in braces occurs at two places of a text.
def Repeats (cs name : List Char) : Prop :=
  ∃ before before', before ≠ before' ∧ Occurs cs before name ∧ Occurs cs before' name

-- A placeholder is one of some parts, and comes after parts with the text before.
def Stands (parts : List Part) (before name : List Char) : Prop :=
  ∃ left right, parts = left ++ .placeholder (String.ofList name) :: right ∧
    left.flatMap (·.text) = before

def Part.isLiteral : Part → Bool
  | literal _     => true
  | placeholder _ => false

-- A text as placeholders, which are all the names in braces that occur in it, and as literals,
-- which are all that is between them.
structure Splits (cs : List Char) (parts : List Part) : Prop where
  text         : parts.flatMap (·.text) = cs
  placeholders : ∀ before name, Stands parts before name ↔ Occurs cs before name
  nonempty     : ∀ word, .literal word ∈ parts → word ≠ ""
  literals     : ∀ word, .literal word ∈ parts → ∀ before name, ¬Occurs word.toList before name
  apart        : parts.IsChain fun part next => part.isLiteral → ¬next.isLiteral

variable {cs word name rest before l : List Char} {c : Char} {part : Part}
  {parts parts' left right : List Part} {path : String}

-- Names in braces

theorem isName_iff : IsName name ↔ name ≠ [] ∧ ∀ c ∈ name, isNameChar c := by
  constructor
  case mp =>
    intro h
    refine ⟨h.nonempty, fun c hc => ?_⟩
    have ho : c ≠ '\x7b' := fun he => h.opening (he ▸ hc)
    have hc' : c ≠ '\x7d' := fun he => h.closing (he ▸ hc)
    have hs : c ≠ '/' := fun he => h.slash (he ▸ hc)
    simp [isNameChar, ho, hc', hs]
  case mpr =>
    rintro ⟨hn, hall⟩
    have hnot (c : Char) (hc : isNameChar c = false) : c ∉ name :=
      fun hm => Bool.false_ne_true (hc.symm.trans (hall c hm))
    exact ⟨hn, hnot _ rfl, hnot _ rfl, hnot _ rfl⟩

theorem name?_eq_some_iff :
    name? cs = some (name, rest) ↔ IsName name ∧ cs = name ++ '\x7d' :: rest := by
  rw [isName_iff]
  constructor
  case mp =>
    intro h
    refine ⟨?_, name?_eq_some h⟩
    simp only [name?] at h
    split at h <;> cases h
    case h_2 ht _ => exact ⟨List.cons_ne_nil _ _, fun c hc => List.mem_takeWhile_imp (ht ▸ hc)⟩
  case mpr =>
    rintro ⟨⟨hn, hall⟩, rfl⟩
    have hclose : isNameChar '\x7d' = false := rfl
    have ht : (name ++ '\x7d' :: rest).takeWhile isNameChar = name := by
      simp [List.takeWhile_append_of_pos hall, hclose]
    have hd : (name ++ '\x7d' :: rest).dropWhile isNameChar = '\x7d' :: rest := by
      simp [List.dropWhile_append_of_pos hall, hclose]
    rw [name?, ht, hd]
    cases name
    case nil  => cases hn rfl
    case cons => rfl

theorem not_occurs_nil : ¬Occurs [] before name := by
  rintro ⟨_, after, he⟩
  cases before <;> cases he

theorem occurs_cons_iff :
    Occurs (c :: cs) before name ↔
      (before = [] ∧ c = '\x7b' ∧ ∃ rest, name? cs = some (name, rest)) ∨
      ∃ before', before = c :: before' ∧ Occurs cs before' name := by
  cases before
  case nil =>
    simp only [Occurs, name?_eq_some_iff, List.nil_append, List.cons.injEq]
    grind
  case cons b before =>
    simp only [Occurs, List.cons_append, List.cons.injEq]
    grind

theorem occurs_append_append_iff (l : List Char) :
    Occurs (l ++ cs) (l ++ before) name ↔ Occurs cs before name := by
  simp only [Occurs, List.append_assoc, List.append_cancel_left_eq]

-- Without an opening brace nothing begins.
theorem occurs_append_iff_of_not_mem (h : '\x7b' ∉ l) :
    Occurs (l ++ cs) before name ↔ ∃ before', before = l ++ before' ∧ Occurs cs before' name := by
  induction l generalizing before
  case nil => simp
  case cons c l hi =>
    have ⟨hc, hl⟩ := List.ne_and_not_mem_of_not_mem_cons h
    rw [List.cons_append, occurs_cons_iff, or_iff_right fun hn => hc hn.right.left.symm]
    simp only [hi hl]
    grind

theorem Occurs.length_lt (h : Occurs cs before name) : before.length < cs.length := by
  have ⟨_, after, he⟩ := h
  rw [he, List.length_append, List.length_cons]
  omega

theorem Occurs.append (h : Occurs cs before name) (l : List Char) :
    Occurs (cs ++ l) before name := by
  have ⟨hn, after, he⟩ := h
  exact ⟨hn, after ++ l, by simp [he]⟩

-- Placeholders among parts

theorem not_stands_nil : ¬Stands [] before name := by
  rintro ⟨left, right, he, _⟩
  cases left <;> cases he

theorem stands_cons_iff :
    Stands (part :: parts) before name ↔
      (before = [] ∧ part = .placeholder (String.ofList name)) ∨
      ∃ before', before = part.text ++ before' ∧ Stands parts before' name := by
  constructor
  case mp =>
    rintro ⟨left, right, he, rfl⟩
    cases left <;> cases he
    case nil  => exact .inl ⟨rfl, rfl⟩
    case cons => exact .inr ⟨_, List.flatMap_cons, _, _, rfl, rfl⟩
  case mpr =>
    rintro (⟨rfl, rfl⟩ | ⟨_, rfl, left, right, rfl, rfl⟩)
    · exact ⟨[], parts, rfl, rfl⟩
    · exact ⟨part :: left, right, rfl, List.flatMap_cons⟩

theorem stands_literal_append_iff :
    Stands (literal word ++ parts) before name ↔
      ∃ before', before = word.reverse ++ before' ∧ Stands parts before' name := by
  rw [literal]
  split
  case isTrue he => simp [List.isEmpty_iff.mp he]
  case isFalse   => simp [stands_cons_iff, Part.text]

-- Where a template is cut, each name in braces that occurs in it becomes a placeholder.
theorem stands_cut_iff :
    Stands (cut word cs) before name ↔
      ∃ before', before = word.reverse ++ before' ∧ Occurs cs before' name := by
  fun_induction cut word cs generalizing before
  case case1 word =>
    rw [← List.append_nil (literal word), stands_literal_append_iff]
    simp [not_stands_nil, not_occurs_nil]
  case case2 word cs name' rest h hi =>
    obtain ⟨hname, hcs⟩ := name?_eq_some_iff.mp h
    have ho : '\x7b' ∉ name' ++ ['\x7d'] := by simp [hname.opening]
    have hrest : cs = name' ++ ['\x7d'] ++ rest := by simp [hcs]
    rw [stands_literal_append_iff]
    refine exists_congr fun before' => and_congr_right fun _ => ?_
    rw [stands_cons_iff, occurs_cons_iff]
    refine or_congr (and_congr_right fun _ => ?_) ?_
    · simp [h, String.ofList_inj]
    · simp only [hi, hrest, occurs_append_iff_of_not_mem ho]
      simp [Part.text]
  case case3 word cs h hi =>
    simp only [hi, occurs_cons_iff]
    grind
  case case4 word c cs hc hi =>
    simp only [hi, occurs_cons_iff]
    grind

-- The shape of what is cut

theorem text_ne_nil_of_mem_literal (h : part ∈ literal word) : part.text ≠ [] := by
  rw [literal] at h
  split at h
  case isTrue     => cases h
  case isFalse hn =>
    cases List.mem_singleton.mp h
    simpa [Part.text] using hn

theorem text_ne_nil_of_mem_cut (h : part ∈ cut word cs) : part.text ≠ [] := by
  fun_induction cut word cs
  case case1 => exact text_ne_nil_of_mem_literal h
  case case2 hi =>
    cases List.mem_append.mp h
    case inl h => exact text_ne_nil_of_mem_literal h
    case inr h =>
      cases h
      case head   => exact List.cons_ne_nil _ _
      case tail h => exact hi h
  case case3 hi => exact hi h
  case case4 hi => exact hi h

theorem apart_cut (word cs : List Char) :
    (cut word cs).IsChain fun part next => part.isLiteral → ¬next.isLiteral := by
  fun_induction cut word cs
  case case1 word =>
    rw [literal]
    split <;> simp
  case case2 word _ name _ _ hi =>
    have hp : (Part.placeholder (String.ofList name)).isLiteral = false := rfl
    rw [literal]
    split <;> simpa [List.isChain_cons, hp] using hi
  case case3 hi => exact hi
  case case4 hi => exact hi

-- Parts that follow the first one

theorem stands_cons_append_iff (h : part.text ≠ []) :
    Stands (part :: parts) (part.text ++ before) name ↔ Stands parts before name := by
  rw [stands_cons_iff]
  simp [h]

theorem stands_iff_of_cons (h : part.text ≠ [])
    (hs : ∀ before name, Stands (part :: parts) before name ↔ Occurs (part.text ++ cs) before name)
    (before name : List Char) : Stands parts before name ↔ Occurs cs before name := by
  rw [← stands_cons_append_iff h, hs, occurs_append_append_iff]

-- A literal holds no name in braces: it would be a placeholder, but none begins inside of a
-- literal.
theorem not_occurs_of_mem_literal {word : String} (hn : ∀ part ∈ parts, part.text ≠ [])
    (hs : ∀ before name, Stands parts before name ↔ Occurs (parts.flatMap (·.text)) before name)
    (hm : .literal word ∈ parts) : ¬Occurs word.toList before name := by
  induction parts
  case nil => cases hm
  case cons part parts hi =>
    have ⟨hp, hn⟩ := List.forall_mem_cons.mp hn
    rw [List.flatMap_cons] at hs
    cases hm
    case tail hm => exact hi hn (stands_iff_of_cons hp hs) hm
    case head =>
      intro ho
      obtain ⟨_, he⟩ | ⟨before', rfl, _⟩ := stands_cons_iff.mp ((hs _ _).mpr (ho.append _))
      case inl => cases he
      case inr =>
        have hl := ho.length_lt
        rw [Part.text, List.length_append] at hl
        omega

theorem splits_cut (cs : List Char) : Splits cs (cut [] cs) := by
  have hn (part : Part) (hm : part ∈ cut [] cs) : part.text ≠ [] := text_ne_nil_of_mem_cut hm
  have ht : (cut [] cs).flatMap (·.text) = cs := text_cut [] cs
  have hs (before name : List Char) : Stands (cut [] cs) before name ↔ Occurs cs before name := by
    simp [stands_cut_iff]
  constructor
  case text         => exact ht
  case placeholders => exact hs
  case nonempty     => exact fun word hm he => hn _ hm (he ▸ rfl)
  case literals     => exact fun _ hm _ _ => not_occurs_of_mem_literal hn (ht.symm ▸ hs) hm
  case apart        => exact apart_cut [] cs

-- There is one way only

namespace Splits

theorem text_ne_nil (h : Splits cs parts) (hm : part ∈ parts) : part.text ≠ [] := by
  cases part
  case placeholder => nofun
  case literal word => exact fun he => h.nonempty word hm (String.toList_eq_nil_iff.mp he)

theorem tail (h : Splits cs (part :: parts)) :
    ∃ rest, cs = part.text ++ rest ∧ Splits rest parts := by
  have ht := h.text.symm.trans List.flatMap_cons
  refine ⟨parts.flatMap (·.text), ht, ?_⟩
  constructor
  case text         => rfl
  case placeholders =>
    refine stands_iff_of_cons (h.text_ne_nil List.mem_cons_self) fun before name => ?_
    rw [h.placeholders, ht]
  case nonempty     => exact fun word hm => h.nonempty word (List.mem_cons_of_mem _ hm)
  case literals     => exact fun word hm => h.literals word (List.mem_cons_of_mem _ hm)
  case apart        => exact h.apart.tail

theorem head_placeholder {name : String} {part' : Part}
    (h : Splits cs (.placeholder name :: parts)) (h' : Splits cs (part' :: parts')) :
    part' = .placeholder name := by
  have hp := h'.text_ne_nil List.mem_cons_self
  have hs : Stands (.placeholder name :: parts) [] name.toList := by simp [stands_cons_iff]
  have hs := (h'.placeholders _ _).mpr ((h.placeholders _ _).mp hs)
  obtain ⟨_, he⟩ | ⟨_, he, _⟩ := stands_cons_iff.mp hs
  case inl => simpa using he
  case inr => exact absurd (List.append_eq_nil_iff.mp he.symm).left hp

-- A literal ends where a placeholder stands, or the text ends.
theorem length_le_of_literal {word word' : String} (h : Splits cs (.literal word :: parts))
    (h' : Splits cs (.literal word' :: parts')) : word'.toList.length ≤ word.toList.length := by
  cases parts
  case nil =>
    have hl := congrArg List.length (h.text.trans h'.text.symm)
    simp only [List.flatMap_cons, List.flatMap_nil, List.append_nil, Part.text,
      List.length_append] at hl
    omega
  case cons next parts =>
    cases next
    case literal => exact absurd rfl ((List.isChain_cons_cons.mp h.apart).left rfl)
    case placeholder name =>
      have hs : Stands (.literal word :: .placeholder name :: parts) word.toList name.toList :=
        ⟨[.literal word], parts, by simp, by simp [Part.text]⟩
      have hs := (h'.placeholders _ _).mpr ((h.placeholders _ _).mp hs)
      obtain ⟨_, he⟩ | ⟨_, he, _⟩ := stands_cons_iff.mp hs
      case inl => cases he
      case inr =>
        rw [he, Part.text, List.length_append]
        omega

theorem unique (h : Splits cs parts) (h' : Splits cs parts') : parts = parts' := by
  induction parts generalizing cs parts'
  case nil =>
    cases parts'
    case nil => rfl
    case cons =>
      have he := List.append_eq_nil_iff.mp (h'.text.trans h.text.symm)
      exact absurd he.left (h'.text_ne_nil List.mem_cons_self)
  case cons part parts hi =>
    cases parts'
    case nil =>
      have he := List.append_eq_nil_iff.mp (h.text.trans h'.text.symm)
      exact absurd he.left (h.text_ne_nil List.mem_cons_self)
    case cons part' parts' =>
      have hp : part = part' := by
        cases part
        case placeholder => exact (h.head_placeholder h').symm
        case literal word =>
          cases part'
          case placeholder   => exact h'.head_placeholder h
          case literal word' =>
            have hl := Nat.le_antisymm (h'.length_le_of_literal h) (h.length_le_of_literal h')
            have he := (List.append_inj (h.text.trans h'.text.symm) hl).left
            exact congrArg _ (String.toList_inj.mp he)
      subst hp
      have ⟨rest, he, ht⟩ := h.tail
      have ⟨rest', he', ht'⟩ := h'.tail
      cases List.append_cancel_left (he.symm.trans he')
      rw [hi ht ht']

end Splits

-- Placeholders that are repeated

theorem mem_placeholders_iff {name : String} :
    name ∈ placeholders parts ↔ ∃ before, Stands parts before name.toList := by
  have hm : name ∈ placeholders parts ↔ .placeholder name ∈ parts := by
    rw [placeholders, List.mem_filterMap]
    constructor
    case mp =>
      rintro ⟨part, hm, he⟩
      split at he <;> cases he
      exact hm
    case mpr => exact fun hm => ⟨_, hm, rfl⟩
  rw [hm, List.mem_iff_append]
  simp only [Stands, String.ofList_toList]
  grind

-- Each name stands at one place only.
def Once (parts : List Part) : Prop :=
  ∀ before before' name, Stands parts before name → Stands parts before' name → before = before'

theorem once_cons_iff (h : part.text ≠ []) :
    Once (part :: parts) ↔
      (∀ before name, part = .placeholder (String.ofList name) → ¬Stands parts before name) ∧
        Once parts := by
  simp only [Once, stands_cons_iff]
  constructor
  case mp =>
    intro ho
    constructor
    case left =>
      intro before name hp hs
      have he := ho [] (part.text ++ before) name (.inl ⟨rfl, hp⟩) (.inr ⟨before, rfl, hs⟩)
      exact h (List.append_eq_nil_iff.mp he.symm).left
    case right =>
      intro before before' name hs hs'
      have he := ho _ _ name (.inr ⟨before, rfl, hs⟩) (.inr ⟨before', rfl, hs'⟩)
      exact List.append_cancel_left he
  case mpr =>
    rintro ⟨hfirst, ho⟩ _ _ name (⟨rfl, hp⟩ | ⟨_, rfl, hs⟩) (⟨rfl, hp'⟩ | ⟨_, rfl, hs'⟩)
    · rfl
    · exact absurd hs' (hfirst _ name hp)
    · exact absurd hs (hfirst _ name hp')
    · rw [ho _ _ name hs hs']

theorem nodup_placeholders_iff (h : ∀ part ∈ parts, part.text ≠ []) :
    (placeholders parts).Nodup ↔ Once parts := by
  induction parts
  case nil => simp [placeholders, Once, not_stands_nil]
  case cons part parts hi =>
    have ⟨hp, hn⟩ := List.forall_mem_cons.mp h
    rw [once_cons_iff hp, ← hi hn]
    cases part
    case literal => simp [placeholders]
    case placeholder other =>
      have he : placeholders (.placeholder other :: parts) = other :: placeholders parts := rfl
      rw [he, List.nodup_cons, mem_placeholders_iff]
      refine and_congr_left' ⟨fun hn before name he hs => ?_, fun hn hs => ?_⟩
      · cases he
        exact hn ⟨before, by rwa [String.toList_ofList]⟩
      · have ⟨before, hs⟩ := hs
        exact hn before _ (by rw [String.ofList_toList]) hs

theorem not_repeats_iff :
    (¬∃ name, Repeats cs name) ↔ (placeholders (cut [] cs)).Nodup := by
  rw [nodup_placeholders_iff fun part hm => text_ne_nil_of_mem_cut hm]
  simp only [Once, (splits_cut cs).placeholders, Repeats]
  grind

-- A template is read as the only parts that it splits into, unless a placeholder is repeated.
structure Decomposes (path : String) : Prop where
  fails  : (∃ e, parse path = .error e) ↔ ∃ name, Repeats path.toList name
  splits : ∀ parts, parse path = .ok parts ↔
    (¬∃ name, Repeats path.toList name) ∧ Splits path.toList parts

theorem decomposes_parse (path : String) : Decomposes path := by
  have hs (parts : List Part) : parse path = .ok parts ↔
      (¬∃ name, Repeats path.toList name) ∧ Splits path.toList parts := by
    rw [parse_eq_ok, not_repeats_iff]
    constructor
    case mp =>
      rintro ⟨rfl, hn⟩
      exact ⟨hn, splits_cut _⟩
    case mpr =>
      rintro ⟨hn, hs⟩
      cases hs.unique (splits_cut _)
      exact ⟨rfl, hn⟩
  refine ⟨?_, hs⟩
  rw [← not_iff_not]
  constructor
  case mp =>
    intro hn
    cases he : parse path
    case ok parts => exact ((hs parts).mp he).left
    case error e  => exact absurd ⟨e, he⟩ hn
  case mpr =>
    rintro hn ⟨e, he⟩
    cases he.symm.trans ((hs _).mpr ⟨hn, splits_cut _⟩)

-- Braces that are open, empty, nested or around a slash are literal text.
example : (parse "/\x7b\x7bid\x7d\x7b\x7d/\x7ba/b\x7d\x7b").toOption = some [
    .literal "/\x7b", .placeholder "id", .literal "\x7b\x7d/\x7ba/b\x7d\x7b"] := by
  decide +kernel

end ApiDescriptors.Template
