import ApiDescriptors.Proofs.Locations

namespace ApiDescriptors

-- A step into a tree: to the member of a name, or to the item at an index.
inductive Step
  | member (name : String)
  | item (index : Nat)
deriving DecidableEq, Repr

-- The segment that is commonly written for a step.
def Step.text : Step → String
  | member name => name
  | item index  => Number.decimal index

namespace Json

-- The steps that the segments of a pointer stand for on the way from one value to another.
inductive Walks : Json → List String → List Step → Json → Prop
  | here {v} : Walks v [] [] v
  | member {members : Members} {name path steps v w} :
    members.lookup name = some v → Walks v path steps w →
    Walks (.obj members) (name :: path) (.member name :: steps) w
  | item {items : List Json} {i : Nat} {segment path steps v w} :
    Pointer.position? segment = some i → items[i]? = some v → Walks v path steps w →
    Walks (.arr items) (segment :: path) (.item i :: steps) w

-- Segments that stand for one step: they are the same, or numerals of the same index.
def SameStep (segment segment' : String) : Prop :=
  segment = segment' ∨
    ∃ i, Pointer.position? segment = some i ∧ Pointer.position? segment' = some i

variable {u v w w' : Json} {path path' : List String} {steps steps' : List Step}

theorem Walks.foldlM_step? (h : Walks v path steps w) :
    path.foldlM Pointer.step? v = some w := by
  induction h
  case here             => rfl
  case member hl _ hi   => simpa [Pointer.step?, hl] using hi
  case item hp hv _ hi  => simpa [Pointer.step?, hp, hv] using hi

theorem exists_walks (h : path.foldlM Pointer.step? v = some w) :
    ∃ steps, Walks v path steps w := by
  induction path generalizing v
  case nil => cases h; exact ⟨[], .here⟩
  case cons segment path hi =>
    obtain ⟨u, hs, hu⟩ := Option.bind_eq_some_iff.mp h
    obtain ⟨steps, hw⟩ := hi hu
    cases v <;> simp only [Pointer.step?, reduceCtorEq] at hs
    case obj members => exact ⟨_, .member hs hw⟩
    case arr items =>
      obtain ⟨i, hp, hv⟩ := Option.bind_eq_some_iff.mp hs
      exact ⟨_, .item hp hv hw⟩

theorem Walks.eq_nil (h : Walks v [] steps w) : steps = [] := by
  cases h
  rfl

-- Equal steps lead to one value.
theorem Walks.unique (h : Walks v path steps w) (h' : Walks v path' steps w') : w = w' := by
  induction h generalizing path'
  case here => cases h'; rfl
  case member hl _ hi =>
    cases h'
    case member hl' h' => cases hl.symm.trans hl'; exact hi h'
  case item hv _ hi =>
    cases h'
    case item hv' h' => cases hv.symm.trans hv'; exact hi h'

theorem Walks.sameStep (h : Walks v path steps w) (h' : Walks v path' steps w') :
    List.Forall₂ SameStep path path' := by
  induction h generalizing path'
  case here => cases h'; exact .nil
  case member hl _ hi =>
    cases h'
    case member hl' h' => cases hl.symm.trans hl'; exact .cons (.inl rfl) (hi h')
  case item hp hv _ hi =>
    cases h'
    case item hp' hv' h' => cases hv.symm.trans hv'; exact .cons (.inr ⟨_, hp, hp'⟩) (hi h')

-- The last step of a walk.
theorem Walks.of_concat {segment : String} (h : Walks v (path ++ [segment]) steps w) :
    ∃ steps' step u, steps = steps' ++ [step] ∧ Walks v path steps' u ∧
      Walks u [segment] [step] w := by
  induction path generalizing v steps
  case nil =>
    rw [List.nil_append] at h
    cases h
    case member hl h => cases h; exact ⟨[], _, _, rfl, .here, .member hl .here⟩
    case item hv hp h => cases h; exact ⟨[], _, _, rfl, .here, .item hp hv .here⟩
  case cons first path hi =>
    rw [List.cons_append] at h
    cases h
    case member hl h =>
      have ⟨steps', step, u, he, hu, hw⟩ := hi h
      exact ⟨_, step, u, by rw [he, List.cons_append], .member hl hu, hw⟩
    case item hv hp h =>
      have ⟨steps', step, u, he, hu, hw⟩ := hi h
      exact ⟨_, step, u, by rw [he, List.cons_append], .item hp hv hu, hw⟩

end Json

namespace Document

variable {d : Document} {p q : Pointer} {v w : Json} {steps : List Step}

-- The place in the tree that a pointer leads to.
def At (d : Document) (p : Pointer) (steps : List Step) : Prop :=
  ∃ v, d.root.Walks p.segments steps v

theorem exists_at (h : d.get? p = some v) : ∃ steps, d.At p steps :=
  have ⟨steps, hw⟩ := Json.exists_walks h
  ⟨steps, v, hw⟩

-- A pointer that is written the common way, if it leads anywhere.
def Plain (d : Document) (p : Pointer) : Prop :=
  ∀ steps, d.At p steps → p.segments = steps.map Step.text

theorem Plain.eq (hp : d.Plain p) (hq : d.Plain q) (h : d.At p steps) (h' : d.At q steps) :
    p = q :=
  congrArg Pointer.mk ((hp steps h).trans (hq steps h').symm)

theorem Noted.eq_of_walks (h : d.Noted p v) (hw : d.root.Walks p.segments steps w) : v = w := by
  have hg : d.get? p = some w := hw.foldlM_step?
  obtain hv | hm := h.get?_or_misses
  case inl => exact Option.some.inj (hv.symm.trans hg)
  case inr => cases hm.get?_eq_none.symm.trans hg

-- Reading a document adds names of members and plain indices to pointers. So the pointers by which
-- it knows its values are plain if all references are.
theorem Noted.plain
    (hr : ∀ text ∈ d.root.textsAt "$ref", ∀ q, Pointer.parse text = .ok q → d.Plain q)
    (h : d.Noted p v) : d.Plain p := by
  induction h
  case root =>
    rintro steps ⟨w, hw⟩
    rw [hw.eq_nil]
    rfl
  case member name w members hn hl hi =>
    rintro steps ⟨w, hw⟩
    have ⟨steps', step, u, he, hu, hs⟩ := hw.of_concat
    cases hn.eq_of_walks hu
    cases hs
    case member => rw [he, List.map_append, ← hi steps' ⟨_, hu⟩]; rfl
  case item i hn hv hi =>
    rintro steps ⟨w, hw⟩
    have ⟨steps', step, u, he, hu, hs⟩ := hw.of_concat
    cases hn.eq_of_walks hu
    cases hs
    case item hp _ =>
      cases hp.symm.trans (Pointer.position?_decimal i)
      rw [he, List.map_append, ← hi steps' ⟨_, hu⟩]
      rfl
  case field hn hv hname hi =>
    rintro steps ⟨w, hw⟩
    have ⟨steps', step, u, he, hu, hs⟩ := hw.of_concat
    cases hn.eq_of_walks hu
    cases hs
    case item hp _ => cases hp.symm.trans hname
  case reference p v text q w hn ht hp hg hi =>
    cases v <;> simp only [Json.get?, reduceCtorEq] at ht
    exact hr text (hn.textsAt_subset (Json.mem_textsAt ht)) q hp

end Document
end ApiDescriptors
