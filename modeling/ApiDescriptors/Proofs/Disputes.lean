import ApiDescriptors.Proofs.Route

namespace ApiDescriptors.Route

open Result

variable {path name : String} {first : Pointer} {verbs verbs' : List Verb}
  {parts : List Template.Part}

-- Some verb declares a path parameter of that name.
def Declared (verbs : List Verb) (name : String) : Prop :=
  ∃ v ∈ verbs, ∃ a ∈ v.pathArguments, a.name = name

-- Two path parameters of that name, of any verbs, have types that differ in more than formats.
def Disputed (verbs : List Verb) (name : String) : Prop :=
  ∃ v ∈ verbs, ∃ w ∈ verbs, ∃ a ∈ v.pathArguments, ∃ b ∈ w.pathArguments,
    a.name = name ∧ b.name = name ∧ a.type.withoutFormats ≠ b.type.withoutFormats

instance : DecidablePred (Disputed verbs) :=
  fun name => inferInstanceAs <| Decidable <|
    ∃ v ∈ verbs, ∃ w ∈ verbs, ∃ a ∈ v.pathArguments, ∃ b ∈ w.pathArguments,
      a.name = name ∧ b.name = name ∧ a.type.withoutFormats ≠ b.type.withoutFormats

theorem declared_iff : Declared verbs name ↔ ∃ a, a ∈ declarations verbs name := by
  simp only [mem_declarations, Declared]
  grind

theorem disputed_iff : Disputed verbs name ↔
    ∃ a ∈ declarations verbs name, ∃ b ∈ declarations verbs name,
      a.type.withoutFormats ≠ b.type.withoutFormats := by
  simp only [mem_declarations, Disputed]
  grind

theorem declared_iff_of_perm (h : verbs.Perm verbs') :
    Declared verbs name ↔ Declared verbs' name := by
  simp only [Declared, h.mem_iff]

theorem disputed_iff_of_perm (h : verbs.Perm verbs') :
    Disputed verbs name ↔ Disputed verbs' name := by
  simp only [Disputed, h.mem_iff]

-- All declarations are compared with the first one only. This finds every dispute, as two types
-- that both agree with a third agree with each other.
theorem any_not_agrees_iff {main : Argument} {others : List Argument}
    (h : declarations verbs name = main :: others) :
    (others.any fun a => !a.type.agrees main.type) ↔ Disputed verbs name := by
  simp only [disputed_iff, h, List.any_eq_true, Bool.not_eq_true', ← Bool.not_eq_true,
    FieldType.agrees_iff, ← FieldType.withoutFormats_eq_iff]
  constructor
  case mp =>
    rintro ⟨a, ha, hne⟩
    exact ⟨a, List.mem_cons_of_mem _ ha, main, List.mem_cons_self, hne⟩
  case mpr =>
    rintro ⟨a, ha, b, hb, hne⟩
    by_contra hn
    have hall : ∀ c ∈ main :: others, c.type.withoutFormats = main.type.withoutFormats :=
      List.forall_mem_cons.mpr ⟨rfl, by simpa using hn⟩
    exact hne ((hall a ha).trans (hall b hb).symm)

theorem segment_of_disputed (h : Disputed verbs name) :
    segment path first verbs (.placeholder name) = .error (.inconsistentParameter path name) := by
  rw [segment]
  split
  case h_1 hd =>
    obtain ⟨_, ha, _⟩ := disputed_iff.mp h
    cases hd ▸ ha
  case h_2 hd => rw [if_pos ((any_not_agrees_iff hd).mpr h)]

theorem exists_segment_of_not_disputed (hd : Declared verbs name) (h : ¬Disputed verbs name) :
    ∃ s, segment path first verbs (.placeholder name) = .ok s := by
  rw [segment]
  split
  case h_1 hn =>
    obtain ⟨_, ha⟩ := declared_iff.mp hd
    cases hn ▸ ha
  case h_2 hc => exact ⟨_, if_neg fun ha => h ((any_not_agrees_iff hc).mp ha)⟩

-- Placeholders are typed one by one, so the first that is disputed stops this.
theorem mapM_segment_eq_error {e : Error}
    (hd : ∀ name ∈ Template.placeholders parts, Declared verbs name) :
    parts.mapM (segment path first verbs) = .error e ↔
      ∃ name, e = .inconsistentParameter path name ∧
        (Template.placeholders parts).find? (Disputed verbs ·) = some name := by
  induction parts
  case nil => simp [Template.placeholders, pure, Except.pure]
  case cons part parts hi =>
    cases part
    case literal text =>
      have hs : segment path first verbs (.literal text) = .ok (.literal text) := rfl
      rw [mapM_cons_of_ok hs, map_eq_error]
      exact hi hd
    case placeholder name =>
      have hp : Template.placeholders (.placeholder name :: parts) =
          name :: Template.placeholders parts := rfl
      rw [hp] at hd ⊢
      obtain ⟨hname, hd⟩ := List.forall_mem_cons.mp hd
      by_cases h : Disputed verbs name
      case pos =>
        rw [mapM_cons_of_error (segment_of_disputed h), List.find?_cons_of_pos (by simpa using h)]
        simp [eq_comm]
      case neg =>
        obtain ⟨s, hs⟩ := exists_segment_of_not_disputed hname h
        rw [mapM_cons_of_ok hs, map_eq_error, List.find?_cons_of_neg (by simpa using h)]
        exact hi hd

theorem ofPath_eq_error {e : Error} (hp : Template.parse path = .ok parts)
    (hd : ∀ name ∈ Template.placeholders parts, Declared verbs name) :
    ofPath path first verbs = .error e ↔
      ∃ name, e = .inconsistentParameter path name ∧
        (Template.placeholders parts).find? (Disputed verbs ·) = some name := by
  rw [ofPath, hp, ok_bind, mapM_segment_eq_error hd]

theorem exists_disputed_iff :
    (∃ name, (Template.placeholders parts).find? (Disputed verbs ·) = some name) ↔
      ∃ name ∈ Template.placeholders parts, Disputed verbs name := by
  rw [← Option.isSome_iff_exists, List.find?_isSome]
  simp only [decide_eq_true_eq]

theorem exists_ofPath_eq_ok_iff (hp : Template.parse path = .ok parts)
    (hd : ∀ name ∈ Template.placeholders parts, Declared verbs name) :
    (∃ route, ofPath path first verbs = .ok route) ↔
      ∀ name ∈ Template.placeholders parts, ¬Disputed verbs name := by
  constructor
  case mp =>
    rintro ⟨_, hr⟩ name hm h
    obtain ⟨name, hf⟩ := exists_disputed_iff.mpr ⟨name, hm, h⟩
    cases hr.symm.trans ((ofPath_eq_error hp hd).mpr ⟨name, rfl, hf⟩)
  case mpr =>
    intro hn
    cases he : ofPath path first verbs
    case ok route => exact ⟨route, rfl⟩
    case error e  =>
      obtain ⟨name, _, hf⟩ := (ofPath_eq_error hp hd).mp he
      obtain ⟨name, hm, h⟩ := exists_disputed_iff.mp ⟨name, hf⟩
      exact absurd h (hn name hm)

-- Where every placeholder is declared, typing a path fails for the first placeholder that verbs
-- dispute about, and for nothing else, so the order of the verbs does not matter.
theorem disputes_of_parse (first : Pointer) (hp : Template.parse path = .ok parts)
    (hd : ∀ name ∈ Template.placeholders parts, Declared verbs name) :
    (∀ e, ofPath path first verbs = .error e ↔
      ∃ name, e = .inconsistentParameter path name ∧
        (Template.placeholders parts).find? (Disputed verbs ·) = some name) ∧
    ((∃ name, ofPath path first verbs = .error (.inconsistentParameter path name)) ↔
      ∃ name ∈ Template.placeholders parts, Disputed verbs name) ∧
    ∀ first' verbs', verbs.Perm verbs' →
      ((∃ route, ofPath path first verbs = .ok route) ↔
        ∃ route, ofPath path first' verbs' = .ok route) := by
  refine ⟨fun e => ofPath_eq_error hp hd, ?_, fun first' verbs' h => ?_⟩
  case refine_1 =>
    simp only [ofPath_eq_error hp hd, Error.inconsistentParameter.injEq, true_and,
      exists_eq_left', exists_disputed_iff]
  case refine_2 =>
    have hd' : ∀ name ∈ Template.placeholders parts, Declared verbs' name :=
      fun name hm => (declared_iff_of_perm h).mp (hd name hm)
    simp only [exists_ofPath_eq_ok_iff hp hd, exists_ofPath_eq_ok_iff hp hd',
      disputed_iff_of_perm h]

def pathArgument (name : String) (type : FieldType) : Argument where
  name
  identifier  := name
  location    := .path
  required    := true
  type
  description := none

def sampleVerb (method : Method) (arguments : List Argument) : Verb where
  method
  functionName   := method.key
  operationId    := none
  location       := ⟨[method.key]⟩
  summary        := none
  description    := none
  tags           := []
  deprecated     := false
  arguments
  body           := none
  responseStatus := none
  responseType   := none
  serializer     := none
  many           := false
  standalone     := false

-- Three verbs that agree about `petId` up to its format. The last two dispute about `tag`, which
-- the first does not declare.
def disputants : List Verb :=
  [sampleVerb .get [pathArgument "petId" (.scalar .integer none)],
   sampleVerb .put [pathArgument "petId" (.scalar .integer (some "int64")),
     pathArgument "tag" (.array (.array (.scalar .string (some "byte"))))],
   sampleVerb .delete [pathArgument "tag" (.array (.array (.scalar .integer none)))]]

theorem exists_disputes_disputants : ∃ parts,
    Template.parse "/pets/{petId}/{tag}" = .ok parts ∧
    Template.placeholders parts = ["petId", "tag"] ∧
    (∀ name ∈ Template.placeholders parts, Declared disputants name) ∧
    (Template.placeholders parts).find? (Disputed disputants ·) = some "tag" ∧
    ofPath "/pets/{petId}/{tag}" .root disputants =
      .error (.inconsistentParameter "/pets/{petId}/{tag}" "tag") ∧
    (∃ name ∈ Template.placeholders parts, Disputed disputants name) ∧
    ¬∃ route, ofPath "/pets/{petId}/{tag}" .root disputants.reverse = .ok route := by
  have hb : (Template.parse "/pets/{petId}/{tag}").toOption.map
      (Template.placeholders ·) = some ["petId", "tag"] := by decide +kernel
  obtain ⟨parts, hp, hn⟩ := exists_of_map_toOption_eq_some hb
  have hd : ∀ name ∈ Template.placeholders parts, Declared disputants name := by
    rw [hn]
    unfold Declared
    decide +kernel
  have hf : (Template.placeholders parts).find? (Disputed disputants ·) = some "tag" := by
    rw [hn]
    decide +kernel
  obtain ⟨he, hi, ho⟩ := disputes_of_parse .root hp hd
  have htag := (he _).mpr ⟨"tag", rfl, hf⟩
  refine ⟨parts, hp, hn, hd, hf, htag, hi.mp ⟨"tag", htag⟩, ?_⟩
  rw [← ho .root _ disputants.reverse_perm.symm, htag]
  nofun

end ApiDescriptors.Route
