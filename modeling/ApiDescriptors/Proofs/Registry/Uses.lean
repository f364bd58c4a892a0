import ApiDescriptors.Proofs.Registry.Build
import ApiDescriptors.Proofs.Schema.Faithful

namespace ApiDescriptors

open Result

-- A schema as a verb uses it, for its body or for its response.
structure Use where
  type       : Option FieldType
  serializer : Option SerializerRef
  many       : Bool
deriving DecidableEq

namespace Verb

def bodyUse? (v : Verb) : Option Use :=
  v.body.map fun b => { type := some b.type, serializer := b.serializer, many := b.many }

def response (v : Verb) : Use where
  type       := v.responseType
  serializer := v.serializer
  many       := v.many

def uses (v : Verb) : List Use :=
  v.bodyUse?.toList ++ [v.response]

end Verb

-- The type of a use tells whether it has a serializer, and whether that is used for a list.
structure Use.Coherent (u : Use) : Prop where
  one   : ∀ key,
    (u.serializer.map (·.schema) = some key ∧ u.many = false) ↔ u.type = some (.object key)
  list  : ∀ key,
    (u.serializer.map (·.schema) = some key ∧ u.many = true) ↔ u.type = some (.array (.object key))
  other : (u.serializer = none ∧ u.many = false) ↔
    ∀ key, u.type ≠ some (.object key) ∧ u.type ≠ some (.array (.object key))

theorem Use.Coherent.of_type_none : Use.Coherent ⟨none, none, false⟩ := by
  constructor <;> simp

theorem Use.Coherent.of_fits {serializers : List Serializer} {type : FieldType}
    {ref : Option SerializerRef} {many : Bool} (h : Verb.Fits serializers type ref many) :
    Use.Coherent ⟨some type, ref, many⟩ := by
  cases h
  case one  => constructor <;> simp [eq_comm]
  case list => constructor <;> simp [eq_comm]
  case none h =>
    have hone (key : Pointer) : type ≠ .object key := by rintro rfl; cases h
    have hlist (key : Pointer) : type ≠ .array (.object key) := by rintro rfl; cases h
    constructor <;> simp [hone, hlist]

namespace Registry

def uses (g : Registry) : List Use :=
  g.verbs.flatMap (·.uses)

-- A use of the schema at a site that an operation of the document declares. The verb of an
-- operation is the one with the function name for it.
inductive UsedAt (d : Document) (o : Options) (g : Registry) : Pointer → Use → Prop
  | body {paths declared op v site u} :
    d.paths = .ok paths → declared ∈ paths → op ∈ declared.operations →
    v ∈ g.verbs → v.functionName = Verb.nameFor o.identifiers declared.template op →
    Verb.bodySite? op = some site → v.bodyUse? = some u → UsedAt d o g site u
  | response {paths declared op v site} :
    d.paths = .ok paths → declared ∈ paths → op ∈ declared.operations →
    v ∈ g.verbs → v.functionName = Verb.nameFor o.identifiers declared.template op →
    Verb.responseSite? op = some site → UsedAt d o g site v.response

variable {d : Document} {o : Options} {g : Registry} {paths : List PathEntry} {r : Resolution}
variable {entries : List PathVerbs} {p q : Pointer} {u u' : Use}

namespace Stages

variable (h : Stages d o g paths r entries)
include h

theorem fits_of_mem_uses (hu : u ∈ g.uses) :
    u = ⟨none, none, false⟩ ∨ ∃ type, u.type = some type ∧
      Verb.Fits g.serializers type u.serializer u.many := by
  have ⟨v, hv, hu⟩ := List.mem_flatMap.mp hu
  have ⟨_, he, hv⟩ := h.exists_entry_of_mem_verbs hv
  have ⟨_, _, _, _, hv⟩ := h.describe_of_mem_verbs he hv
  have ⟨_, _, hb, hr, _⟩ := Verb.describe_eq_ok.mp hv
  cases List.mem_append.mp hu
  case inl hu =>
    have ⟨b, hs, hu⟩ := Option.map_eq_some_iff.mp (Option.mem_toList.mp hu)
    have ⟨_, _, hb⟩ := Verb.bodyUse_eq_ok (hs ▸ hb)
    exact .inr <| hu ▸ ⟨b.type, rfl, (Verb.schemaUse_eq_ok hb).right⟩
  case inr hu =>
    cases List.mem_singleton.mp hu
    obtain ⟨_, ht, hs, hm⟩ | ⟨_, type, _, ht, hu⟩ := Verb.responseUse_eq_ok hr
    case inl => exact .inl (by rw [Verb.response, ht, hs, hm])
    case inr => exact .inr ⟨type, ht, (Verb.schemaUse_eq_ok hu).right⟩

theorem coherent_of_mem_uses (hu : u ∈ g.uses) : u.Coherent := by
  obtain rfl | ⟨type, ht, hf⟩ := h.fits_of_mem_uses hu
  case inl => exact .of_type_none
  case inr =>
    have ⟨_, _, _⟩ := u
    subst ht
    exact .of_fits hf

-- One schema has one reference, wherever it is used.
theorem ref_eq_of_mem_uses {ref ref' : SerializerRef} (hu : u ∈ g.uses) (hu' : u' ∈ g.uses)
    (hr : u.serializer = some ref) (hr' : u'.serializer = some ref')
    (he : ref.schema = ref'.schema) : ref = ref' := by
  have hfind {u : Use} {ref : SerializerRef} (hu : u ∈ g.uses) (hr : u.serializer = some ref) :
      ∃ s, g.serializer? ref.schema = some s ∧ ref = ⟨ref.schema, s.className⟩ := by
    obtain rfl | ⟨_, _, hf⟩ := h.fits_of_mem_uses hu
    case inl => cases hr
    case inr =>
      have ⟨s, hs, hc⟩ := (hr ▸ hf).exists_find?
      exact ⟨s, hs, by rw [hc]⟩
  have ⟨_, hs, hc⟩ := hfind hu hr
  have ⟨_, hs', hc'⟩ := hfind hu' hr'
  cases (he ▸ hs).symm.trans hs'
  rw [hc, hc', he]

theorem fits_of_usedAt (hu : UsedAt d o g p u) :
    ∃ type, u.type = some type ∧ r.fieldType p = .ok type ∧
      Verb.Fits g.serializers type u.serializer u.many := by
  cases hu
  case body hp hd ho hv hn hs hu =>
    cases hp.symm.trans h.read
    have ⟨_, _, hb, _⟩ := Verb.describe_eq_ok.mp (h.describe_of_functionName hv hd ho hn)
    have ⟨b, he, hu⟩ := Option.map_eq_some_iff.mp hu
    have ⟨_, hs', hb⟩ := Verb.bodyUse_eq_ok (he ▸ hb)
    cases hs'.symm.trans hs
    exact hu ▸ ⟨b.type, rfl, Verb.schemaUse_eq_ok hb⟩
  case response hp hd ho hv hn hs =>
    cases hp.symm.trans h.read
    have ⟨_, _, _, hr, _⟩ := Verb.describe_eq_ok.mp (h.describe_of_functionName hv hd ho hn)
    obtain ⟨hn, _⟩ | ⟨_, type, hs', ht, hu⟩ := Verb.responseUse_eq_ok hr
    case inl => cases hn.symm.trans hs
    case inr =>
      cases hs'.symm.trans hs
      exact ⟨type, ht, Verb.schemaUse_eq_ok hu⟩

-- What a use at a site looks like follows from the object that the site leads to.
theorem eq_of_usedAt {usage : Resolution.Usage} (hu : UsedAt d o g p u)
    (hp : r.usage? p = some usage) :
    ∃ s, g.serializer? usage.schema = some s ∧ u = {
      type       :=
        some (if usage.many then .array (.object usage.schema) else .object usage.schema)
      serializer := some ⟨usage.schema, s.className⟩
      many       := usage.many
    } := by
  have ⟨type, ht, hf, hfit⟩ := h.fits_of_usedAt hu
  rw [Resolution.usage?_eq_of_fieldType hf] at hp
  have ⟨_, _, _⟩ := u
  subst ht
  cases hfit
  case one hs  => cases hp; exact ⟨_, hs, rfl⟩
  case list hs => cases hp; exact ⟨_, hs, rfl⟩
  case none hn => cases hn.symm.trans hp

theorem exists_usedAt {declared : PathEntry} {op : Operation} (hd : declared ∈ paths)
    (ho : op ∈ declared.operations)
    (hp : Verb.bodySite? op = some p ∨ Verb.responseSite? op = some p) : ∃ u, UsedAt d o g p u := by
  have ⟨v, hv, hdv⟩ := h.exists_verb_of_mem_operations hd ho
  have hn := Verb.functionName_of_describe hdv
  cases hp
  case inr hp => exact ⟨v.response, .response h.read hd ho hv hn hp⟩
  case inl hp =>
    have ⟨_, _, hb, _⟩ := Verb.describe_eq_ok.mp hdv
    have ⟨b, he⟩ := Verb.exists_body_of_bodySite? hp hb
    exact ⟨_, .body h.read hd ho hv hn hp (Option.map_eq_some_iff.mpr ⟨b, he, rfl⟩)⟩

end Stages

-- Wrapping a schema in an array makes another use of the same serializer: the types of uses tell
-- their serializers, a schema has one reference, and a use of an object and a use of an array of
-- it differ in nothing but being a list.
theorem coherent_of_build (h : build d o = .ok g) :
    (∀ u ∈ g.uses, u.Coherent) ∧
    (∀ u ∈ g.uses, ∀ u' ∈ g.uses, ∀ ref ref', u.serializer = some ref → u'.serializer = some ref' →
      ref.schema = ref'.schema → ref = ref') ∧
    (∀ paths declared op p, d.paths = .ok paths → declared ∈ paths → op ∈ declared.operations →
      Verb.bodySite? op = some p ∨ Verb.responseSite? op = some p → ∃ u, UsedAt d o g p u) ∧
    (∃ r, Resolution.ofGraph g.graph = .ok r ∧
      ∀ p q u u' object array items, UsedAt d o g p u → UsedAt d o g q u' →
        r.canonical? p = some object → object.isObject →
        r.canonical? q = some array → array.form = .array items → r.canonical? items = some object →
        ∃ ref, ref.schema = object.node ∧
          u = ⟨some (.object object.node), some ref, false⟩ ∧
          u' = ⟨some (.array (.object object.node)), some ref, true⟩) := by
  obtain ⟨paths, r, entries, h⟩ := build_eq_ok h
  refine ⟨fun u hu => h.coherent_of_mem_uses hu,
    fun u hu u' hu' ref ref' => h.ref_eq_of_mem_uses hu hu', ?_, ?_⟩
  case refine_1 =>
    intro paths declared op p hp hd ho hs
    cases hp.symm.trans h.read
    exact h.exists_usedAt hd ho hs
  case refine_2 =>
    refine ⟨r, h.resolution, ?_⟩
    intro p q u u' object array items hu hu' hp hobj hq hf hi
    obtain ⟨_, _, ho⟩ := Schema.isObject_iff.mp hobj
    have hone : r.usage? p = some ⟨object.node, false⟩ := by simp [Resolution.usage?, hp, ho]
    have hlist : r.usage? q = some ⟨object.node, true⟩ := by
      simp [Resolution.usage?, hq, hf, hi, hobj]
    obtain ⟨s, hs, he⟩ := h.eq_of_usedAt hu hone
    obtain ⟨s', hs', he'⟩ := h.eq_of_usedAt hu' hlist
    cases hs.symm.trans hs'
    exact ⟨⟨object.node, s.className⟩, rfl, he, he'⟩

def pet : Pointer :=
  ⟨["definitions", "Pet"]⟩

-- The schemas that the operations of the sample return: a pet, and a list of them.
def firstPet : Pointer :=
  ⟨["paths", "/pets/first", "get", "responses", "200", "schema"]⟩

def petList : Pointer :=
  ⟨["paths", "/pets", "get", "responses", "200", "schema"]⟩

theorem exists_coherent_sample : ∃ g u u' ref,
    build sample {} = .ok g ∧
    g.uses = [
      ⟨some (.array (.object pet)), some ⟨pet, "PetSerializer"⟩, true⟩,
      ⟨some (.object pet), some ⟨pet, "PetSerializer"⟩, false⟩] ∧
    (∀ u ∈ g.uses, u.Coherent) ∧
    (∀ u ∈ g.uses, ∀ u' ∈ g.uses, ∀ ref ref', u.serializer = some ref → u'.serializer = some ref' →
      ref.schema = ref'.schema → ref = ref') ∧
    UsedAt sample {} g firstPet u ∧ UsedAt sample {} g petList u' ∧ ref.schema = pet ∧
    u = ⟨some (.object pet), some ref, false⟩ ∧
    u' = ⟨some (.array (.object pet)), some ref, true⟩ := by
  have hb : (build sample {}).toOption.map (·.uses) = some [
      ⟨some (.array (.object pet)), some ⟨pet, "PetSerializer"⟩, true⟩,
      ⟨some (.object pet), some ⟨pet, "PetSerializer"⟩, false⟩] := by decide +kernel
  have hs : sample.paths.toOption.map (·.flatMap (·.operations.map Verb.responseSite?)) =
      some [some petList, some firstPet] := by decide +kernel
  have hl : (build sample {} >>= (Resolution.ofGraph ·.graph)).toOption.map (fun r =>
      ((r.canonical? firstPet).map fun s => (s.node, s.isObject),
        (r.canonical? petList).bind (·.items?),
        (r.canonical? (petList.child "items")).map (·.node))) =
      some (some (pet, true), some (petList.child "items"), some pet) := by decide +kernel
  obtain ⟨g, hg, huses⟩ := exists_of_map_toOption_eq_some hb
  obtain ⟨paths, hp, hs⟩ := exists_of_map_toOption_eq_some hs
  obtain ⟨r, hr, hl⟩ := exists_of_map_toOption_eq_some hl
  rw [hg, ok_bind] at hr
  obtain ⟨hc, hone, hused, r', hr', hmany⟩ := coherent_of_build hg
  obtain ⟨_, _, _, h⟩ := build_eq_ok hg
  cases hr'.symm.trans hr
  cases h.resolution.symm.trans hr
  -- Both operations use what they return.
  have husedAt (site : Pointer) (h : some site ∈ [some petList, some firstPet]) :
      ∃ u, UsedAt sample {} g site u := by
    obtain ⟨declared, hd, h⟩ := List.mem_flatMap.mp (hs ▸ h)
    obtain ⟨op, ho, h⟩ := List.mem_map.mp h
    exact hused _ _ _ _ hp hd ho (.inr h)
  obtain ⟨u, hu⟩ := husedAt firstPet (by decide)
  obtain ⟨u', hu'⟩ := husedAt petList (by decide)
  -- What they return leads to one schema.
  obtain ⟨hobject, hl⟩ := Prod.mk.inj hl
  obtain ⟨harray, hitem⟩ := Prod.mk.inj hl
  obtain ⟨object, hobject, ho⟩ := Option.map_eq_some_iff.mp hobject
  obtain ⟨array, harray, hi⟩ := Option.bind_eq_some_iff.mp harray
  obtain ⟨item, hitem, he⟩ := Option.map_eq_some_iff.mp hitem
  obtain ⟨hn, hobj⟩ := Prod.mk.inj ho
  obtain rfl := h.sound.eq_of_node_eq hitem hobject (he.trans hn.symm)
  obtain ⟨ref, href, hu₁, hu₂⟩ :=
    hmany _ _ _ _ _ _ _ hu hu' hobject hobj harray (Schema.form_of_items? hi) hitem
  rw [he] at href hu₁ hu₂
  exact ⟨g, u, u', ref, hg, huses, hc, hone, hu, hu', href, hu₁, hu₂⟩

end Registry
end ApiDescriptors
