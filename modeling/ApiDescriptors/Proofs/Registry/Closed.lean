import ApiDescriptors.Proofs.Registry.Build

namespace ApiDescriptors

open Result

-- Where a registry names schemas: in types, as dependencies and in references to serializers.

def Serializer.types (s : Serializer) : List FieldType :=
  s.fields.map (·.type)

namespace Verb

def types (v : Verb) : List FieldType :=
  v.arguments.map (·.type) ++ (v.body.map (·.type)).toList ++ v.responseType.toList

def refs (v : Verb) : List SerializerRef :=
  (v.body.bind (·.serializer)).toList ++ v.serializer.toList

end Verb

def Route.types (route : Route) : List FieldType :=
  route.filterMap fun
    | .literal _         => none
    | .argument _ _ type => some type

namespace Registry

def types (g : Registry) : List FieldType :=
  g.serializers.flatMap (·.types) ++ g.verbs.flatMap (·.types) ++ g.routes.flatMap (·.types)

def refs (g : Registry) : List SerializerRef :=
  g.verbs.flatMap (·.refs)

def mentioned (g : Registry) : List Pointer :=
  g.types.filterMap (·.innermost?) ++ g.serializers.flatMap (·.dependsOn) ++ g.refs.map (·.schema)

-- Nothing that a registry names is missing from its serializers.
structure Closed (g : Registry) : Prop where
  schemas    : ∀ key ∈ g.mentioned, ∃ s, g.serializer? key = some s
  classNames : ∀ ref ∈ g.refs, ∃ s, g.serializer? ref.schema = some s ∧ s.className = ref.className

variable {d : Document} {o : Options} {g : Registry} {paths : List PathEntry} {r : Resolution}
variable {entries : List PathVerbs} {ids : Identifiers} {key : Pointer}

namespace Stages

variable (h : Stages d o g paths r entries ids)
include h

-- The object at the core of a type at a schema that an operation declares has a serializer.
theorem exists_serializer?_of_mem_schemaSites {declared : PathEntry} {op : Operation} {p : Pointer}
    {type : FieldType} (hd : declared ∈ paths) (ho : op ∈ declared.operations)
    (hp : p ∈ op.schemaSites) (ht : r.fieldType p = .ok type) (hk : type.innermost? = some key) :
    ∃ s, g.serializer? key = some s := by
  have ⟨s, hc, hreach⟩ := h.exists_reaches_of_mem_schemaSites hd ho hp
  have ⟨object, ho, hobj, he⟩ := hreach.innermost?_fieldType hc ht hk
  exact he ▸ h.exists_serializer? ho hobj

theorem exists_serializer?_of_mem_types_of_serializer {s : Serializer} {type : FieldType}
    (hs : s ∈ g.serializers) (ht : type ∈ s.types) (hk : type.innermost? = some key) :
    ∃ t, g.serializer? key = some t := by
  have ⟨schema, hreach, _, hf, _⟩ := h.exists_schema_of_mem_serializers hs
  have ⟨f, hm, he⟩ := List.mem_map.mp ht
  have ⟨p, hp, ht⟩ := Serializer.type_of_mem_fieldsOf hf hm
  have ⟨t, _, hc, _⟩ := h.sound.exists_canonical? (h.sound.mem_nodes_of_reaches hreach hp)
  have ⟨object, ho, hobj, hn⟩ := (hreach.link hp hc).innermost?_fieldType hc ht (he ▸ hk)
  exact hn ▸ h.exists_serializer? ho hobj

theorem exists_serializer?_of_mem_dependsOn {s : Serializer} (hs : s ∈ g.serializers)
    (hk : key ∈ s.dependsOn) :
    ∃ t, g.serializer? key = some t := by
  have ⟨schema, _, _, _, hd⟩ := h.exists_schema_of_mem_serializers hs
  have ⟨_, f, hf, hk⟩ := Serializer.mem_dependencies_iff.mp (hd ▸ hk)
  exact h.exists_serializer?_of_mem_types_of_serializer hs (List.mem_map_of_mem hf) hk

theorem exists_serializer?_of_mem_arguments {entry : PathVerbs} {v : Verb} {a : Argument}
    (he : entry ∈ entries) (hv : v ∈ entry.verbs) (ha : a ∈ v.arguments)
    (hk : a.type.innermost? = some key) :
    ∃ s, g.serializer? key = some s := by
  have ⟨_, hd, op, ho, hv⟩ := h.describe_of_mem_verbs he hv
  have ⟨harg, _⟩ := Verb.describe_eq_ok.mp hv
  have ⟨p, hp, ht⟩ := Verb.innermost?_of_mem_argumentsFrom harg ha hk
  exact h.exists_serializer?_of_mem_schemaSites hd ho
    (List.mem_append_left _ (List.mem_append_left _ hp)) ht hk

-- A body and a response are uses that go together with their types.
theorem body_of_mem_verbs {v : Verb} {b : BodyUse} (hv : v ∈ g.verbs) (hb : v.body = some b) :
    ∃ declared ∈ paths, ∃ op ∈ declared.operations, ∃ p ∈ op.schemaSites,
      r.fieldType p = .ok b.type ∧
      Verb.Fits g.serializers b.type b.serializer b.many := by
  have ⟨_, he, hv⟩ := h.exists_entry_of_mem_verbs hv
  have ⟨declared, hd, op, ho, hv⟩ := h.describe_of_mem_verbs he hv
  have ⟨_, _, hbody, _⟩ := Verb.describe_eq_ok.mp hv
  have ⟨p, hp, hu⟩ := Verb.bodyUse_eq_ok (hb ▸ hbody)
  exact ⟨declared, hd, op, ho, p, Verb.mem_schemaSites_of_bodySite? hp, Verb.schemaUse_eq_ok hu⟩

theorem response_of_mem_verbs {v : Verb} (hv : v ∈ g.verbs) :
    (v.responseType = none ∧ v.serializer = none ∧ v.many = false) ∨
    ∃ declared ∈ paths, ∃ op ∈ declared.operations, ∃ p ∈ op.schemaSites, ∃ type,
      v.responseType = some type ∧
      r.fieldType p = .ok type ∧ Verb.Fits g.serializers type v.serializer v.many := by
  have ⟨_, he, hv⟩ := h.exists_entry_of_mem_verbs hv
  have ⟨declared, hd, op, ho, hv⟩ := h.describe_of_mem_verbs he hv
  have ⟨_, _, _, hr, _⟩ := Verb.describe_eq_ok.mp hv
  obtain ⟨_, ht, hs, hm⟩ | ⟨p, type, hp, ht, hu⟩ := Verb.responseUse_eq_ok hr
  case inl => exact .inl ⟨ht, hs, hm⟩
  case inr =>
    have ⟨hf, hfit⟩ := Verb.schemaUse_eq_ok hu
    exact .inr ⟨declared, hd, op, ho, p, Verb.mem_schemaSites_of_responseSite? hp, type, ht, hf,
      hfit⟩

theorem exists_serializer?_of_mem_types_of_verb {v : Verb} {type : FieldType} (hv : v ∈ g.verbs)
    (ht : type ∈ v.types) (hk : type.innermost? = some key) : ∃ s, g.serializer? key = some s := by
  simp only [Verb.types, List.mem_append, List.mem_map, Option.mem_toList,
    Option.map_eq_some_iff] at ht
  obtain (⟨a, ha, rfl⟩ | ⟨b, hb, rfl⟩) | ht := ht
  case inl.inl =>
    have ⟨_, he, hv⟩ := h.exists_entry_of_mem_verbs hv
    exact h.exists_serializer?_of_mem_arguments he hv ha hk
  case inl.inr =>
    have ⟨_, hd, _, ho, _, hp, ht, _⟩ := h.body_of_mem_verbs hv hb
    exact h.exists_serializer?_of_mem_schemaSites hd ho hp ht hk
  case inr =>
    obtain ⟨hn, _⟩ | ⟨_, hd, _, ho, _, hp, _, ht', hf, _⟩ := h.response_of_mem_verbs hv
    case inl => cases hn.symm.trans ht
    case inr =>
      cases ht'.symm.trans ht
      exact h.exists_serializer?_of_mem_schemaSites hd ho hp hf hk

theorem exists_serializer?_of_mem_types_of_route {route : Route} {type : FieldType}
    (hr : route ∈ g.routes) (ht : type ∈ route.types) (hk : type.innermost? = some key) :
    ∃ s, g.serializer? key = some s := by
  have ⟨segment, hs, he⟩ := List.mem_filterMap.mp ht
  cases segment
  case literal => cases he
  case argument =>
    cases he
    have ⟨entry, he, hr⟩ := h.exists_entry_of_mem_routes hr
    have ⟨v, hv, a, ha, _, ht⟩ := Route.exists_argument_of_mem_ofVerbs hr hs
    exact h.exists_serializer?_of_mem_arguments he hv ha (ht ▸ hk)

theorem exists_serializer?_of_mem_refs {ref : SerializerRef} (hr : ref ∈ g.refs) :
    ∃ s, g.serializer? ref.schema = some s ∧ s.className = ref.className := by
  have ⟨v, hv, hr⟩ := List.mem_flatMap.mp hr
  simp only [Verb.refs, List.mem_append, Option.mem_toList, Option.bind_eq_some_iff] at hr
  obtain ⟨b, hb, hs⟩ | hs := hr
  case inl =>
    have ⟨_, _, _, _, _, _, _, hf⟩ := h.body_of_mem_verbs hv hb
    exact (hs ▸ hf).exists_find?
  case inr =>
    obtain ⟨_, hn, _⟩ | ⟨_, _, _, _, _, _, _, _, _, hf⟩ := h.response_of_mem_verbs hv
    case inl => cases hn.symm.trans hs
    case inr => exact (hs ▸ hf).exists_find?

theorem closed : g.Closed where
  classNames _ hr := h.exists_serializer?_of_mem_refs hr
  schemas key hk := by
    simp only [mentioned, types, List.mem_append, List.mem_filterMap, List.mem_flatMap,
      List.mem_map] at hk
    obtain (⟨type, (⟨s, hs, ht⟩ | ⟨v, hv, ht⟩) | ⟨route, hr, ht⟩, hk⟩ | ⟨s, hs, hk⟩) |
      ⟨ref, hr, rfl⟩ := hk
    · exact h.exists_serializer?_of_mem_types_of_serializer hs ht hk
    · exact h.exists_serializer?_of_mem_types_of_verb hv ht hk
    · exact h.exists_serializer?_of_mem_types_of_route hr ht hk
    · exact h.exists_serializer?_of_mem_dependsOn hs hk
    · have ⟨s, hs, _⟩ := h.exists_serializer?_of_mem_refs hr
      exact ⟨s, hs⟩

end Stages

-- A registry that is built names no schema without a serializer, and a build that fails tells of a
-- fault in the document.
theorem closed_of_build (d : Document) (o : Options) :
    (∀ g, build d o = .ok g → g.Closed) ∧ (∀ e, build d o = .error e → e.isGeneral = false) := by
  refine ⟨fun g hg => ?_, specific_build d o⟩
  have ⟨_, _, _, h⟩ := build_eq_ok hg
  exact h.closed

-- A document whose operation returns a schema that is missing.
def dangling : Document where
  dialect := .swagger2
  root := .obj [
    ("swagger", .str "2.0"),
    ("paths", .obj [("/pets", .obj [("get", .obj [("responses", .obj [("200", .obj [("schema",
      .obj [("$ref", .str "#/definitions/Pet")])])])])])])
  ]

theorem exists_closed_sample :
    (∃ g, build sample {} = .ok g ∧ g.Closed ∧
      g.serializers.map (fun s => (s.schema.text, s.className)) =
        [("#/definitions/Pet", "PetSerializer"), ("#/definitions/Owner", "OwnerSerializer")] ∧
      g.mentioned.map (·.text) = [
        "#/definitions/Owner", "#/definitions/Pet", "#/definitions/Pet", "#/definitions/Pet",
        "#/definitions/Owner", "#/definitions/Pet", "#/definitions/Pet", "#/definitions/Pet"] ∧
      g.refs.map (fun ref => (ref.schema.text, ref.className)) =
        [("#/definitions/Pet", "PetSerializer"), ("#/definitions/Pet", "PetSerializer")]) ∧
    ∃ e, build dangling {} = .error e ∧ e.isGeneral = false := by
  constructor
  case left =>
    have hb : (build sample {}).toOption.map (fun g =>
        (g.serializers.map fun s => (s.schema.text, s.className), g.mentioned.map (·.text),
          g.refs.map fun ref => (ref.schema.text, ref.className))) = some (
        [("#/definitions/Pet", "PetSerializer"), ("#/definitions/Owner", "OwnerSerializer")], [
        "#/definitions/Owner", "#/definitions/Pet", "#/definitions/Pet", "#/definitions/Pet",
        "#/definitions/Owner", "#/definitions/Pet", "#/definitions/Pet", "#/definitions/Pet"],
        [("#/definitions/Pet", "PetSerializer"), ("#/definitions/Pet", "PetSerializer")]) := by
      decide +kernel
    obtain ⟨g, hg, hb⟩ := exists_of_map_toOption_eq_some hb
    obtain ⟨hserializers, hb⟩ := Prod.mk.inj hb
    obtain ⟨hmentioned, hrefs⟩ := Prod.mk.inj hb
    exact ⟨g, hg, (closed_of_build sample {}).left g hg, hserializers, hmentioned, hrefs⟩
  case right =>
    have hb : (build dangling {}).isOk = false := by decide +kernel
    cases he : build dangling {}
    case ok      => rw [he] at hb; cases hb
    case error e => exact ⟨e, rfl, (closed_of_build dangling {}).right e he⟩

end Registry
end ApiDescriptors
