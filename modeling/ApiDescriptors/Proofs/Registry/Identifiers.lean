import ApiDescriptors.Proofs.Identifiers
import ApiDescriptors.Proofs.Registry.Closed
import ApiDescriptors.Proofs.Registry.Names

namespace ApiDescriptors

open Result

-- The names that are made of some candidate.
def Identifiers.Makes (ids : Identifiers) (name : String) : Prop :=
  ∃ candidate, ids.sanitize candidate = name

namespace Identifiers

variable {ids : Identifiers} {name : String}

theorem makes_snake (ids : Identifiers) (name : String) : ids.Makes (ids.snake name) :=
  ⟨_, rfl⟩

theorem makes_className (ids : Identifiers) (name suffix : String) :
    ids.Makes (ids.className name suffix) :=
  ⟨_, rfl⟩

theorem makes_candidate (ids : Identifiers) (base suffix : String) (n : Nat) :
    ids.Makes (Namespace.candidate ids base suffix n) :=
  ⟨_, rfl⟩

theorem Makes.isIdentifier (h : ids.Makes name) : IsIdentifier name :=
  have ⟨candidate, he⟩ := h
  he ▸ ids.isIdentifier_sanitize candidate

theorem Makes.exists_of_mem_reserved (h : ids.Makes name) (hr : name ∈ ids.reserved) :
    ∃ word ∈ ids.reserved, name = word.push '_' := by
  have ⟨_, he⟩ := h
  subst he
  exact exists_of_sanitize_mem_reserved hr

end Identifiers

namespace Serializer

variable {ids : Identifiers} {r : Resolution} {naming : Naming} {node : Pointer}

theorem Naming.Allows.makes {name : ClassName} (h : naming.Allows node name) :
    naming.ids.Makes name.className := by
  cases h
  case declared hn =>
    have ⟨_, _, he⟩ := Option.map_eq_some_iff.mp hn
    subst he
    exact naming.ids.makes_className ..
  case derived => exact naming.ids.makes_candidate ..

theorem makes_of_mem_fieldsOf {schema : Schema} {fields : List Field} {f : Field}
    (h : fieldsOf ids r schema = .ok fields) (hf : f ∈ fields) : ids.Makes f.identifier := by
  simp only [fieldsOf] at h
  split at h
  case h_1 =>
    obtain ⟨_, _, hf⟩ := field_of_mem_fieldsFrom h hf
    exact identifier_of_field hf ▸ ids.makes_snake _
  case h_2 => cases h; cases hf

end Serializer

namespace Verb

variable {ids : Identifiers} {r : Resolution} {serializers : List Serializer} {path : String}
  {op : Operation} {v : Verb}

theorem makes_nameFor (ids : Identifiers) (path : String) (op : Operation) :
    ids.Makes (nameFor ids path op) := by
  rw [nameFor]
  split
  case h_1 => exact ids.makes_snake _
  case h_2 => exact ⟨_, rfl⟩

theorem makes_of_mem_arguments {a : Argument} (h : describe ids r serializers path op = .ok v)
    (ha : a ∈ v.arguments) : ids.Makes a.identifier := by
  have ⟨harguments, _⟩ := describe_eq_ok.mp h
  have ⟨_, _, ha⟩ := mem_of_mapM_eq_ok (argumentsFrom_eq_ok.mp harguments).right ha
  have ⟨_, hi, _⟩ := argument_eq_ok ha
  exact hi ▸ ids.makes_snake _

end Verb

-- The identifiers in a registry, wherever they stand. Those of serializers are repeated where verbs
-- refer to them, and those of arguments in routes.

def Serializer.identifiers (s : Serializer) : List String :=
  s.className :: s.fields.map (·.identifier)

def Verb.identifiers (v : Verb) : List String :=
  v.functionName :: v.arguments.map (·.identifier) ++ v.refs.map (·.className)

def Route.identifiers (route : Route) : List String :=
  route.filterMap fun
    | .literal _               => none
    | .argument _ identifier _ => some identifier

def Registry.identifiers (g : Registry) : List String :=
  g.serializers.flatMap (·.identifiers) ++ g.verbs.flatMap (·.identifiers) ++
    g.endpoints.map (·.className) ++ g.routes.flatMap (·.identifiers)

namespace Registry

variable {d : Document} {o : Options} {g : Registry} {paths : List PathEntry} {r : Resolution}
  {entries : List PathVerbs} {ids : Identifiers} {name : String}

namespace Stages

variable (h : Stages d o g paths r entries ids)
include h

theorem makes_of_mem_serializer {s : Serializer} (hs : s ∈ g.serializers)
    (hn : name ∈ s.identifiers) : ids.Makes name := by
  have ⟨_, ho⟩ := h.serializers
  have ⟨_, _, _, ha, he⟩ := Serializer.exists_schema_of_ofSchemas ho hs
  have ⟨_, hfields, he⟩ := Serializer.ofSchema_eq_ok.mp he
  subst he
  cases List.mem_cons.mp hn
  case inl he => exact he ▸ ha.makes
  case inr hn =>
    have ⟨_, hf, he⟩ := List.mem_map.mp hn
    exact he ▸ Serializer.makes_of_mem_fieldsOf hfields hf

theorem makes_of_mem_arguments {v : Verb} {a : Argument} (hv : v ∈ g.verbs)
    (ha : a ∈ v.arguments) : ids.Makes a.identifier := by
  have ⟨_, he, hv⟩ := h.exists_entry_of_mem_verbs hv
  have ⟨_, _, _, _, hd⟩ := h.describe_of_mem_verbs he hv
  exact Verb.makes_of_mem_arguments hd ha

theorem makes_of_mem_verb {v : Verb} (hv : v ∈ g.verbs) (hn : name ∈ v.identifiers) :
    ids.Makes name := by
  simp only [Verb.identifiers, List.mem_append, List.mem_cons, List.mem_map] at hn
  obtain (rfl | ⟨a, ha, rfl⟩) | ⟨ref, hr, rfl⟩ := hn
  case inl.inl =>
    have ⟨_, he, hv⟩ := h.exists_entry_of_mem_verbs hv
    have ⟨_, _, _, _, hd⟩ := h.describe_of_mem_verbs he hv
    exact Verb.functionName_of_describe hd ▸ Verb.makes_nameFor ..
  case inl.inr => exact h.makes_of_mem_arguments hv ha
  case inr     =>
    -- The class name in a reference is that of the serializer.
    have ⟨_, hs, he⟩ := h.exists_serializer?_of_mem_refs (List.mem_flatMap.mpr ⟨v, hv, hr⟩)
    exact h.makes_of_mem_serializer (Serializer.mem_of_find? hs).left (he ▸ List.mem_cons_self)

theorem makes_of_mem_endpoints {e : Endpoint} (he : e ∈ g.endpoints) : ids.Makes e.className := by
  have ⟨_, _, ho⟩ := h.endpoints
  have ⟨_, _, _, _, _, he⟩ := Endpoints.exists_of_mem_endpoints ho he
  subst he
  exact ids.makes_candidate ..

theorem makes_of_mem_route {route : Route} (hr : route ∈ g.routes) (hn : name ∈ route.identifiers) :
    ids.Makes name := by
  have ⟨segment, hm, hn⟩ := List.mem_filterMap.mp hn
  cases segment
  case literal  => cases hn
  case argument =>
    cases hn
    have ⟨_, he, hr⟩ := h.exists_entry_of_mem_routes hr
    have ⟨_, hv, _, ha, hi, _⟩ := Route.exists_argument_of_mem_ofVerbs hr hm
    have hv := h.perm_verbs.mem_iff.mpr (List.mem_flatMap.mpr ⟨_, he, hv⟩)
    exact hi ▸ h.makes_of_mem_arguments hv ha

theorem makes_of_mem_identifiers (hn : name ∈ g.identifiers) : ids.Makes name := by
  simp only [identifiers, List.mem_append, List.mem_flatMap, List.mem_map] at hn
  obtain ((⟨_, hs, hn⟩ | ⟨_, hv, hn⟩) | ⟨_, he, rfl⟩) | ⟨_, hr, hn⟩ := hn
  · exact h.makes_of_mem_serializer hs hn
  · exact h.makes_of_mem_verb hv hn
  · exact h.makes_of_mem_endpoints he
  · exact h.makes_of_mem_route hr hn

end Stages

-- Whatever casing makes of the names in a document, the registry has identifiers only.
theorem isIdentifier_of_build (casing : Casing)
    (h : buildNamed { o.identifiers with casing } d o = .ok g) :
    ∀ name ∈ g.identifiers, IsIdentifier name := by
  have ⟨_, _, _, hst⟩ := buildNamed_eq_ok h
  exact fun _ hn => (hst.makes_of_mem_identifiers hn).isIdentifier

-- Names with signs, foreign letters and digits at the start, one of them empty.
def foreign : Document where
  dialect := .swagger2
  root := .obj [
    ("swagger", .str "2.0"),
    ("paths", .obj [("/сыры/{2 °}", .obj [("get", .obj [
      ("operationId", .str "1 façon"),
      ("parameters", .arr [.obj [
        ("name", .str "2 °"), ("in", .str "path"), ("required", .bool true),
        ("type", .str "string")]]),
      ("responses", .obj [("200", .obj [("schema", .obj [
        ("$ref", .str "#/definitions/Käse")])])])])])]),
    ("definitions", .obj [("Käse", .obj [("properties", .obj [
      ("", .obj [("type", .str "string")]),
      ("ß-9", .obj [("type", .str "string")])])])])
  ]

theorem exists_isIdentifier_foreign :
    let casing : Casing := { snake := id, upperCamel := id }
    let o : Options := { serializerSuffix := "!", endpointSuffix := "" }
    ∃ g, buildNamed { o.identifiers with casing } foreign o = .ok g ∧
      g.identifiers = ["K_se_", "_", "__9", "_1_fa_on", "_2__", "K_se_", "_______2___", "_2__"] ∧
      ∀ name ∈ g.identifiers, IsIdentifier name := by
  intro casing o
  have hb : (buildNamed { o.identifiers with casing } foreign o).toOption.map (·.identifiers) =
      some ["K_se_", "_", "__9", "_1_fa_on", "_2__", "K_se_", "_______2___", "_2__"] := by
    decide +kernel
  have ⟨g, hg, hn⟩ := exists_of_map_toOption_eq_some hb
  exact ⟨g, hg, hn, isIdentifier_of_build casing hg⟩

-- No identifier is reserved, unless it is another reserved word with an underscore at its end.
-- Such a word may be given with the options; no built-in word is one.
theorem unreserved_of_build (h : build d o = .ok g) :
    ∀ name ∈ g.identifiers, name ∉ Identifiers.builtinReserved ∧
      (name ∈ o.reservedWords → ∃ word ∈ o.identifiers.reserved, name = word.push '_') := by
  have ⟨_, _, _, hst⟩ := build_eq_ok h
  intro name hn
  have hpush (hr : name ∈ o.identifiers.reserved) :=
    (hst.makes_of_mem_identifiers hn).exists_of_mem_reserved hr
  refine ⟨fun hb => ?_, fun hw => hpush (List.mem_append_right _ hw)⟩
  have ⟨word, _, he⟩ := hpush (List.mem_append_left _ hb)
  exact Identifiers.push_not_mem_builtinReserved word (he ▸ hb)

-- An operation that asks for a function name that is reserved.
def asksForClass : Yaml.Value := .map [
  (.scalar (.str "swagger"), .scalar (.str "2.0")),
  (.scalar (.str "paths"), .map [
    (.scalar (.str "/lessons"), .map [(.scalar (.str "get"), .map [
      (.scalar (.str "operationId"), .scalar (.str "class")),
      (.scalar (.str "responses"), .map [])])])])
]

theorem exists_build_asksForClass : ∃ d g,
    buildValue asksForClass { reservedWords := ["class_"] } = .ok (d, g) ∧
      g.identifiers = ["class_", "LessonsView"] := by
  have hb : (buildValue asksForClass { reservedWords := ["class_"] }).toOption.map
      (·.2.identifiers) = some ["class_", "LessonsView"] := by decide +kernel
  have ⟨(d, g), h, hn⟩ := exists_of_map_toOption_eq_some hb
  exact ⟨d, g, h, hn⟩

theorem exists_unreserved_asksForClass : ∃ d g,
    buildValue asksForClass { reservedWords := ["class_"] } = .ok (d, g) ∧
      "class_" ∈ g.identifiers ∧ "class_" ∉ Identifiers.builtinReserved ∧
      ∃ word ∈ Identifiers.builtinReserved ++ ["class_"], "class_" = word.push '_' := by
  have ⟨d, g, h, hn⟩ := exists_build_asksForClass
  have ⟨_, hg⟩ := buildValue_eq_ok h
  have hm : "class_" ∈ g.identifiers := hn ▸ List.mem_cons_self
  have ⟨hbuiltin, hgiven⟩ := unreserved_of_build hg _ hm
  exact ⟨d, g, h, hm, hbuiltin, hgiven List.mem_cons_self⟩

-- The underscore at the end of `class` makes another reserved word of it.
theorem not_unreserved_asksForClass : ¬∀ value d o g, Document.ofValue value = .ok d →
    build d o = .ok g → ∀ name ∈ g.identifiers, name ∉ o.identifiers.reserved := by
  intro hall
  have ⟨_, _, h, hn⟩ := exists_build_asksForClass
  have ⟨hd, hg⟩ := buildValue_eq_ok h
  have hm : "class_" ∈ _ := hn ▸ List.mem_cons_self
  exact hall _ _ _ _ hd hg "class_" hm (List.mem_append_right _ List.mem_cons_self)

end Registry
end ApiDescriptors
