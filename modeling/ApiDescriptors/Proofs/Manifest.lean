import ApiDescriptors.Manifest
import ApiDescriptors.Proofs.Document
import ApiDescriptors.Proofs.Json.Values
import ApiDescriptors.Proofs.Pointer
import ApiDescriptors.Proofs.Registry.DependencyOrder

namespace ApiDescriptors

namespace Members

variable {members source : Members}

-- Members with new names are added, and none takes the place of another.
theorem override_of_nodup (h : (members.names ++ source.names).Nodup) :
    members.override source = members ++ source := by
  induction source generalizing members
  case nil => rw [List.append_nil]; rfl
  case cons m source hi =>
    have hm : m.1 ∉ members.names := fun hm =>
      (List.nodup_append.mp h).right.right _ hm _ List.mem_cons_self rfl
    have hs : ((members ++ [m]).names ++ names source).Nodup := by
      rwa [names_append, List.append_assoc]
    rw [← List.singleton_append, ← List.append_assoc, ← hi hs, ← insert_of_not_mem hm]
    rfl

end Members

open Result

namespace Schema

variable {d : Document} {node : Pointer} {value v : Json} {s : Schema}

theorem exists_enum_of_mem_choicesOf {members : Members} {choices : List Json}
    (h : choicesOf node members = .ok choices) (hv : v ∈ choices) :
    ∃ values, members.lookup "enum" = some (.arr values) ∧ v ∈ values := by
  rw [choicesOf] at h
  split at h
  case h_1           => cases h; cases hv
  case h_2 values he => cases h; exact ⟨_, he, hv⟩
  case h_3           => cases h

theorem exists_enum_of_mem_choices (h : read d node value = .ok s) (hv : v ∈ s.choices) :
    ∃ values, value.get? "enum" = some (.arr values) ∧ v ∈ values := by
  obtain ⟨_, _, _, _, _, _, rfl⟩ | ⟨_, _, _, _, rfl⟩ | ⟨members, _, rfl, _, _, hc⟩ := read_cases h
  case inl     => cases hv
  case inr.inl => cases hv
  case inr.inr =>
    simp only [readConcrete, bind_eq_ok, pure_eq_ok] at hc
    obtain ⟨_, _, _, _, _, _, _, _, _, hchoices, _, _, rfl⟩ := hc
    exact exists_enum_of_mem_choicesOf hchoices hv

end Schema

namespace Registry.Stages

variable {d : Document} {o : Options} {g : Registry} {paths : List PathEntry} {r : Resolution}
  {entries : List PathVerbs} {s : Serializer} {f : Field} {v : Json}

-- A choice stands in the document, among those that a schema gives.
theorem exists_enum_of_mem_choices (h : Stages d o g paths r entries) (hs : s ∈ g.serializers)
    (hf : f ∈ s.fields) (hv : v ∈ f.choices) :
    ∃ p value values, d.get? p = some value ∧ value.get? "enum" = some (.arr values) ∧
      v ∈ values := by
  obtain ⟨_, _, hl⟩ := SchemaGraph.load_eq_ok h.graph
  obtain ⟨_, _, _, _, _, _, property, _, ho⟩ := h.exists_property_of_mem_fields hs hf
  obtain ⟨_, hfield⟩ := Serializer.field_eq_ok.mp ho
  have hchoices : f.choices = r.choices property.2 := by rw [hfield]
  rw [hchoices, Resolution.choices] at hv
  cases hc : r.canonical? property.2
  case none => rw [hc] at hv; cases hv
  case some schema =>
    rw [hc] at hv
    have hm := (h.sound.mem_of_canonical? hc).left
    obtain ⟨value, hg, hread⟩ := Document.schemaAt_eq_ok (hl.read schema (h.graph_eq ▸ hm))
    obtain ⟨values, he, hmem⟩ := Schema.exists_enum_of_mem_choices hread hv
    exact ⟨schema.node, value, values, hg, he, hmem⟩

theorem lossless_choices (h : Stages d o g paths r entries)
    (hs : s ∈ g.serializers) (hf : f ∈ s.fields) (hd : d.root.Lossless) :
    ∀ v ∈ f.choices, v.Lossless := by
  intro v hv
  obtain ⟨p, value, values, hg, he, hmem⟩ := h.exists_enum_of_mem_choices hs hf hv
  exact Json.lossless_arr_iff.mp ((hd.lookup? hg).get? he) v hmem

end Registry.Stages

namespace Manifest

open Registry

variable {list : List Serializer} {d : Document} {o : Options} {g : Registry}

-- Members that are the serializers of a registry, each once and under the text of its schema. They
-- are printed in this order, one after the other and with no name twice.
structure Lists (g : Registry) (members : Members) : Prop where
  entries : members = g.dependencyOrder.map fun s => (s.schema.text, serializer s)
  names   : members.names.Nodup
  all     : g.dependencyOrder.Perm g.serializers
  schemas : ∀ m ∈ members, m.2.get? "schema" = some (.str m.1)
  apart   : (members.names.map Json.stringText).Nodup
  printed : ∀ depth, (Json.obj members).pretty depth =
    Json.block Json.openBrace Json.closeBrace depth (g.dependencyOrder.map fun s =>
      Json.stringText s.schema.text ++ ": " ++ (serializer s).pretty (depth + 1))

theorem names_serializers (list : List Serializer) :
    Members.names (list.map fun s => (s.schema.text, serializer s)) =
      (list.map (·.schema)).map Pointer.text := by
  rw [Members.names, List.map_map, List.map_map]
  rfl

theorem serializers_of_nodup (h : (list.map (·.schema)).Nodup) :
    serializers list = list.map fun s => (s.schema.text, serializer s) := by
  refine Members.override_of_nodup ?_
  rw [Members.names_nil, List.nil_append, names_serializers]
  exact h.map Pointer.text_injective

-- The parts of a manifest lose nothing in its text, if the choices of the fields do not.

section Lossless

open Json (Lossless)

attribute [local simp] Lossless.null Lossless.bool Lossless.str

theorem lossless_map {α : Type} {f : α → Json} {list : List α} (h : ∀ a ∈ list, (f a).Lossless) :
    (Json.arr (list.map f)).Lossless :=
  .arr (List.forall_mem_map.mpr h)

theorem lossless_optional {α : Type} {f : α → Json} (h : ∀ a, (f a).Lossless) (value : Option α) :
    (optional f value).Lossless := by
  cases value
  case none   => exact .null
  case some a => exact h a

-- Members of which one may be left out.
theorem lossless_present {before after : Members} {name : String}
    (hn : (before.names ++ name :: after.names).Nodup) (hb : ∀ m ∈ before, m.2.Lossless)
    (ha : ∀ m ∈ after, m.2.Lossless) (value : Option String) :
    (Json.obj (before ++ present name value ++ after)).Lossless := by
  have hs : (before ++ present name value ++ after).names.Sublist
      (before.names ++ name :: after.names) := by
    cases value <;> simp [present]
  have hp : ∀ m ∈ present name value, m.2.Lossless := by
    cases value <;> simp [present]
  refine .obj (hn.sublist hs) ?_
  simp only [List.forall_mem_append]
  exact ⟨⟨hb, hp⟩, ha⟩

theorem lossless_present_last {before : Members} {name : String}
    (hn : (before.names ++ [name]).Nodup) (hb : ∀ m ∈ before, m.2.Lossless)
    (value : Option String) : (Json.obj (before ++ present name value)).Lossless := by
  rw [← List.append_nil (before ++ present name value)]
  exact lossless_present hn hb (by simp) value

@[local simp]
theorem lossless_pointer (p : Pointer) : (pointer p).Lossless :=
  .str p.text

@[local simp]
theorem lossless_fieldType (t : FieldType) : (fieldType t).Lossless := by
  induction t
  case scalar type format => exact lossless_present_last (by simp) (by simp) format
  case object schema      => exact .obj (by simp) (by simp)
  case array items hi     => exact .obj (by simp) (by simp [hi])

theorem lossless_serializerRef (s : SerializerRef) : (serializerRef s).Lossless :=
  .obj (by simp) (by simp)

theorem lossless_field {f : Field} (h : ∀ v ∈ f.choices, v.Lossless) : (field f).Lossless := by
  refine lossless_present ?_ (by simp) ?_ f.description
  · split <;> simp
  · split <;> simp [Lossless.arr h]

theorem lossless_serializer {s : Serializer} (h : ∀ f ∈ s.fields, ∀ v ∈ f.choices, v.Lossless) :
    (serializer s).Lossless := by
  have hf := lossless_map fun f hf => lossless_field (h f hf)
  have hd : (Json.arr (s.dependsOn.map pointer)).Lossless :=
    lossless_map fun p _ => lossless_pointer p
  exact lossless_present (by simp) (by simp) (by simp [hf, hd]) s.description

theorem lossless_argument (a : Argument) : (argument a).Lossless :=
  lossless_present_last (by simp) (by simp) a.description

theorem lossless_body (b : BodyUse) : (body b).Lossless :=
  .obj (by simp) (by simp [lossless_optional lossless_serializerRef])

theorem lossless_verb (v : Verb) : (verb v).Lossless := by
  have ht : (strings v.tags).Lossless := lossless_map (by simp)
  have ha : (Json.arr (v.arguments.map argument)).Lossless :=
    lossless_map fun a _ => lossless_argument a
  refine .obj (by simp) ?_
  simp [lossless_optional, lossless_serializerRef, lossless_body, ht, ha]

theorem lossless_segment (s : Route.Segment) : (segment s).Lossless := by
  cases s
  case literal text => exact .obj (by simp) (by simp)
  case argument     => exact .obj (by simp) (by simp)

theorem lossless_route (r : Route) : (route r).Lossless :=
  lossless_map fun s _ => lossless_segment s

theorem lossless_endpoint (e : Endpoint) : (endpoint e).Lossless := by
  have hv : (Json.arr (e.verbs.map verb)).Lossless := lossless_map fun v _ => lossless_verb v
  exact .obj (by simp) (by simp [lossless_route, hv])

theorem lossless_handler (h : Handler) : (handler h).Lossless :=
  .obj (by simp) (by simp [lossless_route, lossless_verb])

theorem lossless_ofRegistry (hl : Lists g (serializers g.dependencyOrder))
    (hc : ∀ s ∈ g.serializers, ∀ f ∈ s.fields, ∀ v ∈ f.choices, v.Lossless) :
    (ofRegistry g).Lossless := by
  have he : (Json.arr (g.endpoints.map endpoint)).Lossless :=
    lossless_map fun e _ => lossless_endpoint e
  have hh : (Json.arr (g.handlers.map handler)).Lossless :=
    lossless_map fun h _ => lossless_handler h
  have hs : ∀ m ∈ serializers g.dependencyOrder, m.2.Lossless := by
    rw [hl.entries]
    exact List.forall_mem_map.mpr fun s hs => lossless_serializer (hc s (hl.all.mem_iff.mp hs))
  exact .obj (by simp) (by simp [he, hh, Lossless.obj hl.names hs])

end Lossless

-- Members in dependency order are all the serializers, since pointers that are written alike are
-- the same.
theorem lists_serializers (h : (g.serializers.map (·.schema)).Nodup) :
    Lists g (serializers g.dependencyOrder) := by
  have hp := g.perm_dependencyOrder
  have hd : (g.dependencyOrder.map (·.schema)).Nodup := (hp.map _).nodup_iff.mpr h
  have he := serializers_of_nodup hd
  have hn : (serializers g.dependencyOrder).names.Nodup := by
    rw [he, names_serializers]
    exact hd.map Pointer.text_injective
  refine ⟨he, hn, hp, ?_, hn.map Json.stringText_injective, fun depth => ?_⟩
  · rw [he]
    exact List.forall_mem_map.mpr fun s _ => rfl
  · rw [he, Json.pretty_obj, List.map_map]
    rfl

-- A manifest has all serializers in dependency order. None takes the place of another, since
-- pointers that are written alike are the same. Its text can be read back, if that of the document
-- could be.
theorem lists_of_build (h : build d o = .ok g) :
    Function.Injective Pointer.text ∧
    ∃ members endpoints handlers, Lists g members ∧
      render g = (Json.obj [("endpoints", endpoints), ("serializers", .obj members),
        ("individual_handlers", handlers)]).pretty 0 ++ "\n" ∧
      (d.root.Lossless → Json.ofText? (render g) = some (.obj [("endpoints", endpoints),
        ("serializers", .obj members), ("individual_handlers", handlers)])) := by
  obtain ⟨_, _, _, h⟩ := build_eq_ok h
  have hl := lists_serializers h.nodup_schemas
  refine ⟨Pointer.text_injective, _, _, _, hl, rfl, fun hd => ?_⟩
  exact Json.ofText?_pretty (lossless_ofRegistry hl fun s hs f hf => h.lossless_choices hs hf hd)

-- A document with schemas whose names have the signs that pointers give a meaning to.
def signs : Document where
  dialect := .swagger2
  root := .obj [
    ("swagger", .str "2.0"),
    ("definitions", .obj [
      ("a/b", .obj [("type", .str "object"), ("properties", .obj [
        ("next", .obj [("$ref", .str "#/definitions/a~01b")])])]),
      ("a~1b", .obj [("type", .str "object"), ("properties", .obj [
        ("side", .obj [("type", .str "string"), ("enum", .arr [.str "left", .str "right"])])])]),
      ("a%2Fb", .obj [("type", .str "object")]),
      ("#c", .obj [("type", .str "object")]),
      ("", .obj [("type", .str "object")])])
  ]

theorem exists_lists_signs :
    ∃ g members endpoints handlers,
      build signs { includeUnreferencedSchemas := true } = .ok g ∧
      Lists g members ∧
      render g = (Json.obj [("endpoints", endpoints), ("serializers", .obj members),
        ("individual_handlers", handlers)]).pretty 0 ++ "\n" ∧
      Json.ofText? (render g) = some (.obj [("endpoints", endpoints),
        ("serializers", .obj members), ("individual_handlers", handlers)]) ∧
      members.names = ["#/definitions/a~01b", "#/definitions/a~1b", "#/definitions/a%2Fb",
        "#/definitions/#c", "#/definitions/"] := by
  have hb : (build signs { includeUnreferencedSchemas := true }).toOption.map
      (fun g => g.dependencyOrder.map fun s => s.schema.text) =
        some ["#/definitions/a~01b", "#/definitions/a~1b", "#/definitions/a%2Fb",
          "#/definitions/#c", "#/definitions/"] := by
    decide +kernel
  have hd : signs.root.Lossless := by
    simp [signs, Json.lossless_obj_iff, Json.lossless_arr_iff, Json.Lossless.str]
  obtain ⟨g, hg, hn⟩ := exists_of_map_toOption_eq_some hb
  obtain ⟨_, members, endpoints, handlers, hl, hr, hread⟩ := lists_of_build hg
  refine ⟨g, members, endpoints, handlers, hg, hl, hr, hread hd, ?_⟩
  rw [hl.entries, Members.names, List.map_map]
  exact hn

end Manifest
end ApiDescriptors
