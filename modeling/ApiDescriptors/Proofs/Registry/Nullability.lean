import ApiDescriptors.Proofs.Registry.Build
import ApiDescriptors.Proofs.Schema.Nullability

namespace ApiDescriptors

open Result Relation

-- The node of a property of the schema that a serializer was made for.
def Serializer.property (s : Serializer) (name : String) : Pointer :=
  (s.schema.child "properties").child name

namespace Registry

variable {d : Document} {o : Options} {g : Registry} {paths : List PathEntry} {r : Resolution}
  {entries : List PathVerbs} {s : Serializer} {f : Field}

theorem Stages.property_of_mem_fields (h : Stages d o g paths r entries) (hs : s ∈ g.serializers)
    (hf : f ∈ s.fields) :
    s.property f.name ∈ g.graph.nodes ∧ f.nullable = r.isNullable (s.property f.name) := by
  obtain ⟨_, _, hl⟩ := SchemaGraph.load_eq_ok h.graph
  obtain ⟨schema, hm, he, properties, required, hform, property, hp, ho⟩ :=
    h.exists_property_of_mem_fields hs hf
  obtain ⟨_, hfield⟩ := Serializer.field_eq_ok.mp ho
  have hname : f.name = property.1 := by rw [hfield]
  have hnull : f.nullable = r.isNullable property.2 := by rw [hfield]
  have hlink : property.2 ∈ schema.links := by
    simpa [Schema.links, hform, Schema.Form.links] using ⟨property.1, hp⟩
  have hnode : property.2 = s.property f.name := by
    obtain ⟨_, _, hread⟩ := Document.schemaAt_eq_ok (hl.read schema hm)
    obtain ⟨members, _, hd⟩ := Schema.declared_of_read hread
    rw [hform] at hd
    cases hd
    obtain ⟨_, _, hn⟩ := List.mem_map.mp hp
    subst hn
    rw [Serializer.property, he, hname]
  exact ⟨hnode ▸ hl.mem_nodes_of_mem_links hm hlink, hnode ▸ hnull⟩

-- A field is nullable where the schema at the end of its alias chain allows null. So a schema on
-- the way that allows null counts only if this one allows it too.
theorem nullable_of_build (h : build d o = .ok g) : ∀ s ∈ g.serializers, ∀ f ∈ s.fields,
    ∃ q, (∀ t, d.EndsAt (s.property f.name) t ↔ t = q) ∧
      (f.nullable = true ↔ d.AllowsNullAt q) ∧
      ((f.nullable = true ↔
          ∃ t, ReflTransGen d.AliasOf (s.property f.name) t ∧ d.AllowsNullAt t) ↔
        ∀ t, ReflTransGen d.AliasOf (s.property f.name) t → d.AllowsNullAt t →
          d.AllowsNullAt q) := by
  intro s hs f hf
  have ⟨_, r, _, hst⟩ := build_eq_ok h
  have ⟨_, _, hl⟩ := SchemaGraph.load_eq_ok hst.graph
  have ⟨hn, he⟩ := hst.property_of_mem_fields hs hf
  have hc := hst.sound.chain (hst.graph_eq ▸ hn)
  rw [hst.graph_eq] at hc
  have ⟨q, hq, hnull⟩ := hl.nullable_aliasChainFrom hn hc
  have hnull : f.nullable = true ↔ d.AllowsNullAt q := by rw [he]; exact hnull
  refine ⟨q, fun t => ⟨fun ht => ht.unique hq, fun he => he ▸ hq⟩, hnull,
    fun hall t hw ht => hnull.mp (hall.mpr ⟨t, hw, ht⟩), fun hall => ?_⟩
  exact ⟨fun hf => ⟨q, hq.way, hnull.mp hf⟩, fun ⟨t, hw, ht⟩ => hnull.mpr (hall t hw ht)⟩

-- A schema with one property, which wraps another schema. Each of the two allows null or not.
def wrappedOwner (wrapper owner : Bool) : Yaml.Value := .map [
  (.scalar (.str "swagger"), .scalar (.str "2.0")),
  (.scalar (.str "definitions"), .map [
    (.scalar (.str "Owner"), .map [
      (.scalar (.str "type"), .scalar (.str "object")),
      (.scalar (.str "x-nullable"), .scalar (.bool owner))]),
    (.scalar (.str "Pet"), .map [(.scalar (.str "properties"), .map [
      (.scalar (.str "owner"), .map [
        (.scalar (.str "x-nullable"), .scalar (.bool wrapper)),
        (.scalar (.str "allOf"), .seq [.map [
          (.scalar (.str "$ref"), .scalar (.str "#/definitions/Owner"))]])])])])])
]

-- The fields of all serializers, with what they tell of null.
def nullability (g : Registry) : List (Pointer × String × Bool) :=
  g.serializers.flatMap fun s => s.fields.map fun f => (s.schema, f.name, f.nullable)

theorem exists_of_mem_nullability {schema : Pointer} {name : String} {nullable : Bool}
    (h : (schema, name, nullable) ∈ nullability g) :
    ∃ s ∈ g.serializers, ∃ f ∈ s.fields, s.schema = schema ∧ f.name = name ∧
      f.nullable = nullable := by
  have ⟨s, hs, h⟩ := List.mem_flatMap.mp h
  have ⟨f, hf, h⟩ := List.mem_map.mp h
  cases h
  exact ⟨s, hs, f, hf, rfl, rfl, rfl⟩

theorem exists_nullable_wrappedOwner : ∃ d g q,
    buildValue (wrappedOwner false true) { includeUnreferencedSchemas := true } = .ok (d, g) ∧
    nullability g = [(⟨["definitions", "Pet"]⟩, "owner", true)] ∧
    d.EndsAt ⟨["definitions", "Pet", "properties", "owner"]⟩ q ∧ d.AllowsNullAt q := by
  have hb : (buildValue (wrappedOwner false true)
      { includeUnreferencedSchemas := true }).toOption.map (nullability ·.2) =
      some [(⟨["definitions", "Pet"]⟩, "owner", true)] := by decide +kernel
  have ⟨(d, g), h, hn⟩ := exists_of_map_toOption_eq_some hb
  have ⟨_, hg⟩ := buildValue_eq_ok h
  have hm : (⟨["definitions", "Pet"]⟩, "owner", true) ∈ nullability g := hn ▸ List.mem_cons_self
  have ⟨s, hs, f, hf, hschema, hname, hnull⟩ := exists_of_mem_nullability hm
  have ⟨q, hq, ha, _⟩ := nullable_of_build hg s hs f hf
  rw [Serializer.property, hschema, hname] at hq
  exact ⟨d, g, q, h, hn, (hq q).mpr rfl, ha.mp hnull⟩

-- Whether a value has a member that is true.
def marks (name : String) (v : Json) : Bool :=
  match v.get? name with
  | some (.bool b) => b
  | _              => false

theorem get?_of_marks {name : String} {v : Json} (h : marks name v) :
    v.get? name = some (.bool true) := by
  simp only [marks] at h
  split at h
  case h_1 he => rw [he, h]
  case h_2    => cases h

theorem not_nullable_wrappedOwner : ¬∀ value d o g, Document.ofValue value = .ok d →
    build d o = .ok g → ∀ s ∈ g.serializers, ∀ f ∈ s.fields,
    (f.nullable = true ↔
      ∃ q, ReflTransGen d.AliasOf (s.property f.name) q ∧ d.AllowsNullAt q) := by
  intro hall
  have hb : (buildValue (wrappedOwner true false)
      { includeUnreferencedSchemas := true }).toOption.map (fun x =>
        ((x.1.get? ⟨["definitions", "Pet", "properties", "owner"]⟩).map fun v =>
          ((v.get? "$ref").isNone, marks "x-nullable" v), nullability x.2)) =
      some (some (true, true), [(⟨["definitions", "Pet"]⟩, "owner", false)]) := by decide +kernel
  obtain ⟨⟨d, g⟩, h, hn⟩ := exists_of_map_toOption_eq_some hb
  obtain ⟨hd, hg⟩ := buildValue_eq_ok h
  obtain ⟨hv, hn⟩ := Prod.mk.inj hn
  have hm : (⟨["definitions", "Pet"]⟩, "owner", false) ∈ nullability g := hn ▸ List.mem_cons_self
  obtain ⟨s, hs, f, hf, hschema, hname, hnull⟩ := exists_of_mem_nullability hm
  obtain ⟨v, hv, hm⟩ := Option.map_eq_some_iff.mp hv
  obtain ⟨hr, hx⟩ := Prod.ext_iff.mp hm
  have ha : d.AllowsNullAt (s.property f.name) := by
    rw [Serializer.property, hschema, hname]
    exact ⟨v, hv, Option.isNone_iff_eq_none.mp hr, .inr (.inl (get?_of_marks hx))⟩
  have ht := (hall _ d _ g hd hg s hs f hf).mpr ⟨_, .refl, ha⟩
  cases hnull.symm.trans ht

end Registry
end ApiDescriptors
