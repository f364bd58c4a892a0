import ApiDescriptors.Proofs.Extension.Resolution
import ApiDescriptors.Proofs.Registry.Reordering
import ApiDescriptors.Proofs.Schema.Faithful

namespace ApiDescriptors

open Result

namespace Resolution

variable {d : Document} {r : Resolution} {roots : List Pointer} {p : Pointer}

-- What loading comes across leads to a canonical schema that discovery comes across.
theorem Sound.exists_reaches_of_mentioned (h : r.Sound) (hl : SchemaGraph.Loaded d r.graph)
    (hr : r.graph.named ++ r.graph.roots ⊆ roots)
    (hp : SchemaGraph.Mentioned d (r.graph.named ++ r.graph.roots) p) :
    ∃ s, r.canonical? p = some s ∧ r.Reaches roots s := by
  induction hp
  case first p hp =>
    have ⟨s, _, hc, _⟩ := h.exists_canonical? ((hl.mem_nodes p).mpr (.first hp))
    exact ⟨s, hc, .root (hr hp) hc⟩
  case link p s q hp hs hq hi =>
    have ⟨t, hc, ht⟩ := hi
    have hn := Document.node_schemaAt hs
    have hm : s ∈ r.graph.schemas := hl.mem_schemas_iff.mpr ⟨hn.symm ▸ hp, hn.symm ▸ hs⟩
    have hg : r.graph.get? p = some s := hn ▸ h.closed.get?_of_mem hm
    by_cases hf : ∃ target, s.form = .aliasOf target
    case pos =>
      have ⟨target, hf⟩ := hf
      have he : q = target := by simpa [Schema.links, hf, Schema.Form.links] using hq
      exact ⟨t, he ▸ h.canonical?_of_aliasOf hg hf ▸ hc, ht⟩
    case neg =>
      cases hc.symm.trans (h.canonical?_of_concrete hg (not_exists.mp hf))
      have ⟨u, _, hu, _⟩ := h.exists_canonical? (h.closed.links s hm q hq)
      exact ⟨u, hu, ht.link hq hu⟩

end Resolution

-- An object among the named schemas, those that operations declare, and all that are linked from
-- these. It stands for no other schema, so it is its own canonical one.
structure Document.HasObject (d : Document) (paths : List PathEntry) (named : List Pointer)
    (key : Pointer) : Prop where
  mentioned : SchemaGraph.Mentioned d (named ++ SchemaGraph.sites paths) key
  object    : ∃ schema, d.schemaAt key = .ok schema ∧ schema.isObject

namespace Registry

-- A registry that has the serializers of another one first. Of their class names those that are
-- made up may have other numbers.
structure Appends (o : Options) (g g' : Registry) : Prop where
  keys : g.serializers.map (·.schema) <+: g'.serializers.map (·.schema)
  kept : ∀ s ∈ g.serializers, ∃ s' ∈ g'.serializers,
    s'.schema = s.schema ∧ s.Alike o.serializerNaming s'

variable {d : Document} {o : Options} {g g' : Registry}

-- Both builds come to one resolution, and discovery from the schemas of the operations comes first.
theorem appends_of_stages {paths paths' : List PathEntry} {r r' : Resolution}
    {entries entries' : List PathVerbs}
    (h : Stages d { o with includeUnreferencedSchemas := false } g paths r entries)
    (h' : Stages d { o with includeUnreferencedSchemas := true } g' paths' r' entries') :
    g.Appends o g' := by
  cases h.read.symm.trans h'.read
  have hg := Except.ok.inj (h.graph.symm.trans h'.graph)
  have hr := h'.resolution
  rw [← hg] at hr
  cases h.resolution.symm.trans hr
  have hroots : discoveryRoots g'.graph { o with includeUnreferencedSchemas := true } =
      discoveryRoots g.graph { o with includeUnreferencedSchemas := false } ++ g.graph.named := by
    simp [discoveryRoots, hg]
  have hd : r.discover (discoveryRoots g.graph { o with includeUnreferencedSchemas := false }) <+:
      r.discover (discoveryRoots g'.graph { o with includeUnreferencedSchemas := true }) :=
    hroots ▸ r.discover_prefix_append _ _
  obtain ⟨_, hs⟩ := h.serializers
  obtain ⟨_, hs'⟩ := h'.serializers
  constructor
  case keys =>
    rw [h.schemas_serializers, h'.schemas_serializers]
    exact hd.map _
  case kept =>
    intro s hm
    obtain ⟨schema, hm, name, hn, ho⟩ := Serializer.exists_schema_of_ofSchemas hs hm
    obtain ⟨s', hm', name', hn', ho'⟩ :=
      exists_of_forall₂_of_mem (Serializer.ofSchemas_eq_ok hs').left.flip (hd.subset hm)
    have ha := Serializer.alike_of_ofSchema (.refl r) hn hn' ho ho'
    exact ⟨s', hm', by rw [ha.same], ha⟩

theorem mem_keys_iff {paths : List PathEntry} {r : Resolution} {entries : List PathVerbs}
    (h : Stages d { o with includeUnreferencedSchemas := true } g paths r entries) (key : Pointer) :
    key ∈ g.serializers.map (·.schema) ↔ d.HasObject paths g.graph.named key := by
  obtain ⟨_, hsites, hl⟩ := SchemaGraph.load_eq_ok h.graph
  have hs := h.sound
  have hroots : discoveryRoots g.graph { o with includeUnreferencedSchemas := true } =
      g.graph.roots ++ g.graph.named := if_pos rfl
  rw [h.schemas_serializers, hroots]
  rw [← h.graph_eq] at hsites hl ⊢
  constructor
  case mp =>
    intro hk
    obtain ⟨schema, hm, he⟩ := List.mem_map.mp hk
    obtain ⟨ho, hr⟩ := hs.mem_discover_iff.mp hm
    obtain ⟨hm, hschema⟩ := hl.mem_schemas_iff.mp (hs.mem_schemas_of_reaches hr)
    exact he ▸ ⟨hsites ▸ hm, schema, hschema, ho⟩
  case mpr =>
    rintro ⟨hm, schema, hschema, ho⟩
    rw [← hsites] at hm
    have hn := Document.node_schemaAt hschema
    have hmem := hl.mem_schemas_iff.mpr ⟨hn.symm ▸ hm, hn.symm ▸ hschema⟩
    have hconcrete : schema.Concrete := fun _ hf => by simp [Schema.isObject, hf] at ho
    have hc := hs.canonical?_of_concrete (hn ▸ hs.closed.get?_of_mem hmem) hconcrete
    obtain ⟨s, hc', hr⟩ :=
      hs.exists_reaches_of_mentioned hl (List.perm_append_comm.subset) hm
    cases hc.symm.trans hc'
    exact List.mem_map.mpr ⟨schema, hs.mem_discover_iff.mpr ⟨ho, hr⟩, hn⟩

-- With the schemas that no operation leads to, a registry has all objects of the document. First
-- come those that it has without them, and their serializers say the same as there.
theorem appends_of_build (h : build d { o with includeUnreferencedSchemas := false } = .ok g)
    (h' : build d { o with includeUnreferencedSchemas := true } = .ok g') :
    g.Appends o g' ∧
    ∃ paths named, d.paths = .ok paths ∧ SchemaGraph.namedSchemas d = .ok named ∧
      ∀ key, key ∈ g'.serializers.map (·.schema) ↔ d.HasObject paths named key := by
  have ⟨_, _, _, h⟩ := build_eq_ok h
  have ⟨paths, _, _, h'⟩ := build_eq_ok h'
  have ⟨hn, _⟩ := SchemaGraph.load_eq_ok h'.graph
  exact ⟨appends_of_stages h h', paths, g'.graph.named, h'.read, hn, mem_keys_iff h'⟩

-- A document with a schema that no operation leads to, which declares the name that is made up for
-- another schema.
def unreferenced : Document where
  dialect := .swagger2
  root := .obj [
    ("swagger", .str "2.0"),
    ("paths", .obj [("/pets", .obj [("get", .obj [("responses", .obj [("200", .obj [
      ("schema", .obj [("properties", .obj [
        ("owner", .obj [("$ref", .str "#/definitions/Owner")])])])])])])])]),
    ("definitions", .obj [
      ("PetsGet200", .obj [("properties", .obj [
        ("owners", .obj [("type", .str "array"),
          ("items", .obj [("$ref", .str "#/definitions/Owner")])])])]),
      ("Name", .obj [("type", .str "string")]),
      ("Owner", .obj [("properties", .obj [
        ("name", .obj [("$ref", .str "#/definitions/Name")])])])])
  ]

theorem exists_appends_unreferenced : ∃ g g',
    build unreferenced {} = .ok g ∧
    build unreferenced { includeUnreferencedSchemas := true } = .ok g' ∧
    g.serializers.map (·.className) = ["PetsGet200Serializer", "OwnerSerializer"] ∧
    g'.serializers.map (·.className) =
      ["PetsGet2002Serializer", "OwnerSerializer", "PetsGet200Serializer"] ∧
    g.Appends {} g' ∧
    ∃ paths named, unreferenced.paths = .ok paths ∧
      SchemaGraph.namedSchemas unreferenced = .ok named ∧
      ∀ key, key ∈ g'.serializers.map (·.schema) ↔ unreferenced.HasObject paths named key := by
  have hb : (build unreferenced {}).toOption.map
      (·.serializers.map (·.className)) = some ["PetsGet200Serializer", "OwnerSerializer"] := by
    decide +kernel
  have hb' : (build unreferenced { includeUnreferencedSchemas := true }).toOption.map
      (·.serializers.map (·.className)) =
        some ["PetsGet2002Serializer", "OwnerSerializer", "PetsGet200Serializer"] := by
    decide +kernel
  have ⟨g, hg, hn⟩ := exists_of_map_toOption_eq_some hb
  have ⟨g', hg', hn'⟩ := exists_of_map_toOption_eq_some hb'
  exact ⟨g, g', hg, hg', hn, hn', appends_of_build (o := {}) hg hg'⟩

end Registry
end ApiDescriptors
