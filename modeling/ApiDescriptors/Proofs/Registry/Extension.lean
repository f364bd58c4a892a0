import ApiDescriptors.Proofs.Extension.Schemas
import ApiDescriptors.Proofs.Registry.Reordering

namespace ApiDescriptors.Registry

open Result

variable {d d' : Document} {o : Options} {g g' : Registry} {paths : List PathEntry}
  {graph graph' : SchemaGraph} {r r' : Resolution}

-- Registries that offer the same, of schemas that may be more in one than in the other.
structure Same (g g' : Registry) : Prop where
  serializers : g'.serializers = g.serializers
  endpoints   : g'.endpoints = g.endpoints
  handlers    : g'.handlers = g.handlers

theorem within_of_load (h : d.Within d') (hp : d.paths = .ok paths)
    (hl : SchemaGraph.load d paths = .ok graph) (hl' : SchemaGraph.load d' paths = .ok graph')
    (hr : Resolution.ofGraph graph = .ok r) (hr' : Resolution.ofGraph graph' = .ok r') :
    r.Within r' where
  sound  := sound_of_load hl hr
  sound' := sound_of_load hl' hr'
  graph  := by
    rw [Resolution.graph_ofGraph hr, Resolution.graph_ofGraph hr']
    exact SchemaGraph.within_of_load h hp hl hl'

-- Each stage of the build comes to the same for what operations lead to.
theorem same_of_within (hd : d.Within d') (ho : o.includeUnreferencedSchemas = false)
    (h : build d o = .ok g) (h' : build d' o = .ok g') : g.Same g' := by
  have ⟨paths, hp, h⟩ := bind_eq_ok.mp h
  have ⟨graph, hl, h⟩ := bind_eq_ok.mp h
  have ⟨r, hr, h⟩ := bind_eq_ok.mp h
  have ⟨⟨serializers, classes⟩, hs, h⟩ := bind_eq_ok.mp h
  have ⟨⟨entries, _⟩, hv, h⟩ := bind_eq_ok.mp h
  have ⟨⟨all, _⟩, he, h⟩ := bind_eq_ok.mp h
  have ⟨paths', hp', h'⟩ := bind_eq_ok.mp h'
  have ⟨graph', hl', h'⟩ := bind_eq_ok.mp h'
  have ⟨r', hr', h'⟩ := bind_eq_ok.mp h'
  have ⟨⟨serializers', classes'⟩, hs', h'⟩ := bind_eq_ok.mp h'
  have ⟨⟨entries', _⟩, hv', h'⟩ := bind_eq_ok.mp h'
  have ⟨⟨all', _⟩, he', h'⟩ := bind_eq_ok.mp h'
  cases pure_eq_ok.mp h
  cases pure_eq_ok.mp h'
  cases (hd.kept_paths paths hp).symm.trans hp'
  have hw := within_of_load hd hp hl hl' hr hr'
  have ⟨_, hroots, hloaded⟩ := SchemaGraph.load_eq_ok hl
  have ⟨_, hroots', _⟩ := SchemaGraph.load_eq_ok hl'
  have hnodes : graph.roots ⊆ r.graph.nodes :=
    fun _ hm => Resolution.graph_ofGraph hr ▸ hloaded.mem_nodes_of_mem_roots hm
  have hdiscover : r'.discover (discoveryRoots graph' o) = r.discover (discoveryRoots graph o) := by
    simp only [discoveryRoots, ho, Bool.false_eq_true, if_false, hroots', ← hroots]
    exact (hw.discover_eq hnodes).symm
  have hserializers := Serializer.kept_ofSchemas (fun _ => hw.agreeAt_of_mem_discover) _ hs
  have hverbs : PathVerbs.ofEntries o.identifiers r serializers ⟨.ofFunction, []⟩ paths =
      PathVerbs.ofEntries o.identifiers r' serializers ⟨.ofFunction, []⟩ paths :=
    PathVerbs.ofEntries_congr fun entry hm op hop p hsite =>
      hw.agreeAt (hnodes (mem_roots_of_mem_schemaSites hl hm hop hsite))
  rw [hdiscover] at hs'
  cases hserializers.symm.trans hs'
  cases (hverbs.symm.trans hv).symm.trans hv'
  cases he.symm.trans he'
  exact ⟨rfl, rfl, rfl⟩

-- Schemas that no operation leads to leave no trace: a name that is added to the table of named
-- schemas changes nothing of what is generated.
theorem same_of_build {value value' : Yaml.Value} {name : String} {schema : Json}
    (hd : Document.ofValue value = .ok d) (hd' : Document.ofValue value' = .ok d')
    (hg : Json.Gains name schema d.schemaTable.segments d.root d'.root)
    (hr : ∀ text ∈ d.root.textsAt "$ref", ∀ p, Pointer.parse text = .ok p →
      ¬p.segments <+: d.schemaTable.segments)
    (ho : o.includeUnreferencedSchemas = false) (h : build d o = .ok g)
    (h' : build d' o = .ok g') : g.Same g' :=
  same_of_within (Document.within_of_gains hd hd' hg hr) ho h h'

-- A document with the named schemas given.
def petsWith (schemas : Members) : Document where
  dialect := .swagger2
  root := .obj [
    ("swagger", .str "2.0"),
    ("paths", .obj [("/pets", .obj [("get", .obj [("responses", .obj [("200", .obj [
      ("schema", .obj [("properties", .obj [
        ("owner", .obj [("$ref", .str "#/definitions/Owner")])])])])])])])]),
    ("definitions", .obj schemas)
  ]

def ownerSchema : Json :=
  .obj [("properties", .obj [("name", .obj [("$ref", .str "#/definitions/Name")])])]

def nameSchema : Json :=
  .obj [("type", .str "string")]

-- It declares the name that is made up for the schema of the response.
def unusedSchema : Json :=
  .obj [("properties", .obj [("owner", .obj [("$ref", .str "#/definitions/Owner")])])]

def pets : Document :=
  petsWith [("Owner", ownerSchema), ("Name", nameSchema)]

def extendedPets : Document :=
  petsWith [("Owner", ownerSchema), ("PetsGet200", unusedSchema), ("Name", nameSchema)]

theorem exists_same_extendedPets : ∃ g g',
    Document.ofValue pets.root.toYaml = .ok pets ∧
    Document.ofValue extendedPets.root.toYaml = .ok extendedPets ∧
    Json.Gains "PetsGet200" unusedSchema pets.schemaTable.segments pets.root extendedPets.root ∧
    (∀ text ∈ pets.root.textsAt "$ref", ∀ p, Pointer.parse text = .ok p →
      ¬p.segments <+: pets.schemaTable.segments) ∧
    build pets {} = .ok g ∧ build extendedPets {} = .ok g' ∧
    g.serializers.map (·.className) = ["PetsGet200Serializer", "OwnerSerializer"] ∧
    g.Same g' := by
  have hd : Document.ofValue pets.root.toYaml = .ok pets :=
    Document.ofValue_of_tree rfl (by decide +kernel)
  have hd' : Document.ofValue extendedPets.root.toYaml = .ok extendedPets :=
    Document.ofValue_of_tree rfl (by decide +kernel)
  have hg : Json.Gains "PetsGet200" unusedSchema pets.schemaTable.segments
      pets.root extendedPets.root :=
    .member [("swagger", _), ("paths", _)] (by decide)
      (.added [("Owner", ownerSchema)] (by decide))
  have hp : ∀ text ∈ pets.root.textsAt "$ref", ∀ p ∈ (Pointer.parse text).toOption,
      ¬p.segments <+: pets.schemaTable.segments := by decide +kernel
  have hr : ∀ text ∈ pets.root.textsAt "$ref", ∀ p, Pointer.parse text = .ok p →
      ¬p.segments <+: pets.schemaTable.segments :=
    fun text ht p h => hp text ht p (h ▸ rfl)
  have hb : (build pets {}).toOption.map (·.serializers.map (·.className)) =
      some ["PetsGet200Serializer", "OwnerSerializer"] := by decide +kernel
  have hb' : (build extendedPets {}).toOption.map (·.serializers.map (·.className)) =
      some ["PetsGet200Serializer", "OwnerSerializer"] := by decide +kernel
  obtain ⟨g, h, hn⟩ := exists_of_map_toOption_eq_some hb
  obtain ⟨g', h', _⟩ := exists_of_map_toOption_eq_some hb'
  exact ⟨g, g', hd, hd', hg, hr, h, h', hn, same_of_build hd hd' hg hr rfl h h'⟩

end ApiDescriptors.Registry
