import ApiDescriptors.Proofs.Endpoint
import ApiDescriptors.Proofs.Reading
import ApiDescriptors.Proofs.Schema.Discovery
import ApiDescriptors.Proofs.Serializer
import ApiDescriptors.Registry

namespace ApiDescriptors.Registry

open Result

variable {d : Document} {o : Options} {g : Registry} {graph : SchemaGraph} {paths : List PathEntry}
  {r : Resolution} {ids : Identifiers} {naming : Serializer.Naming}
variable {entries : List PathVerbs} {serializers : List Serializer} {classes : Namespace}
  {p : Pointer}

theorem mem_discoveryRoots_of_mem_roots (o : Options) (h : p ∈ graph.roots) :
    p ∈ discoveryRoots graph o := by
  simp only [discoveryRoots]
  split
  · exact List.mem_append_left _ h
  · exact h

-- The schemas that operations declare are in the graph, and serializers are discovered from them.
theorem mem_roots_of_mem_schemaSites (h : SchemaGraph.load d paths = .ok graph) {entry : PathEntry}
    {op : Operation} (he : entry ∈ paths) (ho : op ∈ entry.operations) (hp : p ∈ op.schemaSites) :
    p ∈ graph.roots := by
  have ⟨_, hs, _⟩ := SchemaGraph.load_eq_ok h
  rw [hs]
  exact List.mem_flatMap.mpr ⟨entry, he, List.mem_flatMap.mpr ⟨op, ho, hp⟩⟩

theorem sound_of_load (h : SchemaGraph.load d paths = .ok graph)
    (hr : Resolution.ofGraph graph = .ok r) : r.Sound := by
  have ⟨_, _, hl⟩ := SchemaGraph.load_eq_ok h
  exact Resolution.sound_ofGraph hl.closed hr

-- Every object that is reached from where discovery starts has a serializer.
theorem exists_find?_of_reaches {roots : List Pointer} {classes' : Namespace}
    {s : Schema} (hr : r.Sound)
    (hs : Serializer.ofSchemas naming classes r (r.discover roots) = .ok (serializers, classes'))
    (h : r.Reaches roots s) (ho : s.isObject) : ∃ t, Serializer.find? serializers s.node = some t :=
  Serializer.exists_find?_of_ofSchemas hs (hr.mem_discover_iff.mpr ⟨ho, h⟩)

theorem usable_of_mem_roots {o : Options} {classes' : Namespace}
    (hl : SchemaGraph.load d paths = .ok graph)
    (hr : Resolution.ofGraph graph = .ok r)
    (hs : Serializer.ofSchemas naming classes r (r.discover (discoveryRoots graph o)) =
      .ok (serializers, classes'))
    (hp : p ∈ graph.roots) : Verb.Usable r serializers p := by
  have hsound := sound_of_load hl hr
  have hg := Resolution.graph_ofGraph hr
  have ⟨_, _, hloaded⟩ := SchemaGraph.load_eq_ok hl
  have hn : p ∈ r.graph.nodes := hg ▸ hloaded.mem_nodes_of_mem_roots hp
  constructor
  case type => exact hsound.specific_fieldType hn
  case serializer =>
    intro usage hu
    have ⟨s, _, hc, _⟩ := hsound.exists_canonical? hn
    have hreach := Resolution.Reaches.root (mem_discoveryRoots_of_mem_roots o hp) hc
    have ⟨object, ho, hobj, he⟩ := hreach.usage? hc hu
    exact he ▸ exists_find?_of_reaches hsound hs ho hobj

-- Every stage hands the next one what that looks up, so no look-up fails.
theorem specific_build (d : Document) (o : Options) : (build d o).Specific := by
  refine .bind d.legible_paths.specific fun paths _ =>
    .bind (SchemaGraph.legible_load d paths).specific fun graph hl => ?_
  refine .bind (Resolution.legible_ofGraph graph).specific fun r hr => ?_
  have hsound := sound_of_load hl hr
  refine .bind (Serializer.specific_ofSchemas fun schema hm p hp => ?serializers)
    fun ⟨serializers, _⟩ hs => ?_
  case serializers =>
    have ⟨_, hreach⟩ := hsound.mem_discover_iff.mp hm
    exact hsound.specific_fieldType (hsound.mem_nodes_of_reaches hreach hp)
  refine .bind (PathVerbs.specific_ofEntries fun entry he op ho p hp => ?_) fun _ _ => ?_
  · exact usable_of_mem_roots hl hr hs (mem_roots_of_mem_schemaSites hl he ho hp)
  · exact .bind Endpoints.specific_ofPaths fun _ _ => .pure _

def grouped (g : Registry) : Endpoints where
  endpoints := g.endpoints
  handlers  := g.handlers

-- All verbs, each with the path and the route by which it is reached.
def operations (g : Registry) : List Handler :=
  g.grouped.operations

def verbs (g : Registry) : List Verb :=
  g.endpoints.flatMap (·.verbs) ++ g.handlers.map (·.verb)

def routes (g : Registry) : List Route :=
  g.endpoints.map (·.route) ++ g.handlers.map (·.route)

-- What the stages of a build handed on, for the registry that came out.
structure Stages (d : Document) (o : Options) (g : Registry) (paths : List PathEntry)
    (r : Resolution)
    (entries : List PathVerbs) (ids : Identifiers := o.identifiers) : Prop where
  dialect     : g.dialect = d.dialect
  read        : d.paths = .ok paths
  graph       : SchemaGraph.load d paths = .ok g.graph
  resolution  : Resolution.ofGraph g.graph = .ok r
  serializers : ∃ classes, Serializer.ofSchemas ⟨ids, o.serializerSuffix⟩ ⟨.ofClass, []⟩ r
    (r.discover (discoveryRoots g.graph o)) = .ok (g.serializers, classes)
  verbs       : ∃ functions,
    PathVerbs.ofEntries ids r g.serializers ⟨.ofFunction, []⟩ paths =
    .ok (entries, functions)
  endpoints   : ∃ classes classes',
    Endpoints.ofPaths ⟨ids, o.endpointSuffix⟩ classes entries = .ok (g.grouped, classes')

theorem buildNamed_eq_ok (h : buildNamed ids d o = .ok g) :
    ∃ paths r entries, Stages d o g paths r entries ids := by
  have ⟨paths, hp, h⟩ := bind_eq_ok.mp h
  have ⟨graph, hl, h⟩ := bind_eq_ok.mp h
  have ⟨r, hr, h⟩ := bind_eq_ok.mp h
  have ⟨⟨serializers, classes⟩, hs, h⟩ := bind_eq_ok.mp h
  have ⟨⟨entries, functions⟩, hv, h⟩ := bind_eq_ok.mp h
  have ⟨⟨all, classes'⟩, he, h⟩ := bind_eq_ok.mp h
  cases pure_eq_ok.mp h
  exact ⟨paths, r, entries, rfl, hp, hl, hr, ⟨classes, hs⟩, ⟨functions, hv⟩,
    ⟨classes, classes', he⟩⟩

theorem build_eq_ok (h : build d o = .ok g) : ∃ paths r entries, Stages d o g paths r entries :=
  buildNamed_eq_ok h

namespace Stages

variable (h : Stages d o g paths r entries ids)
include h

theorem sound : r.Sound :=
  sound_of_load h.graph h.resolution

theorem graph_eq : r.graph = g.graph :=
  Resolution.graph_ofGraph h.resolution

theorem exists_serializer? {s : Schema} (hr : r.Reaches (discoveryRoots g.graph o) s)
    (ho : s.isObject) :
    ∃ t, g.serializer? s.node = some t :=
  have ⟨_, hs⟩ := h.serializers
  exists_find?_of_reaches h.sound hs hr ho

-- A schema that an operation declares has its canonical schema reached.
theorem exists_reaches_of_mem_schemaSites {entry : PathEntry} {op : Operation} (he : entry ∈ paths)
    (ho : op ∈ entry.operations) (hp : p ∈ op.schemaSites) :
    ∃ s, r.canonical? p = some s ∧ r.Reaches (discoveryRoots g.graph o) s := by
  have ⟨_, _, hl⟩ := SchemaGraph.load_eq_ok h.graph
  have hm := mem_roots_of_mem_schemaSites h.graph he ho hp
  have ⟨s, _, hc, _⟩ := h.sound.exists_canonical? (h.graph_eq ▸ hl.mem_nodes_of_mem_roots hm)
  exact ⟨s, hc, .root (mem_discoveryRoots_of_mem_roots o hm) hc⟩

-- Serializers were built for the objects discovered, in that order.
theorem schemas_serializers :
    g.serializers.map (·.schema) = (r.discover (discoveryRoots g.graph o)).map (·.node) :=
  have ⟨_, hs⟩ := h.serializers
  Serializer.schemas_of_ofSchemas hs

theorem nodup_schemas : (g.serializers.map (·.schema)).Nodup :=
  h.schemas_serializers ▸ h.sound.nodup_discover _

theorem exists_schema_of_mem_serializers {s : Serializer} (hs : s ∈ g.serializers) :
    ∃ schema, r.Reaches (discoveryRoots g.graph o) schema ∧ s.schema = schema.node ∧
      Serializer.fieldsOf ids r schema = .ok s.fields ∧
      s.dependsOn = Serializer.dependencies s.schema s.fields := by
  have ⟨_, ho⟩ := h.serializers
  have ⟨schema, hm, _, _, he⟩ := Serializer.exists_schema_of_ofSchemas ho hs
  have ⟨_, hf, he⟩ := Serializer.ofSchema_eq_ok.mp he
  have ⟨_, hreach⟩ := h.sound.mem_discover_iff.mp hm
  subst he
  exact ⟨schema, hreach, rfl, hf, rfl⟩

theorem exists_mem_schemas_of_mem_serializers {s : Serializer} (hs : s ∈ g.serializers) :
    ∃ schema ∈ g.graph.schemas, s.schema = schema.node ∧
      Serializer.fieldsOf ids r schema = .ok s.fields := by
  have ⟨schema, hr, he, hf, _⟩ := h.exists_schema_of_mem_serializers hs
  exact ⟨schema, h.graph_eq ▸ h.sound.mem_schemas_of_reaches hr, he, hf⟩

-- A field is that of a property.
theorem exists_property_of_mem_fields {s : Serializer} {f : Field} (hs : s ∈ g.serializers)
    (hf : f ∈ s.fields) :
    ∃ schema ∈ g.graph.schemas, s.schema = schema.node ∧
      ∃ properties required, schema.form = .object properties required ∧
        ∃ property ∈ properties, Serializer.field ids r required property.1 property.2 = .ok f := by
  have ⟨schema, hm, he, hof⟩ := h.exists_mem_schemas_of_mem_serializers hs
  simp only [Serializer.fieldsOf] at hof
  split at hof
  case h_1 properties required hform =>
    exact ⟨schema, hm, he, properties, required, hform, Serializer.field_of_mem_fieldsFrom hof hf⟩
  case h_2 => rw [← Except.ok.inj hof] at hf; cases hf

-- The verbs of a path are those of its operations.
theorem describe_of_mem_verbs {entry : PathVerbs} {v : Verb} (he : entry ∈ entries)
    (hv : v ∈ entry.verbs) :
    ∃ declared ∈ paths, ∃ op ∈ declared.operations,
      Verb.describe ids r g.serializers declared.template op = .ok v := by
  have ⟨_, hof⟩ := h.verbs
  have ⟨declared, hd, op, ho, _, hop⟩ := PathVerbs.exists_operation_of_mem_verbs hof he hv
  exact ⟨declared, hd, op, ho, hop⟩

theorem perm_map_operations {γ : Type} (f : String → Verb → γ) :
    (g.operations.map fun x => f x.path x.verb).Perm
      (entries.flatMap fun entry => entry.verbs.map (f entry.path)) :=
  have ⟨_, _, ho⟩ := h.endpoints
  Endpoints.perm_map_operations_ofPaths f ho

theorem perm_verbs : g.verbs.Perm (entries.flatMap (·.verbs)) := by
  have hv : g.operations.map (·.verb) = g.verbs := by
    simp [Registry.operations, Endpoints.operations, Endpoint.operations, grouped, Registry.verbs,
      List.map_flatMap, Function.comp_def]
  simpa [hv] using h.perm_map_operations fun _ v => v

theorem exists_entry_of_mem_verbs {v : Verb} (hv : v ∈ g.verbs) :
    ∃ entry ∈ entries, v ∈ entry.verbs :=
  List.mem_flatMap.mp (h.perm_verbs.mem_iff.mp hv)

-- A verb is reached by the route of its path, be it in an endpoint or by itself.
theorem exists_entry_of_mem_operations {x : Handler} (hx : x ∈ g.operations) :
    ∃ entry ∈ entries, Route.ofVerbs entry = .ok x.route ∧ x.path = entry.path ∧
      x.verb ∈ entry.verbs := by
  have ⟨_, _, ho⟩ := h.endpoints
  cases List.mem_append.mp hx
  case inl hx =>
    have ⟨e, he, hx⟩ := List.mem_flatMap.mp hx
    have ⟨v, hv, hx⟩ := List.mem_map.mp hx
    have ⟨entry, hm, _, _, hr, he⟩ := Endpoints.exists_of_mem_endpoints ho he
    subst he hx
    exact ⟨entry, hm, hr, rfl, List.mem_of_mem_filter hv⟩
  case inr hx => exact Endpoints.exists_of_mem_handlers ho hx

theorem exists_entry_of_mem_routes {route : Route} (hr : route ∈ g.routes) :
    ∃ entry ∈ entries, Route.ofVerbs entry = .ok route := by
  have ⟨_, _, ho⟩ := h.endpoints
  cases List.mem_append.mp hr
  case inl hr =>
    have ⟨_, he, hr⟩ := List.mem_map.mp hr
    have ⟨entry, hm, _, _, hv, he⟩ := Endpoints.exists_of_mem_endpoints ho he
    subst he hr
    exact ⟨entry, hm, hv⟩
  case inr hr =>
    have ⟨_, hx, hr⟩ := List.mem_map.mp hr
    have ⟨entry, hm, hv, _⟩ := Endpoints.exists_of_mem_handlers ho hx
    exact ⟨entry, hm, hr ▸ hv⟩

-- What verbs say as their operations do, in the order of the document.
theorem flatMap_verbs {γ : Type} {f : String → Verb → γ} {q : String → Operation → γ}
    (hf : ∀ path op v, Verb.describe ids r g.serializers path op = .ok v →
      f path v = q path op) :
    (entries.flatMap fun entry => entry.verbs.map (f entry.path)) =
      paths.flatMap fun declared => declared.operations.map (q declared.template) := by
  have ⟨_, hv⟩ := h.verbs
  have hl := mapM_eq_ok.mp (PathVerbs.ofEntries_eq_ok hv).left
  clear hv h
  induction hl
  case nil => rfl
  case cons declared entry _ _ hd _ hi =>
    have ⟨verbs, hm, he⟩ := bind_eq_ok.mp hd
    cases pure_eq_ok.mp he
    rw [List.flatMap_cons, List.flatMap_cons, hi, map_eq_of_mapM_eq_ok hm (hf declared.template)]

theorem functionNames_verbs :
    (entries.flatMap (·.verbs)).map (·.functionName) =
      PathVerbs.functionNames ids paths := by
  rw [List.map_flatMap]
  exact h.flatMap_verbs fun _ _ _ hv => Verb.functionName_of_describe hv

-- Each operation has its verb, which has the function name for it.
theorem exists_verb_of_mem_operations {declared : PathEntry} {op : Operation}
    (hd : declared ∈ paths) (ho : op ∈ declared.operations) :
    ∃ v ∈ g.verbs, Verb.describe ids r g.serializers declared.template op = .ok v := by
  have ⟨_, hof⟩ := h.verbs
  have ⟨entry, he, hde⟩ := exists_of_mapM_eq_ok (PathVerbs.ofEntries_eq_ok hof).left hd
  have ⟨verbs, hvs, hde⟩ := bind_eq_ok.mp hde
  cases pure_eq_ok.mp hde
  have ⟨v, hv, hdv⟩ := exists_of_mapM_eq_ok hvs ho
  exact ⟨v, h.perm_verbs.mem_iff.mpr (List.mem_flatMap.mpr ⟨_, he, hv⟩), hdv⟩

-- A verb is known by its function name: where this is the name for an operation, the verb is the
-- one of that operation.
theorem describe_of_functionName {v : Verb} {declared : PathEntry} {op : Operation}
    (hv : v ∈ g.verbs) (hd : declared ∈ paths) (ho : op ∈ declared.operations)
    (hn : v.functionName = Verb.nameFor ids declared.template op) :
    Verb.describe ids r g.serializers declared.template op = .ok v := by
  have ⟨_, hof⟩ := h.verbs
  have ⟨w, hw, hdw⟩ := h.exists_verb_of_mem_operations hd ho
  have hnodup := (PathVerbs.ofEntries_eq_ok hof).right.left
  rw [← h.functionNames_verbs] at hnodup
  have hvw : v = w :=
    List.inj_on_of_nodup_map hnodup (h.perm_verbs.mem_iff.mp hv) (h.perm_verbs.mem_iff.mp hw)
    (hn.trans (Verb.functionName_of_describe hdw).symm)
  exact hvw ▸ hdw

end Stages

-- The document of a value, with its registry.
def buildValue (value : Yaml.Value) (o : Options) : Result (Document × Registry) := do
  let d ← Document.ofValue value
  return (d, ← build d o)

theorem buildValue_eq_ok {value : Yaml.Value} (h : buildValue value o = .ok (d, g)) :
    Document.ofValue value = .ok d ∧ build d o = .ok g := by
  have ⟨_, hd, h⟩ := bind_eq_ok.mp h
  have ⟨_, hg, h⟩ := bind_eq_ok.mp h
  cases pure_eq_ok.mp h
  exact ⟨hd, hg⟩

-- A document with two schemas that refer to each other. One is returned by itself and in a list.
def sample : Document where
  dialect := .swagger2
  root := .obj [
    ("swagger", .str "2.0"),
    ("paths", .obj [
      ("/pets", .obj [("get", .obj [("responses", .obj [("200", .obj [("schema", .obj [
        ("type", .str "array"), ("items", .obj [("$ref", .str "#/definitions/Pet")])])])])])]),
      ("/pets/first", .obj [("get", .obj [("responses", .obj [("200", .obj [("schema", .obj [
        ("$ref", .str "#/definitions/Pet")])])])])])
    ]),
    ("definitions", .obj [
      ("Pet", .obj [("properties", .obj [
        ("name", .obj [("type", .str "string")]),
        ("owner", .obj [("$ref", .str "#/definitions/Owner")])])]),
      ("Owner", .obj [("properties", .obj [
        ("pets", .obj [("type", .str "array"),
          ("items", .obj [("$ref", .str "#/definitions/Pet")])])])])
    ])
  ]

end ApiDescriptors.Registry
