import ApiDescriptors.Proofs.Registry.Build
import ApiDescriptors.Proofs.Reordering.Verbs

namespace ApiDescriptors

open Result

namespace Registry

-- The verb for a method of a path, with the route by which it is reached.
def operation? (g : Registry) (path : String) (method : Method) : Option Handler :=
  g.operations.find? fun x => (x.path, x.verb.method) = (path, method)

-- Registries that say the same. In class names that are made up, for schemas without a declared
-- name and for endpoints, the numbers may differ.
structure Alike (o : Options) (g g' : Registry) : Prop where
  dialect     : g.dialect = g'.dialect
  serializers : ∀ key,
    Option.Rel (Serializer.Alike o.serializerNaming) (g.serializer? key) (g'.serializer? key)
  operations  : ∀ path method,
    (g.operation? path method).map (·.stable) = (g'.operation? path method).map (·.stable)
  endpoints   : (g.endpoints.map (·.stable)).Perm (g'.endpoints.map (·.stable))
  handlers    : (g.handlers.map (·.stable)).Perm (g'.handlers.map (·.stable))
  classes     : ∀ e ∈ g.endpoints ++ g'.endpoints,
    ∃ n, e.className = Namespace.candidate o.endpointNaming.ids (DerivedName.endpoint e.path)
      o.endpointNaming.suffix n

variable {d d' : Document} {o : Options} {g g' : Registry} {graph graph' : SchemaGraph}
  {paths : List PathEntry}
variable {r : Resolution} {entries : List PathVerbs}

theorem perm_discoveryRoots (h : graph.Reordered graph') (o : Options) :
    (discoveryRoots graph o).Perm (discoveryRoots graph' o) := by
  simp only [discoveryRoots]
  split
  · exact h.named ▸ h.roots.append_right _
  · exact h.roots

namespace Stages

variable (h : Stages d o g paths r entries)
include h

theorem nodup_operations (hd : d.root.Distinct) :
    (g.operations.map fun x => (x.path, x.verb.method)).Nodup := by
  have hp := h.perm_map_operations fun path v => (path, v.method)
  have hv := h.flatMap_verbs (q := fun path op => (path, op.method)) fun path op v hv =>
    congrArg (path, ·) (Verb.method_of_describe hv)
  rw [hp.nodup_iff, hv]
  exact Document.nodup_operations hd h.read

theorem exists_candidate_of_mem_endpoints {e : Endpoint} (he : e ∈ g.endpoints) :
    ∃ n, e.className = Namespace.candidate o.endpointNaming.ids (DerivedName.endpoint e.path)
      o.endpointNaming.suffix n := by
  have ⟨_, _, ho⟩ := h.endpoints
  have ⟨entry, _, _, n, _, he⟩ := Endpoints.exists_of_mem_endpoints ho he
  subst he
  dsimp only
  exact ⟨n, rfl⟩

end Stages

theorem operation?_eq (hn : (g.operations.map fun x => (x.path, x.verb.method)).Nodup)
    (he : (g.endpoints.map (·.stable)).Perm (g'.endpoints.map (·.stable)))
    (hh : (g.handlers.map (·.stable)).Perm (g'.handlers.map (·.stable))) (path : String)
    (method : Method) :
    (g.operation? path method).map (·.stable) = (g'.operation? path method).map (·.stable) := by
  have hp : (g.operations.map (·.stable)).Perm (g'.operations.map (·.stable)) := by
    simp only [operations]
    rw [Endpoints.map_stable_operations, Endpoints.map_stable_operations]
    exact (he.flatMap_right _).append hh
  have hn : ((g.operations.map (·.stable)).map fun x => (x.path, x.verb.method)).Nodup := by
    rw [List.map_map]
    exact hn
  have hf := find?_eq_of_perm hn hp (path, method)
  rw [List.find?_map, List.find?_map] at hf
  exact hf

theorem exists_build_of_reordered {value value' : Yaml.Value} (hd : Document.ofValue value = .ok d)
    (hd' : Document.ofValue value' = .ok d') (hroot : d.root.Reordered d'.root)
    (h : build d o = .ok g) :
    ∃ g', build d' o = .ok g' ∧ g.Alike o g' := by
  have ⟨paths, r, entries, h⟩ := build_eq_ok h
  have ⟨hs, paths', hp', hperm⟩ := Document.exists_paths_of_reordered hd hd' hroot h.read
  have ⟨_, _, hl⟩ := SchemaGraph.load_eq_ok h.graph
  have ⟨graph', hl', hg⟩ := SchemaGraph.exists_load_eq_ok hs hperm h.graph
  have ⟨r', hr', hr⟩ := Resolution.exists_ofGraph_eq_ok hg hl.closed h.resolution
  have hdiscover := hr.perm_discover h.sound (sound_of_load hl' hr') (perm_discoveryRoots hg o)
  have ⟨_, hser⟩ := h.serializers
  have ⟨serializers', classes', hser', hfind⟩ :=
    Serializer.exists_ofSchemas_eq_ok_of_perm hr hdiscover (h.sound.nodup_discover _) hser
  have hss : SerializersAlike _ g.serializers serializers' :=
    ⟨hfind, fun _ _ => Serializer.declared_of_find? hser⟩
  have ⟨_, hv⟩ := h.verbs
  have ⟨entries', _, hv', hverbs⟩ := PathVerbs.exists_ofEntries_eq_ok_of_perm hr hss hperm hv
  have ⟨_, _, he⟩ := h.endpoints
  have ⟨all', _, he', hendpoints, hhandlers⟩ :=
    Endpoints.exists_ofPaths_eq_ok_of_perm classes' hverbs he
  have hb : build d' o = .ok ⟨d'.dialect, graph', serializers', all'.endpoints, all'.handlers⟩ :=
    bind_eq_ok.mpr ⟨_, hp', bind_eq_ok.mpr ⟨_, hl', bind_eq_ok.mpr ⟨_, hr',
      bind_eq_ok.mpr ⟨_, hser', bind_eq_ok.mpr ⟨_, hv', bind_eq_ok.mpr ⟨_, he', rfl⟩⟩⟩⟩⟩⟩
  have ⟨_, _, _, h'⟩ := build_eq_ok hb
  refine ⟨_, hb, h.dialect.trans hs.dialect, hfind, ?_, hendpoints, hhandlers, fun e hm => ?_⟩
  case refine_1 =>
    have hnodup := h.nodup_operations (Document.distinct_ofValue hd).left
    exact operation?_eq hnodup hendpoints hhandlers
  case refine_2 =>
    cases List.mem_append.mp hm
    case inl hm => exact h.exists_candidate_of_mem_endpoints hm
    case inr hm => exact h'.exists_candidate_of_mem_endpoints hm

-- The order in which a document declares its paths decides numbers in class names, and no more.
theorem alike_of_reordered {value value' : Yaml.Value} (hd : Document.ofValue value = .ok d)
    (hd' : Document.ofValue value' = .ok d') (h : d.root.Reordered d'.root) (o : Options) :
    ((∃ g, build d o = .ok g) ↔ ∃ g', build d' o = .ok g') ∧
      ∀ g g', build d o = .ok g → build d' o = .ok g' → g.Alike o g' := by
  refine ⟨⟨fun ⟨_, hg⟩ => ?_, fun ⟨_, hg'⟩ => ?_⟩, fun g g' hg hg' => ?_⟩
  · have ⟨g', hg', _⟩ := exists_build_of_reordered hd hd' h hg
    exact ⟨g', hg'⟩
  · have ⟨g, hg, _⟩ := exists_build_of_reordered hd' hd h.symm hg'
    exact ⟨g, hg⟩
  · have ⟨_, hb, ha⟩ := exists_build_of_reordered hd hd' h hg
    exact Except.ok.inj (hb.symm.trans hg') ▸ ha

end Registry

mutual

-- A value that a tree is read from.
def Json.toYaml : Json → Yaml.Value
  | .null         => .scalar .null
  | .bool value   => .scalar (.bool value)
  | .int value    => .scalar (.int value)
  | .double value => .scalar (.double value)
  | .str text     => .scalar (.str text)
  | .arr items    => .seq (itemsToYaml items)
  | .obj members  => .map (membersToYaml members)

def Json.itemsToYaml : List Json → List Yaml.Value
  | []            => []
  | item :: items => item.toYaml :: itemsToYaml items

def Json.membersToYaml : List (String × Json) → List (Yaml.Value × Yaml.Value)
  | []                       => []
  | (name, value) :: members => (.scalar (.str name), value.toYaml) :: membersToYaml members

end

namespace Registry

-- Two paths that would have one class name, so that one of them gets a number.
def samplePaths : Members :=
  let item (method : String) : Json :=
    .obj [(method, .obj [("responses", .obj [("200", .obj [("schema", .obj [
      ("properties", .obj [("name", .obj [("type", .str "string")])])])])])])]
  [("/pets", item "get"), ("/Pets", item "post")]

def sampleInOrder (paths : Members) : Document where
  dialect := .swagger2
  root    := .withPaths [("swagger", .str "2.0")] paths []

def classNames (g : Registry) : List (String × String) :=
  g.endpoints.map fun e => (e.path, e.className)

theorem exists_alike_sample : ∃ d d' g g',
    Document.ofValue d.root.toYaml = .ok d ∧ Document.ofValue d'.root.toYaml = .ok d' ∧
      d.root.Reordered d'.root ∧
    build d {} = .ok g ∧ build d' {} = .ok g' ∧
    classNames g = [("/pets", "PetsView"), ("/Pets", "Pets2View")] ∧
    classNames g' = [("/Pets", "PetsView"), ("/pets", "Pets2View")] ∧ g.Alike {} g' := by
  have hd : Document.ofValue (sampleInOrder samplePaths).root.toYaml =
      .ok (sampleInOrder samplePaths) :=
    Document.ofValue_of_tree rfl (by decide +kernel)
  have hd' : Document.ofValue (sampleInOrder samplePaths.reverse).root.toYaml =
      .ok (sampleInOrder samplePaths.reverse) :=
    Document.ofValue_of_tree rfl (by decide +kernel)
  have h : (sampleInOrder samplePaths).root.Reordered (sampleInOrder samplePaths.reverse).root :=
    .paths _ _ samplePaths.reverse_perm.symm
  have hb : (build (sampleInOrder samplePaths) {}).toOption.map classNames =
      some [("/pets", "PetsView"), ("/Pets", "Pets2View")] := by decide +kernel
  have hb' : (build (sampleInOrder samplePaths.reverse) {}).toOption.map classNames =
      some [("/Pets", "PetsView"), ("/pets", "Pets2View")] := by decide +kernel
  have hok {d : Document} {names : List (String × String)}
      (hb : (build d {}).toOption.map classNames = some names) :
      ∃ g, build d {} = .ok g ∧ classNames g = names := by
    cases hg : build d {} <;> rw [hg] at hb <;> cases hb
    exact ⟨_, rfl, rfl⟩
  obtain ⟨g, hg, hn⟩ := hok hb
  obtain ⟨g', hg', hn'⟩ := hok hb'
  have halike := (alike_of_reordered hd hd' h {}).right g g' hg hg'
  exact ⟨_, _, g, g', hd, hd', h, hg, hg', hn, hn', halike⟩

end Registry
end ApiDescriptors
