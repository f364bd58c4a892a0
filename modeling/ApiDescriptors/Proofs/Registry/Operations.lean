import ApiDescriptors.Proofs.Operations
import ApiDescriptors.Proofs.Registry.Reordering

namespace ApiDescriptors

open Result

def Verb.declaration (v : Verb) : Declaration where
  method     := v.method
  node       := v.location
  standalone := v.standalone

theorem Verb.declaration_of_describe {ids : Identifiers} {r : Resolution}
    {serializers : List Serializer} {path : String} {op : Operation} {v : Verb}
    (h : describe ids r serializers path op = .ok v) : v.declaration = op.declaration := by
  have ⟨_, _, _, _, he⟩ := describe_eq_ok.mp h
  rw [he]
  rfl

def PathVerbs.row (entry : PathVerbs) : Row where
  path         := entry.path
  declarations := entry.verbs.map (·.declaration)

def Endpoint.row (e : Endpoint) : Row where
  path         := e.path
  declarations := e.verbs.map (·.declaration)

namespace Row

-- What an endpoint for the path answers.
def shared (row : Row) : Row :=
  { row with declarations := row.declarations.filter (!·.standalone) }

theorem shared_ne_nil_iff {row : Row} :
    row.shared.declarations ≠ [] ↔ ∃ x ∈ row.declarations, x.standalone = false := by
  simp [shared]

-- What handlers of their own answer.
def separate (row : Row) : List (String × Declaration) :=
  (row.declarations.filter (·.standalone)).map (row.path, ·)

end Row

namespace Endpoints

variable {naming : Naming} {classes classes' : Namespace} {entries : List PathVerbs}
  {all : Endpoints}

theorem rows_group (naming : Naming) (number : Nat) (entry : PathVerbs) (route : Route) :
    (group naming number entry route).endpoints.map (·.row) =
      [entry.row.shared].filter (·.declarations ≠ []) := by
  have hs : entry.row.shared.declarations =
      (entry.verbs.filter (!·.standalone)).map (·.declaration) :=
    List.filter_map
  simp only [group]
  split
  case isTrue he =>
    have hn : entry.row.shared.declarations = [] := by rw [hs, List.isEmpty_iff.mp he, List.map_nil]
    simp [hn]
  case isFalse he =>
    have hn : entry.row.shared.declarations ≠ [] := by
      rw [hs, ne_eq, List.map_eq_nil_iff, ← List.isEmpty_iff]
      exact he
    simp only [List.map_singleton, Endpoint.row, ← hs]
    simp [hn]
    rfl

theorem handlers_group (naming : Naming) (number : Nat) (entry : PathVerbs) (route : Route) :
    (group naming number entry route).handlers.map (fun x => (x.path, x.verb.declaration)) =
      entry.row.separate := by
  rw [Row.separate, PathVerbs.row, List.filter_map, group, List.map_map, List.map_map]
  rfl

theorem rows_ofPaths (h : ofPaths naming classes entries = .ok (all, classes')) :
    all.endpoints.map (·.row) =
      (entries.map (·.row.shared)).filter (·.declarations ≠ []) := by
  have ⟨parts, hf, he, _⟩ := ofPaths_eq_ok h
  have hg : entries.flatMap (fun entry => [entry.row.shared].filter (·.declarations ≠ [])) =
      parts.flatMap (·.endpoints.map (·.row)) :=
    flatMap_eq_of_forall₂ <| hf.imp fun entry _ ⟨route, number, _, hg⟩ =>
      hg ▸ (rows_group naming number entry route).symm
  rw [he, List.map_flatMap, ← hg, List.map_eq_flatMap, List.filter_flatMap]

theorem handlers_ofPaths (h : ofPaths naming classes entries = .ok (all, classes')) :
    all.handlers.map (fun x => (x.path, x.verb.declaration)) =
      entries.flatMap (·.row.separate) := by
  have ⟨parts, hf, _, hh⟩ := ofPaths_eq_ok h
  rw [hh, List.map_flatMap]
  exact .symm <| flatMap_eq_of_forall₂ <| hf.imp fun entry _ ⟨route, number, _, hg⟩ =>
    hg ▸ (handlers_group naming number entry route).symm

end Endpoints

namespace Registry

-- What a registry makes of the operations that are declared for paths: it keeps each of them once,
-- in the endpoint of its path or by itself, in the order of declaration.
structure Arranges (g : Registry) (rows : List Row) : Prop where
  operation_iff : ∀ path method,
    (∃ x ∈ g.operations, x.path = path ∧ x.verb.method = method) ↔
      ∃ row ∈ rows, row.path = path ∧ ∃ x ∈ row.declarations, x.method = method
  nodup         : (g.operations.map fun x => (x.path, x.verb.method)).Nodup
  handlers      : g.handlers.map (fun x => (x.path, x.verb.declaration)) = rows.flatMap (·.separate)
  endpoints     : g.endpoints.map (·.row) = (rows.map (·.shared)).filter (·.declarations ≠ [])
  nodup_paths   : (g.endpoints.map (·.path)).Nodup
  endpoint_iff  : ∀ path, (∃ e ∈ g.endpoints, e.path = path) ↔
    ∃ row ∈ rows, row.path = path ∧ ∃ x ∈ row.declarations, x.standalone = false

variable {d : Document} {o : Options} {g : Registry} {paths : List PathEntry} {r : Resolution}
  {entries : List PathVerbs} {rows : List Row}

theorem operation_iff_of_perm
    (h : (g.operations.map fun x => (x.path, x.verb.declaration)).Perm
      (rows.flatMap fun row => row.declarations.map (row.path, ·)))
    (path : String) (method : Method) :
    (∃ x ∈ g.operations, x.path = path ∧ x.verb.method = method) ↔
      ∃ row ∈ rows, row.path = path ∧ ∃ x ∈ row.declarations, x.method = method := by
  constructor
  case mp =>
    rintro ⟨x, hx, rfl, rfl⟩
    have ⟨row, hr, hm⟩ := List.mem_flatMap.mp (h.mem_iff.mp (List.mem_map_of_mem hx))
    have ⟨y, hy, he⟩ := List.mem_map.mp hm
    have ⟨hp, hd⟩ := Prod.ext_iff.mp he
    exact ⟨row, hr, hp, y, hy, congrArg Declaration.method hd⟩
  case mpr =>
    rintro ⟨row, hr, rfl, y, hy, rfl⟩
    have hm := h.mem_iff.mpr (List.mem_flatMap.mpr ⟨row, hr, List.mem_map_of_mem hy⟩)
    have ⟨x, hx, he⟩ := List.mem_map.mp hm
    have ⟨hp, hd⟩ := Prod.ext_iff.mp he
    exact ⟨x, hx, hp, congrArg Declaration.method hd⟩

variable (he : g.endpoints.map (·.row) = (rows.map (·.shared)).filter (·.declarations ≠ []))
include he

theorem endpoint_iff_of_rows (path : String) :
    (∃ e ∈ g.endpoints, e.path = path) ↔
      ∃ row ∈ rows, row.path = path ∧ ∃ x ∈ row.declarations, x.standalone = false := by
  simp only [← Row.shared_ne_nil_iff]
  constructor
  case mp =>
    rintro ⟨e, hm, rfl⟩
    have hs : e.row ∈ g.endpoints.map (·.row) := List.mem_map_of_mem hm
    rw [he, List.mem_filter, decide_eq_true_eq] at hs
    have ⟨row, hr, hrow⟩ := List.mem_map.mp hs.left
    exact ⟨row, hr, congrArg Row.path hrow, hrow ▸ hs.right⟩
  case mpr =>
    rintro ⟨row, hr, rfl, hne⟩
    have hs : row.shared ∈ g.endpoints.map (·.row) :=
      he ▸ List.mem_filter.mpr ⟨List.mem_map_of_mem hr, decide_eq_true hne⟩
    have ⟨e, hm, hrow⟩ := List.mem_map.mp hs
    exact ⟨e, hm, congrArg Row.path hrow⟩

theorem nodup_paths_of_rows (hn : (rows.map (·.path)).Nodup) :
    (g.endpoints.map (·.path)).Nodup := by
  have hs := (List.filter_sublist (p := (·.declarations ≠ []))
    (l := rows.map (·.shared))).map (·.path)
  rw [← he, List.map_map, List.map_map] at hs
  exact hn.sublist hs

omit he

namespace Stages

variable (h : Stages d o g paths r entries)
include h

theorem rows_entries : entries.map (·.row) = paths.map (·.row) := by
  have ⟨_, hv⟩ := h.verbs
  refine map_eq_of_mapM_eq_ok (PathVerbs.ofEntries_eq_ok hv).left fun declared entry hd => ?_
  have ⟨_, hm, he⟩ := bind_eq_ok.mp hd
  cases pure_eq_ok.mp he
  rw [PathVerbs.row, map_eq_of_mapM_eq_ok hm fun _ _ => Verb.declaration_of_describe]
  rfl

theorem perm_declarations :
    (g.operations.map fun x => (x.path, x.verb.declaration)).Perm
      ((paths.map (·.row)).flatMap fun row => row.declarations.map (row.path, ·)) := by
  have hp := h.perm_map_operations fun path v => (path, v.declaration)
  rw [← h.rows_entries, List.flatMap_map]
  simpa [PathVerbs.row, Function.comp_def] using hp

theorem arranges (hd : d.root.Distinct) : g.Arranges (paths.map (·.row)) := by
  have ⟨_, _, ho⟩ := h.endpoints
  have hendpoints : g.endpoints.map (·.row) =
      ((paths.map (·.row)).map (·.shared)).filter (·.declarations ≠ []) := by
    rw [← h.rows_entries, List.map_map]
    exact Endpoints.rows_ofPaths ho
  constructor
  case operation_iff => exact operation_iff_of_perm h.perm_declarations
  case nodup         => exact h.nodup_operations hd
  case handlers      =>
    rw [← h.rows_entries, List.flatMap_map]
    exact Endpoints.handlers_ofPaths ho
  case endpoints     => exact hendpoints
  case nodup_paths   =>
    refine nodup_paths_of_rows hendpoints ?_
    rw [List.map_map]
    exact Document.nodup_templates hd h.read
  case endpoint_iff  => exact endpoint_iff_of_rows hendpoints

end Stages

-- No operation is lost, repeated or moved.
theorem arranges_of_build {value : Yaml.Value} (hd : Document.ofValue value = .ok d)
    (h : build d o = .ok g) :
    (∃ rows, d.Declares rows) ∧ ∀ rows, d.Declares rows → g.Arranges rows := by
  have ⟨hroot, _⟩ := Document.distinct_ofValue hd
  have ⟨paths, _, _, hs⟩ := build_eq_ok h
  have hrows := Document.declares_paths hroot hs.read
  exact ⟨⟨_, hrows⟩, fun rows hr => hrows.unique hr ▸ hs.arranges hroot⟩

-- Paths that share an item, with operations of both kinds, and a path without an endpoint.
def sharedItem : Document where
  dialect := .swagger2
  root := .obj [
    ("swagger", .str "2.0"),
    ("x-pets", .obj [
      ("post", .obj [("x-appgen-standalone", .bool true), ("responses", .obj [])]),
      ("summary", .str "Pets"),
      ("get", .obj [("responses", .obj [])])]),
    ("paths", .obj [
      ("/pets", .obj [("$ref", .str "#/x-pets")]),
      ("x-note", .str "no path"),
      ("/log", .obj [
        ("put", .obj [("x-appgen-standalone", .bool true), ("responses", .obj [])])]),
      ("/animals", .obj [("$ref", .str "#/x-pets")])
    ])
  ]

theorem exists_arranges_sharedItem : ∃ g rows,
    Document.ofValue sharedItem.root.toYaml = .ok sharedItem ∧ build sharedItem {} = .ok g ∧
    sharedItem.Declares rows ∧ g.Arranges rows ∧
    g.endpoints.map (fun e => (e.path, e.verbs.map (·.method))) =
      [("/pets", [.get]), ("/animals", [.get])] ∧
    g.handlers.map (fun x => (x.path, x.verb.method)) =
      [("/pets", .post), ("/log", .put), ("/animals", .post)] := by
  have hd : Document.ofValue sharedItem.root.toYaml = .ok sharedItem :=
    Document.ofValue_of_tree rfl (by decide +kernel)
  have hb : (build sharedItem {}).toOption.map (fun g =>
      (g.endpoints.map (fun e => (e.path, e.verbs.map (·.method))),
        g.handlers.map (fun x => (x.path, x.verb.method)))) =
      some ([("/pets", [.get]), ("/animals", [.get])],
        [("/pets", .post), ("/log", .put), ("/animals", .post)]) := by decide +kernel
  obtain ⟨g, hg, hn⟩ := exists_of_map_toOption_eq_some hb
  obtain ⟨he, hh⟩ := Prod.ext_iff.mp hn
  obtain ⟨⟨rows, hr⟩, ha⟩ := arranges_of_build hd hg
  exact ⟨g, rows, hd, hg, hr, ha rows hr, he, hh⟩

end Registry
end ApiDescriptors
