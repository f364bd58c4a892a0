import ApiDescriptors.Proofs.Schema.Discovery
import ApiDescriptors.Proofs.Serializer

namespace ApiDescriptors.Serializer

open Result

variable {d : Document} {paths : List PathEntry} {g : SchemaGraph} {r : Resolution}
  {ids : Identifiers} {schema : Schema} {properties : List (String × Pointer)}
  {required : List String} {roots : List Pointer}

-- The fields of an object schema are those of its properties, and there are none if one of the
-- properties has no type or two have the same identifier.
structure Exact (ids : Identifiers) (r : Resolution) (schema : Schema)
    (properties : List (String × Pointer)) (required : List String) : Prop where
  succeeds  : (∃ fields, fieldsOf ids r schema = .ok fields) ↔
    (∀ property ∈ properties, ∃ type, r.fieldType property.2 = .ok type) ∧
      (properties.map fun property => ids.snake property.1).Nodup
  fields    : ∀ fields, fieldsOf ids r schema = .ok fields →
    List.Forall₂ (fun property f => f.name = property.1 ∧ r.fieldType property.2 = .ok f.type ∧
      (f.required = true ↔ property.1 ∈ required)) properties fields
  dependsOn : ∀ fields, fieldsOf ids r schema = .ok fields →
    dependencies schema.node fields =
      ((fields.filterMap (·.type.innermost?)).filter (· ≠ schema.node)).eraseDups

theorem exists_field_eq_ok_iff {name : String} {node : Pointer} :
    (∃ f, field ids r required name node = .ok f) ↔ ∃ type, r.fieldType node = .ok type := by
  simp only [field, bind_eq_ok, pure_eq_ok]
  constructor
  case mp =>
    rintro ⟨_, type, ht, _⟩
    exact ⟨type, ht⟩
  case mpr =>
    rintro ⟨type, ht⟩
    exact ⟨_, type, ht, rfl⟩

theorem exact_of_form (ids : Identifiers) (r : Resolution)
    (hf : schema.form = .object properties required) :
    Exact ids r schema properties required := by
  have he : fieldsOf ids r schema = fieldsFrom ids r required [] properties := by
    simp only [fieldsOf, hf]
  constructor <;> simp only [he]
  case succeeds =>
    constructor
    case mp =>
      rintro ⟨fields, h⟩
      obtain ⟨⟨hn, _⟩, hl⟩ := fieldsFrom_eq_ok.mp h
      refine ⟨fun property hp => ?_, hn⟩
      obtain ⟨f, _, h⟩ := exists_of_forall₂_of_mem hl.flip hp
      exact exists_field_eq_ok_iff.mp ⟨f, h⟩
    case mpr =>
      rintro ⟨ht, hn⟩
      have hs (property : String × Pointer) (hp : property ∈ properties) :
          ∃ f, field ids r required property.1 property.2 = .ok f :=
        exists_field_eq_ok_iff.mpr (ht property hp)
      obtain ⟨fields, hl⟩ := exists_mapM_eq_ok hs
      exact ⟨fields, fieldsFrom_eq_ok.mpr ⟨⟨hn, fun _ _ => rfl⟩, mapM_eq_ok.mp hl⟩⟩
  case fields =>
    intro fields h
    refine (fieldsFrom_eq_ok.mp h).right.imp fun property f h => ?_
    obtain ⟨ht, h⟩ := field_eq_ok.mp h
    exact ⟨by rw [h], ht, by rw [h]; exact decide_eq_true_iff⟩
  case dependsOn => exact fun fields _ => dependencies_eq schema.node fields

-- The fields of an object schema that discovery finds are exact.
theorem exact_of_discover (ids : Identifiers) (hl : SchemaGraph.load d paths = .ok g)
    (hr : Resolution.ofGraph g = .ok r) (hs : schema ∈ r.discover roots) :
    ∃ properties required, schema.form = .object properties required ∧
      Exact ids r schema properties required := by
  have ⟨_, _, hloaded⟩ := SchemaGraph.load_eq_ok hl
  have hsound := Resolution.sound_ofGraph hloaded.closed hr
  have ⟨properties, required, hf⟩ := Schema.isObject_iff.mp (hsound.mem_discover_iff.mp hs).left
  exact ⟨properties, required, hf, exact_of_form ids r hf⟩

-- A schema that refers to itself, and to another one by nested arrays before it does by an alias.
def crews : Document where
  dialect := .swagger2
  root := .obj [
    ("paths", .obj []),
    ("definitions", .obj [
      ("Crew", .obj [
        ("required", .arr [.str "shiftPlan", .str "unknown"]),
        ("properties", .obj [
          ("next", .obj [("$ref", .str "#/definitions/Crew")]),
          ("shiftPlan", .obj [("type", .str "array"), ("items", .obj [
            ("type", .str "array"), ("items", .obj [("$ref", .str "#/definitions/Sailor")])])]),
          ("ship", .obj [("type", .str "object")]),
          ("captain", .obj [("allOf", .arr [.obj [("$ref", .str "#/definitions/Sailor")]])]),
          ("size", .obj [("type", .str "integer")])])]),
      ("Sailor", .obj [("properties", .obj [])])
    ])
  ]

theorem exists_exact_crews : ∃ paths g r schema fields, crews.paths = .ok paths ∧
    SchemaGraph.load crews paths = .ok g ∧ Resolution.ofGraph g = .ok r ∧
    schema ∈ r.discover g.named ∧ fieldsOf (.reserving []) r schema = .ok fields ∧
    fields.map (fun f => (f.identifier, f.required)) = [
      ("next", false), ("shift_plan", true), ("ship", false), ("captain", false),
      ("size", false)] ∧
    (dependencies schema.node fields).map (·.segments) = [
      ["definitions", "Sailor"], ["definitions", "Crew", "properties", "ship"]] ∧
    ∃ properties required, schema.form = .object properties required ∧
      Exact (.reserving []) r schema properties required := by
  have hb : (crews.paths >>= SchemaGraph.load crews >>= Resolution.ofGraph).toOption.map (fun r =>
      (r.discover r.graph.named).head?.map fun schema =>
        decide ((fieldsOf (.reserving []) r schema).toOption.map (fun fields =>
          (fields.map (fun f => (f.identifier, f.required)),
            (dependencies schema.node fields).map (·.segments))) = some (
          [("next", false), ("shift_plan", true), ("ship", false), ("captain", false),
            ("size", false)],
          [["definitions", "Sailor"], ["definitions", "Crew", "properties", "ship"]]))) =
      some (some true) := by
    decide +kernel
  have ⟨r, hr, hn⟩ := exists_of_map_toOption_eq_some hb
  have ⟨g, hg, hr⟩ := bind_eq_ok.mp hr
  have ⟨paths, hp, hl⟩ := bind_eq_ok.mp hg
  have ⟨schema, hs, hn⟩ := Option.map_eq_some_iff.mp hn
  have ⟨fields, hf, hn⟩ := exists_of_map_toOption_eq_some (of_decide_eq_true hn)
  have ⟨hid, hd⟩ := Prod.mk.inj hn
  have hm : schema ∈ r.discover g.named :=
    Resolution.graph_ofGraph hr ▸ List.mem_of_mem_head? hs
  exact ⟨paths, g, r, schema, fields, hp, hl, hr, hm, hf, hid, hd,
    exact_of_discover (.reserving []) hl hr hm⟩

end ApiDescriptors.Serializer
