import ApiDescriptors.Proofs.Registry.Build
import ApiDescriptors.Proofs.Route

namespace ApiDescriptors.Registry

open Result

variable {d : Document} {o : Options} {g : Registry} {paths : List PathEntry} {r : Resolution}
  {entries : List PathVerbs}

namespace Stages

variable (h : Stages d o g paths r entries)
include h

theorem consistent_of_mem_operations {x : Handler} (hx : x ∈ g.operations) : x.Consistent := by
  have ⟨_, hv⟩ := h.verbs
  have ⟨entry, he, hr, hp, hm⟩ := h.exists_entry_of_mem_operations hx
  have hsuits := PathVerbs.suits_of_ofEntries hv he
  have ⟨path, route, verb⟩ := x
  subst hp
  rw [Route.ofVerbs] at hr
  split at hr
  case h_1 hn => cases hn ▸ hm
  case h_2    => exact Handler.consistent_of_ofPath hr hsuits hm

-- An endpoint has a verb, so what holds of the paths of verbs holds of its own.
theorem write_of_mem_endpoints {e : Endpoint} (he : e ∈ g.endpoints) : e.route.write = e.path := by
  have ⟨_, _, ho⟩ := h.endpoints
  have ⟨v, hv⟩ := List.exists_mem_of_ne_nil _ (Endpoints.verbs_ne_nil_of_mem_endpoints ho he)
  have hx : { path := e.path, route := e.route, verb := v } ∈ g.operations :=
    List.mem_append_left _ (List.mem_flatMap.mpr ⟨e, he, List.mem_map_of_mem hv⟩)
  exact (h.consistent_of_mem_operations hx).path

end Stages

-- Paths, path parameters and routes say the same in what is built. Where they do not, this is
-- found when verbs are built, and grouping can find no more than types that disagree.
theorem consistent_of_build (d : Document) (o : Options) :
    (∀ g, build d o = .ok g →
      (∀ e ∈ g.endpoints, e.route.write = e.path) ∧ ∀ x ∈ g.operations, x.Consistent) ∧
    (∀ ids r serializers functions paths all functions' naming classes e,
      PathVerbs.ofEntries ids r serializers functions paths = .ok (all, functions') →
      Endpoints.ofPaths naming classes all = .error e →
      ∃ path name, e = .inconsistentParameter path name) ∧
    (∀ ids r serializers path functions op path' node missing undeclared,
      Verb.ofOperation ids r serializers path functions op =
        .error (.parameterMismatch path' node missing undeclared) →
      path' = path ∧ node = op.node ∧ ∃ parts, Template.parse path = .ok parts ∧
        missing = (Template.placeholders parts).filter (· ∉ op.pathNames) ∧
        undeclared = op.pathNames.filter (· ∉ Template.placeholders parts) ∧
        (missing ≠ [] ∨ undeclared ≠ [])) := by
  refine ⟨fun g hg => ?_, ?_, ?_⟩
  case refine_1 =>
    have ⟨_, _, _, h⟩ := build_eq_ok hg
    exact ⟨fun _ => h.write_of_mem_endpoints, fun _ => h.consistent_of_mem_operations⟩
  case refine_2 =>
    intro _ _ _ _ _ _ _ naming classes e h he
    exact PathVerbs.inconsistent_of_ofPaths h naming classes e he
  case refine_3 =>
    intro _ _ _ _ functions _ _ _ _ _ h
    exact Verb.mismatched_of_ofOperation functions _ h

-- Two verbs of a path that declare its parameters in their own ways.
def photos : Document where
  dialect := .swagger2
  root := .obj [
    ("swagger", .str "2.0"),
    ("paths", .obj [
      ("/pets/\x7bpetId\x7d/photos/\x7btags\x7d.png", .obj [
        ("parameters", .arr [
          .obj [("name", .str "petId"), ("in", .str "path"), ("type", .str "integer")]]),
        ("get", .obj [
          ("parameters", .arr [
            .obj [("name", .str "tags"), ("in", .str "path"), ("type", .str "array"),
              ("items", .obj [("type", .str "string"), ("format", .str "byte")])]]),
          ("responses", .obj [])]),
        ("put", .obj [
          ("x-appgen-standalone", .bool true),
          ("parameters", .arr [
            .obj [("name", .str "tags"), ("in", .str "path"), ("type", .str "array"),
              ("items", .obj [("type", .str "string")])],
            .obj [("name", .str "petId"), ("in", .str "path"), ("type", .str "integer"),
              ("format", .str "int64")]]),
          ("responses", .obj [])])])])
  ]

def withoutSchemas : Resolution where
  graph      := { schemas := [], named := [], roots := [] }
  canonicals := []

-- An operation with one path parameter.
def sampleOperation (method : Method) (name type : String) : Operation where
  method     := method
  node       := ⟨[method.key]⟩
  object     := {}
  parameters := [{
    node     := ⟨[method.key, "parameters", "0"]⟩
    location := .path
    object   := { name, location := "path", type := some type }
    schema   := none
  }]
  body       := none
  responses  := []

-- Two operations that disagree about the type of a path parameter.
def disputed : PathEntry where
  template   := "/pets/{petId}"
  node       := ⟨["paths", "/pets/{petId}"]⟩
  operations := [sampleOperation .get "petId" "string", sampleOperation .put "petId" "integer"]

-- What the path and the parameters of an operation have without the other.
def mismatch? : Result (Verb × Namespace) → Option (List String × List String)
  | .error (.parameterMismatch _ _ missing undeclared) => some (missing, undeclared)
  | _                                                  => none

theorem exists_of_mismatch? {x : Result (Verb × Namespace)} {missing undeclared : List String}
    (h : mismatch? x = some (missing, undeclared)) :
    ∃ path node, x = .error (.parameterMismatch path node missing undeclared) := by
  simp only [mismatch?] at h
  split at h <;> cases h
  exact ⟨_, _, rfl⟩

theorem exists_consistent_photos :
    (∃ g, build photos {} = .ok g ∧
      g.endpoints.map (·.route.names) = [["petId", "tags"]] ∧
      g.handlers.map (·.verb.pathArguments.map (·.name)) = [["tags", "petId"]] ∧
      (∀ e ∈ g.endpoints, e.route.write = e.path) ∧ ∀ x ∈ g.operations, x.Consistent) ∧
    (∃ all functions e,
      PathVerbs.ofEntries (.reserving []) withoutSchemas [] ⟨.ofFunction, []⟩ [disputed] =
        .ok (all, functions) ∧
      Endpoints.ofPaths ⟨.reserving [], "View"⟩ ⟨.ofClass, []⟩ all = .error e ∧
      ∃ path name, e = .inconsistentParameter path name) ∧
    (∃ path node missing undeclared,
      Verb.ofOperation (.reserving []) withoutSchemas [] disputed.template ⟨.ofFunction, []⟩
        (sampleOperation .get "id" "string") =
        .error (.parameterMismatch path node missing undeclared) ∧
      missing = ["petId"] ∧ undeclared = ["id"] ∧
      path = disputed.template ∧ node = ⟨["get"]⟩ ∧ ∃ parts,
        Template.parse disputed.template = .ok parts ∧
        missing = (Template.placeholders parts).filter (· ∉ ["id"]) ∧
        undeclared = ["id"].filter (· ∉ Template.placeholders parts) ∧
        (missing ≠ [] ∨ undeclared ≠ [])) := by
  refine ⟨?_, ?_, ?_⟩
  case refine_1 =>
    have hb : (build photos {}).toOption.map (fun g =>
        (g.endpoints.map (·.route.names), g.handlers.map (·.verb.pathArguments.map (·.name)))) =
        some ([["petId", "tags"]], [["tags", "petId"]]) := by decide +kernel
    obtain ⟨g, hg, hn⟩ := exists_of_map_toOption_eq_some hb
    obtain ⟨he, hh⟩ := Prod.ext_iff.mp hn
    exact ⟨g, hg, he, hh, (consistent_of_build photos {}).left g hg⟩
  case refine_2 =>
    have hb : (PathVerbs.ofEntries (.reserving []) withoutSchemas [] ⟨.ofFunction, []⟩
        [disputed]).toOption.map (fun x =>
          (Endpoints.ofPaths ⟨.reserving [], "View"⟩ ⟨.ofClass, []⟩ x.1).isOk) = some false := by
      decide +kernel
    obtain ⟨⟨all, functions⟩, ha, hf⟩ := exists_of_map_toOption_eq_some hb
    cases he : Endpoints.ofPaths ⟨.reserving [], "View"⟩ ⟨.ofClass, []⟩ all
    case ok      => rw [he] at hf; cases hf
    case error e =>
      exact ⟨all, functions, e, ha, he,
        (consistent_of_build photos {}).right.left _ _ _ _ _ _ _ _ _ _ ha he⟩
  case refine_3 =>
    have hb : mismatch? (Verb.ofOperation (.reserving []) withoutSchemas [] disputed.template
        ⟨.ofFunction, []⟩ (sampleOperation .get "id" "string")) = some (["petId"], ["id"]) := by
      decide +kernel
    obtain ⟨path, node, he⟩ := exists_of_mismatch? hb
    exact ⟨path, node, _, _, he, rfl, rfl,
      (consistent_of_build photos {}).right.right _ _ _ _ _ _ _ _ _ _ he⟩

end ApiDescriptors.Registry
