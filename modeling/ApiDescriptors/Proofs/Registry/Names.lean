import ApiDescriptors.Proofs.FreshNames
import ApiDescriptors.Proofs.Registry.Build

namespace ApiDescriptors

open Result

namespace Serializer

variable {ids : Identifiers} {r : Resolution} {naming : Naming} {classes classes' : Namespace}
  {schemas : List Schema}

-- Fields

theorem nodup_identifiers_fieldsFrom {required : List String}
    {seen properties : List (String × Pointer)} {fields : List Field}
    (h : fieldsFrom ids r required seen properties = .ok fields) :
    (fields.map (·.identifier)).Nodup := by
  have ⟨⟨hn, _⟩, hl⟩ := fieldsFrom_eq_ok.mp h
  have he : (properties.map fun property => ids.snake property.1) = fields.map (·.identifier) :=
    map_eq_of_forall₂ (hl.imp fun _ _ hf => (identifier_of_field hf).symm)
  rwa [he] at hn

theorem nodup_identifiers_fieldsOf {schema : Schema} {fields : List Field}
    (h : fieldsOf ids r schema = .ok fields) : (fields.map (·.identifier)).Nodup := by
  simp only [fieldsOf] at h
  split at h
  case h_1 => exact nodup_identifiers_fieldsFrom h
  case h_2 => cases h; exact List.nodup_nil

-- Class names

theorem claims_claimDeclared {declared : List (Schema × Option ClassName)}
    (h : claimDeclared naming classes schemas = .ok (declared, classes')) :
    classes.Claims (naming.declaredClasses schemas) classes' := by
  induction schemas generalizing classes declared
  case nil => cases h; exact .nil _
  case cons schema schemas hi =>
    rw [claimDeclared] at h
    split at h
    case h_1 hn =>
      obtain ⟨_, ho, h⟩ := bind_eq_ok.mp h
      cases pure_eq_ok.mp h
      simpa [Naming.declaredClasses, Naming.declared?, hn] using hi ho
    case h_2 name hn =>
      obtain ⟨⟨_, _⟩, hc, h⟩ := bind_eq_ok.mp h
      obtain ⟨_, ho, h⟩ := bind_eq_ok.mp h
      cases pure_eq_ok.mp h
      obtain ⟨hfree, he, ha⟩ := Namespace.claim_eq_ok.mp hc
      subst he ha
      simpa [Naming.declaredClasses, Naming.declared?, hn] using (hi ho).cons hfree

-- Names that are made up are free when they are given.
theorem claims_nameOthers (naming : Naming) (classes : Namespace)
    (declared : List (Schema × Option ClassName)) :
    ∃ fresh, classes.Claims fresh (nameOthers naming classes declared).2 ∧
      ((nameOthers naming classes declared).1.map (·.2.className)).Perm
        (declared.filterMap (·.2.map (·.className)) ++ fresh) := by
  induction declared generalizing classes
  case nil => exact ⟨[], .nil _, .rfl⟩
  case cons first declared hi =>
    obtain ⟨schema, name | name⟩ := first <;> simp only [nameOthers]
    case none =>
      obtain ⟨fresh, hc, hp⟩ := hi (classes.claimFree naming.ids
        (DerivedName.schema schema.node naming.ids.casing) naming.suffix schema.node).2
      refine ⟨_ :: fresh, hc.cons (classes.contains_freeName ..), ?_⟩
      exact (hp.cons _).trans List.perm_middle.symm
    case some =>
      obtain ⟨fresh, hc, hp⟩ := hi classes
      exact ⟨fresh, hc, hp.cons _⟩

theorem claims_ofSchemas {serializers : List Serializer}
    (h : ofSchemas naming classes r schemas = .ok (serializers, classes')) :
    classes.Claims (serializers.map (·.className)) classes' := by
  have ⟨⟨declared, classes₁⟩, hc, h⟩ := bind_eq_ok.mp h
  have ⟨_, hm, h⟩ := bind_eq_ok.mp h
  cases pure_eq_ok.mp h
  have ⟨fresh, hfresh, hp⟩ := claims_nameOthers naming classes₁ declared
  have hnames : serializers.map (·.className) =
      (nameOthers naming classes₁ declared).1.map (·.2.className) :=
    map_eq_of_mapM_eq_ok hm fun named s hs => by
      have ⟨_, _, he⟩ := ofSchema_eq_ok.mp hs
      rw [he]
  have hdeclared : declared.filterMap (·.2.map (·.className)) = naming.declaredClasses schemas := by
    rw [(claimDeclared_eq_ok hc).left, List.filterMap_map]
    rfl
  rw [hdeclared] at hp
  rw [hnames]
  exact ((claims_claimDeclared hc).append hfresh).perm hp.symm

end Serializer

namespace Endpoints

variable {naming : Naming} {classes classes' : Namespace} {all : Endpoints}

theorem claims_add (naming : Naming) (classes : Namespace) (entry : PathVerbs) (route : Route) :
    classes.Claims ((add naming classes entry route).1.endpoints.map (·.className))
      (add naming classes entry route).2 := by
  simp only [add]
  split
  case isTrue  => exact .nil _
  case isFalse => exact .cons (classes.contains_freeName ..) (.nil _)

theorem claims_ofPaths {entries : List PathVerbs}
    (h : ofPaths naming classes entries = .ok (all, classes')) :
    classes.Claims (all.endpoints.map (·.className)) classes' := by
  induction entries generalizing classes all
  case nil => cases h; exact .nil _
  case cons entry entries hi =>
    have ⟨⟨part, _⟩, hp, h⟩ := bind_eq_ok.mp h
    have ⟨⟨others, _⟩, ho, h⟩ := bind_eq_ok.mp h
    cases pure_eq_ok.mp h
    rw [ofPath_eq_map] at hp
    have ⟨route, _, hp⟩ := map_eq_ok.mp hp
    have hc := claims_add naming classes entry route
    rw [hp] at hc
    rw [List.map_append]
    exact hc.append (hi ho)

end Endpoints

namespace Registry

variable {d : Document} {o : Options} {g : Registry}

-- Endpoints are named in the namespace that serializers left.
theorem nodup_classNames (h : build d o = .ok g) :
    (g.serializers.map (·.className) ++ g.endpoints.map (·.className)).Nodup := by
  have ⟨_, _, h⟩ := bind_eq_ok.mp h
  have ⟨_, _, h⟩ := bind_eq_ok.mp h
  have ⟨_, _, h⟩ := bind_eq_ok.mp h
  have ⟨⟨_, _⟩, hs, h⟩ := bind_eq_ok.mp h
  have ⟨⟨_, _⟩, _, h⟩ := bind_eq_ok.mp h
  have ⟨⟨_, _⟩, he, h⟩ := bind_eq_ok.mp h
  cases pure_eq_ok.mp h
  exact ((Serializer.claims_ofSchemas hs).append (Endpoints.claims_ofPaths he)).free.left

variable {paths : List PathEntry} {r : Resolution} {entries : List PathVerbs}

theorem Stages.nodup_functionNames (h : Stages d o g paths r entries) :
    (g.verbs.map (·.functionName)).Nodup := by
  have ⟨_, hv⟩ := h.verbs
  rw [(h.perm_verbs.map _).nodup_iff, h.functionNames_verbs]
  exact (PathVerbs.ofEntries_eq_ok hv).right.left

-- No two classes, no two functions and no two fields of a serializer have one name.
theorem nodup_names_of_build (h : build d o = .ok g) :
    (g.serializers.map (·.className) ++ g.endpoints.map (·.className)).Nodup ∧
    (g.verbs.map (·.functionName)).Nodup ∧
    ∀ s ∈ g.serializers, (s.fields.map (·.identifier)).Nodup := by
  have ⟨_, _, _, hstages⟩ := build_eq_ok h
  refine ⟨nodup_classNames h, hstages.nodup_functionNames, fun s hs => ?_⟩
  have ⟨_, _, _, hf, _⟩ := hstages.exists_schema_of_mem_serializers hs
  exact Serializer.nodup_identifiers_fieldsOf hf

-- A declared schema, a schema without a name and a path that would all have one class name.
def clashing : Document where
  dialect := .swagger2
  root := .obj [
    ("swagger", .str "2.0"),
    ("paths", .obj [
      ("/pets", .obj [("get", .obj [("responses", .obj [("200", .obj [("schema", .obj [
        ("properties", .obj [
          ("petName", .obj [("type", .str "string")]),
          ("pet-age", .obj [("type", .str "integer")])])])])])])]),
      ("/pets/get/200", .obj [
        ("get", .obj [("responses", .obj [("200", .obj [("schema", .obj [
          ("$ref", .str "#/definitions/PetsGet200")])])])]),
        ("delete", .obj [("x-appgen-standalone", .bool true), ("responses", .obj [])])])
    ]),
    ("definitions", .obj [("PetsGet200", .obj [("type", .str "object")])])
  ]

theorem exists_nodup_names_clashing : ∃ g,
    build clashing { endpointSuffix := "Serializer" } = .ok g ∧
    g.serializers.map (·.className) = ["PetsGet2002Serializer", "PetsGet200Serializer"] ∧
    g.endpoints.map (·.className) = ["PetsSerializer", "PetsGet2003Serializer"] ∧
    (g.serializers.map (·.className) ++ g.endpoints.map (·.className)).Nodup ∧
    (g.verbs.map (·.functionName)).Nodup ∧
    ∀ s ∈ g.serializers, (s.fields.map (·.identifier)).Nodup := by
  have hb : (build clashing { endpointSuffix := "Serializer" }).toOption.map (fun g =>
      (g.serializers.map (·.className), g.endpoints.map (·.className))) =
      some (["PetsGet2002Serializer", "PetsGet200Serializer"],
        ["PetsSerializer", "PetsGet2003Serializer"]) := by decide +kernel
  have ⟨g, hg, hn⟩ := exists_of_map_toOption_eq_some hb
  have ⟨hs, he⟩ := Prod.ext_iff.mp hn
  exact ⟨g, hg, hs, he, nodup_names_of_build hg⟩

end Registry
end ApiDescriptors
