import ApiDescriptors.Proofs.DeclaredNames
import ApiDescriptors.Proofs.Inheritance
import ApiDescriptors.Proofs.Registry.Build
import ApiDescriptors.Proofs.Route
import ApiDescriptors.Proofs.Schema.Faithful

namespace ApiDescriptors

open Result

namespace Document

-- What stands at a place of a document, where its name is made of what is declared there: a schema
-- in a table of named ones, an operation, or a property of a schema.
inductive Bears (d : Document) (o : Options) (name : String) : NameKind → Pointer → Prop
  | schema {node members declared} :
    d.get? node = some (.obj members) → node.declaredName? = some declared →
    o.identifiers.className declared o.serializerSuffix = name → Bears d o name .ofClass node
  | operation {template node item v} {op : Operation} :
    d.DeclaresOperation template node item op.method v → op.node = node.child op.method.key →
    OperationObject.rules.read v = .ok op.object →
    Verb.nameFor o.identifiers template op = name → Bears d o name .ofFunction op.node
  | property {owner members properties property v} :
    d.get? owner = some (.obj members) → members.lookup "properties" = some (.obj properties) →
    properties.lookup property = some v → o.identifiers.snake property = name →
    Bears d o name .ofField ((owner.child "properties").child property)

-- Two paths lead to the path item of one operation.
def Shares (d : Document) (p : Pointer) : Prop :=
  ∃ template template' node item method v, template ≠ template' ∧
    d.DeclaresOperation template node item method v ∧
    d.DeclaresOperation template' node item method v ∧ p = node.child method.key

variable {d : Document} {node n owner : Pointer} {v w : Json} {item : Members} {method : Method}
  {template : String}

theorem Denotes.get? (h : d.Denotes node v n w) (hv : d.get? node = some v) :
    d.get? n = some w := by
  induction h
  case here                => exact hv
  case reference hg _ hi   => exact hi hg

theorem DeclaresOperation.get?_item (hd : d.root.Distinct)
    (h : d.DeclaresOperation template node item method v) : d.get? node = some (.obj item) := by
  obtain ⟨u, hu, hi⟩ := h.path
  obtain ⟨paths, hp, hl⟩ := lookup_of_mem_pathTable hd hu
  exact hi.get? ((get?_child hp template).trans hl)

theorem DeclaresOperation.get? (hd : d.root.Distinct)
    (h : d.DeclaresOperation template node item method v) :
    d.get? (node.child method.key) = some v :=
  (get?_child (h.get?_item hd) method.key).trans h.member

theorem Bears.exists_get? {o : Options} {name : String} {kind : NameKind} (hd : d.root.Distinct)
    (h : d.Bears o name kind n) : ∃ v, d.get? n = some v := by
  obtain ⟨hg, _, _⟩ | ⟨ho, hn, _, _⟩ | ⟨hg, hp, hl, _⟩ := h
  case schema    => exact ⟨_, hg⟩
  case operation => exact ⟨_, hn ▸ ho.get? hd⟩
  case property  => exact ⟨_, (get?_child ((get?_child hg "properties").trans hp) _).trans hl⟩

end Document

theorem Resolution.fieldType_ne_duplicateName {r : Resolution} {p : Pointer} {kind : NameKind}
    {name : String} {first second : Pointer} :
    r.fieldType p ≠ .error (.duplicateName kind name first second) := by
  have h : (r.fieldType p).FailsWith (· ≠ .duplicateName kind name first second) :=
    r.failsWith_fieldTypeFrom (fun _ => nofun) (fun _ => nofun) _ _ _
  exact fun he => h _ he rfl

namespace Verb

variable {ids : Identifiers} {r : Resolution} {serializers : List Serializer} {path : String}
  {op : Operation}

theorem describe_ne_duplicateName {kind : NameKind} {name : String} {first second : Pointer} :
    describe ids r serializers path op ≠ .error (.duplicateName kind name first second) := by
  let P : Error → Prop := (· ≠ .duplicateName kind name first second)
  have hs (p : Pointer) : (schemaUse r serializers p).FailsWith P :=
    failsWith_schemaUse (fun _ => nofun) (fun _ => nofun) (fun _ => nofun) p
  have hf (p : Pointer) : (r.fieldType p).FailsWith P :=
    fun _ he hp => Resolution.fieldType_ne_duplicateName (hp ▸ he)
  have hd : (describe ids r serializers path op).FailsWith P :=
    failsWith_describe (failsWith_argumentsFrom (fun _ _ => nofun) (fun _ => nofun) fun p _ => hf p)
      (fun _ _ => failsWith_matchPath (fun _ => nofun) fun _ _ => nofun) fun p _ => hs p
  exact fun h => hd _ h rfl

end Verb

namespace Registry

-- The operations of a document, each with its path.
def rows (paths : List PathEntry) : List (String × Operation) :=
  paths.flatMap fun entry => entry.operations.map fun op => (entry.template, op)

-- Two places that bear a name. They differ, unless they are one operation of two paths.
structure Culprits (d : Document) (o : Options) (kind : NameKind) (name : String)
    (first second : Pointer) : Prop where
  earlier : d.Bears o name kind first
  later   : d.Bears o name kind second
  apart   : first = second → kind = .ofFunction ∧ d.Shares first

-- Where a build fails, with what the stages before handed on.
inductive Fails (d : Document) (o : Options) (e : Error) : Prop
  | paths : d.paths = .error e → Fails d o e
  | graph {paths} : d.paths = .ok paths → SchemaGraph.load d paths = .error e → Fails d o e
  | resolution {paths graph} :
    d.paths = .ok paths → SchemaGraph.load d paths = .ok graph →
    Resolution.ofGraph graph = .error e → Fails d o e
  | serializers {paths graph r} :
    d.paths = .ok paths → SchemaGraph.load d paths = .ok graph →
    Resolution.ofGraph graph = .ok r →
    Serializer.ofSchemas o.serializerNaming ⟨.ofClass, []⟩ r (r.discover (discoveryRoots graph o)) =
      .error e → Fails d o e
  | verbs {paths r serializers} :
    d.paths = .ok paths →
    PathVerbs.ofEntries o.identifiers r serializers ⟨.ofFunction, []⟩ paths = .error e →
    Fails d o e
  | endpoints {paths r serializers entries functions classes} :
    PathVerbs.ofEntries o.identifiers r serializers ⟨.ofFunction, []⟩ paths =
      .ok (entries, functions) →
    Endpoints.ofPaths o.endpointNaming classes entries = .error e → Fails d o e

variable {d : Document} {o : Options} {paths : List PathEntry} {r : Resolution} {e : Error}

theorem fails_of_build (h : build d o = .error e) : Fails d o e := by
  obtain h | ⟨paths, hp, h⟩ := bind_eq_error.mp h
  case inl => exact .paths h
  obtain h | ⟨graph, hg, h⟩ := bind_eq_error.mp h
  case inl => exact .graph hp h
  obtain h | ⟨r, hr, h⟩ := bind_eq_error.mp h
  case inl => exact .resolution hp hg h
  obtain h | ⟨⟨serializers, classes⟩, hs, h⟩ := bind_eq_error.mp h
  case inl => exact .serializers hp hg hr h
  obtain h | ⟨⟨entries, functions⟩, hv, h⟩ := bind_eq_error.mp h
  case inl => exact .verbs hp h
  obtain h | ⟨_, _, h⟩ := bind_eq_error.mp h
  case inl => exact .endpoints hv h
  case inr => cases h

variable {name : String} {kind : NameKind} {first second : Pointer} {graph : SchemaGraph}
  {schemas : List Schema} {schema : Schema} {serializers : List Serializer}

theorem culprits_of_class (hf : graph.Faithful d) (hs : schemas ⊆ graph.schemas)
    (hn : (schemas.map (·.node)).Nodup)
    (h : Serializer.ofSchemas o.serializerNaming ⟨.ofClass, []⟩ r schemas =
      .error (.duplicateName .ofClass name first second)) :
    Culprits d o .ofClass name first second := by
  obtain ⟨s, t, hst, rfl, rfl, hsname, htname⟩ := Serializer.exists_declares_of_ofSchemas h
  have hb {s : Schema} (hm : s ∈ schemas) (hd : o.serializerNaming.Declares s name) :
      d.Bears o name .ofClass s.node := by
    obtain ⟨_, hg, _⟩ := hf.declared s (hs hm)
    obtain ⟨_, hdeclared, hc⟩ := hd
    exact .schema hg hdeclared hc
  have hne : s.node ≠ t.node := by simpa using hn.sublist (hst.map (·.node))
  exact ⟨hb (hst.subset (by simp)) hsname, hb (hst.subset (by simp)) htname,
    fun he => absurd he hne⟩

theorem culprits_of_field (hd : d.root.Distinct) (hf : graph.Faithful d)
    (hs : schema ∈ graph.schemas)
    (h : Serializer.fieldsOf o.identifiers r schema =
      .error (.duplicateName kind name first second)) :
    Culprits d o kind name first second := by
  obtain ⟨members, hg, hform⟩ := hf.declared schema hs
  simp only [Serializer.fieldsOf] at h
  split at h
  case h_2 => cases h
  case h_1 properties required he =>
    rw [he] at hform
    cases hform
    obtain ⟨p, _, ht⟩ | ⟨_, _, _, he, hr⟩ := Serializer.fieldsFrom_eq_error h
    case inl => exact absurd ht Resolution.fieldType_ne_duplicateName
    case inr =>
      cases he
      rw [List.map_map] at hr
      obtain ⟨a, b, hab, ha, hb⟩ := hr.of_map
      obtain ⟨haname, rfl⟩ := Prod.mk.inj ha
      obtain ⟨hbname, rfl⟩ := Prod.mk.inj hb
      have hne : a ≠ b := by
        simpa using (Schema.nodup_propertyNames (hd.lookup? hg).of_obj).sublist hab
      have ham : a ∈ Schema.propertyNames members := hab.subset (by simp)
      have hbm : b ∈ Schema.propertyNames members := hab.subset (by simp)
      obtain ⟨_, _, hp, ha⟩ := Schema.mem_propertyNames_iff.mp ham
      obtain ⟨_, _, hp', hb⟩ := Schema.mem_propertyNames_iff.mp hbm
      exact ⟨.property hg hp ha haname, .property hg hp' hb hbname,
        fun he => absurd (Pointer.child_inj.mp he).right hne⟩

theorem declares_of_mem_rows (hd : d.root.Distinct) (hp : d.paths = .ok paths)
    {x : String × Operation} (hx : x ∈ rows paths) :
    ∃ node item v, d.DeclaresOperation x.1 node item x.2.method v ∧
      x.2.node = node.child x.2.method.key ∧ OperationObject.rules.read v = .ok x.2.object := by
  obtain ⟨entry, he, hx⟩ := List.mem_flatMap.mp hx
  obtain ⟨op, ho, rfl⟩ := List.mem_map.mp hx
  obtain ⟨node, item, v, _, hdecl, _, hop⟩ := Document.declaresOperation_of_paths hd hp he ho
  obtain ⟨_, hn, hread⟩ := Paths.operation_eq_ok hop
  exact ⟨node, item, v, hdecl, hn, Record.Rules.read_of_readAt hread⟩

theorem nodup_rows (hd : d.root.Distinct) (hp : d.paths = .ok paths) :
    ((rows paths).map fun x => (x.1, x.2.method)).Nodup := by
  have h := Document.nodup_operations hd hp
  simpa [rows, List.map_flatMap, Function.comp_def] using h

-- Operations are told apart by their paths and methods, so those at one place have two paths.
theorem culprits_of_function (hd : d.root.Distinct) (hp : d.paths = .ok paths)
    (h : PathVerbs.ofEntries o.identifiers r serializers ⟨.ofFunction, []⟩ paths =
      .error (.duplicateName kind name first second)) :
    Culprits d o kind name first second := by
  obtain ⟨entry, _, op, _, hop⟩ | ⟨_, _, _, he, hr⟩ := PathVerbs.ofEntries_eq_error h
  case inl => exact absurd hop Verb.describe_ne_duplicateName
  case inr =>
    cases he
    have hrows : (paths.flatMap fun entry =>
        PathVerbs.claims o.identifiers entry.template entry.operations) =
        (rows paths).map fun x => (Verb.nameFor o.identifiers x.1 x.2, x.2.node) := by
      simp only [PathVerbs.claims, rows, List.map_flatMap, List.map_map]
      rfl
    rw [hrows] at hr
    obtain ⟨x, y, hxy, hx, hy⟩ := hr.of_map
    obtain ⟨hxname, rfl⟩ := Prod.mk.inj hx
    obtain ⟨hyname, rfl⟩ := Prod.mk.inj hy
    have hxm : x ∈ rows paths := hxy.subset (by simp)
    have hym : y ∈ rows paths := hxy.subset (by simp)
    obtain ⟨node, item, v, hdecl, hn, hread⟩ := declares_of_mem_rows hd hp hxm
    obtain ⟨node', item', v', hdecl', hn', hread'⟩ := declares_of_mem_rows hd hp hym
    refine ⟨.operation hdecl hn hread hxname, .operation hdecl' hn' hread' hyname, fun he => ?_⟩
    rw [hn, hn', Pointer.child_inj, Method.key_inj] at he
    obtain ⟨rfl, hmethod⟩ := he
    have hne : (x.1, x.2.method) ≠ (y.1, y.2.method) := by
      simpa using (nodup_rows hd hp).sublist (hxy.map fun x => (x.1, x.2.method))
    cases (hdecl.get?_item hd).symm.trans (hdecl'.get?_item hd)
    rw [← hmethod] at hdecl'
    cases hdecl.member.symm.trans hdecl'.member
    exact ⟨rfl, x.1, y.1, node, item, x.2.method, v, fun he => hne (by rw [he, hmethod]), hdecl,
      hdecl', hn⟩

theorem Fails.culprits (hd : d.root.Distinct)
    (h : Fails d o (.duplicateName kind name first second)) :
    Culprits d o kind name first second := by
  cases h
  case paths h          => cases d.legible_paths _ h
  case graph h          => cases SchemaGraph.legible_load d _ _ h
  case resolution h     => cases Resolution.legible_ofGraph _ _ h
  case verbs hp h       => exact culprits_of_function hd hp h
  case endpoints hv h   =>
    obtain ⟨_, _, he⟩ := PathVerbs.inconsistent_of_ofPaths hv _ _ _ h
    cases he
  case serializers graph r hp hg hr h =>
    have hsound := sound_of_load hg hr
    have hfaithful := SchemaGraph.faithful_of_load hg
    have hsub : r.discover (discoveryRoots graph o) ⊆ graph.schemas :=
      Resolution.graph_ofGraph hr ▸ hsound.discover_subset _
    obtain hc | ⟨schema, hm, hf⟩ := Serializer.ofSchemas_eq_error h
    case inl =>
      obtain ⟨_, _, _, he, _⟩ := Serializer.claimDeclared_eq_error hc
      cases he
      exact culprits_of_class hfaithful hsub (hsound.nodup_discover _) h
    case inr => exact culprits_of_field hd hfaithful (hsub hm) hf

-- Who is named where a name is had twice. Operations of an item that paths share are blamed for
-- having their own name, once for each path.
theorem culprits_of_build {value : Yaml.Value} (h : Document.ofValue value = .ok d)
    (hb : build d o = .error (.duplicateName kind name first second)) :
    Culprits d o kind name first second ∧
      (∃ v, d.get? first = some v) ∧ ∃ v, d.get? second = some v := by
  obtain ⟨hd, _⟩ := Document.distinct_ofValue h
  have hc : Culprits d o kind name first second := (fails_of_build hb).culprits hd
  exact ⟨hc, hc.earlier.exists_get? hd, hc.later.exists_get? hd⟩

-- What a build that fails tells of a name that is had twice.
def duplicate? : Result Registry → Option (NameKind × String × Pointer × Pointer)
  | .error (.duplicateName kind name first second) => some (kind, name, first, second)
  | _                                              => none

theorem eq_error_of_duplicate? {x : Result Registry}
    (h : duplicate? x = some (kind, name, first, second)) :
    x = .error (.duplicateName kind name first second) := by
  simp only [duplicate?] at h
  split at h <;> cases h
  rfl

-- A schema with one property in two spellings.
def spellings : Yaml.Value := .map [
  (.scalar (.str "swagger"), .scalar (.str "2.0")),
  (.scalar (.str "paths"), .map [(.scalar (.str "/pets"), .map [(.scalar (.str "get"), .map [
    (.scalar (.str "responses"), .map [(.scalar (.str "200"), .map [
      (.scalar (.str "schema"), .map [(.scalar (.str "$ref"), .scalar (.str "#/definitions/Pet"))])
    ])])])])]),
  (.scalar (.str "definitions"), .map [(.scalar (.str "Pet"), .map [
    (.scalar (.str "properties"), .map [
      (.scalar (.str "petId"), .map [(.scalar (.str "type"), .scalar (.str "integer"))]),
      (.scalar (.str "pet_id"), .map [(.scalar (.str "type"), .scalar (.str "integer"))])])])])
]

theorem exists_culprits_spellings : ∃ d,
    Document.ofValue spellings = .ok d ∧
    build d {} = .error (.duplicateName .ofField "pet_id"
      ⟨["definitions", "Pet", "properties", "petId"]⟩
      ⟨["definitions", "Pet", "properties", "pet_id"]⟩) ∧
    Culprits d {} .ofField "pet_id"
      ⟨["definitions", "Pet", "properties", "petId"]⟩
      ⟨["definitions", "Pet", "properties", "pet_id"]⟩ := by
  have hb : (Document.ofValue spellings).toOption.map (duplicate? <| build · {}) =
      some (some (.ofField, "pet_id", ⟨["definitions", "Pet", "properties", "petId"]⟩,
        ⟨["definitions", "Pet", "properties", "pet_id"]⟩)) := by decide +kernel
  obtain ⟨d, h, hb⟩ := exists_of_map_toOption_eq_some hb
  have he := eq_error_of_duplicate? hb
  exact ⟨d, h, he, (culprits_of_build h he).left⟩

-- An item with a named operation that two paths share.
def kennels : Yaml.Value := .map [
  (.scalar (.str "swagger"), .scalar (.str "2.0")),
  (.scalar (.str "paths"), .map [
    (.scalar (.str "/cats"), .map [(.scalar (.str "$ref"), .scalar (.str "#/x-items/pets"))]),
    (.scalar (.str "/dogs"), .map [(.scalar (.str "$ref"), .scalar (.str "#/x-items/pets"))])]),
  (.scalar (.str "x-items"), .map [(.scalar (.str "pets"), .map [(.scalar (.str "get"), .map [
    (.scalar (.str "operationId"), .scalar (.str "listPets")),
    (.scalar (.str "responses"), .map [])])])])
]

theorem not_apart_kennels :
    ¬∀ value d o kind name first second, Document.ofValue value = .ok d →
      build d o = .error (.duplicateName kind name first second) →
      first ≠ second := by
  intro hall
  have hb : (Document.ofValue kennels).toOption.map (duplicate? <| build · {}) =
      some (some (.ofFunction, "list_pets", ⟨["x-items", "pets", "get"]⟩,
        ⟨["x-items", "pets", "get"]⟩)) := by decide +kernel
  obtain ⟨d, h, hb⟩ := exists_of_map_toOption_eq_some hb
  exact hall _ _ _ _ _ _ _ h (eq_error_of_duplicate? hb) rfl

end Registry
end ApiDescriptors
