import ApiDescriptors.Proofs.Document
import ApiDescriptors.Proofs.Schema.Resolution

namespace ApiDescriptors

open Result

namespace Schema

-- Whether a schema stands for another one, or for a list, and where its links lead.

def isAlias (s : Schema) : Bool :=
  match s.form with
  | .aliasOf _ => true
  | _          => false

def isArray (s : Schema) : Bool :=
  match s.form with
  | .array _ => true
  | _        => false

def target? (s : Schema) : Option Pointer :=
  match s.form with
  | .aliasOf target => some target
  | _               => none

def items? (s : Schema) : Option Pointer :=
  match s.form with
  | .array items => some items
  | _            => none

def properties (s : Schema) : List (String × Pointer) :=
  match s.form with
  | .object properties _ => properties
  | _                    => []

theorem isAlias_iff (s : Schema) : s.isAlias ↔ s.target?.isSome := by
  simp only [isAlias, target?]
  cases s.form <;> simp

theorem form_of_items? {s : Schema} {p : Pointer} (h : s.items? = some p) : s.form = .array p := by
  simp only [items?] at h
  split at h <;> cases h
  assumption

theorem isArray_iff (s : Schema) : s.isArray ↔ s.items?.isSome := by
  simp only [isArray, items?]
  cases s.form <;> simp

theorem mem_links_iff {s : Schema} {p : Pointer} :
    p ∈ s.links ↔ s.target? = some p ∨ s.items? = some p ∨ p ∈ s.properties.map (·.2) := by
  simp only [links, target?, items?, properties]
  cases s.form <;> simp [Form.links, eq_comm]

-- The names of the properties that a schema declares.
def propertyNames (members : Members) : List String :=
  match members.lookup "properties" with
  | some (.obj properties) => Members.names properties
  | _                      => []

-- The forms that a schema at a node can have where its value has these members. Only the value of
-- a schema that is no reference and has no `allOf` tells of properties or items.
inductive Form.Declared (node : Pointer) (members : Members) : Form → Prop
  | reference {text target} :
    members.lookup "$ref" = some (.str text) → Pointer.parse text = .ok target →
      Declared node members (.aliasOf target)
  | entry {v} :
    members.lookup "$ref" = none → members.lookup "allOf" = some (.arr [v]) →
      Declared node members (.aliasOf ((node.child "allOf").child "0"))
  | object {required} :
    members.lookup "$ref" = none → members.lookup "allOf" = none →
      Declared node members (.object
        ((propertyNames members).map fun name => (name, (node.child "properties").child name))
        required)
  | array :
    members.lookup "$ref" = none → members.lookup "allOf" = none →
      Declared node members (.array (node.child "items"))
  | scalar {type} :
    members.lookup "$ref" = none → members.lookup "allOf" = none →
      Declared node members (.scalar type)

variable {d : Document} {node : Pointer} {members : Members} {value : Json} {s : Schema}
  {name : String}

theorem mem_propertyNames_iff : name ∈ propertyNames members ↔
    ∃ properties v, members.lookup "properties" = some (.obj properties) ∧
      properties.lookup name = some v := by
  simp only [propertyNames]
  split
  case h_1 properties hl =>
    refine ⟨fun hm => ?_, ?_⟩
    case refine_1 =>
      obtain ⟨v, hv⟩ := Json.exists_lookup_of_mem_names hm
      exact ⟨properties, v, hl, hv⟩
    case refine_2 =>
      rintro ⟨_, v, hl', hv⟩
      cases hl.symm.trans hl'
      exact List.mem_map_of_mem (mem_of_lookup hv)
  case h_2 hne =>
    refine ⟨nofun, ?_⟩
    rintro ⟨properties, _, hl, _⟩
    exact absurd hl (hne properties)

theorem nodup_propertyNames (h : members.Distinct) : (propertyNames members).Nodup := by
  simp only [propertyNames]
  split
  case h_1 hl => exact (h.values _ (mem_of_lookup hl)).of_obj.nodup
  case h_2    => exact .nil

theorem propertiesOf_eq_ok {properties : List (String × Pointer)}
    (h : propertiesOf node members = .ok properties) :
    properties =
      (propertyNames members).map fun name => (name, (node.child "properties").child name) := by
  simp only [propertiesOf] at h
  simp only [propertyNames]
  split at h
  case h_1 hl => cases h; simp [hl]
  case h_2 hl => cases h; simp [hl, Members.names]
  case h_3    => cases h

theorem declared_of_formOf {kind : Kind} {form : Form} (hr : members.lookup "$ref" = none)
    (he : members.lookup "allOf" = none) (h : formOf node members kind = .ok form) :
    form.Declared node members := by
  cases kind <;> simp only [formOf] at h
  case object =>
    obtain ⟨properties, hp, h⟩ := bind_eq_ok.mp h
    obtain ⟨_, _, h⟩ := bind_eq_ok.mp h
    cases pure_eq_ok.mp h
    exact propertiesOf_eq_ok hp ▸ .object hr he
  case array =>
    split at h <;> cases h
    exact .array hr he
  case scalar => cases h; exact .scalar hr he

theorem declared_of_readConcrete {description : Option String} (hr : members.lookup "$ref" = none)
    (he : members.lookup "allOf" = none) (h : readConcrete node members description = .ok s) :
    s.form.Declared node members := by
  simp only [readConcrete, bind_eq_ok, pure_eq_ok] at h
  obtain ⟨_, _, _, _, _, _, _, _, _, _, _, hf, rfl⟩ := h
  exact declared_of_formOf hr he hf

-- What was read at a node is what the value there declares.
theorem declared_of_read (h : read d node value = .ok s) :
    ∃ members, value = .obj members ∧ s.form.Declared node members := by
  obtain ⟨_, _, _, _, hr, ht, rfl⟩ | ⟨_, _, hr, he, rfl⟩ | ⟨members, _, rfl, hr, he, hc⟩ :=
    read_cases h
  case inl =>
    cases value <;> simp only [Json.get?, reduceCtorEq] at hr
    exact ⟨_, rfl, .reference hr (target_eq_ok ht).left⟩
  case inr.inl =>
    cases value <;> simp only [Json.get?, reduceCtorEq] at he
    exact ⟨_, rfl, .entry hr he⟩
  case inr.inr => exact ⟨members, rfl, declared_of_readConcrete hr he hc⟩

end Schema

namespace SchemaGraph

-- Reached from the named schemas or from those that operations declare, along links.
inductive Linked (g : SchemaGraph) : Pointer → Prop
  | named {p} : p ∈ g.named → Linked g p
  | root {p} : p ∈ g.roots → Linked g p
  | link {p s q} : Linked g p → g.get? p = some s → q ∈ s.links → Linked g q

-- A place in the order of the graph, with the schema for a node there.
def Places (g : SchemaGraph) (p : Pointer) (i : Nat) : Prop :=
  ∃ h : i < g.schemas.length, g.schemas[i].node = p ∧ g.index? p = some i

-- A graph that holds what a document declares, and nothing else.
structure Faithful (d : Document) (g : SchemaGraph) : Prop where
  -- Schemas stand at different nodes, and each is found at its place.
  nodup    : g.nodes.Nodup
  places   : ∀ i (h : i < g.schemas.length), g.Places g.schemas[i].node i
  -- Nothing leads out of the graph.
  links    : ∀ s ∈ g.schemas, ∀ p,
    s.target? = some p ∨ s.items? = some p ∨ p ∈ s.properties.map (·.2) → ∃ i, g.Places p i
  named    : ∀ p ∈ g.named, ∃ i, g.Places p i
  roots    : ∀ p ∈ g.roots, ∃ i, g.Places p i
  aliases  : ∀ s ∈ g.schemas, s.isAlias ↔ s.target?.isSome
  arrays   : ∀ s ∈ g.schemas, s.isArray ↔ s.items?.isSome
  -- Each schema is what the document declares at its node.
  declared : ∀ s ∈ g.schemas, ∃ members, d.get? s.node = some (.obj members) ∧
    s.form.Declared s.node members
  linked   : ∀ s ∈ g.schemas, g.Linked s.node

variable {d : Document} {g : SchemaGraph} {paths : List PathEntry} {p : Pointer} {s : Schema}

theorem Closed.places (h : g.Closed) (i : Nat) (hi : i < g.schemas.length) :
    g.Places g.schemas[i].node i := by
  refine ⟨hi, rfl, List.findIdx?_eq_some_iff_getElem.mpr ⟨hi, by simp, fun j hj he => ?_⟩⟩
  have hne := List.pairwise_iff_getElem.mp (List.pairwise_map.mp h.nodup) j i (by omega) hi hj
  exact hne (by simpa using he)

theorem Closed.exists_places (h : g.Closed) (hp : p ∈ g.nodes) : ∃ i, g.Places p i := by
  have ⟨s, hs, he⟩ := List.mem_map.mp hp
  have ⟨i, hi, hs⟩ := List.mem_iff_getElem.mp hs
  exact ⟨i, he ▸ hs ▸ h.places i hi⟩

theorem Closed.get?_of_mem (h : g.Closed) (hs : s ∈ g.schemas) : g.get? s.node = some s := by
  have ⟨t, ht⟩ := exists_get?_of_mem_nodes (List.mem_map_of_mem hs)
  have hn := node_of_get? ht
  exact h.eq_of_node_eq (mem_of_get? ht) hs hn ▸ ht

-- What loading came across is linked in the graph that it made.
theorem Loaded.linked (h : Loaded d g) (hp : Mentioned d (g.named ++ g.roots) p) : g.Linked p := by
  induction hp
  case first hp =>
    cases List.mem_append.mp hp
    case inl hp => exact .named hp
    case inr hp => exact .root hp
  case link p s q hp hs hq hi =>
    have ⟨t, ht, he⟩ := List.mem_map.mp ((h.mem_nodes p).mpr hp)
    have hst : s = t := Except.ok.inj (hs.symm.trans (he ▸ h.read t ht))
    exact .link hi (he ▸ h.closed.get?_of_mem ht) (hst ▸ hq)

theorem Loaded.faithful (h : Loaded d g) : g.Faithful d where
  nodup           := h.nodup
  places          := h.closed.places
  links _ hs _ hp :=
    h.closed.exists_places (h.mem_nodes_of_mem_links hs (Schema.mem_links_iff.mpr hp))
  named _ hp      :=
    h.closed.exists_places ((h.mem_nodes _).mpr (.first (List.mem_append_left _ hp)))
  roots _ hp      := h.closed.exists_places (h.mem_nodes_of_mem_roots hp)
  aliases s _     := s.isAlias_iff
  arrays s _      := s.isArray_iff
  declared s hs   := by
    have ⟨_, hg, hr⟩ := Document.schemaAt_eq_ok (h.read s hs)
    have ⟨members, he, hd⟩ := Schema.declared_of_read hr
    exact ⟨members, he ▸ hg, hd⟩
  linked s hs     := h.linked ((h.mem_nodes s.node).mp (List.mem_map_of_mem hs))

-- Loading leaves no schema unread, reads each as it is declared, and keeps none that nothing leads
-- to.
theorem faithful_of_load (h : load d paths = .ok g) : g.Faithful d :=
  have ⟨_, _, hl⟩ := load_eq_ok h
  hl.faithful

-- A schema that refers to itself and is wrapped by another one.
def wrapped : Document where
  dialect := .swagger2
  root := .obj [
    ("paths", .obj [("/nodes", .obj [("get", .obj [("responses", .obj [("200", .obj [
      ("schema", .obj [("$ref", .str "#/definitions/Leaf")])])])])])]),
    ("definitions", .obj [
      ("Node", .obj [("properties", .obj [
        ("next", .obj [("$ref", .str "#/definitions/Node")]),
        ("tags", .obj [("type", .str "array"), ("items", .obj [("type", .str "string")])])])]),
      ("Leaf", .obj [("allOf", .arr [.obj [("$ref", .str "#/definitions/Node")]])])
    ])
  ]

theorem exists_faithful_wrapped : ∃ paths g,
    wrapped.paths = .ok paths ∧ load wrapped paths = .ok g ∧
    g.nodes.map (·.segments) = [
      ["definitions", "Node"],
      ["definitions", "Leaf"],
      ["paths", "/nodes", "get", "responses", "200", "schema"],
      ["definitions", "Node", "properties", "next"],
      ["definitions", "Node", "properties", "tags"],
      ["definitions", "Leaf", "allOf", "0"],
      ["definitions", "Node", "properties", "tags", "items"]
    ] ∧ g.Faithful wrapped := by
  have hb : (wrapped.paths >>= load wrapped).toOption.map (·.nodes.map (·.segments)) = some [
      ["definitions", "Node"],
      ["definitions", "Leaf"],
      ["paths", "/nodes", "get", "responses", "200", "schema"],
      ["definitions", "Node", "properties", "next"],
      ["definitions", "Node", "properties", "tags"],
      ["definitions", "Leaf", "allOf", "0"],
      ["definitions", "Node", "properties", "tags", "items"]
    ] := by decide +kernel
  have ⟨g, hg, hn⟩ := exists_of_map_toOption_eq_some hb
  have ⟨paths, hp, hl⟩ := bind_eq_ok.mp hg
  exact ⟨paths, g, hp, hl, hn, faithful_of_load hl⟩

end SchemaGraph
end ApiDescriptors
