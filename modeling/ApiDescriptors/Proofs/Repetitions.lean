import ApiDescriptors.Proofs.Inheritance

namespace ApiDescriptors

open Result Record

namespace Paths

variable {d : Document} {node : Pointer} {v : Json} {method : Method}
  {own shared list before : List Declared}

theorem unseen_unseen : unseen before (unseen [] list) = unseen before list := by
  induction list using List.reverseRecOn
  case nil => rfl
  case append_singleton list x hi =>
    have hmem {key} : key ∈ keys (before ++ unseen [] list) ↔ key ∈ keys (before ++ list) := by
      rw [mem_keys_append, mem_keys_append]
      exact or_congr_right <|
        show key ∈ keys ([] ++ unseen [] list) ↔ key ∈ keys ([] ++ list) from mem_keys_unseen
    by_cases hx : x.key ∈ keys list
    case pos =>
      rw [unseen_concat_of_mem hx, hi, unseen_concat_of_mem (mem_keys_append.mpr (.inr hx))]
    case neg =>
      rw [unseen_concat_of_not_mem hx]
      by_cases hb : x.key ∈ keys (before ++ list)
      case pos => rw [unseen_concat_of_mem (hmem.mpr hb), hi, unseen_concat_of_mem hb]
      case neg =>
        rw [unseen_concat_of_not_mem fun h => hb (hmem.mp h), hi, unseen_concat_of_not_mem hb]

theorem ofDeclared_unseen :
    Inputs.ofDeclared node own (unseen [] shared) = Inputs.ofDeclared node own shared := by
  rw [Inputs.ofDeclared, Inputs.ofDeclared]
  cases h : own.foldlM (Inputs.addOwn node) {}
  case error => rfl
  case ok start =>
    obtain ⟨_, he⟩ := (Inputs.foldlM_addOwn_eq_ok (show (keys []).Nodup from List.nodup_nil)).mp h
    rw [ok_bind, ok_bind, he, List.nil_append, Inputs.foldl_addInherited, Inputs.foldl_addInherited,
      unseen_unseen]

-- What a path item declares again makes no difference to its operations.
theorem operation_unseen :
    operation d (unseen [] shared) method node v = operation d shared method node v := by
  simp only [operation, ofDeclared_unseen]

end Paths

namespace Document

variable {d : Document} {node n : Pointer} {v w : Json} {values : List Json} {list : List Declared}
  {template : String} {item : Members} {method : Method} {entries : List PathEntry} {x : Declared}
  {name location : String}

-- The name and the location that an entry of a parameter list has, where its references lead.
def AsksFor (d : Document) (node : Pointer) (v : Json) (name location : String) : Prop :=
  ∃ n w, d.Denotes node v n w ∧ ParameterObject.rules.member? "name" w = some (.str name) ∧
    ParameterObject.rules.member? "in" w = some (.str location)

-- A parameter list at a node that declares a parameter twice, or a body in the dialect that has one
-- among the parameters.
def Repeats (d : Document) (node : Pointer) (values : List Json) : Prop :=
  ∃ i j v w name name' location, i < j ∧ values[i]? = some v ∧ values[j]? = some w ∧
    d.AsksFor (node.child (Number.decimal i)) v name location ∧
    d.AsksFor (node.child (Number.decimal j)) w name' location ∧
    (name = name' ∨ d.dialect = .swagger2 ∧ location = "body")

-- Entries with one name and one location have one key, and so have all in the body.
theorem DeclaresInput.key_eq (hd : d.root.Distinct) (hv : v.Distinct) (h : d.DeclaresInput node v x)
    (ha : d.AsksFor node v name location) :
    x.key = (Location.ofKey? location).map fun location => (name, location) := by
  have ⟨n, w, hn, hname, hlocation⟩ := ha
  have hw := hn.distinct hd hv
  have hread {object} (hr : ParameterObject.rules.read w = .ok object) :
      object.name = name ∧ object.location = location := by
    have hname :=
      ParameterObject.reads_name.read_member (by decide) (by decide) hw hr hname
    have hlocation :=
      ParameterObject.reads_location.read_member (by decide) (by decide) hw hr hlocation
    exact ⟨(Except.ok.inj hname).symm, (Except.ok.inj hlocation).symm⟩
  cases h
  case parameter hn' hr hl =>
    have ⟨_, he⟩ := hn.unique hn'
    subst he
    have ⟨hname, hlocation⟩ := hread hr
    rw [← hlocation, hl, ← hname]
    rfl
  case body hn' hr hb _ _ =>
    have ⟨_, he⟩ := hn.unique hn'
    subst he
    have ⟨_, hlocation⟩ := hread hr
    rw [← hlocation, hb]
    rfl

theorem DeclaresInputs.exists_getElem? {i : Nat}
    (h : d.DeclaresInputs node (some (.arr values)) list) (hv : values[i]? = some v) :
    ∃ x, list[i]? = some x ∧ d.DeclaresInput (node.child (Number.decimal i)) v x := by
  cases h
  case list h =>
    have hz : values.zipIdx[i]? = some (v, i) := by rw [List.getElem?_zipIdx, hv]; simp
    have ⟨hi, hz⟩ := List.getElem?_eq_some_iff.mp hz
    have hl : i < list.length := h.length_eq ▸ hi
    have hx := h.get hi hl
    rw [List.get_eq_getElem, hz] at hx
    exact ⟨list[i], List.getElem?_eq_getElem hl, hx⟩

-- A list that repeats an entry has a key twice.
theorem not_nodup_of_repeats (hd : d.root.Distinct) (hv : (Json.arr values).Distinct)
    (h : d.DeclaresInputs node (some (.arr values)) list) (hr : d.Repeats node values) :
    ¬(Paths.keys list).Nodup := by
  have ⟨i, j, v, w, name, name', location, hij, hi, hj, ha, ha', he⟩ := hr
  have ⟨x, hx, hdx⟩ := h.exists_getElem? hi
  have ⟨y, hy, hdy⟩ := h.exists_getElem? hj
  have hkx := hdx.key_eq hd (hv.of_arr _ (List.mem_of_getElem? hi)) ha
  have hky := hdy.key_eq hd (hv.of_arr _ (List.mem_of_getElem? hj)) ha'
  have hkeys : x.key = y.key := by
    rw [hkx, hky]
    obtain rfl | ⟨_, rfl⟩ := he <;> rfl
  have hlt : i < (Paths.keys list).length := by
    rw [Paths.keys, List.length_map]
    exact (List.getElem?_eq_some_iff.mp hx).choose
  intro hn
  have hsame : (Paths.keys list)[i]? = (Paths.keys list)[j]? := by
    simp only [Paths.keys, List.getElem?_map, hx, hy, Option.map_some, hkeys]
  exact absurd ((List.getElem?_inj hlt hn).mp hsame) (Nat.ne_of_lt hij)

theorem exists_operation_of_declares (hp : d.paths = .ok entries)
    (h : d.DeclaresOperation template node item method v) :
    ∃ shared op, Paths.operation d shared method (node.child method.key) v = .ok op := by
  have ⟨u, hu, hi⟩ := h.path
  have ⟨entry, _, he⟩ := exists_of_mapM_eq_ok (paths_eq_ok hp) hu
  have ⟨_, _, hitem⟩ := entry_eq_ok he
  rw [Paths.pathItem_eq] at hitem
  have ⟨⟨n, w⟩, hf, hitem⟩ := bind_eq_ok.mp hitem
  obtain ⟨rfl, rfl⟩ := hi.unique (denotes_follow hf)
  have ⟨shared, _, hops⟩ := bind_eq_ok.mp hitem
  have hmem : (method.key, v) ∈ item.filter (!Paths.isPassive ·.1) :=
    List.mem_filter.mpr ⟨mem_of_lookup h.member,
      by simp [Paths.isPassive_of_ofKey? (Method.ofKey?_key method)]⟩
  have ⟨op, _, ho⟩ := exists_of_mapM_eq_ok hops hmem
  dsimp only at ho
  rw [Method.ofKey?_key] at ho
  exact ⟨shared, op, ho⟩

-- A document where an operation repeats a parameter of its own has no paths. What a path item
-- repeats is left out instead.
theorem refuses_of_repeats {value : Yaml.Value} (h : ofValue value = .ok d) :
    (∀ template node item method v values, d.DeclaresOperation template node item method v →
      OperationObject.rules.member? "parameters" v = some (.arr values) →
      d.Repeats ((node.child method.key).child "parameters") values →
      ∀ entries, d.paths ≠ .ok entries) ∧
    ∀ shared method node v, Paths.operation d shared method node v =
      Paths.operation d (Paths.unseen [] shared) method node v := by
  refine ⟨fun template node item method v values ho hm hr entries hp => ?_,
    fun shared method node v => Paths.operation_unseen.symm⟩
  have hd := (distinct_ofValue h).left
  have hv := ho.noted hd
  have ⟨shared, op, hop⟩ := exists_operation_of_declares hp ho
  have ⟨own, _, hown, _, hi⟩ := Paths.inherits_of_operation (hv.distinct hd) hop
  rw [hm] at hown
  have hvalues := (hv.of_member? (by decide) hm).distinct hd
  exact not_nodup_of_repeats hd hvalues hown hr hi.once

-- What the document with one operation is read as.
def petsItem (own shared : List Json) : Members := [
  ("parameters", .arr shared),
  ("get", .obj [("parameters", .arr own), ("responses", .obj [])])
]

def petsDocument (own shared : List Json) : Document where
  dialect := .swagger2
  root    := .obj [
    ("swagger", .str "2.0"),
    ("paths", .obj [("/pets", .obj (petsItem own shared))])
  ]

theorem declaresOperation_petsDocument (own shared : List Json) :
    (petsDocument own shared).DeclaresOperation "/pets" ⟨["paths", "/pets"]⟩
      (petsItem own shared) .get (.obj [("parameters", .arr own), ("responses", .obj [])]) where
  path   := by
    have hx : (!Paths.isExtension "/pets") = true := by decide +kernel
    exact ⟨_, List.mem_filter.mpr ⟨List.mem_cons_self, hx⟩, .here rfl⟩
  member := rfl

def typedParameter (name location type : String) : Json :=
  .obj [("name", .str name), ("in", .str location), ("type", .str type)]

def bodyParameter (name : String) : Json :=
  .obj [("name", .str name), ("in", .str "body"), ("schema", .obj [("type", .str "object")])]

theorem asksFor_typedParameter (d : Document) (node : Pointer) (name location type : String) :
    d.AsksFor node (typedParameter name location type) name location :=
  ⟨node, _, .here rfl, rfl, rfl⟩

theorem asksFor_bodyParameter (d : Document) (node : Pointer) (name : String) :
    d.AsksFor node (bodyParameter name) name "body" :=
  ⟨node, _, .here rfl, rfl, rfl⟩

-- The second parameter is the first one again, by reference.
def repeatedLimit : Yaml.Value := withParameters
  [typed "limit" "query" "integer", referenceTo "#/paths/~1pets/get/parameters/0"] []

def repeatedBody : Yaml.Value :=
  withParameters [inBody "pet", inBody "owner"] []

theorem exists_refuses_repeated :
    (∃ d, ofValue repeatedLimit = .ok d ∧ ∀ entries, d.paths ≠ .ok entries) ∧
    ∃ d, ofValue repeatedBody = .ok d ∧ ∀ entries, d.paths ≠ .ok entries := by
  constructor
  case left =>
    let own := [typedParameter "limit" "query" "integer",
      .obj [("$ref", .str "#/paths/~1pets/get/parameters/0")]]
    have hd : ofValue repeatedLimit = .ok (petsDocument own []) :=
      ofValue_of_tree rfl (by decide +kernel)
    have hparse : Pointer.parse "#/paths/~1pets/get/parameters/0" =
        .ok ⟨["paths", "/pets", "get", "parameters", "0"]⟩ := by rfl
    have hr : (petsDocument own []).Repeats ⟨["paths", "/pets", "get", "parameters"]⟩ own :=
      ⟨0, 1, _, _, "limit", "limit", "query", by decide, rfl, rfl, asksFor_typedParameter ..,
        ⟨_, _, .reference rfl hparse rfl (.here rfl), rfl, rfl⟩, .inl rfl⟩
    have hrefuses := (refuses_of_repeats hd).left
    exact ⟨_, hd, hrefuses _ _ _ _ _ _ (declaresOperation_petsDocument ..) rfl hr⟩
  case right =>
    let own := [bodyParameter "pet", bodyParameter "owner"]
    have hd : ofValue repeatedBody = .ok (petsDocument own []) :=
      ofValue_of_tree rfl (by decide +kernel)
    have hr : (petsDocument own []).Repeats ⟨["paths", "/pets", "get", "parameters"]⟩ own :=
      ⟨0, 1, _, _, "pet", "owner", "body", by decide, rfl, rfl, asksFor_bodyParameter ..,
        asksFor_bodyParameter .., .inr ⟨rfl, rfl⟩⟩
    have hrefuses := (refuses_of_repeats hd).left
    exact ⟨_, hd, hrefuses _ _ _ _ _ _ (declaresOperation_petsDocument ..) rfl hr⟩

-- The path item declares its parameter twice, with another type.
def repeatedShared : Yaml.Value :=
  withParameters [] [typed "limit" "query" "integer", typed "limit" "query" "string"]

theorem not_refuses_repeatedShared :
    ¬∀ value d template node item method v values, ofValue value = .ok d →
      d.DeclaresOperation template node item method v →
      (OperationObject.rules.member? "parameters" v = some (.arr values) ∧
          d.Repeats ((node.child method.key).child "parameters") values ∨
        item.lookup "parameters" = some (.arr values) ∧
          d.Repeats (node.child "parameters") values) →
      ∀ entries, d.paths ≠ .ok entries := by
  intro h
  let shared := [typedParameter "limit" "query" "integer", typedParameter "limit" "query" "string"]
  have hd : ofValue repeatedShared = .ok (petsDocument [] shared) :=
    ofValue_of_tree rfl (by decide +kernel)
  have hr : (petsDocument [] shared).Repeats ⟨["paths", "/pets", "parameters"]⟩ shared :=
    ⟨0, 1, _, _, "limit", "limit", "query", by decide, rfl, rfl, asksFor_typedParameter ..,
      asksFor_typedParameter .., .inl rfl⟩
  have hp : ((petsDocument [] shared).paths.toOption.map fun _ => ()) = some () := by
    decide +kernel
  obtain ⟨entries, hp, _⟩ := exists_of_map_toOption_eq_some hp
  exact h _ _ _ _ _ _ _ shared hd (declaresOperation_petsDocument ..) (.inr ⟨rfl, hr⟩) entries hp

end Document
end ApiDescriptors
