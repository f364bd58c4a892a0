import ApiDescriptors.Proofs.Inputs
import ApiDescriptors.Proofs.Operations

namespace ApiDescriptors

open Result Record

namespace Document

variable {d : Document} {node n : Pointer} {v w : Json} {item : Members} {method : Method}
  {template : String} {shared : List Declared} {op : Operation} {entries : List PathEntry}

-- What an entry of a parameter list at a node declares, where its references lead.
inductive DeclaresInput (d : Document) (node : Pointer) (v : Json) : Declared → Prop
  | parameter {n w object location} :
    d.Denotes node v n w → ParameterObject.rules.read w = .ok object →
    Location.ofKey? object.location = some location →
    DeclaresInput d node v (.parameter
      { node := n, location, object, schema := Paths.parameterSchema n object })
  | body {n w object schema} :
    d.Denotes node v n w → ParameterObject.rules.read w = .ok object →
    object.location = "body" → d.dialect = .swagger2 →
    Paths.parameterSchema n object = some schema →
    DeclaresInput d node v (.body
      { node := n, mediaType := "application/json", required := object.required.getD false
        schema })

-- What the parameter list at a node declares, entry by entry. There may be no list.
inductive DeclaresInputs (d : Document) (node : Pointer) : Option Json → List Declared → Prop
  | absent : DeclaresInputs d node none []
  | list {values list} :
    List.Forall₂ (fun value x => d.DeclaresInput (node.child (Number.decimal value.2)) value.1 x)
      values.zipIdx list →
    DeclaresInputs d node (some (.arr values)) list

-- The request body that the value at a node declares. There may be no value, or null.
inductive DeclaresBody (d : Document) (node : Pointer) : Option Json → Option Body → Prop
  | absent : DeclaresBody d node none none
  | null   : DeclaresBody d node (some .null) none
  | body {v n w object mediaType} :
    v ≠ .null → d.Denotes node v n w → RequestBodyObject.rules.read w = .ok object →
    mediaType? object.content = some mediaType →
    DeclaresBody d node (some v) (some
      { node := n, mediaType, required := object.required
        schema := Paths.mediaSchema object.content n mediaType })

-- The value of an operation, in the path item at a node that a path of the document leads to.
structure DeclaresOperation (d : Document) (template : String) (node : Pointer) (item : Members)
    (method : Method) (v : Json) : Prop where
  path   : ∃ u, (template, u) ∈ d.pathTable ∧
    d.Denotes (Pointer.child ⟨["paths"]⟩ template) u node (.obj item)
  member : item.lookup method.key = some v

theorem declaresInput_of_declared {x : Declared} (h : Paths.declared d node v = .ok x) :
    d.DeclaresInput node v x := by
  have ⟨⟨n, w⟩, hf, h⟩ := bind_eq_ok.mp h
  have ⟨object, hr, h⟩ := bind_eq_ok.mp h
  have hn := denotes_follow hf
  have hr := Rules.read_of_readAt hr
  dsimp only at h
  split at h
  case isTrue hb =>
    split at h
    case h_1    => cases h
    case h_2 hs => cases h; exact .body hn hr hb.left hb.right hs
  case isFalse =>
    split at h
    case h_1    => cases h
    case h_2 hl => cases h; exact .parameter hn hr hl

theorem declaresBody_of_requestBody {b : Body} (hv : v ≠ .null)
    (h : Paths.requestBody d node v = .ok b) : d.DeclaresBody node (some v) (some b) := by
  have ⟨⟨n, w⟩, hf, h⟩ := bind_eq_ok.mp h
  have ⟨object, hr, h⟩ := bind_eq_ok.mp h
  split at h
  case h_1    => cases h
  case h_2 hm => cases h; exact .body hv (denotes_follow hf) (Rules.read_of_readAt hr) hm

theorem declaresInputs_of_declaredList {values : List Json} {list : List Declared}
    (h : Paths.declaredList d node values = .ok list) :
    d.DeclaresInputs node (some (.arr values)) list :=
  .list ((mapM_eq_ok.mp h).imp fun _ _ => declaresInput_of_declared)

theorem declaresInputs_of_sharedParameters (h : Paths.sharedParameters d node item = .ok shared) :
    d.DeclaresInputs (node.child "parameters") (item.lookup "parameters") shared := by
  obtain ⟨hl, rfl⟩ | ⟨values, hl, h⟩ := Paths.sharedParameters_eq_ok h <;> rw [hl]
  case inl => exact .absent
  case inr => exact declaresInputs_of_declaredList h

end Document

-- How the inputs of an operation come from what is declared by itself, by its path item, and as a
-- request body.
structure Operation.Inherits (op : Operation) (own shared : List Declared) (body : Option Body) :
    Prop where
  once       : (Paths.keys own).Nodup
  parameters : op.parameters =
    own.filterMap (·.parameter?) ++ (Paths.unseen own shared).filterMap (·.parameter?)
  nodup      : (op.parameters.map (·.key)).Nodup
  body       : op.body = body.or ((own ++ shared).filterMap (·.body?)).head?

namespace Paths

variable {d : Document} {node n : Pointer} {v w : Json} {item : Members} {method : Method}
  {shared : List Declared} {op : Operation}

theorem declaresInputs_of_read {object : OperationObject} {own : List Declared} (hv : v.Distinct)
    (hr : OperationObject.rules.read v = .ok object)
    (h : declaredList d node object.parameters = .ok own) :
    d.DeclaresInputs node (OperationObject.rules.member? "parameters" v) own := by
  obtain ⟨hm, hs⟩ | ⟨_, hm, hl⟩ :=
    OperationObject.reads_parameters.of_read (by decide) (by decide) hv hr <;> rw [hm]
  case inl =>
    rw [hs] at h
    cases pure_eq_ok.mp h
    exact .absent
  case inr => exact listOf_any_eq_ok hl ▸ Document.declaresInputs_of_declaredList h

theorem declaresBody_of_read {object : OperationObject} (hv : v.Distinct)
    (hr : OperationObject.rules.read v = .ok object) (h : object.requestBody = none) :
    d.DeclaresBody node (OperationObject.rules.member? "requestBody" v) none := by
  obtain ⟨hm, _⟩ | ⟨w, hm, ho⟩ :=
    OperationObject.reads_requestBody.of_read (by decide) (by decide) hv hr <;> rw [hm]
  case inl => exact .absent
  case inr =>
    rw [h] at ho
    cases w <;> cases ho
    exact .null

theorem declaresBody_of_read_of_some {object : OperationObject} {value : Json} {b : Body}
    (hv : v.Distinct) (hr : OperationObject.rules.read v = .ok object)
    (h : object.requestBody = some value)
    (hb : requestBody d node value = .ok b) :
    d.DeclaresBody node (OperationObject.rules.member? "requestBody" v) (some b) := by
  obtain ⟨_, hs⟩ | ⟨w, hm, ho⟩ :=
    OperationObject.reads_requestBody.of_read (by decide) (by decide) hv hr
  case inl => cases h.symm.trans hs
  case inr =>
    rw [h] at ho
    have hw : w ≠ .null := fun hw => by subst hw; cases ho
    cases optional_eq_ok ho
    rw [hm]
    exact Document.declaresBody_of_requestBody hw hb

-- What an operation declares, and what it makes of it.
theorem inherits_of_operation (hv : v.Distinct) (h : operation d shared method node v = .ok op) :
    ∃ own body,
      d.DeclaresInputs (node.child "parameters")
        (OperationObject.rules.member? "parameters" v) own ∧
      d.DeclaresBody (node.child "requestBody")
        (OperationObject.rules.member? "requestBody" v) body ∧
      op.Inherits own shared body := by
  have ⟨_, _, hr⟩ := operation_eq_ok h
  have hr := Rules.read_of_readAt hr
  have ⟨own, _, ho, hn, hp, hb, _⟩ := operation_parts h
  have ⟨hown, he⟩ := Inputs.ofDeclared_eq_ok.mp hn
  rw [he] at hp hb
  have hinherits {body} (hb : op.body = body.or (Inputs.of (own ++ shared)).body) :
      op.Inherits own shared body := {
    once       := hown
    parameters := hp.trans (List.filterMap_append ..)
    nodup      := hp ▸ Inputs.nodup_parameters_of (nodup_keys_unseen hown)
    body       := hb
  }
  have hlist := declaresInputs_of_read hv hr ho
  obtain ⟨hs, hb⟩ | ⟨value, b, hs, hb', hb⟩ := hb
  case inl =>
    refine ⟨own, none, hlist, declaresBody_of_read hv hr hs, hinherits ?_⟩
    rw [hb, Inputs.body_of_unseen, Option.none_or]
  case inr =>
    refine ⟨own, some b, hlist, declaresBody_of_read_of_some hv hr hs hb', hinherits ?_⟩
    rw [hb, Option.some_or]

end Paths

namespace Document

variable {d : Document} {node n : Pointer} {v w : Json} {item : Members} {method : Method}
  {template : String} {shared : List Declared} {op : Operation} {entries : List PathEntry}

theorem DeclaresOperation.noted (hd : d.root.Distinct)
    (h : d.DeclaresOperation template node item method v) :
    d.Noted (node.child method.key) v := by
  have ⟨_, hu, hi⟩ := h.path
  exact ((noted_of_mem_pathTable hd hu).denotes hi).member h.member

-- Every operation is read where the document declares it.
theorem declaresOperation_of_paths (hd : d.root.Distinct) (hp : d.paths = .ok entries)
    {entry : PathEntry} (he : entry ∈ entries) (ho : op ∈ entry.operations) :
    ∃ node item v shared, d.DeclaresOperation entry.template node item op.method v ∧
      Paths.sharedParameters d node item = .ok shared ∧
      Paths.operation d shared op.method (node.child op.method.key) v = .ok op := by
  have ⟨⟨template, u⟩, hu, he⟩ := mem_of_mapM_eq_ok (paths_eq_ok hp) he
  have ⟨_, ht, hi⟩ := entry_eq_ok he
  have ⟨node, item, shared, hf, hs, ho⟩ := Paths.pathItem_parts hi
  have ⟨⟨key, v⟩, hv, method, hk, ho⟩ := ho op ‹_›
  have hmethod : op.method = method := (Paths.operation_eq_ok ho).left
  have hkey := Method.key_of_ofKey? hk
  subst hmethod hkey
  have hitem := ((noted_of_mem_pathTable hd hu).follow hf).distinct hd
  refine ⟨node, item, v, shared, ⟨⟨u, ht ▸ hu, ht ▸ denotes_follow hf⟩, ?_⟩, hs, ho⟩
  exact lookup_of_mem hitem.of_obj.nodup hv

-- The inputs of an operation come from what the document declares where the operation stands.
def Supplies (d : Document) (template : String) (op : Operation) : Prop :=
  ∃ node item v own shared body,
    d.DeclaresOperation template node item op.method v ∧ op.node = node.child op.method.key ∧
    d.DeclaresInputs (op.node.child "parameters")
      (OperationObject.rules.member? "parameters" v) own ∧
    d.DeclaresInputs (node.child "parameters") (item.lookup "parameters") shared ∧
    d.DeclaresBody (op.node.child "requestBody")
      (OperationObject.rules.member? "requestBody" v) body ∧
    op.Inherits own shared body

-- Every operation takes over what its path item declares and it does not declare itself.
theorem supplies_of_paths {value : Yaml.Value} (h : ofValue value = .ok d)
    (hp : d.paths = .ok entries) :
    ∀ entry ∈ entries, ∀ op ∈ entry.operations, d.Supplies entry.template op := by
  intro entry he op ho
  have hd := (distinct_ofValue h).left
  have ⟨node, item, v, shared, hdecl, hs, ho⟩ := declaresOperation_of_paths hd hp he ho
  have ⟨own, body, hown, hbody, hi⟩ := Paths.inherits_of_operation ((hdecl.noted hd).distinct hd) ho
  have ⟨_, hn, _⟩ := Paths.operation_eq_ok ho
  rw [← hn] at hown hbody
  exact ⟨node, item, v, own, shared, body, hdecl, hn, hown,
    declaresInputs_of_sharedParameters hs, hbody, hi⟩

theorem exists_of_readPaths {α : Type} {value : Yaml.Value} {f : Document × List PathEntry → α}
    {a : α} (h : (readPaths value).toOption.map f = some a) :
    ∃ d entries, ofValue value = .ok d ∧ d.paths = .ok entries ∧ f (d, entries) = a := by
  have ⟨(d, entries), hr, hf⟩ := exists_of_map_toOption_eq_some h
  have ⟨_, hd, hr⟩ := bind_eq_ok.mp hr
  have ⟨_, hp, he⟩ := bind_eq_ok.mp hr
  cases pure_eq_ok.mp he
  exact ⟨d, entries, hd, hp, hf⟩

-- A document with one operation, which declares parameters beside those of its path item.
def withParameters (own shared : List Yaml.Value) : Yaml.Value := .map [
  (.scalar (.str "swagger"), .scalar (.str "2.0")),
  (.scalar (.str "paths"), .map [(.scalar (.str "/pets"), .map [
    (.scalar (.str "parameters"), .seq shared),
    (.scalar (.str "get"), .map [
      (.scalar (.str "parameters"), .seq own),
      (.scalar (.str "responses"), .map [])
    ])
  ])])
]

-- A parameter of a type.
def typed (name location type : String) : Yaml.Value := .map [
  (.scalar (.str "name"), .scalar (.str name)),
  (.scalar (.str "in"), .scalar (.str location)),
  (.scalar (.str "type"), .scalar (.str type))
]

def inBody (name : String) : Yaml.Value := .map [
  (.scalar (.str "name"), .scalar (.str name)),
  (.scalar (.str "in"), .scalar (.str "body")),
  (.scalar (.str "schema"), .map [(.scalar (.str "type"), .scalar (.str "object"))])
]

def referenceTo (text : String) : Yaml.Value :=
  .map [(.scalar (.str "$ref"), .scalar (.str text))]

-- The limit is overridden, the reference repeats the trace, and the first of two bodies is taken.
def overridden : Yaml.Value := withParameters [typed "limit" "query" "string"] [
  inBody "pet", typed "limit" "query" "integer", typed "trace" "header" "string",
  referenceTo "#/paths/~1pets/parameters/2", typed "limit" "header" "integer", inBody "owner"
]

-- The names and locations of the inputs of an operation, each with where it stands.
def inputsOf (op : Operation) : List (List String) :=
  op.parameters.map (fun p => p.object.name :: p.location.key :: p.node.segments)
    ++ op.body.toList.map fun b => "body" :: b.node.segments

theorem exists_supplies_overridden : ∃ d entries,
    ofValue overridden = .ok d ∧ d.paths = .ok entries ∧
    entries.flatMap (·.operations.flatMap inputsOf) = [
      ["limit", "query", "paths", "/pets", "get", "parameters", "0"],
      ["trace", "header", "paths", "/pets", "parameters", "2"],
      ["limit", "header", "paths", "/pets", "parameters", "4"],
      ["body", "paths", "/pets", "parameters", "0"]
    ] ∧ ∀ entry ∈ entries, ∀ op ∈ entry.operations, d.Supplies entry.template op := by
  have hb : (readPaths overridden).toOption.map (·.2.flatMap (·.operations.flatMap inputsOf)) =
    some [
      ["limit", "query", "paths", "/pets", "get", "parameters", "0"],
      ["trace", "header", "paths", "/pets", "parameters", "2"],
      ["limit", "header", "paths", "/pets", "parameters", "4"],
      ["body", "paths", "/pets", "parameters", "0"]
    ] := by decide +kernel
  have ⟨d, entries, hd, hp, he⟩ := exists_of_readPaths hb
  exact ⟨d, entries, hd, hp, he, supplies_of_paths hd hp⟩

end Document
end ApiDescriptors
