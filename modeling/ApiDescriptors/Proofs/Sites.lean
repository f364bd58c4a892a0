import ApiDescriptors.Proofs.Locations
import ApiDescriptors.Proofs.Paths
import ApiDescriptors.Proofs.Reading
import ApiDescriptors.Proofs.Reordering.Values

namespace ApiDescriptors

open Result Record

-- A pointer to a member with the name of schemas.
def Pointer.IsSchema (p : Pointer) : Prop :=
  p.last? = some "schema"

theorem Pointer.last?_child (p : Pointer) (name : String) : (p.child name).last? = some name :=
  List.getLast?_concat

-- Where an entry of a parameter list stands, and where its schema does.

def Declared.node : Declared → Pointer
  | .parameter p => p.node
  | .body b      => b.node

def Declared.site? : Declared → Option Pointer
  | .parameter p => p.schema
  | .body b      => b.schema

-- The schema of a content: that of the media type which a body is read from.
def contentSchema? (content : Members) : Option Json :=
  (mediaType? content).bind fun mediaType => (content.lookup mediaType).bind (·.get? "schema")

-- The schema of an object: its own, or else that of its content.
def schemaOf? (schema : Option Json) (content : Option Members) : Option Json :=
  schema.or (content.bind contentSchema?)

def ParameterObject.declaredSchema? (o : ParameterObject) : Option Json :=
  schemaOf? o.schema o.content

def RequestBodyObject.declaredSchema? (o : RequestBodyObject) : Option Json :=
  contentSchema? o.content

def ResponseObject.declaredSchema? (o : ResponseObject) : Option Json :=
  schemaOf? o.schema o.content

variable {α : Type} {R S : Pointer → Json → Prop} {rules : Rules α} {schema? : α → Option Json}
  {d : Document} {node : Pointer} {site : Option Pointer} {v : Json} {object : α}

-- What stands at a node is the record that was read from there, and what stands at a site is the
-- schema that this record declares.
def Records (R : Pointer → Json → Prop) (rules : Rules α) (schema? : α → Option Json)
    (node : Pointer) (site : Option Pointer) (object : α) : Prop :=
  ∃ v, R node v ∧ rules.read v = .ok object ∧ Option.Rel R site (schema? object)

theorem Records.imp (h : Records R rules schema? node site object)
    (hr : ∀ p ∈ node :: site.toList, ∀ v, R p v → S p v) :
    Records S rules schema? node site object := by
  have ⟨v, hv, ho, hs⟩ := h
  refine ⟨v, hr node List.mem_cons_self v hv, ho, ?_⟩
  obtain ⟨hx, hy⟩ | ⟨p, w, hx, hy, hw⟩ := rel_cases hs <;> rw [hx, hy]
  · exact .none
  · exact .some (hr p (by simp [hx]) w hw)

theorem Records.exists_of_mem {p : Pointer} (h : Records R rules schema? node site object)
    (hp : p ∈ node :: site.toList) : ∃ v, R p v := by
  have ⟨v, hv, _, hs⟩ := h
  cases List.mem_cons.mp hp
  case inl he => exact ⟨v, he ▸ hv⟩
  case inr he =>
    obtain ⟨hx, _⟩ | ⟨q, w, hx, _, hw⟩ := rel_cases hs <;> rw [hx] at he
    · cases he
    · exact ⟨w, List.mem_singleton.mp he ▸ hw⟩

def Parameter.Recorded (R : Pointer → Json → Prop) (p : Parameter) : Prop :=
  Records R ParameterObject.rules (·.declaredSchema?) p.node p.schema p.object

-- A body comes from a parameter or from a request body.
def Body.Recorded (R : Pointer → Json → Prop) (b : Body) : Prop :=
  (∃ object, Records R ParameterObject.rules (·.declaredSchema?) b.node b.schema object) ∨
  ∃ object, Records R RequestBodyObject.rules (·.declaredSchema?) b.node b.schema object

def Response.Recorded (R : Pointer → Json → Prop) (r : Response) : Prop :=
  ∃ object, Records R ResponseObject.rules (·.declaredSchema?) r.node r.schema object

structure Operation.Recorded (R : Pointer → Json → Prop) (op : Operation) : Prop where
  self       : ∃ v, R op.node v ∧ OperationObject.rules.read v = .ok op.object
  parameters : ∀ p ∈ op.parameters, p.Recorded R
  body       : ∀ b ∈ op.body, b.Recorded R
  responses  : ∀ r ∈ op.responses, r.Recorded R

namespace Operation

-- All nodes that an operation names: its own, and those of its parts with their schemas.
def nodes (op : Operation) : List Pointer :=
  op.node :: (op.parameters.flatMap (fun p => p.node :: p.schema.toList)
    ++ op.body.toList.flatMap (fun b => b.node :: b.schema.toList)
    ++ op.responses.flatMap fun r => r.node :: r.schema.toList)

variable {op : Operation} {p : Pointer}

theorem mem_nodes_iff :
    p ∈ op.nodes ↔ p = op.node ∨ (∃ x ∈ op.parameters, p ∈ x.node :: x.schema.toList) ∨
      (∃ b ∈ op.body, p ∈ b.node :: b.schema.toList) ∨
      ∃ r ∈ op.responses, p ∈ r.node :: r.schema.toList := by
  simp [nodes]

theorem schemaSites_subset_nodes : op.schemaSites ⊆ op.nodes := by
  intro p hp
  simp only [schemaSites, List.mem_append, List.mem_filterMap, Option.mem_toList,
    Option.bind_eq_some_iff] at hp
  rw [mem_nodes_iff]
  obtain (⟨x, hx, hs⟩ | ⟨b, hb, hs⟩) | ⟨r, hr, hs⟩ := hp
  · exact .inr (.inl ⟨x, hx, by simp [hs]⟩)
  · exact .inr (.inr (.inl ⟨b, hb, by simp [hs]⟩))
  · exact .inr (.inr (.inr ⟨r, hr, by simp [hs]⟩))

theorem Recorded.imp (h : op.Recorded R) (hr : ∀ p ∈ op.nodes, ∀ v, R p v → S p v) :
    op.Recorded S where
  self := by
    have ⟨v, hv, ho⟩ := h.self
    exact ⟨v, hr _ List.mem_cons_self v hv, ho⟩
  parameters x hx :=
    (h.parameters x hx).imp fun p hp => hr p (mem_nodes_iff.mpr (.inr (.inl ⟨x, hx, hp⟩)))
  body b hb := by
    have hr p hp := hr p (mem_nodes_iff.mpr (.inr (.inr (.inl ⟨b, hb, hp⟩))))
    exact (h.body b hb).imp (fun ⟨o, ho⟩ => ⟨o, ho.imp hr⟩) fun ⟨o, ho⟩ => ⟨o, ho.imp hr⟩
  responses x hx := by
    have ⟨o, ho⟩ := h.responses x hx
    exact ⟨o, ho.imp fun p hp => hr p (mem_nodes_iff.mpr (.inr (.inr (.inr ⟨x, hx, hp⟩))))⟩

-- Something was read at every node of an operation.
theorem Recorded.exists_of_mem_nodes (h : op.Recorded R) (hp : p ∈ op.nodes) : ∃ v, R p v := by
  obtain rfl | ⟨x, hx, hp⟩ | ⟨b, hb, hp⟩ | ⟨r, hr, hp⟩ := mem_nodes_iff.mp hp
  · exact h.self.imp fun _ => (·.left)
  · exact (h.parameters x hx).exists_of_mem hp
  · obtain ⟨_, hb⟩ | ⟨_, hb⟩ := h.body b hb
    · exact hb.exists_of_mem hp
    · exact hb.exists_of_mem hp
  · have ⟨_, hr⟩ := h.responses r hr
    exact hr.exists_of_mem hp

end Operation

def Declared.Recorded (R : Pointer → Json → Prop) : Declared → Prop
  | .parameter p => p.Recorded R
  | .body b      => b.Recorded R

namespace Paths

-- A part of a record that was read from a value is its default, or stands inside this value under
-- the name of its field.
theorem noted_of_reads {β : Type} {name : String} {get : α → β} {reader : Reader β}
    (h : rules.Reads name get reader) (hn : (rules.fields.map (·.1)).Nodup)
    (hm : (rules.fields.lookup name).isSome) (hp : Pointer.position? name = none)
    (hd : d.root.Distinct) (hv : d.Noted node v) (hr : rules.readAt node v = .ok object) :
    get object = get rules.start ∨
      ∃ w, d.Noted (node.child name) w ∧ reader w = .ok (get object) := by
  obtain ⟨_, he⟩ | ⟨w, hw, hr⟩ := h.of_read hn hm (hv.distinct hd) (Rules.read_of_readAt hr)
  case inl => exact .inl he
  case inr => exact .inr ⟨w, hv.of_member? hp hw, hr⟩

theorem noted_of_optional {β : Type} {name : String} {get : α → Option β} {reader : Reader β}
    {b : β} (h : rules.Reads name get (optional reader))
    (hn : (rules.fields.map (·.1)).Nodup) (hm : (rules.fields.lookup name).isSome)
    (hp : Pointer.position? name = none) (hs : get rules.start = none) (hd : d.root.Distinct)
    (hv : d.Noted node v) (hr : rules.readAt node v = .ok object) (hb : get object = some b) :
    ∃ w, d.Noted (node.child name) w ∧ reader w = .ok b := by
  obtain he | ⟨w, hw, hr⟩ := noted_of_reads h hn hm hp hd hv hr
  case inl => cases hb.symm.trans (he.trans hs)
  case inr => exact ⟨w, hw, optional_eq_ok (hb ▸ hr)⟩

theorem rel_mediaSchema {content : Members} (h : d.Noted (node.child "content") (.obj content)) :
    Option.Rel d.Noted ((mediaType? content).bind (mediaSchema content node))
      (contentSchema? content) := by
  simp only [contentSchema?]
  cases mediaType? content
  case none => exact .none
  case some mediaType =>
    simp only [Option.bind_some, mediaSchema]
    cases hm : content.lookup mediaType
    case none => exact .none
    case some media =>
      cases hs : media.get? "schema"
      case none => simp [hs]
      case some schema =>
        cases media <;> simp only [Json.get?, reduceCtorEq] at hs
        simpa [Json.get?, hs] using (h.member hm).member hs

-- Where the schema of an object at a node stands.
def schemaSite (node : Pointer) (schema : Option Json) (content : Option Members) :
    Option Pointer :=
  match schema, content with
  | some _, _            => some (node.child "schema")
  | none,   some content => (mediaType? content).bind (mediaSchema content node)
  | none,   none         => none

theorem rel_schemaSite {schema : Option Json} {content : Option Members}
    (hs : ∀ w, schema = some w → d.Noted (node.child "schema") w)
    (hc : ∀ c, content = some c → d.Noted (node.child "content") (.obj c)) :
    Option.Rel d.Noted (schemaSite node schema content) (schemaOf? schema content) := by
  cases schema
  case some schema => exact .some (hs schema rfl)
  case none =>
    cases content
    case some content => exact rel_mediaSchema (hc content rfl)
    case none         => exact .none

-- A record that has a schema or a content, read at a node.
theorem records_of_readAt {schema : α → Option Json} {content : α → Option Members}
    (hs : rules.Reads "schema" schema (optional any))
    (hc : rules.Reads "content" content (optional table))
    (hn : (rules.fields.map (·.1)).Nodup)
    (hm : (rules.fields.lookup "schema").isSome ∧ (rules.fields.lookup "content").isSome)
    (hstart : schema rules.start = none ∧ content rules.start = none) (hd : d.root.Distinct)
    (hv : d.Noted node v) (hr : rules.readAt node v = .ok object) :
    Records d.Noted rules (fun o => schemaOf? (schema o) (content o)) node
      (schemaSite node (schema object) (content object)) object := by
  refine ⟨v, hv, Rules.read_of_readAt hr, rel_schemaSite (fun w hw => ?schema) fun c hw => ?content⟩
  case schema =>
    have ⟨_, hn, ho⟩ := noted_of_optional hs hn hm.left (by decide) hstart.left hd hv hr hw
    cases ho
    exact hn
  case content =>
    have ⟨_, hn, ho⟩ := noted_of_optional hc hn hm.right (by decide) hstart.right hd hv hr hw
    exact table_eq_ok ho ▸ hn

-- What operations are made of is read where references lead, and its schema stands there.

theorem declared_eq_ok {x : Declared} (h : declared d node v = .ok x) :
    ∃ n w object, d.follow node v = .ok (n, w) ∧
      ParameterObject.rules.readAt n w = .ok object ∧ x.node = n ∧
      x.site? = schemaSite n object.schema object.content ∧
      ∀ p, x = .parameter p → p.object = object := by
  have ⟨⟨n, w⟩, hf, h⟩ := bind_eq_ok.mp h
  have ⟨object, hr, h⟩ := bind_eq_ok.mp h
  refine ⟨n, w, object, hf, hr, ?_⟩
  dsimp only at h
  split at h
  case isTrue =>
    split at h
    case h_1    => cases h
    case h_2 hs => cases h; exact ⟨rfl, hs.symm, fun _ => nofun⟩
  case isFalse =>
    split at h
    case h_1 => cases h
    case h_2 => cases h; exact ⟨rfl, rfl, fun _ hp => by cases hp; rfl⟩

theorem requestBody_eq_ok {b : Body} (h : requestBody d node v = .ok b) :
    ∃ n w object mediaType, d.follow node v = .ok (n, w) ∧
      RequestBodyObject.rules.readAt n w = .ok object ∧
      mediaType? object.content = some mediaType ∧ b.node = n ∧
      b.schema = mediaSchema object.content n mediaType := by
  have ⟨⟨n, w⟩, hf, h⟩ := bind_eq_ok.mp h
  have ⟨object, hr, h⟩ := bind_eq_ok.mp h
  split at h
  case h_1              => cases h
  case h_2 mediaType hm => cases h; exact ⟨n, w, object, mediaType, hf, hr, hm, rfl, rfl⟩

theorem response_eq_ok {status : String} {r : Response}
    (h : response d status node v = .ok r) :
    ∃ n w object, d.follow node v = .ok (n, w) ∧ ResponseObject.rules.readAt n w = .ok object ∧
      r.node = n ∧ r.schema = schemaSite n object.schema object.content := by
  have ⟨⟨n, w⟩, hf, h⟩ := bind_eq_ok.mp h
  have ⟨object, hr, h⟩ := bind_eq_ok.mp h
  refine ⟨n, w, object, hf, hr, ?_⟩
  dsimp only at h
  split at h <;> cases h <;> simp_all [schemaSite]

theorem recorded_declared {x : Declared} (hd : d.root.Distinct) (hv : d.Noted node v)
    (h : declared d node v = .ok x) : x.Recorded d.Noted := by
  have ⟨n, w, object, hf, hr, hn, hs, hp⟩ := declared_eq_ok h
  have ho := records_of_readAt ParameterObject.reads_schema ParameterObject.reads_content
    (by decide) (by decide) ⟨rfl, rfl⟩ hd (hv.follow hf) hr
  rw [← hs, ← hn] at ho
  cases x
  case parameter p => rw [← hp p rfl] at ho; exact ho
  case body b      => exact .inl ⟨object, ho⟩

-- Items that are noted at their places.
def NotedItems (d : Document) (list : Pointer) (values : List Json) : Prop :=
  ∀ x ∈ values.zipIdx, d.Noted (list.child (Number.decimal x.2)) x.1

theorem notedItems_of_arr {values : List Json} (h : d.Noted node (.arr values)) :
    NotedItems d node values :=
  fun _ hx => h.item (List.mem_zipIdx_iff_getElem?.mp hx)

theorem recorded_declaredList {values : List Json} {xs : List Declared} (hd : d.root.Distinct)
    (hv : NotedItems d node values) (h : declaredList d node values = .ok xs) :
    ∀ x ∈ xs, x.Recorded d.Noted := by
  intro x hx
  have ⟨item, hm, he⟩ := mem_of_mapM_eq_ok h hx
  exact recorded_declared hd (hv item hm) he

-- A property of all that is declared holds of the inputs that come from it.
def Inputs.All (P : Declared → Prop) (inputs : Inputs) : Prop :=
  (∀ p ∈ inputs.parameters, P (.parameter p)) ∧ ∀ b ∈ inputs.body, P (.body b)

theorem Inputs.All.add {P : Declared → Prop} {inputs : Inputs} {p : Parameter} (h : inputs.All P)
    (hp : P (.parameter p)) : (inputs.add p).All P := by
  refine ⟨fun q hq => ?_, h.right⟩
  cases List.mem_append.mp hq
  case inl hq => exact h.left q hq
  case inr hq => exact List.mem_singleton.mp hq ▸ hp

theorem Inputs.All.addOwn {P : Declared → Prop} {inputs inputs' : Inputs} {x : Declared}
    (h : inputs.All P) (hx : P x) (ha : addOwn node inputs x = .ok inputs') : inputs'.All P := by
  cases x <;> simp only [Inputs.addOwn] at ha <;> split at ha <;> cases ha
  case parameter p => exact h.add hx
  case body b      => exact ⟨h.left, fun c hc => Option.some.inj hc ▸ hx⟩

theorem Inputs.All.addInherited {P : Declared → Prop} {inputs : Inputs} {x : Declared}
    (h : inputs.All P) (hx : P x) : (inputs.addInherited x).All P := by
  cases x <;> simp only [Inputs.addInherited]
  case parameter p =>
    split
    case isTrue  => exact h
    case isFalse => exact h.add hx
  case body b =>
    refine ⟨h.left, fun c hc => ?_⟩
    cases Option.or_eq_some_iff.mp hc
    case inl hc => exact h.right c hc
    case inr hc => exact Option.some.inj hc.right ▸ hx

theorem Inputs.all_ofDeclared {P : Declared → Prop} {own inherited : List Declared}
    {inputs : Inputs} (h : ofDeclared node own inherited = .ok inputs) (ho : ∀ x ∈ own, P x)
    (hi : ∀ x ∈ inherited, P x) : inputs.All P := by
  have ⟨start, hs, h⟩ := bind_eq_ok.mp h
  cases pure_eq_ok.mp h
  have hstart : start.All P :=
    foldlM_invariant (P := Inputs.All P) (by simp [All]) (fun x hx _ _ ha => ha.addOwn (ho x hx)) hs
  exact List.foldlRecOn inherited addInherited hstart fun _ ha x hx => ha.addInherited (hi x hx)

theorem recorded_requestBody {b : Body} (hd : d.root.Distinct) (hv : d.Noted node v)
    (h : requestBody d node v = .ok b) : b.Recorded d.Noted := by
  have ⟨n, w, object, mediaType, hf, hr, hm, hn, hs⟩ := requestBody_eq_ok h
  have hw := hv.follow hf
  rw [Body.Recorded, hn, hs]
  refine .inr ⟨object, w, hw, Rules.read_of_readAt hr, ?_⟩
  obtain hc | ⟨_, hn, hc⟩ := noted_of_reads RequestBodyObject.reads_content (by decide)
    (by decide) (by decide) hd hw hr
  case inl => rw [hc] at hm; cases hm
  case inr =>
    have hs := rel_mediaSchema (table_eq_ok hc ▸ hn)
    rwa [hm] at hs

theorem recorded_response {status : String} {r : Response} (hd : d.root.Distinct)
    (hv : d.Noted node v) (h : response d status node v = .ok r) : r.Recorded d.Noted := by
  have ⟨n, w, object, hf, hr, hn, hs⟩ := response_eq_ok h
  rw [Response.Recorded, hn, hs]
  exact ⟨object, records_of_readAt ResponseObject.reads_schema ResponseObject.reads_content
    (by decide) (by decide) ⟨rfl, rfl⟩ hd (hv.follow hf) hr⟩

-- The parts of an operation, and what they were read from.
theorem operation_parts {inherited : List Declared} {method : Method} {op : Operation}
    (h : operation d inherited method node v = .ok op) :
    ∃ own inputs, declaredList d (node.child "parameters") op.object.parameters = .ok own ∧
      Inputs.ofDeclared node own inherited = .ok inputs ∧ op.parameters = inputs.parameters ∧
      ((op.object.requestBody = none ∧ op.body = inputs.body) ∨
        ∃ value b, op.object.requestBody = some value ∧
          requestBody d (node.child "requestBody") value = .ok b ∧ op.body = some b) ∧
      ∀ r ∈ op.responses, ∃ m ∈ op.object.responses,
        response d m.1 ((node.child "responses").child m.1) m.2 = .ok r := by
  have ⟨object, _, h⟩ := bind_eq_ok.mp h
  have ⟨own, ho, h⟩ := bind_eq_ok.mp h
  have ⟨inputs, hn, h⟩ := bind_eq_ok.mp h
  dsimp only at h
  split at h
  case h_1 value hb =>
    have ⟨body, hm, h⟩ := bind_eq_ok.mp h
    have ⟨responses, hr, h⟩ := bind_eq_ok.mp h
    have ⟨b, hb', he⟩ := map_eq_ok.mp hm
    cases pure_eq_ok.mp h
    refine ⟨own, inputs, ho, hn, rfl, .inr ⟨value, b, hb, hb', he.symm⟩, fun r hm => ?_⟩
    have ⟨m, hf, hm⟩ := mem_of_mapM_eq_ok hr hm
    exact ⟨m, List.mem_of_mem_filter hf, hm⟩
  case h_2 hb =>
    have ⟨body, hm, h⟩ := bind_eq_ok.mp h
    have ⟨responses, hr, h⟩ := bind_eq_ok.mp h
    cases pure_eq_ok.mp hm
    cases pure_eq_ok.mp h
    refine ⟨own, inputs, ho, hn, rfl, .inl ⟨hb, rfl⟩, fun r hm => ?_⟩
    have ⟨m, hf, hm⟩ := mem_of_mapM_eq_ok hr hm
    exact ⟨m, List.mem_of_mem_filter hf, hm⟩

-- What the record of an operation holds is noted with the operation.

theorem notedItems_parameters {object : OperationObject} (hd : d.root.Distinct)
    (hv : d.Noted node v) (hr : OperationObject.rules.readAt node v = .ok object) :
    NotedItems d (node.child "parameters") object.parameters := by
  obtain hl | ⟨_, hw, hl⟩ := noted_of_reads OperationObject.reads_parameters (by decide)
    (by decide) (by decide) hd hv hr
  case inl => rw [hl]; exact List.forall_mem_nil _
  case inr => exact notedItems_of_arr (listOf_any_eq_ok hl ▸ hw)

theorem noted_requestBody {object : OperationObject} {value : Json} (hd : d.root.Distinct)
    (hv : d.Noted node v) (hr : OperationObject.rules.readAt node v = .ok object)
    (hb : object.requestBody = some value) : d.Noted (node.child "requestBody") value := by
  have ⟨_, hw, hl⟩ := noted_of_optional OperationObject.reads_requestBody (by decide)
    (by decide) (by decide) rfl hd hv hr hb
  cases hl
  exact hw

theorem noted_of_mem_responses {object : OperationObject} {m : String × Json}
    (hd : d.root.Distinct) (hv : d.Noted node v)
    (hr : OperationObject.rules.readAt node v = .ok object) (hm : m ∈ object.responses) :
    d.Noted ((node.child "responses").child m.1) m.2 := by
  obtain hl | ⟨w, hw, hl⟩ := noted_of_reads OperationObject.reads_responses (by decide)
    (by decide) (by decide) hd hv hr
  case inl => rw [hl] at hm; cases hm
  case inr =>
    have hw := table_eq_ok hl ▸ hw
    exact hw.member (lookup_of_mem (hw.distinct hd).of_obj.nodup hm)

theorem recorded_operation {inherited : List Declared} {method : Method} {op : Operation}
    (hd : d.root.Distinct) (hv : d.Noted node v) (hi : ∀ x ∈ inherited, x.Recorded d.Noted)
    (h : operation d inherited method node v = .ok op) : op.Recorded d.Noted := by
  have ⟨_, he, hr⟩ := operation_eq_ok h
  have ⟨own, inputs, ho, hn, hp, hb, hs⟩ := operation_parts h
  have hown := recorded_declaredList hd (notedItems_parameters hd hv hr) ho
  have hall := Inputs.all_ofDeclared hn hown hi
  constructor
  case self       => exact ⟨v, he ▸ hv, Rules.read_of_readAt hr⟩
  case parameters => exact hp ▸ hall.left
  case body =>
    intro b hm
    obtain ⟨_, hb⟩ | ⟨value, c, hs, hc, hb⟩ := hb
    case inl => exact hall.right b (hb ▸ hm)
    case inr =>
      cases hb.symm.trans hm
      exact recorded_requestBody hd (noted_requestBody hd hv hr hs) hc
  case responses =>
    intro r hm
    have ⟨m, hm, hr'⟩ := hs r hm
    exact recorded_response hd (noted_of_mem_responses hd hv hr hm) hr'

theorem sharedParameters_eq_ok {item : Members} {shared : List Declared}
    (h : sharedParameters d node item = .ok shared) :
    (item.lookup "parameters" = none ∧ shared = []) ∨
    ∃ values, item.lookup "parameters" = some (.arr values) ∧
      declaredList d (node.child "parameters") values = .ok shared := by
  simp only [sharedParameters] at h
  split at h
  case h_1 hl => cases h; exact .inl ⟨hl, rfl⟩
  case h_2 hl => exact .inr ⟨_, hl, h⟩
  case h_3    => cases h

-- The operations of a path item, and the parameters that they share.
theorem pathItem_parts {operations : List Operation} (h : pathItem d node v = .ok operations) :
    ∃ n item shared, d.follow node v = .ok (n, .obj item) ∧
      sharedParameters d n item = .ok shared ∧
      ∀ op ∈ operations, ∃ m ∈ item, ∃ method, Method.ofKey? m.1 = some method ∧
        operation d shared method (n.child m.1) m.2 = .ok op := by
  rw [pathItem_eq] at h
  obtain ⟨⟨n, w⟩, hf, h⟩ := bind_eq_ok.mp h
  cases w <;> simp only [Json.obj?] at h
  case obj item =>
    obtain ⟨shared, hs, h⟩ := bind_eq_ok.mp h
    refine ⟨n, item, shared, hf, hs, fun op hm => ?_⟩
    obtain ⟨m, hm, ho⟩ := mem_of_mapM_eq_ok h hm
    dsimp only at ho
    split at ho
    case h_1 hk => exact ⟨m, List.mem_of_mem_filter hm, _, hk, ho⟩
    case h_2    => cases ho
  all_goals cases h

theorem recorded_pathItem {operations : List Operation} (hd : d.root.Distinct)
    (hv : d.Noted node v) (h : pathItem d node v = .ok operations) :
    ∀ op ∈ operations, op.Recorded d.Noted := by
  have ⟨n, item, shared, hf, hs, ho⟩ := pathItem_parts h
  have hw := hv.follow hf
  have hshared : ∀ x ∈ shared, x.Recorded d.Noted := by
    obtain ⟨_, rfl⟩ | ⟨_, hl, hs⟩ := sharedParameters_eq_ok hs
    case inl => exact List.forall_mem_nil _
    case inr => exact recorded_declaredList hd (notedItems_of_arr (hw.member hl)) hs
  intro op hm
  have ⟨m, hm, _, _, ho⟩ := ho op hm
  have hl := lookup_of_mem (hw.distinct hd).of_obj.nodup hm
  exact recorded_operation hd (hw.member hl) hshared ho

-- Schemas stand at members of their name.

theorem isSchema_mediaSchema {content : Members} {mediaType : String} {p : Pointer}
    (h : mediaSchema content node mediaType = some p) : p.IsSchema := by
  have ⟨_, _, hp⟩ := Option.map_eq_some_iff.mp h
  exact hp ▸ Pointer.last?_child _ _

theorem isSchema_schemaSite {schema : Option Json} {content : Option Members} {p : Pointer}
    (h : schemaSite node schema content = some p) : p.IsSchema := by
  simp only [schemaSite] at h
  split at h
  case h_1 => cases h; exact Pointer.last?_child _ _
  case h_2 =>
    have ⟨_, _, hp⟩ := Option.bind_eq_some_iff.mp h
    exact isSchema_mediaSchema hp
  case h_3 => cases h

theorem isSchema_declaredList {values : List Json} {xs : List Declared}
    (h : declaredList d node values = .ok xs) : ∀ x ∈ xs, ∀ p ∈ x.site?, p.IsSchema := by
  intro x hx p hp
  have ⟨_, _, hx⟩ := mem_of_mapM_eq_ok h hx
  have ⟨_, _, _, _, _, _, hs, _⟩ := declared_eq_ok hx
  exact isSchema_schemaSite (hs ▸ hp)

theorem isSchema_operation {inherited : List Declared} {method : Method} {op : Operation}
    (hi : ∀ x ∈ inherited, ∀ p ∈ x.site?, p.IsSchema)
    (h : operation d inherited method node v = .ok op) : ∀ p ∈ op.schemaSites, p.IsSchema := by
  have ⟨own, inputs, ho, hn, hp, hb, hr⟩ := operation_parts h
  have hall := Inputs.all_ofDeclared hn (isSchema_declaredList ho) hi
  intro p hm
  simp only [Operation.schemaSites, List.mem_append, List.mem_filterMap, Option.mem_toList,
    Option.bind_eq_some_iff] at hm
  obtain (⟨q, hq, hs⟩ | ⟨b, hm, hs⟩) | ⟨r, hm, hs⟩ := hm
  · exact hall.left q (hp ▸ hq) p hs
  · obtain ⟨_, hb⟩ | ⟨_, c, _, hc, hb⟩ := hb
    · exact hall.right b (hb ▸ hm) p hs
    · cases hb.symm.trans hm
      have ⟨_, _, _, _, _, _, _, _, hc⟩ := requestBody_eq_ok hc
      exact isSchema_mediaSchema (hc ▸ hs)
  · have ⟨_, _, hr⟩ := hr r hm
    have ⟨_, _, _, _, _, _, hr⟩ := response_eq_ok hr
    exact isSchema_schemaSite (hr ▸ hs)

theorem isSchema_pathItem {operations : List Operation}
    (h : pathItem d node v = .ok operations) :
    ∀ op ∈ operations, ∀ p ∈ op.schemaSites, p.IsSchema := by
  have ⟨_, _, shared, _, hs, ho⟩ := pathItem_parts h
  have hshared : ∀ x ∈ shared, ∀ p ∈ x.site?, p.IsSchema := by
    obtain ⟨_, rfl⟩ | ⟨_, _, hs⟩ := sharedParameters_eq_ok hs
    case inl => exact List.forall_mem_nil _
    case inr => exact isSchema_declaredList hs
  intro op hm
  have ⟨_, _, _, _, ho⟩ := ho op hm
  exact isSchema_operation hshared ho

end Paths

namespace Document

variable {entries : List PathEntry}

theorem lookup_of_mem_pathTable {template : String} (hd : d.root.Distinct)
    (h : (template, v) ∈ d.pathTable) :
    ∃ paths, d.get? ⟨["paths"]⟩ = some (.obj paths) ∧ paths.lookup template = some v := by
  rw [pathTable] at h
  cases hg : (d.get? ⟨["paths"]⟩).bind (·.obj?)
  case none => simp [hg] at h
  case some paths =>
    rw [hg] at h
    obtain ⟨w, hw, ho⟩ := Option.bind_eq_some_iff.mp hg
    cases w <;> cases ho
    exact ⟨paths, hw, lookup_of_mem (hd.lookup? hw).of_obj.nodup (List.mem_of_mem_filter h)⟩

theorem noted_of_mem_pathTable {template : String} (hd : d.root.Distinct)
    (h : (template, v) ∈ d.pathTable) : d.Noted (Pointer.child ⟨["paths"]⟩ template) v := by
  obtain ⟨_, hp, hl⟩ := lookup_of_mem_pathTable hd h
  exact .member (.of_get? (by decide) hp) hl

theorem recorded_of_paths (hd : d.root.Distinct) (h : d.paths = .ok entries) :
    ∀ entry ∈ entries, ∀ op ∈ entry.operations, op.Recorded d.Noted := by
  intro entry hm
  have ⟨⟨template, v⟩, hm, he⟩ := mem_of_mapM_eq_ok (paths_eq_ok h) hm
  have hv := noted_of_mem_pathTable hd hm
  exact Paths.recorded_pathItem hd hv (entry_eq_ok he).right.right

theorem isSchema_of_mem_sites (h : d.paths = .ok entries) :
    ∀ p ∈ SchemaGraph.sites entries, p.IsSchema := by
  intro p hp
  have ⟨entry, he, hp⟩ := List.mem_flatMap.mp hp
  have ⟨op, ho, hp⟩ := List.mem_flatMap.mp hp
  have ⟨_, _, he⟩ := mem_of_mapM_eq_ok (paths_eq_ok h) he
  exact Paths.isSchema_pathItem (entry_eq_ok he).right.right op ho p hp

theorem noted_of_mem_named {named : List Pointer} {p : Pointer}
    (h : SchemaGraph.namedSchemas d = .ok named) (hp : p ∈ named) :
    ∃ v, d.Noted p v ∧ d.get? p = some v := by
  have ⟨members, _, v, hg, hl, he⟩ := SchemaGraph.exists_of_mem_named h hp
  have ht : d.Noted d.schemaTable (.obj members) := by
    refine .of_get? ?_ hg
    simp only [schemaTable]
    cases d.dialect <;> decide
  exact he ▸ ⟨v, ht.member hl, (get?_child hg _).trans hl⟩

-- What loading comes across resolves, but for what it starts from.
theorem noted_of_mentioned {named : List Pointer} {p : Pointer} (hd : d.root.Distinct)
    (ht : d.paths = .ok entries) (hn : SchemaGraph.namedSchemas d = .ok named)
    (h : SchemaGraph.Mentioned d (named ++ SchemaGraph.sites entries) p) :
    ∃ v, d.Noted p v ∧ (d.get? p = some v ∨ p ∈ SchemaGraph.sites entries) := by
  induction h
  case first p hp =>
    cases List.mem_append.mp hp
    case inl hp =>
      have ⟨v, hv, hg⟩ := noted_of_mem_named hn hp
      exact ⟨v, hv, .inl hg⟩
    case inr hp =>
      have ⟨entry, he, hp'⟩ := List.mem_flatMap.mp hp
      have ⟨op, ho, hp'⟩ := List.mem_flatMap.mp hp'
      have ⟨v, hv⟩ := (recorded_of_paths hd ht entry he op ho).exists_of_mem_nodes
        (op.schemaSites_subset_nodes hp')
      exact ⟨v, hv, .inr hp⟩
  case link p s q _ hs hq hi =>
    have ⟨v, hv, _⟩ := hi
    have ⟨u, hg, hr⟩ := schemaAt_eq_ok hs
    obtain hg' | hm := hv.get?_or_misses
    case inr => cases hm.get?_eq_none.symm.trans hg
    case inl =>
      cases hg.symm.trans hg'
      have ⟨w, hw, hq⟩ := hv.of_mem_links hr hq
      exact ⟨w, hw, .inl (hq hg)⟩

-- Every node that operations name is that of the value which was read there. Where a record is
-- given as an array this node has no pointer, and what is found to miss is one of these.
theorem located_of_paths {value : Yaml.Value} (h : ofValue value = .ok d)
    (hp : d.paths = .ok entries) :
    (∀ entry ∈ entries, ∀ op ∈ entry.operations,
      op.Recorded fun p v => d.get? p = some v ∨ d.Misses p) ∧
    ((∀ entry ∈ entries, ∀ op ∈ entry.operations, op.Recorded (d.get? · = some ·)) ↔
      ∀ entry ∈ entries, ∀ op ∈ entry.operations, ∀ p ∈ op.nodes, ¬d.Misses p) ∧
    ∀ p, SchemaGraph.load d entries = .error (.invalid p .schemaNotFound) →
      p ∈ SchemaGraph.sites entries ∧ d.Misses p := by
  have hd := (distinct_ofValue h).left
  have hr := recorded_of_paths hd hp
  refine ⟨fun entry he op ho => ?_, ⟨fun hg entry he op ho p hn hm => ?_,
    fun hm entry he op ho => ?_⟩, fun p hl => ?_⟩
  case refine_1 => exact (hr entry he op ho).imp fun _ _ _ => (·.get?_or_misses)
  case refine_2 =>
    have ⟨v, hv⟩ := (hg entry he op ho).exists_of_mem_nodes hn
    cases hm.get?_eq_none.symm.trans hv
  case refine_3 =>
    exact (hr entry he op ho).imp fun p hn v hv =>
      hv.get?_or_misses.resolve_right (hm entry he op ho p hn)
  case refine_4 =>
    obtain hl | ⟨named, q, hn, hm, hl⟩ := SchemaGraph.load_eq_error hl
    case inl => cases SchemaGraph.readable_namedSchemas d _ hl
    case inr =>
      have ⟨v, hv, hs⟩ := noted_of_mentioned hd hp hn hm
      simp only [schemaAt] at hl
      split at hl
      case h_2 => cases Schema.readable_read _ _ _ _ hl
      case h_1 hg =>
        cases hl
        exact ⟨hs.resolve_left (by simp [hg]), hv.get?_or_misses.resolve_left (by simp [hg])⟩

-- A document with one operation, which has one parameter.
def withParameter (parameter : Yaml.Value) : Yaml.Value := .map [
  (.scalar (.str "swagger"), .scalar (.str "2.0")),
  (.scalar (.str "paths"), .map [(.scalar (.str "/pets"), .map [(.scalar (.str "get"), .map [
    (.scalar (.str "parameters"), .seq [parameter]),
    (.scalar (.str "responses"), .map [])
  ])])])
]

-- The parameter as an object and as an array.
def byName : Yaml.Value := .map [
  (.scalar (.str "name"), .scalar (.str "limit")),
  (.scalar (.str "in"), .scalar (.str "query")),
  (.scalar (.str "schema"), .map [(.scalar (.str "type"), .scalar (.str "integer"))])
]

def byPosition : Yaml.Value := .seq [
  .scalar (.str "limit"), .scalar (.str "query"), .scalar .null, .scalar .null,
  .map [(.scalar (.str "type"), .scalar (.str "integer"))],
  .scalar .null, .scalar .null, .scalar .null, .scalar .null
]

-- A document with its entries.
def readPaths (value : Yaml.Value) : Result (Document × List PathEntry) := do
  let d ← ofValue value
  return (d, ← d.paths)

theorem exists_located_byName : ∃ d entries,
    ofValue (withParameter byName) = .ok d ∧ d.paths = .ok entries ∧
    entries.flatMap (·.operations.flatMap (·.nodes.map (·.segments))) = [
      ["paths", "/pets", "get"],
      ["paths", "/pets", "get", "parameters", "0"],
      ["paths", "/pets", "get", "parameters", "0", "schema"]
    ] ∧ ∀ entry ∈ entries, ∀ op ∈ entry.operations, op.Recorded (d.get? · = some ·) := by
  have hb : (readPaths (withParameter byName)).toOption.map (fun (d, entries) =>
      (entries.flatMap (·.operations.flatMap (·.nodes.map (·.segments))),
        entries.all (·.operations.all (·.nodes.all fun p => (d.get? p).isSome)))) = some ([
      ["paths", "/pets", "get"],
      ["paths", "/pets", "get", "parameters", "0"],
      ["paths", "/pets", "get", "parameters", "0", "schema"]
    ], true) := by decide +kernel
  have ⟨(d, entries), hd, he⟩ := exists_of_map_toOption_eq_some hb
  have ⟨_, hd, hp⟩ := bind_eq_ok.mp hd
  have ⟨_, hp, he'⟩ := bind_eq_ok.mp hp
  cases pure_eq_ok.mp he'
  have ⟨hn, hg⟩ := Prod.ext_iff.mp he
  have ⟨_, hr, _⟩ := located_of_paths hd hp
  refine ⟨d, entries, hd, hp, hn, hr.mpr fun entry hm op ho p hp hmiss => ?_⟩
  simp only [List.all_eq_true] at hg
  have hs := hg entry hm op ho p hp
  rw [hmiss.get?_eq_none] at hs
  cases hs

-- The place that a schema is missing from.
def missing? : Result SchemaGraph → Option Pointer
  | .error (.invalid p .schemaNotFound) => some p
  | _                                   => none

theorem eq_error_of_missing? {x : Result SchemaGraph} {p : Pointer} (h : missing? x = some p) :
    x = .error (.invalid p .schemaNotFound) := by
  simp only [missing?] at h
  split at h <;> cases h
  rfl

theorem not_resolves_byPosition :
    ¬∀ value d entries, ofValue value = .ok d → d.paths = .ok entries →
      (∀ entry ∈ entries, ∀ op ∈ entry.operations, ∀ p ∈ op.nodes, (d.get? p).isSome) ∧
      ∀ p, SchemaGraph.load d entries ≠ .error (.invalid p .schemaNotFound) := by
  intro h
  have hb : (readPaths (withParameter byPosition)).toOption.map (fun x =>
      (missing? (SchemaGraph.load x.1 x.2)).isSome) = some true := by
    decide +kernel
  obtain ⟨⟨d, entries⟩, hd, he⟩ := exists_of_map_toOption_eq_some hb
  obtain ⟨_, hd, hp⟩ := bind_eq_ok.mp hd
  obtain ⟨_, hp, he'⟩ := bind_eq_ok.mp hp
  cases pure_eq_ok.mp he'
  obtain ⟨p, hm⟩ := Option.isSome_iff_exists.mp he
  exact (h _ d entries hd hp).right p (eq_error_of_missing? hm)

end Document
end ApiDescriptors
