import ApiDescriptors.Proofs.Namespace
import ApiDescriptors.Proofs.Schema.Resolution
import ApiDescriptors.Proofs.SuccessStatus
import ApiDescriptors.Proofs.Template
import ApiDescriptors.Verb

namespace ApiDescriptors

open Result

-- The use that a type shows: one object, or an array of them.
def FieldType.usage? : FieldType → Option Resolution.Usage
  | object schema          => some ⟨schema, false⟩
  | array (object schema)  => some ⟨schema, true⟩
  | _                      => none

-- The two walks to the object at a use, for its type and for its serializer, end at the same place.
theorem Resolution.usage?_eq_of_fieldType {r : Resolution} {p : Pointer} {type : FieldType}
    (h : r.fieldType p = .ok type) : r.usage? p = type.usage? := by
  rw [fieldType, fieldTypeFrom] at h
  simp only [usage?]
  split at h
  case h_1 => cases h
  case h_2 schema hs =>
    simp only [hs, Option.bind_eq_bind, Option.bind_some]
    split at h
    case h_2 hf => cases h; simp [hf, FieldType.usage?]
    case h_3 hf => cases h; simp [hf, FieldType.usage?]
    case h_4    => cases h
    case h_1 items hf =>
      simp only [hf]
      split at h
      case isFalse => cases h
      case isTrue =>
        obtain ⟨inner, hi, he⟩ := bind_eq_ok.mp h
        cases pure_eq_ok.mp he
        rw [fieldTypeFrom] at hi
        split at hi
        case h_1 => cases hi
        case h_2 item hc =>
          simp only [hc, Option.bind_some, Schema.isObject]
          split at hi
          case h_1 hf =>
            split at hi
            case isFalse => cases hi
            case isTrue =>
              obtain ⟨_, _, he⟩ := bind_eq_ok.mp hi
              cases pure_eq_ok.mp he
              simp [hf, FieldType.usage?]
          case h_2 hf => cases hi; simp [hf, FieldType.usage?]
          case h_3 hf => cases hi; simp [hf, FieldType.usage?]
          case h_4    => cases hi

namespace Verb

variable {ids : Identifiers} {r : Resolution} {serializers : List Serializer} {path : String}
  {op : Operation}
variable {p : Pointer} {type : FieldType} {ref : Option SerializerRef} {many : Bool}
  {P : Error → Prop}

-- Uses of schemas

-- A use that goes together with its type: the serializer is that of the object, or of the objects
-- in an array, and there is none in any other case.
inductive Fits (serializers : List Serializer) : FieldType → Option SerializerRef → Bool → Prop
  | one {key s} :
    Serializer.find? serializers key = some s →
      Fits serializers (.object key) (some ⟨key, s.className⟩) false
  | list {key s} :
    Serializer.find? serializers key = some s →
      Fits serializers (.array (.object key)) (some ⟨key, s.className⟩) true
  | none {t} : t.usage? = none → Fits serializers t none false

theorem Fits.exists_find? {ref : SerializerRef} (h : Fits serializers type (some ref) many) :
    ∃ s, Serializer.find? serializers ref.schema = some s ∧ s.className = ref.className := by
  cases h
  case one hs  => exact ⟨_, hs, rfl⟩
  case list hs => exact ⟨_, hs, rfl⟩

theorem serializerRef_eq_ok {key : Pointer} {ref : SerializerRef} :
    serializerRef serializers key = .ok ref ↔
      ∃ s, Serializer.find? serializers key = some s ∧ ref = ⟨key, s.className⟩ := by
  simp only [serializerRef]
  cases Serializer.find? serializers key <;> simp [eq_comm]

theorem schemaUse_eq_ok (h : schemaUse r serializers p = .ok (type, ref, many)) :
    r.fieldType p = .ok type ∧ Fits serializers type ref many := by
  have ⟨_, ht, h⟩ := bind_eq_ok.mp h
  rw [Resolution.usage?_eq_of_fieldType ht] at h
  split at h
  case h_1 hu => cases pure_eq_ok.mp h; exact ⟨ht, .none hu⟩
  case h_2 hu =>
    have ⟨_, hr, h⟩ := bind_eq_ok.mp h
    cases pure_eq_ok.mp h
    have ⟨s, hs, he⟩ := serializerRef_eq_ok.mp hr
    subst he
    simp only [FieldType.usage?] at hu
    split at hu <;> cases hu
    · exact ⟨ht, .one hs⟩
    · exact ⟨ht, .list hs⟩

theorem failsWith_schemaUse {P : Error → Prop} (hc : ∀ chain, P (.cycle chain))
    (hn : ∀ node, P (.notLoaded node)) (hb : ∀ schema, P (.notBuilt schema)) (p : Pointer) :
    (schemaUse r serializers p).FailsWith P := by
  refine .bind (r.failsWith_fieldTypeFrom hc hn _ _ _) fun _ _ => ?_
  split
  case h_1 => exact .pure _
  case h_2 =>
    refine .bind ?_ fun _ _ => .pure _
    simp only [serializerRef]
    split
    · exact .ok _
    · exact .error (hb _)

-- Arguments

theorem failsWith_plainType (hi : ∀ node problem, P (.invalid node problem)) (node : Pointer)
    (object : ParameterObject) :
    (plainType node object).FailsWith P := by
  simp only [plainType]
  split
  case h_1 => exact .error (hi _ _)
  case h_2 => exact .error (hi _ _)
  all_goals
    refine .bind ?_ fun _ _ => .pure _
    split
    · exact .ok _
    · exact .error (hi _ _)

theorem innermost?_of_plainType {node : Pointer} {object : ParameterObject}
    (h : plainType node object = .ok type) :
    type.innermost? = none := by
  simp only [plainType] at h
  split at h
  · cases h
  · cases h
  · have ⟨_, _, h⟩ := bind_eq_ok.mp h
    cases pure_eq_ok.mp h
    rfl
  · have ⟨_, _, h⟩ := bind_eq_ok.mp h
    cases pure_eq_ok.mp h
    rfl

theorem argument_eq_ok {q : Parameter} {a : Argument} (h : argument ids r q = .ok a) :
    a.name = q.object.name ∧ a.identifier = ids.snake q.object.name ∧ a.location = q.location ∧
      parameterType r q = .ok a.type := by
  have ⟨_, ht, h⟩ := bind_eq_ok.mp h
  cases pure_eq_ok.mp h
  exact ⟨rfl, rfl, rfl, ht⟩

variable {operation : Pointer} {seen : List (String × String)} {parameters : List Parameter}
  {arguments : List Argument} {a : Argument}

-- The identifiers of the parameters in the path.
def pathIdentifiers (ids : Identifiers) (parameters : List Parameter) : List String :=
  (parameters.filter (·.location = .path)).map (ids.snake ·.object.name)

-- What they are noted as for the parameters after them: identifiers, with the names.
def signature (ids : Identifiers) (parameters : List Parameter) : List (String × String) :=
  (parameters.filter (·.location = .path)).map fun q => (ids.snake q.object.name, q.object.name)

theorem names_signature (ids : Identifiers) (parameters : List Parameter) :
    (signature ids parameters).map (·.1) = pathIdentifiers ids parameters := by
  simp [signature, pathIdentifiers]

theorem pathIdentifiers_append (ids : Identifiers) (parameters parameters' : List Parameter) :
    pathIdentifiers ids (parameters ++ parameters') =
      pathIdentifiers ids parameters ++ pathIdentifiers ids parameters' := by
  simp [pathIdentifiers]

theorem signature_append (ids : Identifiers) (parameters parameters' : List Parameter) :
    signature ids (parameters ++ parameters') =
      signature ids parameters ++ signature ids parameters' := by
  simp [signature]

-- A parameter in the path is refused if its identifier was noted, and no other one is.

theorem taken_or_free (ids : Identifiers) (seen : List (String × String)) (q : Parameter) :
    (∃ other, q.location = .path ∧ seen.lookup (ids.snake q.object.name) = some other) ∨
      (q.location = .path → seen.lookup (ids.snake q.object.name) = none) := by
  cases seen.lookup (ids.snake q.object.name)
  case none       => exact .inr fun _ => rfl
  case some other =>
    by_cases hl : q.location = .path
    case pos => exact .inl ⟨other, hl, rfl⟩
    case neg => exact .inr fun h => absurd h hl

theorem argumentsFrom_cons_of_taken {q : Parameter} {other : String} (hl : q.location = .path)
    (ht : seen.lookup (ids.snake q.object.name) = some other) :
    argumentsFrom ids r operation seen (q :: parameters) =
      .error (.duplicateParameter (other ++ " / " ++ q.object.name) operation) := by
  rw [argumentsFrom, hl, ht]

theorem argumentsFrom_cons_of_free {q : Parameter}
    (hf : q.location = .path → seen.lookup (ids.snake q.object.name) = none) :
    argumentsFrom ids r operation seen (q :: parameters) = (do
      let first ← argument ids r q
      let others ← argumentsFrom ids r operation (seen ++ signature ids [q]) parameters
      return first :: others) := by
  by_cases hl : q.location = .path
  case pos => simp only [argumentsFrom, hl, hf hl, signature, List.filter_cons, decide_true,
    if_true, List.filter_nil, List.map_cons, List.map_nil]
  case neg => simp [argumentsFrom, hl, signature]

-- Arguments are made of the parameters one by one, unless two in the path have one identifier.
theorem argumentsFrom_eq_ok_iff (hn : (seen.map (·.1)).Nodup) :
    argumentsFrom ids r operation seen parameters = .ok arguments ↔
      (seen.map (·.1) ++ pathIdentifiers ids parameters).Nodup ∧
        parameters.mapM (argument ids r) = .ok arguments := by
  induction parameters generalizing seen arguments
  case nil => simp [argumentsFrom, pathIdentifiers, pure_eq_ok, hn]
  case cons q parameters hi =>
    obtain ⟨other, hl, ht⟩ | hf := taken_or_free ids seen q
    case inl =>
      rw [argumentsFrom_cons_of_taken hl ht]
      refine ⟨nofun, fun ⟨hnodup, _⟩ => ?_⟩
      have hm : ids.snake q.object.name ∈ seen.map (·.1) :=
        List.mem_map.mpr ⟨_, mem_of_lookup ht, rfl⟩
      have hq : ids.snake q.object.name ∈ pathIdentifiers ids (q :: parameters) := by
        simp [pathIdentifiers, hl]
      exact absurd hq ((List.nodup_append'.mp hnodup).right.right hm)
    case inr =>
      have hn' : ((seen ++ signature ids [q]).map (·.1)).Nodup := by
        by_cases hl : q.location = .path
        case neg => simpa [signature, hl] using hn
        case pos =>
          have hq := List.nodup_cons.mpr ⟨not_mem_of_lookup_eq_none (hf hl), hn⟩
          simpa [signature, hl] using List.nodup_append_comm.mp (List.singleton_append ▸ hq)
      have he : seen.map (·.1) ++ pathIdentifiers ids (q :: parameters) =
          (seen ++ signature ids [q]).map (·.1) ++ pathIdentifiers ids parameters := by
        rw [← List.singleton_append, pathIdentifiers_append, List.map_append, names_signature,
          List.append_assoc]
      rw [argumentsFrom_cons_of_free hf, he, List.mapM_cons]
      simp only [bind_eq_ok, hi hn', pure_eq_ok]
      grind

theorem argumentsFrom_eq_ok :
    argumentsFrom ids r operation [] parameters = .ok arguments ↔
      (pathIdentifiers ids parameters).Nodup ∧ parameters.mapM (argument ids r) = .ok arguments :=
  argumentsFrom_eq_ok_iff List.nodup_nil

theorem type_of_mem_argumentsFrom
    (h : argumentsFrom ids r operation [] parameters = .ok arguments) (ha : a ∈ arguments) :
    ∃ q ∈ parameters, parameterType r q = .ok a.type := by
  have ⟨q, hq, ha⟩ := mem_of_mapM_eq_ok (argumentsFrom_eq_ok.mp h).right ha
  exact ⟨q, hq, (argument_eq_ok ha).right.right.right⟩

-- The arguments in the path are those of the parameters in the path, in order.
theorem map_path_of_argumentsFrom {γ : Type} {f : Argument → γ} {f' : Parameter → γ}
    (h : argumentsFrom ids r operation [] parameters = .ok arguments)
    (hf : ∀ q a, argument ids r q = .ok a → f a = f' q) :
    (arguments.filter (·.location = .path)).map f =
      (parameters.filter (·.location = .path)).map f' := by
  have hm : arguments.map (fun a => (a.location, f a)) =
      parameters.map fun q => (q.location, f' q) :=
    map_eq_of_mapM_eq_ok (argumentsFrom_eq_ok.mp h).right fun q a ha => by
      obtain ⟨_, _, hl, _⟩ := argument_eq_ok ha
      rw [hl, hf q a ha]
  have hm := congrArg (fun l => (l.filter (·.1 = Location.path)).map (·.2)) hm
  simpa only [List.filter_map, List.map_map, Function.comp_def] using hm

theorem identifiers_of_argumentsFrom
    (h : argumentsFrom ids r operation [] parameters = .ok arguments) :
    (arguments.filter (·.location = .path)).map (·.identifier) = pathIdentifiers ids parameters :=
  map_path_of_argumentsFrom h fun _ _ ha => (argument_eq_ok ha).right.left

-- The object at the core of an argument's type is that of a schema that a parameter declares.
theorem innermost?_of_mem_argumentsFrom {key : Pointer}
    (h : argumentsFrom ids r operation [] parameters = .ok arguments) (ha : a ∈ arguments)
    (hk : a.type.innermost? = some key) :
    ∃ p ∈ parameters.filterMap (·.schema), r.fieldType p = .ok a.type := by
  have ⟨q, hq, ht⟩ := type_of_mem_argumentsFrom h ha
  simp only [parameterType] at ht
  split at ht
  case h_1 schema hs => exact ⟨schema, List.mem_filterMap.mpr ⟨q, hq, hs⟩, ht⟩
  case h_2           => cases (innermost?_of_plainType ht).symm.trans hk

theorem failsWith_parameterType {q : Parameter} (hi : ∀ node problem, P (.invalid node problem))
    (h : ∀ p, q.schema = some p → (r.fieldType p).FailsWith P) :
    (parameterType r q).FailsWith P := by
  simp only [parameterType]
  split
  case h_1 schema hs => exact h schema hs
  case h_2           => exact failsWith_plainType hi _ _

theorem failsWith_argumentsFrom (hi : ∀ node problem, P (.invalid node problem))
    (hd : ∀ name, P (.duplicateParameter name operation))
    (h : ∀ p ∈ parameters.filterMap (·.schema), (r.fieldType p).FailsWith P) :
    (argumentsFrom ids r operation seen parameters).FailsWith P := by
  induction parameters generalizing seen
  case nil => exact .ok _
  case cons q parameters ih =>
    have ht : (parameterType r q).FailsWith P := failsWith_parameterType hi fun p hs =>
      h p (List.mem_filterMap.mpr ⟨q, List.mem_cons_self, hs⟩)
    have hp : ∀ p ∈ parameters.filterMap (·.schema), (r.fieldType p).FailsWith P :=
      fun p hp => h p ((List.Sublist.filterMap _ (List.sublist_cons_self ..)).subset hp)
    rw [argumentsFrom]
    split
    case h_1 => exact .error (hd _)
    case h_2 =>
      exact .bind (.bind ht fun _ _ => .pure _) fun _ _ => .bind (ih hp) fun _ _ => .pure _

theorem failsWith_matchPath (hr : ∀ name, P (.repeatedPlaceholder path name))
    (hm : ∀ missing undeclared, P (.parameterMismatch path operation missing undeclared)) :
    (matchPath path operation arguments).FailsWith P := by
  refine .bind (Template.failsWith_parse hr) fun _ _ => ?_
  dsimp only
  split
  · exact .ok _
  · exact .error (hm _ _)

-- The verb of an operation

-- The schema of the response that tells what an operation returns.
def responseSite? (op : Operation) : Option Pointer :=
  (SuccessStatus.select? (·.status) op.responses).bind (·.schema)

def bodySite? (op : Operation) : Option Pointer :=
  op.body.bind (·.schema)

def responseUse (r : Resolution) (serializers : List Serializer) (op : Operation) :
    Result (Option FieldType × Option SerializerRef × Bool) :=
  match responseSite? op with
  | none      => pure (none, none, false)
  | some site => do
    let (type, serializer, many) ← schemaUse r serializers site
    pure (some type, serializer, many)

-- What a verb says apart from the schemas that its operation uses.
def outline (ids : Identifiers) (path : String) (op : Operation) : Verb where
  method         := op.method
  functionName   := nameFor ids path op
  operationId    := op.object.operationId
  location       := op.node
  summary        := op.object.summary
  description    := op.object.description
  tags           := op.object.tags
  deprecated     := op.object.deprecated
  arguments      := []
  body           := none
  responseStatus := (SuccessStatus.select? (·.status) op.responses).map (·.status)
  responseType   := none
  serializer     := none
  many           := false
  standalone     := op.object.standalone

-- The verb of an operation whose function name is free.
def describe (ids : Identifiers) (r : Resolution) (serializers : List Serializer) (path : String)
    (op : Operation) :
    Result Verb := do
  let arguments ← argumentsFrom ids r op.node [] op.parameters
  matchPath path op.node arguments
  let body ← bodyUse r serializers op.body
  let (responseType, serializer, many) ← responseUse r serializers op
  return { outline ids path op with arguments, body, responseType, serializer, many }

theorem ofOperation_eq (functions : Namespace) :
    ofOperation ids r serializers path functions op = (do
      let (_, functions) ← functions.claim (nameFor ids path op) op.node
      return (← describe ids r serializers path op, functions)) := by
  simp only [ofOperation, describe, responseUse, Namespace.claim]
  cases hs : responseSite? op <;> simp only [responseSite?] at hs <;>
    cases functions.claimed.lookup (nameFor ids path op) <;> simp [hs, outline]

theorem describe_eq_ok {v : Verb} :
    describe ids r serializers path op = .ok v ↔
      argumentsFrom ids r op.node [] op.parameters = .ok v.arguments ∧
      matchPath path op.node v.arguments = .ok () ∧
      bodyUse r serializers op.body = .ok v.body ∧
      responseUse r serializers op = .ok (v.responseType, v.serializer, v.many) ∧
      v = { outline ids path op with
        arguments := v.arguments, body := v.body, responseType := v.responseType,
        serializer := v.serializer, many := v.many } := by
  simp only [describe, bind_eq_ok, pure_eq_ok]
  constructor
  case mp  => rintro ⟨_, ha, _, hp, _, hb, _, hr, rfl⟩; exact ⟨ha, hp, hb, hr, rfl⟩
  case mpr => rintro ⟨ha, hp, hb, hr, he⟩; exact ⟨_, ha, _, hp, _, hb, _, hr, he.symm⟩

theorem functionName_of_describe {v : Verb} (h : describe ids r serializers path op = .ok v) :
    v.functionName = nameFor ids path op := by
  have ⟨_, _, _, _, he⟩ := describe_eq_ok.mp h
  rw [he]
  rfl

theorem method_of_describe {v : Verb} (h : describe ids r serializers path op = .ok v) :
    v.method = op.method := by
  have ⟨_, _, _, _, he⟩ := describe_eq_ok.mp h
  rw [he]
  rfl

theorem mem_schemaSites_of_bodySite? (h : bodySite? op = some p) : p ∈ op.schemaSites :=
  List.mem_append_left _ <| List.mem_append_right _ <| Option.mem_toList.mpr h

theorem mem_schemaSites_of_responseSite? (h : responseSite? op = some p) : p ∈ op.schemaSites := by
  have ⟨response, hs, hp⟩ := Option.bind_eq_some_iff.mp h
  exact List.mem_append_right _ <|
    List.mem_filterMap.mpr ⟨response, SuccessStatus.mem_of_select? hs, hp⟩

theorem bodyUse_eq_ok {b : BodyUse} (h : bodyUse r serializers op.body = .ok (some b)) :
    ∃ site, bodySite? op = some site ∧
      schemaUse r serializers site = .ok (b.type, b.serializer, b.many) := by
  simp only [bodyUse] at h
  split at h
  case h_1 => cases h
  case h_2 body hb =>
    split at h
    case h_1 => cases h
    case h_2 site hs =>
      have ⟨_, hu, h⟩ := bind_eq_ok.mp h
      cases pure_eq_ok.mp h
      exact ⟨site, by simp [bodySite?, hb, hs], hu⟩

theorem exists_body_of_bodySite? {body : Option BodyUse} (hs : bodySite? op = some p)
    (h : bodyUse r serializers op.body = .ok body) : ∃ b, body = some b := by
  have ⟨declared, hb, hp⟩ := Option.bind_eq_some_iff.mp hs
  simp only [bodyUse, hb, hp] at h
  have ⟨_, _, h⟩ := bind_eq_ok.mp h
  exact ⟨_, (pure_eq_ok.mp h).symm⟩

theorem responseUse_eq_ok {type : Option FieldType}
    (h : responseUse r serializers op = .ok (type, ref, many)) :
    (responseSite? op = none ∧ type = none ∧ ref = none ∧ many = false) ∨
    (∃ site t, responseSite? op = some site ∧ type = some t ∧
      schemaUse r serializers site = .ok (t, ref, many)) := by
  simp only [responseUse] at h
  split at h
  case h_1 hs => cases pure_eq_ok.mp h; exact .inl ⟨hs, rfl, rfl, rfl⟩
  case h_2 site hs =>
    have ⟨⟨t, _, _⟩, hu, h⟩ := bind_eq_ok.mp h
    cases pure_eq_ok.mp h
    exact .inr ⟨site, t, hs, rfl, hu⟩

theorem failsWith_bodyUse (h : ∀ p ∈ op.schemaSites, (schemaUse r serializers p).FailsWith P) :
    (bodyUse r serializers op.body).FailsWith P := by
  simp only [bodyUse]
  split
  case h_1 => exact .ok _
  case h_2 hb =>
    split
    case h_1 => exact .ok _
    case h_2 site hs =>
      have hp : bodySite? op = some site := by rw [bodySite?, hb, Option.bind_some, hs]
      exact .bind (h _ (mem_schemaSites_of_bodySite? hp)) fun _ _ => .pure _

theorem failsWith_responseUse
    (h : ∀ p ∈ op.schemaSites, (schemaUse r serializers p).FailsWith P) :
    (responseUse r serializers op).FailsWith P := by
  simp only [responseUse]
  split
  case h_1    => exact .pure _
  case h_2 hs => exact .bind (h _ (mem_schemaSites_of_responseSite? hs)) fun _ _ => .pure _

-- A verb shows of a resolution what it says of the schemas that the operation declares.

theorem argumentsFrom_congr {r' : Resolution}
    (h : ∀ p ∈ parameters.filterMap (·.schema), r.AgreeAt r' p) :
    argumentsFrom ids r operation seen parameters =
      argumentsFrom ids r' operation seen parameters := by
  induction parameters generalizing seen
  case nil => rfl
  case cons q parameters hi =>
    have hq : ∀ p ∈ parameters.filterMap (·.schema), r.AgreeAt r' p :=
      fun p hp => h p ((List.Sublist.filterMap _ (List.sublist_cons_self ..)).subset hp)
    have ha : argument ids r q = argument ids r' q := by
      simp only [argument, parameterType]
      cases hs : q.schema
      case none => rfl
      case some site =>
        have hp := h site (List.mem_filterMap.mpr ⟨q, List.mem_cons_self, hs⟩)
        simp only [hp.fieldType, Option.bind_some, hp.description?_eq]
    simp only [argumentsFrom, ha, hi hq]

theorem schemaUse_congr {r' : Resolution} (h : r.AgreeAt r' p) :
    schemaUse r serializers p = schemaUse r' serializers p := by
  simp only [schemaUse, h.fieldType, h.usage?]

theorem describe_congr {r' : Resolution} (h : ∀ p ∈ op.schemaSites, r.AgreeAt r' p) :
    describe ids r serializers path op = describe ids r' serializers path op := by
  have ha : argumentsFrom ids r op.node [] op.parameters =
      argumentsFrom ids r' op.node [] op.parameters :=
    argumentsFrom_congr fun p hp => h p (List.mem_append_left _ (List.mem_append_left _ hp))
  have hb : bodyUse r serializers op.body = bodyUse r' serializers op.body := by
    simp only [bodyUse]
    split
    case h_1 => rfl
    case h_2 hb =>
      split
      case h_1 => rfl
      case h_2 site hs =>
        have hp : bodySite? op = some site := by rw [bodySite?, hb, Option.bind_some, hs]
        rw [schemaUse_congr (h _ (mem_schemaSites_of_bodySite? hp))]
  have hr : responseUse r serializers op = responseUse r' serializers op := by
    simp only [responseUse]
    split
    case h_1    => rfl
    case h_2 hs => rw [schemaUse_congr (h _ (mem_schemaSites_of_responseSite? hs))]
  simp only [describe, ha, hb, hr]

-- The schema at a site can be used: it has a type or a fault of its own, and its serializer was
-- built.
structure Usable (r : Resolution) (serializers : List Serializer) (site : Pointer) : Prop where
  type       : (r.fieldType site).Specific
  serializer : ∀ usage, r.usage? site = some usage →
    ∃ s, Serializer.find? serializers usage.schema = some s

theorem Usable.specific_schemaUse (h : Usable r serializers p) :
    (schemaUse r serializers p).Specific := by
  refine .bind h.type fun _ _ => ?_
  split
  case h_1 => exact .pure _
  case h_2 hu =>
    have ⟨_, hf⟩ := h.serializer _ hu
    exact .bind (by simpa [serializerRef, hf] using .ok _) fun _ _ => .pure _

theorem failsWith_describe
    (ha : (argumentsFrom ids r op.node [] op.parameters).FailsWith P)
    (hm : ∀ arguments, argumentsFrom ids r op.node [] op.parameters = .ok arguments →
      (matchPath path op.node arguments).FailsWith P)
    (hs : ∀ p ∈ op.schemaSites, (schemaUse r serializers p).FailsWith P) :
    (describe ids r serializers path op).FailsWith P :=
  .bind ha fun arguments h => .bind (hm arguments h) fun _ _ =>
    .bind (failsWith_bodyUse hs) fun _ _ => .bind (failsWith_responseUse hs) fun _ _ => .pure _

theorem specific_describe (h : ∀ p ∈ op.schemaSites, Usable r serializers p) :
    (describe ids r serializers path op).Specific := by
  have hp : ∀ p ∈ op.parameters.filterMap (·.schema), (r.fieldType p).Specific :=
    fun p hp => (h p (List.mem_append_left _ (List.mem_append_left _ hp))).type
  exact failsWith_describe (failsWith_argumentsFrom (fun _ _ => rfl) (fun _ => rfl) hp)
    (fun _ _ => failsWith_matchPath (fun _ => rfl) fun _ _ => rfl)
    fun p hp => (h p hp).specific_schemaUse

end Verb

namespace PathVerbs

variable {ids : Identifiers} {r : Resolution} {serializers : List Serializer} {path : String}
variable {functions functions' : Namespace} {operations : List Operation} {entries : List PathEntry}

theorem verbsFrom_cons {op : Operation} :
    verbsFrom ids r serializers path functions (op :: operations) = (do
      let (_, functions) ← functions.claim (Verb.nameFor ids path op) op.node
      let verb ← Verb.describe ids r serializers path op
      let (others, functions) ← verbsFrom ids r serializers path functions operations
      return (verb :: others, functions)) := by
  simp [verbsFrom, Verb.ofOperation_eq]

-- Verbs are built for operations one by one; their names must be free and differ.
theorem verbsFrom_eq_ok {verbs : List Verb}
    (h : verbsFrom ids r serializers path functions operations = .ok (verbs, functions')) :
    operations.mapM (Verb.describe ids r serializers path) = .ok verbs ∧
      functions.Free (operations.map (Verb.nameFor ids path)) ∧
      functions.Extends (operations.map (Verb.nameFor ids path)) functions' := by
  induction operations generalizing functions verbs
  case nil => cases h; exact ⟨rfl, Namespace.free_nil _, Namespace.extends_nil _⟩
  case cons op operations hi =>
    rw [verbsFrom_cons] at h
    have ⟨_, hc, h⟩ := bind_eq_ok.mp h
    have ⟨verb, hv, h⟩ := bind_eq_ok.mp h
    have ⟨⟨others, _⟩, ho, h⟩ := bind_eq_ok.mp h
    cases pure_eq_ok.mp h
    have ⟨hn, _, he⟩ := Namespace.claim_eq_ok.mp hc
    rw [he] at ho
    have ⟨hm, hf, he⟩ := hi ho
    exact ⟨mapM_eq_ok.mpr (.cons hv (mapM_eq_ok.mp hm)), (Namespace.free_cons op.node).mpr ⟨hn, hf⟩,
      he.cons⟩

theorem exists_verbsFrom_eq_ok {verbs : List Verb}
    (hf : functions.Free (operations.map (Verb.nameFor ids path)))
    (hm : operations.mapM (Verb.describe ids r serializers path) = .ok verbs) :
    ∃ functions',
      verbsFrom ids r serializers path functions operations = .ok (verbs, functions') := by
  induction operations generalizing functions verbs
  case nil => cases hm; exact ⟨_, rfl⟩
  case cons op operations hi =>
    cases mapM_eq_ok.mp hm
    case cons hv hr =>
      have ⟨hn, hf⟩ := (Namespace.free_cons op.node).mp hf
      have ⟨functions', ho⟩ := hi hf (mapM_eq_ok.mpr hr)
      refine ⟨functions', ?_⟩
      rw [verbsFrom_cons]
      exact bind_eq_ok.mpr ⟨_, Namespace.claim_eq_ok.mpr ⟨hn, rfl, rfl⟩,
        bind_eq_ok.mpr ⟨_, hv, bind_eq_ok.mpr ⟨_, ho, rfl⟩⟩⟩

-- The function names that the operations of a path claim.
def claims (ids : Identifiers) (path : String) (operations : List Operation) :
    List (String × Pointer) :=
  operations.map fun op => (Verb.nameFor ids path op, op.node)

-- What else can be wrong with the verbs of a path is a function name that is claimed already.
theorem verbsFrom_eq_error {e : Error}
    (h : verbsFrom ids r serializers path functions operations = .error e) :
    (∃ op ∈ operations, Verb.describe ids r serializers path op = .error e) ∨
      ∃ name first second, e = .duplicateName functions.kind name first second ∧
        Refuses functions.claimed (claims ids path operations) name first second := by
  induction operations generalizing functions
  case nil => cases h
  case cons op operations hi =>
    rw [verbsFrom_cons] at h
    obtain h | ⟨⟨_, _⟩, hc, h⟩ := bind_eq_error.mp h
    case inl =>
      obtain ⟨first, hf, he⟩ := Namespace.claim_eq_error.mp h
      exact .inr ⟨_, first, _, he, .head hf⟩
    case inr =>
      obtain ⟨_, _, rfl⟩ := Namespace.claim_eq_ok.mp hc
      obtain h | ⟨_, _, h⟩ := bind_eq_error.mp h
      case inl => exact .inl ⟨op, List.mem_cons_self, h⟩
      case inr =>
        obtain h | ⟨_, _, h⟩ := bind_eq_error.mp h
        case inr => cases h
        case inl =>
          obtain ⟨op, ho, hd⟩ | ⟨name, first, second, he, hr⟩ := hi h
          case inl => exact .inl ⟨op, List.mem_cons_of_mem _ ho, hd⟩
          case inr => exact .inr ⟨name, first, second, he, hr.cons Namespace.lookup_add_eq_some⟩

theorem addAll_of_verbsFrom {verbs : List Verb}
    (h : verbsFrom ids r serializers path functions operations = .ok (verbs, functions')) :
    functions' = functions.addAll (claims ids path operations) := by
  induction operations generalizing functions verbs
  case nil => cases h; rfl
  case cons op operations hi =>
    rw [verbsFrom_cons] at h
    obtain ⟨⟨_, _⟩, hc, h⟩ := bind_eq_ok.mp h
    obtain ⟨_, _, h⟩ := bind_eq_ok.mp h
    obtain ⟨⟨_, _⟩, ho, h⟩ := bind_eq_ok.mp h
    cases pure_eq_ok.mp h
    obtain ⟨_, _, rfl⟩ := Namespace.claim_eq_ok.mp hc
    exact hi ho

-- The verbs of a path whose function names are free.
def describe (ids : Identifiers) (r : Resolution) (serializers : List Serializer)
    (entry : PathEntry) :
    Result PathVerbs := do
  let verbs ← entry.operations.mapM (Verb.describe ids r serializers entry.template)
  return { path := entry.template, node := entry.node, verbs }

def functionNames (ids : Identifiers) (entries : List PathEntry) : List String :=
  entries.flatMap fun entry => entry.operations.map (Verb.nameFor ids entry.template)

theorem ofEntries_eq_ok {all : List PathVerbs}
    (h : ofEntries ids r serializers functions entries = .ok (all, functions')) :
    entries.mapM (describe ids r serializers) = .ok all ∧
      functions.Free (functionNames ids entries) := by
  induction entries generalizing functions all
  case nil => cases h; exact ⟨rfl, Namespace.free_nil _⟩
  case cons entry entries hi =>
    have ⟨⟨verbs, _⟩, hv, h⟩ := bind_eq_ok.mp h
    have ⟨⟨others, _⟩, ho, h⟩ := bind_eq_ok.mp h
    cases pure_eq_ok.mp h
    have ⟨hv, hf, he⟩ := verbsFrom_eq_ok hv
    have ⟨ho, hf'⟩ := hi ho
    have hd :
        describe ids r serializers entry =
          .ok { path := entry.template, node := entry.node, verbs } :=
      bind_eq_ok.mpr ⟨verbs, hv, rfl⟩
    exact ⟨mapM_eq_ok.mpr (.cons hd (mapM_eq_ok.mp ho)), he.free_append_iff.mpr ⟨hf, hf'⟩⟩

-- A verb was built for an operation of its path.
theorem exists_operation_of_mem_verbs {all : List PathVerbs} {entry : PathVerbs} {v : Verb}
    (h : ofEntries ids r serializers functions entries = .ok (all, functions'))
    (he : entry ∈ all) (hv : v ∈ entry.verbs) :
    ∃ declared ∈ entries, ∃ op ∈ declared.operations, entry.path = declared.template ∧
      Verb.describe ids r serializers declared.template op = .ok v := by
  have ⟨declared, hd, he⟩ := mem_of_mapM_eq_ok (ofEntries_eq_ok h).left he
  have ⟨verbs, hm, he⟩ := bind_eq_ok.mp he
  cases pure_eq_ok.mp he
  have ⟨op, ho, hv⟩ := mem_of_mapM_eq_ok hm hv
  exact ⟨declared, hd, op, ho, rfl, hv⟩

theorem exists_ofEntries_eq_ok {all : List PathVerbs}
    (hf : functions.Free (functionNames ids entries))
    (hm : entries.mapM (describe ids r serializers) = .ok all) :
    ∃ functions', ofEntries ids r serializers functions entries = .ok (all, functions') := by
  induction entries generalizing functions all
  case nil => cases hm; exact ⟨_, rfl⟩
  case cons entry entries hi =>
    cases mapM_eq_ok.mp hm
    case cons hd hr =>
      have ⟨verbs, hv, he⟩ := bind_eq_ok.mp hd
      cases pure_eq_ok.mp he
      have hfree : functions.Free (entry.operations.map (Verb.nameFor ids entry.template)) :=
        ⟨(List.nodup_append'.mp hf.left).left, fun name hn =>
          hf.right name (List.mem_append_left _ hn)⟩
      have ⟨functions', hv⟩ := exists_verbsFrom_eq_ok hfree hv
      have ⟨_, _, he⟩ := verbsFrom_eq_ok hv
      have ⟨functions'', ho⟩ := hi (he.free_append_iff.mp hf).right (mapM_eq_ok.mpr hr)
      exact ⟨functions'', bind_eq_ok.mpr ⟨_, hv, bind_eq_ok.mpr ⟨_, ho, rfl⟩⟩⟩

theorem ofEntries_eq_error {e : Error}
    (h : ofEntries ids r serializers functions entries = .error e) :
    (∃ entry ∈ entries, ∃ op ∈ entry.operations,
      Verb.describe ids r serializers entry.template op = .error e) ∨
      ∃ name first second, e = .duplicateName functions.kind name first second ∧
        Refuses functions.claimed
          (entries.flatMap fun entry => claims ids entry.template entry.operations)
          name first second := by
  induction entries generalizing functions
  case nil => cases h
  case cons entry entries hi =>
    rw [List.flatMap_cons]
    obtain h | ⟨⟨_, _⟩, hv, h⟩ := bind_eq_error.mp h
    case inl =>
      obtain ⟨op, ho, hd⟩ | ⟨name, first, second, he, hr⟩ := verbsFrom_eq_error h
      case inl => exact .inl ⟨entry, List.mem_cons_self, op, ho, hd⟩
      case inr => exact .inr ⟨name, first, second, he, hr.append_right _⟩
    case inr =>
      cases addAll_of_verbsFrom hv
      obtain h | ⟨_, _, h⟩ := bind_eq_error.mp h
      case inr => cases h
      case inl =>
        obtain ⟨entry, hm, hop⟩ | ⟨name, first, second, he, hr⟩ := hi h
        case inl => exact .inl ⟨entry, List.mem_cons_of_mem _ hm, hop⟩
        case inr =>
          rw [Namespace.kind_addAll] at he
          exact .inr ⟨name, first, second, he, hr.append Namespace.lookup_addAll_eq_some⟩

theorem specific_ofEntries
    (h : ∀ entry ∈ entries, ∀ op ∈ entry.operations,
      ∀ p ∈ op.schemaSites, Verb.Usable r serializers p) :
    (ofEntries ids r serializers functions entries).Specific := by
  intro e he
  obtain ⟨entry, hm, op, ho, hd⟩ | ⟨_, _, _, rfl, _⟩ := ofEntries_eq_error he
  case inl => exact Verb.specific_describe (h entry hm op ho) e hd
  case inr => rfl

theorem verbsFrom_congr {r' : Resolution}
    (h : ∀ op ∈ operations, ∀ p ∈ op.schemaSites, r.AgreeAt r' p) :
    verbsFrom ids r serializers path functions operations =
      verbsFrom ids r' serializers path functions operations := by
  induction operations generalizing functions
  case nil => rfl
  case cons op operations hi =>
    have ⟨ho, h⟩ := List.forall_mem_cons.mp h
    simp only [verbsFrom_cons, Verb.describe_congr ho, hi h]

theorem ofEntries_congr {r' : Resolution}
    (h : ∀ entry ∈ entries, ∀ op ∈ entry.operations, ∀ p ∈ op.schemaSites, r.AgreeAt r' p) :
    ofEntries ids r serializers functions entries =
      ofEntries ids r' serializers functions entries := by
  induction entries generalizing functions
  case nil => rfl
  case cons entry entries hi =>
    have ⟨he, h⟩ := List.forall_mem_cons.mp h
    simp only [ofEntries, verbsFrom_congr he, hi h]

end PathVerbs
end ApiDescriptors
