import ApiDescriptors.Proofs.Inheritance
import ApiDescriptors.Proofs.Registry.Routes

namespace ApiDescriptors

open Result

-- A parameter in the path has the identifier of an earlier one in the path, and those before it
-- have different ones.
structure Operation.Clash (ids : Identifiers) (op : Operation) (before : List Parameter)
    (p q : Parameter) : Prop where
  parameters : ∃ after, op.parameters = before ++ q :: after
  apart      : (Verb.pathIdentifiers ids before).Nodup
  earlier    : p ∈ before ∧ p.location = .path
  later      : q.location = .path
  same       : ids.snake p.object.name = ids.snake q.object.name

namespace Verb

variable {ids : Identifiers} {r : Resolution} {serializers : List Serializer} {path : String}
  {functions : Namespace} {op : Operation}
variable {name other : String} {node operation : Pointer} {seen : List (String × String)}
  {p q : Parameter} {parameters before after : List Parameter} {arguments : List Argument}

theorem mem_signature {identifier : String} : (identifier, name) ∈ signature ids parameters ↔
    ∃ p ∈ parameters, p.location = .path ∧ ids.snake p.object.name = identifier ∧
      p.object.name = name := by
  simp [signature, and_assoc]

theorem argumentsFrom_append (h : argumentsFrom ids r operation seen before = .ok arguments) :
    argumentsFrom ids r operation seen (before ++ parameters) =
      (arguments ++ ·) <$>
        argumentsFrom ids r operation (seen ++ signature ids before) parameters := by
  induction before generalizing seen arguments
  case nil =>
    cases h
    simp [signature]
  case cons q before hi =>
    obtain ⟨other, hl, ht⟩ | hf := taken_or_free ids seen q
    case inl => cases (argumentsFrom_cons_of_taken hl ht).symm.trans h
    case inr =>
      rw [argumentsFrom_cons_of_free hf] at h
      obtain ⟨first, ha, h⟩ := bind_eq_ok.mp h
      obtain ⟨others, ho, h⟩ := bind_eq_ok.mp h
      cases pure_eq_ok.mp h
      have hs : seen ++ signature ids (q :: before) =
          seen ++ signature ids [q] ++ signature ids before := by
        rw [← List.singleton_append, signature_append, List.append_assoc]
      rw [List.cons_append, argumentsFrom_cons_of_free hf, ha, ok_bind, hi ho, hs]
      simp

-- What else can be wrong with a parameter is its type.
theorem argument_ne_duplicate : argument ids r q ≠ .error (.duplicateParameter name node) := by
  have ht : (parameterType r q).FailsWith (· ≠ .duplicateParameter name node) :=
    failsWith_parameterType (fun _ _ => nofun) fun _ _ =>
      r.failsWith_fieldTypeFrom (fun _ => nofun) (fun _ => nofun) _ _ _
  intro h
  exact (ht.bind fun _ _ => .pure _) _ h rfl

-- The parameter that is refused is the first one in the path whose identifier was noted before.
theorem argumentsFrom_eq_duplicate :
    argumentsFrom ids r operation seen parameters = .error (.duplicateParameter name node) ↔
      node = operation ∧ ∃ before q after other, parameters = before ++ q :: after ∧
        (∃ arguments, argumentsFrom ids r operation seen before = .ok arguments) ∧
        q.location = .path ∧
        (seen ++ signature ids before).lookup (ids.snake q.object.name) = some other ∧
        name = other ++ " / " ++ q.object.name := by
  constructor
  case mp =>
    intro h
    induction parameters generalizing seen
    case nil => cases h
    case cons q parameters hi =>
      obtain ⟨other, hl, ht⟩ | hf := taken_or_free ids seen q
      case inl =>
        cases (argumentsFrom_cons_of_taken hl ht).symm.trans h
        have hs : (seen ++ signature ids []).lookup (ids.snake q.object.name) = some other := by
          rwa [signature, List.filter_nil, List.map_nil, List.append_nil]
        exact ⟨rfl, [], q, parameters, other, rfl, ⟨[], rfl⟩, hl, hs, rfl⟩
      case inr =>
        rw [argumentsFrom_cons_of_free hf] at h
        obtain h | ⟨first, hfirst, h⟩ := bind_eq_error.mp h
        case inl => exact absurd h argument_ne_duplicate
        case inr =>
          obtain h | ⟨_, _, h⟩ := bind_eq_error.mp h
          case inr => cases h
          case inl =>
            obtain ⟨he, before, p, after, other, rfl, ⟨arguments, ha⟩, hl, hs, hn⟩ := hi h
            rw [List.append_assoc, ← signature_append] at hs
            refine ⟨he, q :: before, p, after, other, rfl, ⟨first :: arguments, ?_⟩, hl, hs, hn⟩
            rw [argumentsFrom_cons_of_free hf, hfirst, ok_bind, ha]
            rfl
  case mpr =>
    rintro ⟨rfl, before, q, after, other, rfl, ⟨arguments, ha⟩, hl, ht, rfl⟩
    rw [argumentsFrom_append ha, argumentsFrom_cons_of_taken hl ht]
    rfl

-- For an operation, this is the first clash, if the parameters before it have types.
theorem clash_of_argumentsFrom :
    argumentsFrom ids r operation [] op.parameters = .error (.duplicateParameter name node) ↔
      node = operation ∧ ∃ before p q, op.Clash ids before p q ∧
        (∀ b ∈ before, ∃ type, parameterType r b = .ok type) ∧
        name = p.object.name ++ " / " ++ q.object.name := by
  rw [argumentsFrom_eq_duplicate]
  refine and_congr_right fun _ => ?_
  constructor
  case mp =>
    rintro ⟨before, q, after, other, hp, ⟨arguments, ha⟩, hl, ht, rfl⟩
    obtain ⟨hn, hm⟩ := argumentsFrom_eq_ok.mp ha
    obtain ⟨p, hmem, hpath, hsame, rfl⟩ := mem_signature.mp (mem_of_lookup ht)
    refine ⟨before, p, q, ⟨⟨after, hp⟩, hn, ⟨hmem, hpath⟩, hl, hsame⟩, fun b hb => ?_, rfl⟩
    obtain ⟨a, _, hba⟩ := exists_of_mapM_eq_ok hm hb
    exact ⟨a.type, (argument_eq_ok hba).right.right.right⟩
  case mpr =>
    rintro ⟨before, p, q, hc, ht, rfl⟩
    obtain ⟨after, hp⟩ := hc.parameters
    have ha : ∀ b ∈ before, ∃ a, argument ids r b = .ok a := by
      intro b hb
      obtain ⟨type, hb⟩ := ht b hb
      exact ⟨_, bind_eq_ok.mpr ⟨type, hb, rfl⟩⟩
    obtain ⟨arguments, hm⟩ := exists_mapM_eq_ok ha
    have hlookup : (signature ids before).lookup (ids.snake q.object.name) = some p.object.name :=
      lookup_of_mem (names_signature ids before ▸ hc.apart)
        (mem_signature.mpr ⟨p, hc.earlier.left, hc.earlier.right, hc.same, rfl⟩)
    exact ⟨before, q, after, _, hp, ⟨arguments, argumentsFrom_eq_ok.mpr ⟨hc.apart, hm⟩⟩, hc.later,
      hlookup, rfl⟩

theorem describe_eq_duplicate :
    describe ids r serializers path op = .error (.duplicateParameter name node) ↔
      argumentsFrom ids r op.node [] op.parameters = .error (.duplicateParameter name node) := by
  constructor
  case mp =>
    intro h
    obtain h | ⟨arguments, _, h⟩ := bind_eq_error.mp h
    case inl => exact h
    case inr =>
      have hu (p : Pointer) :
          (schemaUse r serializers p).FailsWith (· ≠ .duplicateParameter name node) :=
        failsWith_schemaUse (fun _ => nofun) (fun _ => nofun) (fun _ => nofun) p
      have hm : (matchPath path op.node arguments).FailsWith (· ≠ .duplicateParameter name node) :=
        failsWith_matchPath (fun _ => nofun) fun _ _ => nofun
      refine absurd rfl (FailsWith.bind hm (fun _ _ => ?_) _ h)
      exact .bind (failsWith_bodyUse fun p _ => hu p) fun _ _ =>
        .bind (failsWith_responseUse fun p _ => hu p) fun _ _ => .pure _
  case mpr =>
    intro h
    rw [describe, h, error_bind]

theorem clash_of_ofOperation :
    ofOperation ids r serializers path functions op = .error (.duplicateParameter name node) ↔
      functions.contains (nameFor ids path op) = false ∧ node = op.node ∧
        ∃ before p q, op.Clash ids before p q ∧
          (∀ b ∈ before, ∃ type, parameterType r b = .ok type) ∧
          name = p.object.name ++ " / " ++ q.object.name := by
  rw [← clash_of_argumentsFrom, ← describe_eq_duplicate, ofOperation_eq]
  constructor
  case mp =>
    intro h
    obtain h | ⟨_, hc, h⟩ := bind_eq_error.mp h
    case inl =>
      obtain ⟨_, _, he⟩ := Namespace.claim_eq_error.mp h
      cases he
    case inr =>
      obtain h | ⟨_, _, h⟩ := bind_eq_error.mp h
      case inl => exact ⟨(Namespace.claim_eq_ok.mp hc).left, h⟩
      case inr => cases h
  case mpr =>
    rintro ⟨hf, h⟩
    rw [Namespace.claim_eq_ok.mpr ⟨hf, rfl, rfl⟩, ok_bind, h]
    rfl

-- Where identifiers repeat, a first repetition is found.
theorem exists_clash_iff :
    (∃ before p q, op.Clash ids before p q) ↔ ¬(pathIdentifiers ids op.parameters).Nodup := by
  constructor
  case mp =>
    rintro ⟨before, p, q, hc⟩ hn
    obtain ⟨after, hp⟩ := hc.parameters
    rw [hp, pathIdentifiers_append] at hn
    have hbefore : ids.snake q.object.name ∈ pathIdentifiers ids before :=
      List.mem_map.mpr ⟨p, List.mem_filter.mpr ⟨hc.earlier.left, by simpa using hc.earlier.right⟩,
        hc.same⟩
    have hafter : ids.snake q.object.name ∈ pathIdentifiers ids (q :: after) :=
      List.mem_map.mpr ⟨q, List.mem_filter.mpr ⟨List.mem_cons_self, by simpa using hc.later⟩, rfl⟩
    exact (List.nodup_append'.mp hn).right.right hbefore hafter
  case mpr =>
    suffices h : ∀ parameters after, op.parameters = parameters ++ after →
        ¬(pathIdentifiers ids parameters).Nodup → ∃ before p q, op.Clash ids before p q from
      h op.parameters [] (List.append_nil _).symm
    intro parameters
    induction parameters using List.reverseRecOn
    case nil => exact fun _ _ hn => absurd List.nodup_nil hn
    case append_singleton before q hi =>
      intro after hp hn
      rw [List.append_assoc] at hp
      by_cases hb : (pathIdentifiers ids before).Nodup
      case neg => exact hi _ hp hb
      case pos =>
        by_cases hl : q.location = .path
        case neg =>
          have hq : pathIdentifiers ids [q] = [] := by simp [pathIdentifiers, hl]
          rw [pathIdentifiers_append, hq, List.append_nil] at hn
          exact absurd hb hn
        case pos =>
          have hq : pathIdentifiers ids [q] = [ids.snake q.object.name] := by
            simp [pathIdentifiers, hl]
          rw [pathIdentifiers_append, hq, List.nodup_append_comm, List.singleton_append,
            List.nodup_cons, not_and, not_imp_not] at hn
          obtain ⟨p, hm, hsame⟩ := List.mem_map.mp (hn hb)
          obtain ⟨hm, hpath⟩ := List.mem_filter.mp hm
          exact ⟨before, p, q, ⟨after, hp⟩, hb, ⟨hm, of_decide_eq_true hpath⟩, hl, hsame⟩

end Verb

namespace Registry

variable {d : Document} {o : Options} {g : Registry} {paths : List PathEntry} {r : Resolution}
  {entries : List PathVerbs}

theorem Stages.apart_of_mem_verbs (h : Stages d o g paths r entries) {v : Verb}
    (hv : v ∈ g.verbs) : (v.pathArguments.map (·.identifier)).Nodup := by
  obtain ⟨entry, he, hv⟩ := h.exists_entry_of_mem_verbs hv
  obtain ⟨declared, _, op, _, hop⟩ := h.describe_of_mem_verbs he hv
  obtain ⟨ha, _⟩ := Verb.describe_eq_ok.mp hop
  rw [Verb.pathArguments, Verb.identifiers_of_argumentsFrom ha]
  exact (Verb.argumentsFrom_eq_ok.mp ha).left

theorem Stages.apart_of_mem_operations (h : Stages d o g paths r entries) {declared : PathEntry}
    {op : Operation} (hd : declared ∈ paths) (ho : op ∈ declared.operations) :
    (Verb.pathIdentifiers o.identifiers op.parameters).Nodup := by
  obtain ⟨v, _, hop⟩ := h.exists_verb_of_mem_operations hd ho
  exact (Verb.argumentsFrom_eq_ok.mp (Verb.describe_eq_ok.mp hop).left).left

-- The arguments in the path of a verb have identifiers of their own. An operation with parameters
-- in its path that would share one has no verb, and the fault found in it, if all before this is
-- in order, is the first clash. Parameters elsewhere are not compared.
theorem apart_of_build (d : Document) (o : Options) :
    (∀ g, build d o = .ok g → ∀ v ∈ g.verbs, (v.pathArguments.map (·.identifier)).Nodup) ∧
    (∀ paths declared op, d.paths = .ok paths → declared ∈ paths → op ∈ declared.operations →
      ¬(Verb.pathIdentifiers o.identifiers op.parameters).Nodup → ∀ g, build d o ≠ .ok g) ∧
    (∀ ids r serializers path functions op,
      functions.contains (Verb.nameFor ids path op) = false →
      (∀ q ∈ op.parameters, ∃ type, Verb.parameterType r q = .ok type) →
      ¬(Verb.pathIdentifiers ids op.parameters).Nodup →
      ∃ name, Verb.ofOperation ids r serializers path functions op =
        .error (.duplicateParameter name op.node)) ∧
    (∀ ids r serializers path functions op name node,
      Verb.ofOperation ids r serializers path functions op =
        .error (.duplicateParameter name node) ↔
      functions.contains (Verb.nameFor ids path op) = false ∧ node = op.node ∧
        ∃ before p q, op.Clash ids before p q ∧
          (∀ b ∈ before, ∃ type, Verb.parameterType r b = .ok type) ∧
          name = p.object.name ++ " / " ++ q.object.name) := by
  refine ⟨?_, ?_, ?_, fun _ _ _ _ _ _ _ _ => Verb.clash_of_ofOperation⟩
  case refine_1 =>
    intro g hg v hv
    obtain ⟨_, _, _, h⟩ := build_eq_ok hg
    exact h.apart_of_mem_verbs hv
  case refine_2 =>
    intro paths declared op hp hd ho hn g hg
    obtain ⟨_, _, _, h⟩ := build_eq_ok hg
    cases hp.symm.trans h.read
    exact hn (h.apart_of_mem_operations hd ho)
  case refine_3 =>
    intro ids r serializers path functions op hf ht hn
    obtain ⟨before, p, q, hc⟩ := Verb.exists_clash_iff.mpr hn
    obtain ⟨after, hp⟩ := hc.parameters
    have hb : ∀ b ∈ before, ∃ type, Verb.parameterType r b = .ok type :=
      fun b hb => ht b (hp ▸ List.mem_append_left _ hb)
    exact ⟨_, Verb.clash_of_ofOperation.mpr ⟨hf, rfl, before, p, q, hc, hb, rfl⟩⟩

-- A document with one operation.
def withOperation (path : String) (parameters : List Yaml.Value) : Yaml.Value := .map [
  (.scalar (.str "swagger"), .scalar (.str "2.0")),
  (.scalar (.str "paths"), .map [(.scalar (.str path), .map [(.scalar (.str "get"), .map [
    (.scalar (.str "parameters"), .seq parameters),
    (.scalar (.str "responses"), .map [])])])])
]

-- One name in two spellings.
def twins : List Yaml.Value :=
  [Document.typed "petId" "path" "integer", Document.typed "pet_id" "path" "integer"]

def withTwins (before : List Yaml.Value) : Yaml.Value :=
  withOperation "/pets/{petId}/{pet_id}" (before ++ twins)

theorem exists_clash_withTwins (before : List Yaml.Value)
    (h : ((Document.readPaths (withTwins before)).toOption.map (·.2.flatMap
      (·.operations.map fun op => Verb.pathIdentifiers (.reserving []) op.parameters))) =
        some [["pet_id", "pet_id"]]) :
    ∃ d paths declared op, Document.ofValue (withTwins before) = .ok d ∧ d.paths = .ok paths ∧
      declared ∈ paths ∧ op ∈ declared.operations ∧
      ¬(Verb.pathIdentifiers (.reserving []) op.parameters).Nodup := by
  obtain ⟨d, paths, hd, hp, hi⟩ := Document.exists_of_readPaths h
  have hm : ["pet_id", "pet_id"] ∈ paths.flatMap
      (·.operations.map fun op => Verb.pathIdentifiers (.reserving []) op.parameters) := by
    rw [hi]
    exact List.mem_cons_self
  obtain ⟨declared, hdeclared, hm⟩ := List.mem_flatMap.mp hm
  obtain ⟨op, ho, he⟩ := List.mem_map.mp hm
  exact ⟨d, paths, declared, op, hd, hp, hdeclared, ho, by rw [he]; decide⟩

-- Two parameters in the path that differ, beside one in the query.
def petTags : Yaml.Value := withOperation "/pets/{petId}/{tag}"
  [Document.typed "petId" "path" "integer", Document.typed "pet_id" "query" "integer",
   Document.typed "tag" "path" "string"]

def spelledTwice : Operation where
  __ := sampleOperation .get "petId" "string"
  parameters := (sampleOperation .get "petId" "string").parameters ++
    (sampleOperation .get "pet_id" "string").parameters

theorem exists_apart_petTags :
    (∃ d g, buildValue petTags {} = .ok (d, g) ∧
      g.verbs.map (·.arguments.map (·.identifier)) = [["pet_id", "pet_id", "tag"]] ∧
      ∀ v ∈ g.verbs, (v.pathArguments.map (·.identifier)).Nodup) ∧
    (∃ d paths declared op, Document.ofValue (withTwins []) = .ok d ∧ d.paths = .ok paths ∧
      declared ∈ paths ∧ op ∈ declared.operations ∧
      ¬(Verb.pathIdentifiers (.reserving []) op.parameters).Nodup ∧ ∀ g, build d {} ≠ .ok g) ∧
    ∃ before p q, spelledTwice.Clash (.reserving []) before p q ∧
      Verb.ofOperation (.reserving []) withoutSchemas [] "/pets" ⟨.ofFunction, []⟩ spelledTwice =
        .error (.duplicateParameter (p.object.name ++ " / " ++ q.object.name) ⟨["get"]⟩) := by
  refine ⟨?_, ?_, ?_⟩
  case refine_1 =>
    have hb : (buildValue petTags {}).toOption.map
        (·.2.verbs.map (·.arguments.map (·.identifier))) = some [["pet_id", "pet_id", "tag"]] := by
      decide +kernel
    obtain ⟨⟨d, g⟩, h, hi⟩ := exists_of_map_toOption_eq_some hb
    exact ⟨d, g, h, hi, (apart_of_build d {}).left g (buildValue_eq_ok h).right⟩
  case refine_2 =>
    obtain ⟨d, paths, declared, op, hd, hp, hdeclared, ho, hn⟩ :=
      exists_clash_withTwins [] (by decide +kernel)
    exact ⟨d, paths, declared, op, hd, hp, hdeclared, ho, hn,
      (apart_of_build d {}).right.left paths declared op hp hdeclared ho hn⟩
  case refine_3 =>
    have ht : ∀ q ∈ spelledTwice.parameters,
        ∃ type, Verb.parameterType withoutSchemas q = .ok type :=
      List.forall_mem_cons.mpr ⟨⟨_, rfl⟩, List.forall_mem_singleton.mpr ⟨_, rfl⟩⟩
    obtain ⟨_, _, hfails, hiff⟩ := apart_of_build sample {}
    obtain ⟨name, he⟩ := hfails (.reserving []) withoutSchemas [] "/pets" ⟨.ofFunction, []⟩
      spelledTwice rfl ht (by decide +kernel)
    obtain ⟨_, _, before, p, q, hc, _, rfl⟩ := (hiff _ _ _ _ _ _ _ _).mp he
    exact ⟨before, p, q, hc, he⟩

-- One name in every location.
def everyLocation : Yaml.Value := withOperation "/pets/{id}" <|
  ["path", "query", "header", "cookie"].map fun location => Document.typed "id" location "integer"

def untyped : Yaml.Value :=
  .map [(.scalar (.str "name"), .scalar (.str "limit")), (.scalar (.str "in"), .scalar (.str "query"))]

def repeatsParameter : Result (Document × Registry) → Bool
  | .error (.duplicateParameter ..) => true
  | _                               => false

theorem not_apart_everyLocation :
    (¬∀ value d o g, Document.ofValue value = .ok d → build d o = .ok g →
      ∀ v ∈ g.verbs, (v.arguments.map (·.identifier)).Nodup) ∧
    ¬∀ value d o paths declared op, Document.ofValue value = .ok d → d.paths = .ok paths →
      declared ∈ paths → op ∈ declared.operations →
      ¬(Verb.pathIdentifiers o.identifiers op.parameters).Nodup →
      ∃ name, build d o = .error (.duplicateParameter name op.node) := by
  constructor
  case left =>
    intro hall
    have hb : (buildValue everyLocation {}).toOption.map
        (·.2.verbs.map (·.arguments.map (·.identifier))) = some [["id", "id", "id", "id"]] := by
      decide +kernel
    obtain ⟨⟨d, g⟩, h, hi⟩ := exists_of_map_toOption_eq_some hb
    obtain ⟨hd, hg⟩ := buildValue_eq_ok h
    have hm : ["id", "id", "id", "id"] ∈ g.verbs.map (·.arguments.map (·.identifier)) := by
      rw [hi]
      exact List.mem_cons_self
    obtain ⟨v, hv, he⟩ := List.mem_map.mp hm
    have hn := hall _ _ _ _ hd hg v hv
    rw [he] at hn
    exact absurd hn (by decide)
  case right =>
    intro hall
    obtain ⟨d, paths, declared, op, hd, hp, hdeclared, ho, hn⟩ :=
      exists_clash_withTwins [untyped] (by decide +kernel)
    obtain ⟨name, he⟩ := hall _ _ {} _ _ _ hd hp hdeclared ho hn
    have hb : repeatsParameter (buildValue (withTwins [untyped]) {}) = false := by decide +kernel
    rw [buildValue, hd, ok_bind, he] at hb
    cases hb

end Registry
end ApiDescriptors
