import ApiDescriptors.Proofs.Endpoint
import ApiDescriptors.Proofs.Template

namespace ApiDescriptors

open Result

-- The type without the formats of its scalars.
def FieldType.withoutFormats : FieldType → FieldType
  | scalar type _ => scalar type none
  | object schema => object schema
  | array items   => array items.withoutFormats

-- Types that differ in nothing but the formats of scalars.
inductive FieldType.Similar : FieldType → FieldType → Prop
  | scalar {type format format'} : Similar (scalar type format) (scalar type format')
  | object {schema} : Similar (object schema) (object schema)
  | array {items items'} : Similar items items' → Similar (array items) (array items')

theorem FieldType.withoutFormats_eq_iff {t t' : FieldType} :
    t.withoutFormats = t'.withoutFormats ↔ t.Similar t' := by
  constructor
  case mp =>
    intro h
    induction t generalizing t' <;> cases t' <;> simp only [withoutFormats] at h
    case scalar.scalar   => cases h; exact .scalar
    case object.object   => cases h; exact .object
    case array.array hi _ => exact .array (hi (array.inj h))
    all_goals cases h
  case mpr =>
    intro h
    induction h
    case scalar   => rfl
    case object   => rfl
    case array hi => rw [withoutFormats, withoutFormats, hi]

theorem FieldType.agrees_iff {t t' : FieldType} : t.agrees t' ↔ t.Similar t' := by
  constructor
  case mp =>
    intro h
    fun_induction agrees t t'
    case case1    => exact of_decide_eq_true h ▸ .scalar
    case case2 hi => exact .array (hi h)
    case case3 t _ =>
      cases of_decide_eq_true h
      exact withoutFormats_eq_iff.mp rfl
  case mpr =>
    intro h
    induction h
    case scalar   => exact decide_eq_true rfl
    case object   => exact decide_eq_true rfl
    case array hi => exact hi

-- The names of the path parameters that an operation declares.
def Operation.pathNames (op : Operation) : List String :=
  (op.parameters.filter (·.location = .path)).map (·.object.name)

namespace Verb

variable {ids : Identifiers} {r : Resolution} {serializers : List Serializer} {path : String}
  {op : Operation} {operation : Pointer} {arguments : List Argument} {v : Verb}

theorem matchPath_eq_ok :
    matchPath path operation arguments = .ok () ↔ ∃ parts, Template.parse path = .ok parts ∧
      ∀ name, name ∈ Template.placeholders parts ↔
        name ∈ (arguments.filter (·.location = .path)).map (·.name) := by
  have hnil (l l' : List String) : (l.filter (· ∉ l')).isEmpty ↔ ∀ name ∈ l, name ∈ l' := by
    simp [List.isEmpty_iff, List.filter_eq_nil_iff]
  rw [matchPath, bind_eq_ok]
  refine exists_congr fun parts => and_congr_right fun _ => ?_
  simp only [iff_def, forall_and, ← hnil, ← Bool.and_eq_true]
  split
  case isTrue h  => exact ⟨fun _ => h, fun _ => rfl⟩
  case isFalse h => exact ⟨nofun, fun he => absurd he h⟩

-- The path arguments of a verb are the placeholders of a path, each of them once.
structure Suits (ids : Identifiers) (path : String) (v : Verb) : Prop where
  placeholders : ∃ parts, Template.parse path = .ok parts ∧
    (v.pathArguments.map (·.name)).Perm (Template.placeholders parts)
  identifiers  : ∀ a ∈ v.pathArguments, a.identifier = ids.snake a.name

theorem suits_of_describe (h : describe ids r serializers path op = .ok v) : v.Suits ids path := by
  have ⟨ha, hm, _⟩ := describe_eq_ok.mp h
  have hid : ∀ a ∈ v.pathArguments, a.identifier = ids.snake a.name := by
    intro a hp
    have ⟨q, _, he⟩ := mem_of_mapM_eq_ok (argumentsFrom_eq_ok.mp ha).right (List.mem_of_mem_filter hp)
    have ⟨hn, hi, _⟩ := argument_eq_ok he
    rw [hi, hn]
  have hnodup : (v.pathArguments.map (·.name)).Nodup := by
    have hn := (argumentsFrom_eq_ok.mp ha).left
    rw [← identifiers_of_argumentsFrom ha, ← pathArguments, List.map_congr_left hid] at hn
    exact .of_map ids.snake (by rwa [List.map_map])
  have ⟨parts, hp, hiff⟩ := matchPath_eq_ok.mp hm
  refine ⟨⟨parts, hp, ?_⟩, hid⟩
  rw [List.perm_ext_iff_of_nodup hnodup (Template.parse_eq_ok.mp hp).right]
  exact fun name => (hiff name).symm

-- Faults of path parameters

theorem names_of_argumentsFrom {parameters : List Parameter}
    (h : argumentsFrom ids r operation [] parameters = .ok arguments) :
    (arguments.filter (·.location = .path)).map (·.name) =
      (parameters.filter (·.location = .path)).map (·.object.name) :=
  map_path_of_argumentsFrom h fun _ _ ha => (argument_eq_ok ha).left

-- What a fault of path parameters says of the operation that was to be built: which placeholders
-- no parameter declares, and which parameters have no placeholder, both in order.
def Mismatched (path : String) (op : Operation) : Error → Prop
  | .parameterMismatch path' node missing undeclared =>
    path' = path ∧ node = op.node ∧ ∃ parts, Template.parse path = .ok parts ∧
      missing = (Template.placeholders parts).filter (· ∉ op.pathNames) ∧
      undeclared = op.pathNames.filter (· ∉ Template.placeholders parts) ∧
      (missing ≠ [] ∨ undeclared ≠ [])
  | _ => True

theorem mismatched_of_matchPath
    (h : (arguments.filter (·.location = .path)).map (·.name) = op.pathNames) :
    (matchPath path op.node arguments).FailsWith (Mismatched path op) := by
  rw [matchPath]
  simp only [h]
  refine .bind (Template.failsWith_parse fun _ => trivial) fun parts hp => ?_
  split
  case isTrue     => exact .ok _
  case isFalse hn =>
    rw [Bool.and_eq_true, not_and_or, List.isEmpty_iff, List.isEmpty_iff] at hn
    exact .error ⟨rfl, rfl, parts, hp, rfl, rfl, hn⟩

theorem mismatched_of_ofOperation (functions : Namespace) :
    (ofOperation ids r serializers path functions op).FailsWith (Mismatched path op) := by
  have hs (p : Pointer) : (schemaUse r serializers p).FailsWith (Mismatched path op) :=
    failsWith_schemaUse (fun _ => trivial) (fun _ => trivial) (fun _ => trivial) p
  have hf (p : Pointer) : (r.fieldType p).FailsWith (Mismatched path op) :=
    r.failsWith_fieldTypeFrom (fun _ => trivial) (fun _ => trivial) _ _ _
  have ha : (argumentsFrom ids r op.node [] op.parameters).FailsWith (Mismatched path op) :=
    failsWith_argumentsFrom (fun _ _ => trivial) (fun _ => trivial) fun p _ => hf p
  rw [ofOperation_eq]
  refine .bind (Namespace.failsWith_claim fun _ => trivial) fun _ _ => .bind ?_ fun _ _ => .pure _
  exact failsWith_describe ha
    (fun _ ha => mismatched_of_matchPath (names_of_argumentsFrom ha)) fun p _ => hs p

end Verb

namespace Route

variable {path name : String} {first : Pointer} {verbs : List Verb} {route : Route}
  {parts : List Template.Part}

-- The part of a template that a segment stands for.
def Segment.part : Segment → Template.Part
  | literal text      => .literal text
  | argument name _ _ => .placeholder name

def write (route : Route) : String :=
  Template.write (route.map (·.part))

def names (route : Route) : List String :=
  Template.placeholders (route.map (·.part))

theorem mem_names (route : Route) (name : String) :
    name ∈ names route ↔ ∃ identifier type, .argument name identifier type ∈ route := by
  simp only [names, Template.placeholders, List.mem_filterMap, List.mem_map]
  constructor
  case mp =>
    rintro ⟨_, ⟨s, hs, rfl⟩, hn⟩
    cases s <;> cases hn
    exact ⟨_, _, hs⟩
  case mpr =>
    rintro ⟨identifier, type, hs⟩
    exact ⟨_, ⟨_, hs, rfl⟩, rfl⟩

theorem mem_declarations {a : Argument} :
    a ∈ declarations verbs name ↔ (∃ v ∈ verbs, a ∈ v.pathArguments) ∧ a.name = name := by
  simp only [declarations, Verb.pathArguments, List.mem_flatMap, List.mem_filter,
    decide_eq_true_eq]
  grind

theorem part_of_segment {part : Template.Part} {s : Segment}
    (h : segment path first verbs part = .ok s) : s.part = part := by
  cases part
  case literal     => cases h; rfl
  case placeholder =>
    rw [segment] at h
    split at h
    case h_1 => cases h
    case h_2 => split at h <;> cases h; rfl

-- A placeholder is typed by one declaration, and the others agree with it.
theorem exists_main_of_segment {part : Template.Part} {identifier : String} {type : FieldType}
    (h : segment path first verbs part = .ok (.argument name identifier type)) :
    ∃ main ∈ declarations verbs name, identifier = main.identifier ∧
      ∀ a ∈ declarations verbs name, a.type.Similar type := by
  cases part_of_segment h
  rw [Segment.part, segment] at h
  split at h
  case h_1 => cases h
  case h_2 main others hd =>
    split at h <;> cases h
    case isFalse ho =>
      rw [hd]
      refine ⟨main, List.mem_cons_self, rfl, List.forall_mem_cons.mpr ⟨?_, fun a ha => ?_⟩⟩
      · exact FieldType.withoutFormats_eq_iff.mp rfl
      · refine FieldType.agrees_iff.mp (by_contra fun hne => ho ?_)
        exact List.any_eq_true.mpr ⟨a, ha, by simpa using hne⟩

theorem segment_eq_error {part : Template.Part} {e : Error}
    (hd : ∀ name, part = .placeholder name → declarations verbs name ≠ [])
    (h : segment path first verbs part = .error e) :
    ∃ name, e = .inconsistentParameter path name := by
  cases part
  case literal          => cases h
  case placeholder name =>
    rw [segment] at h
    split at h
    case h_1 hn => exact absurd hn (hd name rfl)
    case h_2    => split at h <;> cases h; exact ⟨name, rfl⟩

theorem parts_of_ofPath (h : ofPath path first verbs = .ok route) :
    Template.parse path = .ok (route.map (·.part)) := by
  have ⟨parts, hp, h⟩ := bind_eq_ok.mp h
  rw [hp, map_eq_of_mapM_eq_ok h fun _ _ => part_of_segment, List.map_id']

theorem write_of_ofPath (h : ofPath path first verbs = .ok route) : route.write = path :=
  Template.write_of_parse (parts_of_ofPath h)

-- For verbs that suit their path, all that can be wrong is that they disagree about a type.
theorem inconsistent_of_ofPath {ids : Identifiers} {v : Verb} (hv : v ∈ verbs)
    (hs : v.Suits ids path) {e : Error} (h : ofPath path first verbs = .error e) :
    ∃ name, e = .inconsistentParameter path name := by
  obtain ⟨parts, hp, hnames⟩ := hs.placeholders
  rw [ofPath, hp, ok_bind] at h
  obtain ⟨part, hm, h⟩ := mapM_eq_error h
  refine segment_eq_error (fun name hn => ?_) h
  have hname : name ∈ Template.placeholders parts :=
    List.mem_filterMap.mpr ⟨part, hm, by rw [hn]⟩
  obtain ⟨a, ha, he⟩ := List.mem_map.mp (hnames.mem_iff.mpr hname)
  exact List.ne_nil_of_mem (mem_declarations.mpr ⟨⟨v, hv, ha⟩, he⟩)

end Route

-- The route by which a verb is reached is its path, with the types of its path arguments.
structure Handler.Consistent (x : Handler) : Prop where
  path      : x.route.write = x.path
  nodup     : x.route.names.Nodup
  names     : (x.verb.pathArguments.map (·.name)).Perm x.route.names
  arguments : ∀ a ∈ x.verb.pathArguments,
    ∃ type, .argument a.name a.identifier type ∈ x.route ∧ a.type.Similar type

theorem Handler.consistent_of_ofPath {ids : Identifiers} {path : String} {first : Pointer}
    {verbs : List Verb} {route : Route} {v : Verb} (h : Route.ofPath path first verbs = .ok route)
    (hs : ∀ v ∈ verbs, v.Suits ids path) (hv : v ∈ verbs) :
    Consistent { path, route, verb := v } := by
  have hp := Route.parts_of_ofPath h
  have ⟨parts, hparts, hnames⟩ := (hs v hv).placeholders
  cases hp.symm.trans hparts
  refine ⟨Route.write_of_ofPath h, (Template.parse_eq_ok.mp hp).right, hnames, fun a ha => ?_⟩
  have ⟨identifier, type, hm⟩ :=
    (route.mem_names a.name).mp (hnames.mem_iff.mp (List.mem_map_of_mem ha))
  have ⟨_, _, hsegments⟩ := bind_eq_ok.mp h
  have ⟨_, _, hsegment⟩ := mem_of_mapM_eq_ok hsegments hm
  have ⟨main, hmain, hid, hsimilar⟩ := Route.exists_main_of_segment hsegment
  have ⟨⟨w, hw, hmain⟩, hname⟩ := Route.mem_declarations.mp hmain
  -- Both identifiers are made from the one name.
  have he : identifier = a.identifier := by
    rw [hid, (hs w hw).identifiers main hmain, hname, (hs v hv).identifiers a ha]
  exact ⟨type, he ▸ hm, hsimilar a (Route.mem_declarations.mpr ⟨⟨v, hv, ha⟩, rfl⟩)⟩

namespace PathVerbs

variable {ids : Identifiers} {r : Resolution} {serializers : List Serializer}
  {functions functions' : Namespace} {paths : List PathEntry} {all : List PathVerbs}

theorem suits_of_ofEntries (h : ofEntries ids r serializers functions paths = .ok (all, functions'))
    {entry : PathVerbs} (he : entry ∈ all) : ∀ v ∈ entry.verbs, v.Suits ids entry.path := by
  intro v hv
  have ⟨_, _, _, _, hp, hop⟩ := exists_operation_of_mem_verbs h he hv
  exact hp ▸ Verb.suits_of_describe hop

-- Verbs that were built suit their paths, so grouping them has one way to fail.
theorem inconsistent_of_ofPaths
    (h : ofEntries ids r serializers functions paths = .ok (all, functions'))
    (naming : Endpoints.Naming) (classes : Namespace) :
    (Endpoints.ofPaths naming classes all).FailsWith fun e =>
      ∃ path name, e = .inconsistentParameter path name := by
  refine Endpoints.failsWith_ofPaths fun entry he e hr => ?_
  rw [Route.ofVerbs] at hr
  split at hr
  case h_1 => cases hr
  case h_2 first _ hv =>
    have hm : first ∈ entry.verbs := hv ▸ List.mem_cons_self
    exact ⟨entry.path, Route.inconsistent_of_ofPath hm (suits_of_ofEntries h he first hm) hr⟩

end PathVerbs
end ApiDescriptors
