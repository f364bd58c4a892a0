import ApiDescriptors.Proofs.Reordering.Serializers
import ApiDescriptors.Proofs.Schema.Discovery

namespace ApiDescriptors.Serializer

open Result

variable {d : Document} {paths : List PathEntry} {g : SchemaGraph} {r : Resolution}
  {naming : Naming} {classes : Namespace} {schemas schemas' : List Schema} {s t : Schema}
  {name : String} {e : Error}

-- A schema has a declared name, of which this class name is made.
def Naming.Declares (naming : Naming) (schema : Schema) (className : String) : Prop :=
  ∃ name, schema.node.declaredName? = some name ∧
    naming.ids.className name naming.suffix = className

theorem Naming.declares_iff :
    naming.Declares s name ↔ (naming.declared? s.node).map (·.className) = some name := by
  simp [Declares, declared?]

theorem Naming.Allows.eq_of_declaredName? {node : Pointer} {className : ClassName}
    (h : naming.Allows node className) (hn : node.declaredName? = some name) :
    className = {
      className := naming.ids.className name naming.suffix
      name
      declared  := true
    } := by
  cases h
  case declared hd =>
    rw [Naming.declared?, hn] at hd
    exact (Option.some.inj hd).symm
  case derived hd =>
    rw [Naming.declared?, hn] at hd
    cases hd

-- Two schemas have declared names of which the same class name is made.
def Naming.Clashes (naming : Naming) (schemas : List Schema) : Prop :=
  ∃ s ∈ schemas, ∃ t ∈ schemas, s ≠ t ∧ ∃ name, naming.Declares s name ∧ naming.Declares t name

theorem nodup_declaredClasses_iff (hn : schemas.Nodup) :
    (naming.declaredClasses schemas).Nodup ↔ ¬naming.Clashes schemas := by
  rw [Naming.declaredClasses, List.Nodup, List.pairwise_filterMap]
  constructor
  case mp =>
    rintro h ⟨s, hs, t, ht, hne, name, hname, hother⟩
    have : Std.Symm fun s t : Schema =>
        ∀ name, (naming.declared? s.node).map (·.className) = some name →
        ∀ other, (naming.declared? t.node).map (·.className) = some other → name ≠ other :=
      ⟨fun _ _ h _ hname _ hother he => h _ hother _ hname he.symm⟩
    exact h.forall hs ht hne name (Naming.declares_iff.mp hname) name
      (Naming.declares_iff.mp hother) rfl
  case mpr =>
    intro h
    refine hn.imp_of_mem fun hs ht hne name hname other hother he => h ?_
    exact ⟨_, hs, _, ht, hne, name, Naming.declares_iff.mpr hname,
      Naming.declares_iff.mpr (he ▸ hother)⟩

-- No fault but that of a declared name is about a class name.

theorem ofSchemas_eq_error (h : ofSchemas naming classes r schemas = .error e) :
    claimDeclared naming classes schemas = .error e ∨
      ∃ schema ∈ schemas, fieldsOf naming.ids r schema = .error e := by
  obtain h | ⟨⟨_, _⟩, hc, h⟩ := bind_eq_error.mp h
  case inl => exact .inl h
  case inr =>
    obtain h | ⟨_, _, h⟩ := bind_eq_error.mp h
    case inr => cases h
    case inl =>
      have ⟨_, hn, h⟩ := mapM_eq_error h
      obtain h | ⟨_, _, h⟩ := bind_eq_error.mp h
      case inr => cases h
      case inl => exact .inr ⟨_, mem_of_mem_nameOthers hc hn, h⟩

theorem fieldsOf_ne_duplicateName {ids : Identifiers} {schema : Schema} {first second : Pointer} :
    fieldsOf ids r schema ≠ .error (.duplicateName .ofClass name first second) := by
  have hf : (fieldsOf ids r schema).FailsWith (· ≠ .duplicateName .ofClass name first second) :=
    failsWith_fieldsOf (fun _ _ _ => nofun) fun p _ =>
      Resolution.failsWith_fieldTypeFrom (fun _ => nofun) (fun _ => nofun) r _ _ p
  exact fun h => hf _ h rfl

theorem claimDeclared_of_ofSchemas {first second : Pointer}
    (h : ofSchemas naming classes r schemas = .error (.duplicateName .ofClass name first second)) :
    claimDeclared naming classes schemas = .error (.duplicateName .ofClass name first second) :=
  (ofSchemas_eq_error h).resolve_right fun ⟨_, _, h⟩ => fieldsOf_ne_duplicateName h

-- A class name that is refused is one that two schemas declare, of which the first has it.
theorem exists_declares_of_ofSchemas {first second : Pointer}
    (h : ofSchemas naming ⟨.ofClass, []⟩ r schemas =
      .error (.duplicateName .ofClass name first second)) :
    ∃ s t, [s, t].Sublist schemas ∧ s.node = first ∧ t.node = second ∧
      naming.Declares s name ∧ naming.Declares t name := by
  obtain ⟨_, _, _, he, hr⟩ := claimDeclared_eq_error (claimDeclared_of_ofSchemas h)
  cases he
  have hd {s : Schema} {node : Pointer} (h : (naming.declared? s.node).map
      (fun name => (name.className, s.node)) = some (name, node)) :
      s.node = node ∧ naming.Declares s name := by
    obtain ⟨own, hn, he⟩ := Option.map_eq_some_iff.mp h
    obtain ⟨rfl, rfl⟩ := Prod.mk.inj he
    exact ⟨rfl, Naming.declares_iff.mpr (Option.map_eq_some_iff.mpr ⟨own, hn, rfl⟩)⟩
  obtain ⟨s, t, hst, hs, ht⟩ := hr.of_filterMap
  exact ⟨s, t, hst, (hd hs).left, (hd ht).left, (hd hs).right, (hd ht).right⟩

theorem exists_duplicateName_iff (hn : schemas.Nodup) :
    (∃ name first second, ofSchemas naming ⟨.ofClass, []⟩ r schemas =
      .error (.duplicateName .ofClass name first second)) ↔ naming.Clashes schemas := by
  constructor
  case mp =>
    rintro ⟨name, first, second, h⟩
    have ⟨s, t, hs, _, _, hc⟩ := exists_declares_of_ofSchemas h
    have hne : s ≠ t := by simpa using hn.sublist hs
    exact ⟨s, hs.subset (by simp), t, hs.subset (by simp), hne, name, hc⟩
  case mpr =>
    intro h
    cases hd : claimDeclared naming ⟨.ofClass, []⟩ schemas
    case ok x =>
      have hf := Namespace.free_fresh.mp (claimDeclared_eq_ok hd).right
      exact absurd h ((nodup_declaredClasses_iff hn).mp hf)
    case error e =>
      obtain ⟨name, first, second, he, _⟩ := claimDeclared_eq_error hd
      exact ⟨name, first, second, by rw [ofSchemas, hd, he, error_bind]⟩

theorem exists_find?_of_declaredName? {serializers : List Serializer} {classes' : Namespace}
    {schema : Schema} (hn : (schemas.map (·.node)).Nodup)
    (h : ofSchemas naming classes r schemas = .ok (serializers, classes'))
    (hm : schema ∈ schemas) (hname : schema.node.declaredName? = some name) :
    ∃ s, find? serializers schema.node = some s ∧ s.name = name ∧ s.declared ∧
      s.className = naming.ids.className name naming.suffix := by
  have ⟨s, hf⟩ := exists_find?_of_ofSchemas h hm
  have ⟨schema', hm', hk, _, ha, ho⟩ := exists_schema_of_find? h hf
  cases List.inj_on_of_nodup_map hn hm' hm hk
  have ⟨_, _, he⟩ := ofSchema_eq_ok.mp ho
  cases ha.eq_of_declaredName? hname
  exact ⟨s, hf, by rw [he], by rw [he], by rw [he]⟩

-- What becomes of declared names where no class name is taken before: none is given up for one that
-- is made up, so there is a fault if two cannot both be had.
structure DeclaredFirst (naming : Naming) (r : Resolution) (schemas : List Schema) : Prop where
  refuses : (∃ name first second, ofSchemas naming ⟨.ofClass, []⟩ r schemas =
    .error (.duplicateName .ofClass name first second)) ↔ naming.Clashes schemas
  blames  : ∀ name first second, ofSchemas naming ⟨.ofClass, []⟩ r schemas =
    .error (.duplicateName .ofClass name first second) →
    ∃ s t, [s, t].Sublist schemas ∧ s.node = first ∧ t.node = second ∧
      naming.Declares s name ∧ naming.Declares t name
  keeps   : ∀ serializers classes, ofSchemas naming ⟨.ofClass, []⟩ r schemas =
    .ok (serializers, classes) →
    ∀ schema ∈ schemas, ∀ name, schema.node.declaredName? = some name →
    ∃ s, find? serializers schema.node = some s ∧ s.name = name ∧ s.declared ∧
      s.className = naming.ids.className name naming.suffix

theorem declaredFirst (naming : Naming) (r : Resolution) (hn : (schemas.map (·.node)).Nodup) :
    DeclaredFirst naming r schemas where
  refuses               := exists_duplicateName_iff hn.of_map
  blames _ _ _ h        := exists_declares_of_ofSchemas h
  keeps _ _ h _ hm _ hd := exists_find?_of_declaredName? hn h hm hd

-- Neither what becomes of declared names nor whether there is a fault depends on which of the
-- schemas comes first.
theorem declaredFirst_of_perm (naming : Naming) (hl : SchemaGraph.load d paths = .ok g)
    (hr : Resolution.ofGraph g = .ok r) (hs : schemas ⊆ r.graph.schemas) (hn : schemas.Nodup)
    (hp : schemas.Perm schemas') :
    ((∃ x, ofSchemas naming ⟨.ofClass, []⟩ r schemas = .ok x) ↔
      ∃ x, ofSchemas naming ⟨.ofClass, []⟩ r schemas' = .ok x) ∧
      DeclaredFirst naming r schemas ∧ DeclaredFirst naming r schemas' := by
  have ⟨_, _, hloaded⟩ := SchemaGraph.load_eq_ok hl
  have hclosed := (Resolution.sound_ofGraph hloaded.closed hr).closed
  have hnodes : (schemas.map (·.node)).Nodup :=
    hn.map_on fun _ hm _ hm' => hclosed.eq_of_node_eq (hs hm) (hs hm')
  have hnodes' : (schemas'.map (·.node)).Nodup := (hp.map _).nodup_iff.mp hnodes
  refine ⟨?_, declaredFirst naming r hnodes, declaredFirst naming r hnodes'⟩
  have hd : (naming.declaredClasses schemas).Perm (naming.declaredClasses schemas') :=
    hp.filterMap _
  simp only [exists_ofSchemas_eq_ok_iff, Namespace.free_fresh, hd.nodup_iff, hp.mem_iff]

-- A schema without a name that would be called like one that is declared.
def namesakes : Document where
  dialect := .swagger2
  root := .obj [
    ("paths", .obj [("/pets", .obj [("get", .obj [("responses", .obj [("200", .obj [
      ("schema", .obj [("properties", .obj [
        ("pet", .obj [("$ref", .str "#/definitions/PetsGet200")])])])])])])])]),
    ("definitions", .obj [
      ("PetsGet200", .obj [("properties", .obj [("id", .obj [("type", .str "integer")])])])])
  ]

theorem exists_declaredFirst_namesakes : ∃ paths g r schemas, namesakes.paths = .ok paths ∧
    SchemaGraph.load namesakes paths = .ok g ∧ Resolution.ofGraph g = .ok r ∧
    schemas = r.discover g.roots ∧
    (ofSchemas ⟨.reserving [], "Serializer"⟩ ⟨.ofClass, []⟩ r schemas).toOption.map
      (·.1.map (·.className)) = some ["PetsGet2002Serializer", "PetsGet200Serializer"] ∧
    (ofSchemas ⟨.reserving [], "Serializer"⟩ ⟨.ofClass, []⟩ r schemas.reverse).toOption.map
      (·.1.map (·.className)) = some ["PetsGet200Serializer", "PetsGet2002Serializer"] ∧
    schemas ⊆ r.graph.schemas ∧ schemas.Nodup ∧ schemas.Perm schemas.reverse ∧
    DeclaredFirst ⟨.reserving [], "Serializer"⟩ r schemas ∧
    DeclaredFirst ⟨.reserving [], "Serializer"⟩ r schemas.reverse := by
  have hb : (namesakes.paths >>= SchemaGraph.load namesakes >>= Resolution.ofGraph).toOption.map
      (fun r => [r.discover r.graph.roots, (r.discover r.graph.roots).reverse].map fun schemas =>
        (ofSchemas ⟨.reserving [], "Serializer"⟩ ⟨.ofClass, []⟩ r schemas).toOption.map
          (·.1.map (·.className))) =
      some [some ["PetsGet2002Serializer", "PetsGet200Serializer"],
        some ["PetsGet200Serializer", "PetsGet2002Serializer"]] := by
    decide +kernel
  have ⟨r, hr, hb⟩ := exists_of_map_toOption_eq_some hb
  have ⟨g, hg, hr⟩ := bind_eq_ok.mp hr
  have ⟨paths, hpaths, hl⟩ := bind_eq_ok.mp hg
  obtain rfl := Resolution.graph_ofGraph hr
  simp only [List.map_cons, List.map_nil, List.cons.injEq, and_true] at hb
  have ⟨hfirst, hlast⟩ := hb
  have ⟨_, _, hloaded⟩ := SchemaGraph.load_eq_ok hl
  have hsound := Resolution.sound_ofGraph hloaded.closed hr
  have hs : r.discover r.graph.roots ⊆ r.graph.schemas := fun s hs => by
    have ⟨_, hc⟩ := (hsound.mem_discover_iff.mp hs).right.exists_canonical?
    exact (hsound.mem_of_canonical? hc).left
  have hn := (hsound.nodup_discover r.graph.roots).of_map
  have hp := (List.reverse_perm (r.discover r.graph.roots)).symm
  have ⟨_, hd, hd'⟩ := declaredFirst_of_perm ⟨.reserving [], "Serializer"⟩ hl hr hs hn hp
  exact ⟨paths, r.graph, r, _, hpaths, hl, hr, rfl, hfirst, hlast, hs, hn, hp, hd, hd'⟩

end ApiDescriptors.Serializer
