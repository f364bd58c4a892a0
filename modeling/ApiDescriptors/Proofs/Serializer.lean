import ApiDescriptors.Proofs.Namespace
import ApiDescriptors.Proofs.Schema.Resolution
import ApiDescriptors.Serializer

namespace ApiDescriptors.Serializer

open Result

variable {ids : Identifiers} {r : Resolution} {required : List String}
  {seen properties : List (String × Pointer)}
variable {schema : Schema} {schemas : List Schema} {fields : List Field} {self key : Pointer}
  {s : Serializer}

-- The fields of a schema

-- A field says of its property what the resolution says of the schema there.
theorem field_eq_ok {name : String} {node : Pointer} {f : Field} :
    field ids r required name node = .ok f ↔
      r.fieldType node = .ok f.type ∧ f = {
        name
        identifier  := ids.snake name
        type        := f.type
        required    := name ∈ required
        nullable    := r.isNullable node
        description := r.description? node
        choices     := r.choices node
      } := by
  rw [field, bind_eq_ok]
  constructor
  case mp =>
    rintro ⟨type, ht, hf⟩
    cases pure_eq_ok.mp hf
    exact ⟨ht, rfl⟩
  case mpr =>
    rintro ⟨ht, hf⟩
    exact ⟨f.type, ht, pure_eq_ok.mpr hf.symm⟩

theorem identifier_of_field {name : String} {node : Pointer} {f : Field}
    (h : field ids r required name node = .ok f) : f.identifier = ids.snake name :=
  (field_eq_ok.mp h).right ▸ rfl

-- There is a field for each property, unless two identifiers are the same.
theorem fieldsFrom_eq_ok :
    fieldsFrom ids r required seen properties = .ok fields ↔
      ((properties.map fun property => ids.snake property.1).Nodup ∧
        ∀ property ∈ properties, seen.lookup (ids.snake property.1) = none) ∧
      List.Forall₂ (fun property f => field ids r required property.1 property.2 = .ok f)
        properties fields := by
  induction properties generalizing seen fields
  case nil => cases fields <;> simp [fieldsFrom]
  case cons property properties hi =>
    rw [fieldsFrom]
    split
    case h_1 first hs =>
      refine ⟨nofun, fun ⟨⟨_, hseen⟩, _⟩ => ?_⟩
      cases hs.symm.trans (hseen property List.mem_cons_self)
    case h_2 hs =>
      simp only [bind_eq_ok, hi, pure_eq_ok, lookup_concat_eq_none, List.map_cons, List.nodup_cons,
        List.forall_mem_cons]
      cases fields
      case nil => simp
      case cons =>
        simp only [List.forall₂_cons, List.cons.injEq, List.mem_map]
        grind

-- Every field was made for one of the properties.
theorem field_of_mem_fieldsFrom {f : Field}
    (h : fieldsFrom ids r required seen properties = .ok fields) (hf : f ∈ fields) :
    ∃ property ∈ properties, field ids r required property.1 property.2 = .ok f :=
  exists_of_forall₂_of_mem
    (R := fun (property : String × Pointer) f => field ids r required property.1 property.2 = .ok f)
    (fieldsFrom_eq_ok.mp h).right hf

theorem type_of_mem_fieldsFrom {f : Field}
    (h : fieldsFrom ids r required seen properties = .ok fields) (hf : f ∈ fields) :
    ∃ p ∈ properties.map (·.2), r.fieldType p = .ok f.type := by
  have ⟨property, hp, ht⟩ := field_of_mem_fieldsFrom h hf
  exact ⟨property.2, List.mem_map_of_mem hp, (field_eq_ok.mp ht).left⟩

theorem type_of_mem_fieldsOf {f : Field} (h : fieldsOf ids r schema = .ok fields)
    (hf : f ∈ fields) :
    ∃ p ∈ schema.links, r.fieldType p = .ok f.type := by
  simp only [fieldsOf] at h
  split at h
  case h_1 hs => simpa [Schema.links, hs, Schema.Form.links] using type_of_mem_fieldsFrom h hf
  case h_2    => cases h; cases hf

-- What else can be wrong with the fields is that of two properties with one identifier.
theorem fieldsFrom_eq_error {e : Error}
    (h : fieldsFrom ids r required seen properties = .error e) :
    (∃ p ∈ properties.map (·.2), r.fieldType p = .error e) ∨
      ∃ name first second, e = .duplicateName .ofField name first second ∧
        Refuses seen (properties.map fun property => (ids.snake property.1, property.2))
          name first second := by
  induction properties generalizing seen
  case nil => cases h
  case cons property properties hi =>
    rw [fieldsFrom] at h
    split at h
    case h_1 first hf => cases h; exact .inr ⟨_, first, _, rfl, .head hf⟩
    case h_2 hn =>
      obtain h | ⟨_, _, h⟩ := bind_eq_error.mp h
      case inl =>
        obtain h | ⟨_, _, h⟩ := bind_eq_error.mp h
        case inl => exact .inl ⟨_, List.mem_cons_self, h⟩
        case inr => cases h
      case inr =>
        obtain h | ⟨_, _, h⟩ := bind_eq_error.mp h
        case inr => cases h
        case inl =>
          obtain ⟨p, hp, ht⟩ | ⟨name, first, second, he, hr⟩ := hi h
          case inl => exact .inl ⟨p, List.mem_cons_of_mem _ hp, ht⟩
          case inr =>
            exact .inr ⟨name, first, second, he, hr.cons lookup_concat_eq_some⟩

theorem failsWith_fieldsFrom {P : Error → Prop}
    (hd : ∀ name first second, P (.duplicateName .ofField name first second))
    (ht : ∀ p ∈ properties.map (·.2), (r.fieldType p).FailsWith P) :
    (fieldsFrom ids r required seen properties).FailsWith P := by
  intro e he
  obtain ⟨p, hp, he⟩ | ⟨_, _, _, he, _⟩ := fieldsFrom_eq_error he
  case inl => exact ht p hp e he
  case inr => exact he ▸ hd ..

theorem failsWith_fieldsOf {P : Error → Prop}
    (hd : ∀ name first second, P (.duplicateName .ofField name first second))
    (ht : ∀ p ∈ schema.links, (r.fieldType p).FailsWith P) :
    (fieldsOf ids r schema).FailsWith P := by
  simp only [fieldsOf]
  split
  case h_1 hs =>
    exact failsWith_fieldsFrom hd (by simpa [Schema.links, hs, Schema.Form.links] using ht)
  case h_2 => exact .ok _

-- Fields show of a resolution what it says of the nodes of the properties.
theorem fieldsFrom_congr {r' : Resolution} (h : ∀ p ∈ properties.map (·.2), r.AgreeAt r' p) :
    fieldsFrom ids r required seen properties = fieldsFrom ids r' required seen properties := by
  induction properties generalizing seen
  case nil => rfl
  case cons property properties hi =>
    have ⟨hp, h⟩ := List.forall_mem_cons.mp h
    simp only [fieldsFrom, field, hp.fieldType, hp.isNullable_eq, hp.description?_eq, hp.choices_eq,
      hi h]

theorem fieldsOf_congr {r' : Resolution} (h : ∀ p ∈ schema.links, r.AgreeAt r' p) :
    fieldsOf ids r schema = fieldsOf ids r' schema := by
  simp only [fieldsOf]
  split
  case h_1 hs => exact fieldsFrom_congr (by simpa [Schema.links, hs, Schema.Form.links] using h)
  case h_2    => rfl

-- A serializer depends on the other schemas at the core of its fields' types, each at its first
-- use.
theorem dependencies_eq (self : Pointer) (fields : List Field) :
    dependencies self fields =
      ((fields.filterMap (·.type.innermost?)).filter (· ≠ self)).eraseDups := by
  induction fields using List.reverseRecOn
  case nil => rfl
  case append_singleton fields f hi =>
    have hd : dependencies self (fields ++ [f]) =
        dependencies.add self (dependencies self fields) f := by
      rw [dependencies, List.foldl_concat]
      rfl
    rw [hd, hi, List.filterMap_append, List.filter_append, dependencies.add]
    cases hk : f.type.innermost?
    case none => simp [hk]
    case some key =>
      by_cases hs : key = self
      case pos => simp [hk, hs]
      case neg => simp [hk, hs, eraseDups_concat]

theorem mem_dependencies_iff :
    key ∈ dependencies self fields ↔ key ≠ self ∧ ∃ f ∈ fields, f.type.innermost? = some key := by
  simp [dependencies_eq, and_comm]

theorem ofSchema_eq_ok {name : ClassName} :
    ofSchema ids r schema name = .ok s ↔
      ∃ fields, fieldsOf ids r schema = .ok fields ∧
        s = {
          className   := name.className
          name        := name.name
          declared    := name.declared
          schema      := schema.node
          description := schema.description
          fields
          dependsOn   := dependencies schema.node fields
        } := by
  simp only [ofSchema, bind_eq_ok, pure_eq_ok]
  exact exists_congr fun _ => and_congr_right' eq_comm

-- Class names

variable {naming : Naming} {classes classes' : Namespace}

-- The class name that a node declares.
def Naming.declared? (naming : Naming) (node : Pointer) : Option ClassName :=
  node.declaredName?.map fun name =>
    { className := naming.ids.className name naming.suffix, name, declared := true }

-- The class names that a schema at a node may get. One that is declared is fixed; one that is made
-- up is fixed but for the number that keeps it apart from others.
inductive Naming.Allows (naming : Naming) (node : Pointer) : ClassName → Prop
  | declared {name} : naming.declared? node = some name → naming.Allows node name
  | derived (n) : naming.declared? node = none → naming.Allows node {
      className := Namespace.candidate naming.ids (DerivedName.schema node naming.ids.casing)
        naming.suffix n
      name      := DerivedName.schema node naming.ids.casing
      declared  := false
    }

def Naming.declaredClasses (naming : Naming) (schemas : List Schema) : List String :=
  schemas.filterMap fun schema => (naming.declared? schema.node).map (·.className)

theorem claimDeclared_eq_ok {declared : List (Schema × Option ClassName)}
    (h : claimDeclared naming classes schemas = .ok (declared, classes')) :
    declared = schemas.map (fun schema => (schema, naming.declared? schema.node)) ∧
      classes.Free (naming.declaredClasses schemas) := by
  induction schemas generalizing classes declared
  case nil => cases h; exact ⟨rfl, Namespace.free_nil _⟩
  case cons schema schemas hi =>
    rw [claimDeclared] at h
    split at h
    case h_1 hn =>
      have ⟨_, ho, h⟩ := bind_eq_ok.mp h
      cases pure_eq_ok.mp h
      have ⟨hm, hf⟩ := hi ho
      exact ⟨by simp [hm, Naming.declared?, hn],
        by simpa [Naming.declaredClasses, Naming.declared?, hn] using hf⟩
    case h_2 name hn =>
      have ⟨⟨_, _⟩, hc, h⟩ := bind_eq_ok.mp h
      have ⟨_, ho, h⟩ := bind_eq_ok.mp h
      cases pure_eq_ok.mp h
      have ⟨hn', he, ha⟩ := Namespace.claim_eq_ok.mp hc
      subst he ha
      have ⟨hm, hf⟩ := hi ho
      have hf := (Namespace.free_cons schema.node).mpr ⟨hn', hf⟩
      exact ⟨by simp [hm, Naming.declared?, hn],
        by simpa [Naming.declaredClasses, Naming.declared?, hn] using hf⟩

theorem exists_claimDeclared_eq_ok (h : classes.Free (naming.declaredClasses schemas)) :
    ∃ x, claimDeclared naming classes schemas = .ok x := by
  induction schemas generalizing classes
  case nil => exact ⟨_, rfl⟩
  case cons schema schemas hi =>
    rw [claimDeclared]
    split
    case h_1 hn =>
      have hf : classes.Free (naming.declaredClasses schemas) := by
        simpa [Naming.declaredClasses, Naming.declared?, hn] using h
      have ⟨_, hx⟩ := hi hf
      exact ⟨_, bind_eq_ok.mpr ⟨_, hx, rfl⟩⟩
    case h_2 name hn =>
      simp only [Naming.declaredClasses, Naming.declared?, List.filterMap_cons, hn,
        Option.map_some] at h
      have ⟨hc, hf⟩ := (Namespace.free_cons schema.node).mp h
      have ⟨_, hx⟩ := hi hf
      exact ⟨_, bind_eq_ok.mpr ⟨_, Namespace.claim_eq_ok.mpr ⟨hc, rfl, rfl⟩,
        bind_eq_ok.mpr ⟨_, hx, rfl⟩⟩⟩

def Naming.declaredClaims (naming : Naming) (schemas : List Schema) : List (String × Pointer) :=
  schemas.filterMap fun schema =>
    (naming.declared? schema.node).map fun name => (name.className, schema.node)

-- The class name that cannot be claimed was claimed for an earlier schema, or before all of them.
theorem claimDeclared_eq_error {e : Error}
    (h : claimDeclared naming classes schemas = .error e) :
    ∃ name first second, e = .duplicateName classes.kind name first second ∧
      Refuses classes.claimed (naming.declaredClaims schemas) name first second := by
  induction schemas generalizing classes
  case nil => cases h
  case cons schema schemas hi =>
    rw [claimDeclared] at h
    split at h
    case h_1 hn =>
      have hc : naming.declaredClaims (schema :: schemas) = naming.declaredClaims schemas :=
        List.filterMap_cons_none (by rw [Naming.declared?, hn]; rfl)
      obtain h | ⟨_, _, h⟩ := bind_eq_error.mp h
      case inr => cases h
      case inl => exact hc ▸ hi h
    case h_2 own hn =>
      have hc : naming.declaredClaims (schema :: schemas) =
          (naming.ids.className own naming.suffix, schema.node) ::
            naming.declaredClaims schemas :=
        List.filterMap_cons_some (by rw [Naming.declared?, hn]; rfl)
      rw [hc]
      obtain h | ⟨⟨_, _⟩, ha, h⟩ := bind_eq_error.mp h
      case inl =>
        obtain ⟨first, hf, he⟩ := Namespace.claim_eq_error.mp h
        exact ⟨_, first, _, he, .head hf⟩
      case inr =>
        obtain ⟨_, _, rfl⟩ := Namespace.claim_eq_ok.mp ha
        obtain h | ⟨_, _, h⟩ := bind_eq_error.mp h
        case inr => cases h
        case inl =>
          obtain ⟨name, first, second, he, hr⟩ := hi h
          exact ⟨name, first, second, he, hr.cons Namespace.lookup_add_eq_some⟩

theorem failsWith_claimDeclared {P : Error → Prop}
    (h : ∀ name first second, P (.duplicateName classes.kind name first second)) :
    (claimDeclared naming classes schemas).FailsWith P := by
  intro e he
  obtain ⟨_, _, _, he, _⟩ := claimDeclared_eq_error he
  exact he ▸ h ..

theorem forall₂_nameOthers (classes : Namespace) (schemas : List Schema) :
    List.Forall₂ (fun schema named => named.1 = schema ∧ naming.Allows schema.node named.2) schemas
      (nameOthers naming classes
        (schemas.map fun schema => (schema, naming.declared? schema.node))).1 := by
  induction schemas generalizing classes
  case nil => exact .nil
  case cons schema schemas hi =>
    cases hd : naming.declared? schema.node <;> simp only [List.map_cons, hd, nameOthers]
    case none =>
      have ⟨n, hn⟩ := classes.freeName_eq_candidate naming.ids
        (DerivedName.schema schema.node naming.ids.casing) naming.suffix
      simp only [Namespace.claimFree, hn]
      exact .cons ⟨rfl, .derived n hd⟩ (hi _)
    case some => exact .cons ⟨rfl, .declared hd⟩ (hi _)

theorem mem_of_mem_nameOthers {declared : List (Schema × Option ClassName)}
    {named : Schema × ClassName}
    (h : claimDeclared naming classes schemas = .ok (declared, classes'))
    (hn : named ∈ (nameOthers naming classes' declared).1) : named.1 ∈ schemas := by
  rw [(claimDeclared_eq_ok h).left] at hn
  have ⟨_, hm, he, _⟩ := exists_of_forall₂_of_mem (forall₂_nameOthers classes' schemas) hn
  exact he ▸ hm

-- The serializers of schemas

theorem forall₂_ofSchema {named : List (Schema × ClassName)} {serializers : List Serializer}
    (hn : List.Forall₂ (fun schema named => named.1 = schema ∧ naming.Allows schema.node named.2)
      schemas named)
    (hs : List.Forall₂ (fun named s => ofSchema ids r named.1 named.2 = .ok s) named serializers) :
    List.Forall₂ (fun schema s => ∃ name, naming.Allows schema.node name ∧
      ofSchema ids r schema name = .ok s)
      schemas serializers := by
  induction hn generalizing serializers
  case nil => cases hs; exact .nil
  case cons hn _ hi =>
    cases hs
    case cons hs hl => exact .cons ⟨_, hn.right, hn.left ▸ hs⟩ (hi hl)

theorem ofSchemas_eq_ok {serializers : List Serializer}
    (h : ofSchemas naming classes r schemas = .ok (serializers, classes')) :
    List.Forall₂ (fun schema s => ∃ name, naming.Allows schema.node name ∧
      ofSchema naming.ids r schema name = .ok s)
      schemas serializers ∧ classes.Free (naming.declaredClasses schemas) := by
  have ⟨⟨_, declared⟩, hc, h⟩ := bind_eq_ok.mp h
  have ⟨hd, hf⟩ := claimDeclared_eq_ok hc
  have ⟨_, hm, h⟩ := bind_eq_ok.mp h
  cases pure_eq_ok.mp h
  exact ⟨forall₂_ofSchema (hd ▸ forall₂_nameOthers declared schemas) (mapM_eq_ok.mp hm), hf⟩

theorem mem_of_find? {serializers : List Serializer} (h : find? serializers key = some s) :
    s ∈ serializers ∧ s.schema = key :=
  ⟨List.mem_of_find?_eq_some h, by simpa using List.find?_some h⟩

theorem schemas_of_ofSchemas {serializers : List Serializer}
    (h : ofSchemas naming classes r schemas = .ok (serializers, classes')) :
    serializers.map (·.schema) = schemas.map (·.node) := by
  have hl := (ofSchemas_eq_ok h).left
  clear h
  induction hl
  case nil => rfl
  case cons hs _ hi =>
    have ⟨_, _, hs⟩ := hs
    have ⟨_, _, he⟩ := ofSchema_eq_ok.mp hs
    simp [hi, he]

theorem exists_find?_of_ofSchemas {serializers : List Serializer}
    (h : ofSchemas naming classes r schemas = .ok (serializers, classes')) (hm : schema ∈ schemas) :
    ∃ s, find? serializers schema.node = some s := by
  have hk : schema.node ∈ serializers.map (·.schema) :=
    schemas_of_ofSchemas h ▸ List.mem_map_of_mem hm
  have ⟨s, hs, he⟩ := List.mem_map.mp hk
  exact Option.isSome_iff_exists.mp <| List.find?_isSome.mpr ⟨s, hs, by simp [he]⟩

-- What a serializer says apart from its class name was read off its schema.
theorem exists_schema_of_ofSchemas {serializers : List Serializer}
    (h : ofSchemas naming classes r schemas = .ok (serializers, classes')) (hs : s ∈ serializers) :
    ∃ schema ∈ schemas, ∃ name, naming.Allows schema.node name ∧
      ofSchema naming.ids r schema name = .ok s :=
  exists_of_forall₂_of_mem (ofSchemas_eq_ok h).left hs

-- There are serializers unless a declared name is taken or the fields of a schema cannot be made.
theorem exists_ofSchemas_eq_ok_iff :
    (∃ x, ofSchemas naming classes r schemas = .ok x) ↔
      classes.Free (naming.declaredClasses schemas) ∧
        ∀ schema ∈ schemas, ∃ fields, fieldsOf naming.ids r schema = .ok fields := by
  constructor
  case mp =>
    rintro ⟨⟨serializers, classes'⟩, h⟩
    have ⟨hl, hf⟩ := ofSchemas_eq_ok h
    refine ⟨hf, fun schema hm => ?_⟩
    have ⟨_, _, _, _, hs⟩ := exists_of_forall₂_of_mem hl.flip hm
    have ⟨fields, hf, _⟩ := ofSchema_eq_ok.mp hs
    exact ⟨fields, hf⟩
  case mpr =>
    rintro ⟨hf, hs⟩
    have ⟨⟨declared, classes'⟩, hc⟩ := exists_claimDeclared_eq_ok hf
    have hn (named : Schema × ClassName) (hn : named ∈ (nameOthers naming classes' declared).1) :
        ∃ s, ofSchema naming.ids r named.1 named.2 = .ok s := by
      have ⟨fields, hf⟩ := hs _ (mem_of_mem_nameOthers hc hn)
      exact ⟨_, ofSchema_eq_ok.mpr ⟨fields, hf, rfl⟩⟩
    have ⟨serializers, hm⟩ := exists_mapM_eq_ok hn
    exact ⟨_, bind_eq_ok.mpr ⟨_, hc, bind_eq_ok.mpr ⟨serializers, hm, rfl⟩⟩⟩

theorem specific_ofSchemas (h : ∀ schema ∈ schemas, ∀ p ∈ schema.links, (r.fieldType p).Specific) :
    (ofSchemas naming classes r schemas).Specific := by
  refine .bind (failsWith_claimDeclared fun _ _ _ => rfl) fun ⟨_, _⟩ hc =>
    .bind (.mapM fun _ hn => ?_) fun _ _ => .pure _
  have ht := h _ (mem_of_mem_nameOthers hc hn)
  exact .bind (failsWith_fieldsOf (fun _ _ _ => rfl) ht) fun _ _ => .pure _

theorem kept_ofSchemas {r' : Resolution}
    (h : ∀ schema ∈ schemas, ∀ p ∈ schema.links, r.AgreeAt r' p) :
    Kept (ofSchemas naming classes r schemas) (ofSchemas naming classes r' schemas) := by
  refine .bind (.refl _) fun ⟨_, _⟩ hc => .bind (.mapM fun _ hn => ?_) fun _ _ => .refl _
  simp only [ofSchema, fieldsOf_congr (h _ (mem_of_mem_nameOthers hc hn))]
  exact .refl _

end ApiDescriptors.Serializer
