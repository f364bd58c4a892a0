import ApiDescriptors.Proofs.Reordering.Resolution
import ApiDescriptors.Proofs.Serializer

namespace ApiDescriptors.Serializer

open Result

variable {r r' : Resolution} {ids : Identifiers} {naming : Naming}
  {classes classes₁ classes₂ : Namespace}
variable {schema : Schema} {schemas schemas' : List Schema}
  {serializers serializers' : List Serializer}

theorem Naming.Allows.declared_eq {node : Pointer} {name : ClassName}
    (h : naming.Allows node name) :
    name.declared = node.declaredName?.isSome := by
  cases h
  case declared hd =>
    have ⟨_, hn, he⟩ := Option.map_eq_some_iff.mp hd
    rw [← he, hn, Option.isSome_some]
  case derived hd => rw [Option.map_eq_none_iff.mp hd, Option.isSome_none]

-- Serializers of one schema. Of a class name that is not declared, the number may differ.
structure Alike (naming : Naming) (s s' : Serializer) : Prop where
  same     : s' = { s with className := s'.className }
  declared : s.declared → s'.className = s.className
  derived  : ¬s.declared → ∃ n n',
    s.className = Namespace.candidate naming.ids s.name naming.suffix n ∧
    s'.className = Namespace.candidate naming.ids s.name naming.suffix n'

theorem alike_of_ofSchema {name name' : ClassName} {s s' : Serializer} (h : r.Reordered r')
    (hn : naming.Allows schema.node name) (hn' : naming.Allows schema.node name')
    (hs : ofSchema naming.ids r schema name = .ok s)
    (hs' : ofSchema naming.ids r' schema name' = .ok s') :
    s.Alike naming s' := by
  have ⟨fields, hf, he⟩ := ofSchema_eq_ok.mp hs
  have ⟨fields', hf', he'⟩ := ofSchema_eq_ok.mp hs'
  rw [fieldsOf_congr fun p _ => h.agreeAt p, hf'] at hf
  cases hf
  subst he he'
  cases hn <;> cases hn'
  case declared.declared hd hd' =>
    cases hd.symm.trans hd'
    have ⟨_, _, he⟩ := Option.map_eq_some_iff.mp hd
    exact ⟨rfl, fun _ => rfl, fun hn => absurd (he ▸ rfl) hn⟩
  case derived.derived => exact ⟨rfl, nofun, fun _ => ⟨_, _, rfl, rfl⟩⟩
  case declared.derived hd _ hd' => cases hd.symm.trans hd'
  case derived.declared hd hd' => cases hd.symm.trans hd'

theorem exists_schema_of_find? {key : Pointer} {s : Serializer}
    (h : ofSchemas naming classes r schemas = .ok (serializers, classes₁))
    (hf : find? serializers key = some s) :
    ∃ schema ∈ schemas, schema.node = key ∧
      ∃ name, naming.Allows schema.node name ∧ ofSchema naming.ids r schema name = .ok s := by
  have ⟨hm, hk⟩ := mem_of_find? hf
  have ⟨schema, hs, name, hn, ho⟩ := exists_schema_of_ofSchemas h hm
  have ⟨_, _, he⟩ := ofSchema_eq_ok.mp ho
  exact ⟨schema, hs, hk ▸ he ▸ rfl, name, hn, ho⟩

-- A serializer has a declared name exactly where its schema stands in a table of named schemas.
theorem declared_of_find? {key : Pointer} {s : Serializer}
    (h : ofSchemas naming classes r schemas = .ok (serializers, classes₁))
    (hf : find? serializers key = some s) :
    s.declared = key.declaredName?.isSome := by
  have ⟨_, _, hk, _, hn, ho⟩ := exists_schema_of_find? h hf
  have ⟨_, _, he⟩ := ofSchema_eq_ok.mp ho
  rw [he, ← hk, hn.declared_eq]

theorem isSome_find?_of_perm {key : Pointer} (hp : schemas.Perm schemas')
    (h : ofSchemas naming classes r schemas = .ok (serializers, classes₁))
    (h' : ofSchemas naming classes r' schemas' = .ok (serializers', classes₂))
    (hs : (find? serializers key).isSome) :
    (find? serializers' key).isSome := by
  have ⟨_, hs⟩ := Option.isSome_iff_exists.mp hs
  have ⟨schema, hm, hk, _⟩ := exists_schema_of_find? h hs
  have ⟨_, hs'⟩ := exists_find?_of_ofSchemas h' (hp.mem_iff.mp hm)
  rw [← hk, hs', Option.isSome_some]

-- The names that are declared are claimed in any order, or in none.
theorem exists_ofSchemas_eq_ok_of_perm (hr : r.Reordered r') (hp : schemas.Perm schemas')
    (hn : (schemas.map (·.node)).Nodup)
    (h : ofSchemas naming classes r schemas = .ok (serializers, classes₁)) :
    ∃ serializers' classes', ofSchemas naming classes r' schemas' = .ok (serializers', classes') ∧
      ∀ key, Option.Rel (Alike naming) (find? serializers key) (find? serializers' key) := by
  have ⟨hf, hs⟩ := exists_ofSchemas_eq_ok_iff.mp ⟨_, h⟩
  have hs' (schema : Schema) (hm : schema ∈ schemas') :
      ∃ fields, fieldsOf naming.ids r' schema = .ok fields :=
    fieldsOf_congr (fun p _ => hr.agreeAt p) ▸ hs schema (hp.mem_iff.mpr hm)
  have ⟨⟨serializers', classes'⟩, h'⟩ :=
    exists_ofSchemas_eq_ok_iff.mpr ⟨hf.perm (hp.filterMap _), hs'⟩
  refine ⟨serializers', classes', h', fun key => ?_⟩
  cases hs : find? serializers key
  case none =>
    cases hs' : find? serializers' key
    case none => exact .none
    case some =>
      have := isSome_find?_of_perm hp.symm h' h (Option.isSome_of_mem hs')
      rw [hs] at this
      cases this
  case some s =>
    have hsome := isSome_find?_of_perm hp h h' (Option.isSome_of_mem hs)
    have ⟨s', hs'⟩ := Option.isSome_iff_exists.mp hsome
    have ⟨schema, hm, hk, _, hn₁, ho⟩ := exists_schema_of_find? h hs
    have ⟨schema', hm', hk', _, hn₂, ho'⟩ := exists_schema_of_find? h' hs'
    cases List.inj_on_of_nodup_map hn hm (hp.mem_iff.mpr hm') (hk.trans hk'.symm)
    rw [hs']
    exact .some (alike_of_ofSchema hr hn₁ hn₂ ho ho')

end ApiDescriptors.Serializer
