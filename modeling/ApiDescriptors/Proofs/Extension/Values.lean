import ApiDescriptors.Proofs.Locations
import ApiDescriptors.Proofs.Reordering.Values

namespace ApiDescriptors

open Result

namespace Members

variable {before after : Members} {name other : String} {value : Json}

theorem lookup_append_cons_of_ne (h : other ≠ name) :
    (before ++ (name, value) :: after : Members).lookup other = (before ++ after).lookup other := by
  rw [List.lookup_append, List.lookup_append, List.lookup_cons, beq_eq_false_iff_ne.mpr h]

theorem lookup_append_cons_self (h : name ∉ before.names) :
    (before ++ (name, value) :: after : Members).lookup name = some value := by
  rw [List.lookup_append, lookup_eq_none_of_not_mem h, Option.none_or, List.lookup_cons_self]

end Members

namespace Json

-- A tree with one more member than another one. The member has a new name, and stands anywhere in
-- the object to which a path of names leads.
inductive Gains (name : String) (value : Json) : List String → Json → Json → Prop
  | added (before : Members) {after : Members} :
    name ∉ (before ++ after).names →
    Gains name value [] (.obj (before ++ after)) (.obj (before ++ (name, value) :: after))
  | member (before : Members) {after : Members} {key path v v'} :
    key ∉ before.names → Gains name value path v v' →
    Gains name value (key :: path) (.obj (before ++ (key, v) :: after))
      (.obj (before ++ (key, v') :: after))

namespace Gains

variable {name key other : String} {value v v' w : Json} {path segments : List String}

theorem step?_of_ne (h : Gains name value (key :: path) v v') (hne : other ≠ key) :
    Pointer.step? v other = Pointer.step? v' other := by
  cases h
  case member => simp only [Pointer.step?, Members.lookup_append_cons_of_ne hne]

-- What stands anywhere but on the way to the new member stands there in both trees.
theorem foldlM_step? (h : Gains name value path v v') (hp : ¬segments <+: path)
    (hw : segments.foldlM Pointer.step? v = some w) :
    segments.foldlM Pointer.step? v' = some w := by
  induction h generalizing segments
  case added before after hn =>
    cases segments
    case nil => exact absurd List.nil_prefix hp
    case cons segment segments =>
      have ⟨u, hu, hw⟩ := Option.bind_eq_some_iff.mp hw
      have hne : segment ≠ name := by
        rintro rfl
        cases (Members.lookup_eq_none_of_not_mem hn).symm.trans hu
      refine Option.bind_eq_some_iff.mpr ⟨u, ?_, hw⟩
      exact (Members.lookup_append_cons_of_ne hne).trans hu
  case member before after key path v v' hk _ hi =>
    cases segments
    case nil => exact absurd List.nil_prefix hp
    case cons segment segments =>
      have ⟨u, hu, hw⟩ := Option.bind_eq_some_iff.mp hw
      by_cases he : segment = key
      case pos =>
        subst he
        cases hu.symm.trans (Members.lookup_append_cons_self hk)
        have hw := hi (fun hs => hp (List.cons_prefix_cons.mpr ⟨rfl, hs⟩)) hw
        exact Option.bind_eq_some_iff.mpr ⟨v', Members.lookup_append_cons_self hk, hw⟩
      case neg =>
        refine Option.bind_eq_some_iff.mpr ⟨u, ?_, hw⟩
        exact (Members.lookup_append_cons_of_ne he).trans
          ((Members.lookup_append_cons_of_ne he).symm.trans hu)

-- The object that the member is added to.
theorem exists_members (h : Gains name value path v v') : ∃ members members' : Members,
    path.foldlM Pointer.step? v = some (.obj members) ∧
    path.foldlM Pointer.step? v' = some (.obj members') ∧ members.names ⊆ members'.names := by
  induction h
  case added before after _ =>
    refine ⟨_, _, rfl, rfl, ?_⟩
    simp only [Members.names_append, Members.names_cons]
    grind
  case member before after key path v v' hk _ hi =>
    have ⟨members, members', hm, hm', hs⟩ := hi
    refine ⟨members, members', Option.bind_eq_some_iff.mpr ⟨v, ?_, hm⟩,
      Option.bind_eq_some_iff.mpr ⟨v', ?_, hm'⟩, hs⟩
    · exact Members.lookup_append_cons_self hk
    · exact Members.lookup_append_cons_self hk

theorem length_textsAt_le (h : Gains name value path v v') (key : String) :
    (v.textsAt key).length ≤ (v'.textsAt key).length := by
  induction h
  case added before after _ =>
    simp only [textsAt, textsInMembers_eq_flatMap, List.flatMap_append, List.flatMap_cons,
      List.length_append]
    omega
  case member before after key' path v v' _ hg hi =>
    have hs : v.str? = v'.str? := by cases hg <;> rfl
    simp only [textsAt, textsInMembers_eq_flatMap, List.flatMap_append, List.flatMap_cons,
      List.length_append, hs]
    omega

theorem dialectOf_eq (h : Gains name value (key :: path) v v') (ho : "openapi" ≠ key)
    (hs : "swagger" ≠ key) : Document.dialectOf v = Document.dialectOf v' := by
  cases h
  case member =>
    simp only [Document.dialectOf, Members.lookup_append_cons_of_ne ho,
      Members.lookup_append_cons_of_ne hs]

end Gains
end Json

namespace Document

-- A document whose values another one has too, but for the table of named schemas and what holds
-- that. No reference leads there.
structure Within (d d' : Document) : Prop where
  dialect  : d.dialect = d'.dialect
  distinct : d.root.Distinct
  limit    : d.referenceLimit ≤ d'.referenceLimit
  paths    : d.get? ⟨["paths"]⟩ = d'.get? ⟨["paths"]⟩
  named    : ∃ members members' : Members, d.get? d.schemaTable = some (.obj members) ∧
    d'.get? d.schemaTable = some (.obj members') ∧ members.names ⊆ members'.names
  kept     : ∀ p v, ¬p.segments <+: d.schemaTable.segments → d.get? p = some v → d'.get? p = some v
  outside  : ∀ text ∈ d.root.textsAt "$ref", ∀ p, Pointer.parse text = .ok p →
    ¬p.segments <+: d.schemaTable.segments

variable {d d' : Document} {name : String} {schema : Json} {value value' : Yaml.Value}

theorem exists_schemaTable_eq_cons (d : Document) : ∃ key path,
    d.schemaTable.segments = key :: path ∧ "openapi" ≠ key ∧ "swagger" ≠ key ∧ "paths" ≠ key := by
  simp only [schemaTable]
  cases d.dialect <;> exact ⟨_, _, rfl, by decide⟩

theorem within_of_gains (hd : ofValue value = .ok d) (hd' : ofValue value' = .ok d')
    (h : Json.Gains name schema d.schemaTable.segments d.root d'.root)
    (hr : ∀ text ∈ d.root.textsAt "$ref", ∀ p, Pointer.parse text = .ok p →
      ¬p.segments <+: d.schemaTable.segments) : d.Within d' := by
  have ⟨hdistinct, hdialect⟩ := distinct_ofValue hd
  have ⟨_, hdialect'⟩ := distinct_ofValue hd'
  have ⟨key, path, hk, hopenapi, hswagger, hpaths⟩ := d.exists_schemaTable_eq_cons
  have hroot : Json.Gains name schema (key :: path) d.root d'.root := hk ▸ h
  constructor
  case dialect =>
    have he := hroot.dialectOf_eq hopenapi hswagger
    exact Except.ok.inj (hdialect.symm.trans (he.trans hdialect'))
  case distinct => exact hdistinct
  case limit    => exact Nat.add_le_add_right (h.length_textsAt_le "$ref") 2
  case named    => exact h.exists_members
  case kept     => exact fun _ _ hp hv => h.foldlM_step? hp hv
  case outside  => exact hr
  case paths    =>
    have hp (d : Document) : d.get? ⟨["paths"]⟩ = Pointer.step? d.root "paths" :=
      get?_child (p := .root) rfl "paths"
    rw [hp, hp, hroot.step?_of_ne hpaths]

end Document
end ApiDescriptors
