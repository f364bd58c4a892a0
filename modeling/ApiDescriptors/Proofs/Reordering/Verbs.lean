import ApiDescriptors.Proofs.Endpoint
import ApiDescriptors.Proofs.Reordering.Serializers

namespace ApiDescriptors

open Result

-- What verbs and endpoints say, without the class names that have a number for the order in which
-- they were made up.

def SerializerRef.stable (ref : SerializerRef) : SerializerRef :=
  if ref.schema.declaredName?.isSome then ref else { ref with className := "" }

def BodyUse.stable (b : BodyUse) : BodyUse :=
  { b with serializer := b.serializer.map (·.stable) }

def Verb.stable (v : Verb) : Verb :=
  { v with body := v.body.map (·.stable), serializer := v.serializer.map (·.stable) }

def PathVerbs.stable (entry : PathVerbs) : PathVerbs :=
  { entry with verbs := entry.verbs.map (·.stable) }

def Handler.stable (x : Handler) : Handler :=
  { x with verb := x.verb.stable }

def Endpoint.stable (e : Endpoint) : Endpoint :=
  { e with className := "", verbs := e.verbs.map (·.stable) }

def Endpoints.stable (all : Endpoints) : Endpoints where
  endpoints := all.endpoints.map (·.stable)
  handlers  := all.handlers.map (·.stable)

-- Serializers that two resolutions give for the same schemas.
structure SerializersAlike (naming : Serializer.Naming)
    (serializers serializers' : List Serializer) : Prop where
  find?    : ∀ key,
    Option.Rel (Serializer.Alike naming) (Serializer.find? serializers key)
      (Serializer.find? serializers' key)
  declared : ∀ key s,
    Serializer.find? serializers key = some s → s.declared = key.declaredName?.isSome

-- Uses of a schema that refer to one serializer.
def UsesAlike {α : Type} (x y : α × Option SerializerRef × Bool) : Prop :=
  x.1 = y.1 ∧ x.2.1.map (·.stable) = y.2.1.map (·.stable) ∧ x.2.2 = y.2.2

variable {r r' : Resolution} {ids : Identifiers} {naming : Serializer.Naming} {path : String}
variable {serializers serializers' : List Serializer}

namespace Verb

theorem alike_serializerRef (h : SerializersAlike naming serializers serializers') (key : Pointer) :
    Alike (fun ref ref' => ref.stable = ref'.stable) (serializerRef serializers key)
      (serializerRef serializers' key) := by
  simp only [serializerRef]
  obtain ⟨hx, hy⟩ | ⟨s, s', hx, hy, hs⟩ := rel_cases (h.find? key) <;> rw [hx, hy]
  case inl => exact .error
  case inr =>
    refine .ok ?_
    simp only [SerializerRef.stable]
    split
    case isTrue hk => rw [hs.declared (h.declared key s hx ▸ hk)]
    case isFalse   => rfl

theorem alike_schemaUse (hr : r.Reordered r') (h : SerializersAlike naming serializers serializers')
    (p : Pointer) :
    Alike UsesAlike (schemaUse r serializers p) (schemaUse r' serializers' p) := by
  simp only [schemaUse]
  rw [hr.fieldType_eq, hr.usage?_eq]
  refine .bind_eq (.refl _) fun type => ?_
  split
  case h_1 => exact .ok ⟨rfl, rfl, rfl⟩
  case h_2 usage _ =>
    refine .bind (alike_serializerRef h usage.schema) fun ref ref' he => .ok ⟨rfl, ?_, rfl⟩
    exact congrArg some he

theorem alike_bodyUse (hr : r.Reordered r') (h : SerializersAlike naming serializers serializers')
    (body : Option Body) :
    Alike (fun b b' => b.map (·.stable) = b'.map (·.stable)) (bodyUse r serializers body)
      (bodyUse r' serializers' body) := by
  simp only [bodyUse]
  split
  case h_1 => exact .ok rfl
  case h_2 =>
    split
    case h_1 => exact .ok rfl
    case h_2 =>
      refine .bind (alike_schemaUse hr h _) ?_
      rintro ⟨_, _, _⟩ ⟨_, _, _⟩ ⟨ht, hs, hm⟩
      apply Alike.ok
      dsimp only at ht hs hm
      simp only [Option.map_some, BodyUse.stable, ht, hs, hm]

theorem alike_responseUse (hr : r.Reordered r')
    (h : SerializersAlike naming serializers serializers') (op : Operation) :
    Alike UsesAlike (responseUse r serializers op) (responseUse r' serializers' op) := by
  simp only [responseUse]
  split
  case h_1 => exact .ok ⟨rfl, rfl, rfl⟩
  case h_2 =>
    refine .bind (alike_schemaUse hr h _) ?_
    rintro _ _ ⟨ht, hs, hm⟩
    exact .ok ⟨congrArg some ht, hs, hm⟩

theorem alike_describe (hr : r.Reordered r') (h : SerializersAlike naming serializers serializers')
    (op : Operation) :
    Alike (fun v v' => v.stable = v'.stable) (describe ids r serializers path op)
      (describe ids r' serializers' path op) := by
  simp only [describe]
  rw [argumentsFrom_congr fun p _ => hr.agreeAt p]
  refine .bind_eq (.refl _) fun arguments => .bind_eq (.refl _) fun _ => ?_
  refine .bind (alike_bodyUse hr h _) fun _ _ hb => ?_
  refine .bind (alike_responseUse hr h _) ?_
  rintro ⟨_, _, _⟩ ⟨_, _, _⟩ ⟨ht, hs, hm⟩
  apply Alike.ok
  dsimp only at ht hs hm
  simp only [Verb.stable, hb, ht, hs, hm]

end Verb

namespace PathVerbs

variable {functions functions₁ : Namespace} {entries entries' : List PathEntry}
  {all : List PathVerbs}

theorem alike_describe (hr : r.Reordered r') (h : SerializersAlike naming serializers serializers')
    (entry : PathEntry) :
    Alike (fun e e' => e.stable = e'.stable) (describe ids r serializers entry)
      (describe ids r' serializers' entry) := by
  refine .bind (.mapM fun op _ => Verb.alike_describe hr h op) fun verbs verbs' hv => .ok ?_
  simp only [stable, map_eq_of_forall₂ hv]

-- The function names are claimed in any order, or in none.
theorem exists_ofEntries_eq_ok_of_perm (hr : r.Reordered r')
    (h : SerializersAlike naming serializers serializers') (hp : entries.Perm entries')
    (ho : ofEntries ids r serializers functions entries = .ok (all, functions₁)) :
    ∃ all' functions', ofEntries ids r' serializers' functions entries' = .ok (all', functions') ∧
      (all.map (·.stable)).Perm (all'.map (·.stable)) := by
  have ⟨hm, hf⟩ := ofEntries_eq_ok ho
  have ⟨_, hm, hall⟩ := exists_perm_of_mapM_eq_ok hp hm
  have ⟨all', hm', hs⟩ := (Alike.mapM fun entry _ => alike_describe hr h entry).exists_ok hm
  have ⟨functions', ho'⟩ := exists_ofEntries_eq_ok (hf.perm (hp.flatMap_right _)) hm'
  exact ⟨all', functions', ho', map_eq_of_forall₂ hs ▸ hall.map _⟩

end PathVerbs

@[simp]
theorem SerializerRef.stable_stable (ref : SerializerRef) : ref.stable.stable = ref.stable := by
  simp only [stable]
  split <;> simp_all

@[simp]
theorem Verb.stable_stable (v : Verb) : v.stable.stable = v.stable := by
  simp [stable, BodyUse.stable, Option.map_map, Function.comp_def]

theorem Route.ofVerbs_stable (entry : PathVerbs) : ofVerbs entry.stable = ofVerbs entry := by
  simp only [ofVerbs, PathVerbs.stable]
  cases entry.verbs
  case nil       => rfl
  case cons v vs => exact ofPath_congr (by simp [Verb.stable])

namespace Endpoints

variable {classes classes₁ : Namespace} {entries entries' : List PathVerbs} {all : Endpoints}

theorem stable_group (naming : Naming) (number : Nat) (entry : PathVerbs) (route : Route) :
    (group naming number entry route).stable = (group naming 0 entry.stable route).stable := by
  have hgrouped :
      entry.stable.verbs.filter (!·.standalone) =
        (entry.verbs.filter (!·.standalone)).map (·.stable) :=
    List.filter_map
  have hstandalone :
      entry.stable.verbs.filter (·.standalone) =
        (entry.verbs.filter (·.standalone)).map (·.stable) :=
    List.filter_map
  simp only [stable, group, hgrouped, hstandalone, List.isEmpty_map]
  split
  case isTrue  => simp [Handler.stable, PathVerbs.stable]
  case isFalse => simp [Handler.stable, Endpoint.stable, PathVerbs.stable]

-- What a path adds, apart from the class name.
def settled (naming : Naming) (entry : PathVerbs) : Endpoints :=
  match Route.ofVerbs entry with
  | .ok route => (group naming 0 entry route).stable
  | .error _  => {}

theorem stable_ofPaths (h : ofPaths naming classes entries = .ok (all, classes₁)) :
    all.stable.endpoints = (entries.map (·.stable)).flatMap (settled naming · |>.endpoints) ∧
    all.stable.handlers = (entries.map (·.stable)).flatMap (settled naming · |>.handlers) := by
  have ⟨parts, hf, he, hh⟩ := ofPaths_eq_ok h
  simp only [stable, he, hh]
  clear h he hh
  induction hf
  case nil => exact ⟨rfl, rfl⟩
  case cons entry part _ _ hp _ hi =>
    have ⟨route, number, hr, he⟩ := hp
    have hg := stable_group naming number entry route
    rw [← he] at hg
    simp only [List.map_cons, List.flatMap_cons, List.map_append, hi, settled, Route.ofVerbs_stable,
      hr, ← hg]
    exact ⟨rfl, rfl⟩

theorem exists_ofPaths_eq_ok_of_perm (classes' : Namespace)
    (hp : (entries.map (·.stable)).Perm (entries'.map (·.stable)))
    (h : ofPaths naming classes entries = .ok (all, classes₁)) :
    ∃ all' classes₂, ofPaths naming classes' entries' = .ok (all', classes₂) ∧
      all.stable.endpoints.Perm all'.stable.endpoints ∧
      all.stable.handlers.Perm all'.stable.handlers := by
  have ⟨parts, hf, _⟩ := ofPaths_eq_ok h
  have hr : ∀ entry' ∈ entries', ∃ route, Route.ofVerbs entry' = .ok route := by
    intro entry' hm
    have ⟨entry, hm, he⟩ := List.mem_map.mp (hp.mem_iff.mpr (List.mem_map_of_mem hm))
    have ⟨_, _, route, _, hr, _⟩ := exists_of_forall₂_of_mem hf.flip hm
    rw [← Route.ofVerbs_stable, he, Route.ofVerbs_stable] at hr
    exact ⟨route, hr⟩
  have ⟨⟨all', classes₂⟩, h'⟩ : ∃ x, ofPaths naming classes' entries' = .ok x :=
    exists_ofPaths_eq_ok hr
  have ⟨he, hh⟩ := stable_ofPaths h
  have ⟨he', hh'⟩ := stable_ofPaths h'
  exact ⟨all', classes₂, h', he ▸ he' ▸ hp.flatMap_right _, hh ▸ hh' ▸ hp.flatMap_right _⟩

theorem map_stable_operations (all : Endpoints) :
    all.operations.map (·.stable) = all.stable.operations := by
  simp [operations, stable, Endpoint.operations, Endpoint.stable, Handler.stable, List.map_flatMap,
    List.flatMap_map, Function.comp_def]

end Endpoints
end ApiDescriptors
