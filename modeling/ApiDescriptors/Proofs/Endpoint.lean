import ApiDescriptors.Endpoint
import ApiDescriptors.Proofs.Verb

namespace ApiDescriptors

open Result

namespace Route

variable {path : String} {first : Pointer} {verbs : List Verb} {route : Route}

-- A placeholder has the identifier and the type of an argument that some verb declares.
theorem exists_argument_of_mem_ofPath {name identifier : String} {type : FieldType}
    (h : ofPath path first verbs = .ok route) (hm : .argument name identifier type ∈ route) :
    ∃ v ∈ verbs, ∃ a ∈ v.arguments, a.identifier = identifier ∧ a.type = type := by
  have ⟨parts, _, h⟩ := bind_eq_ok.mp h
  have ⟨part, _, hs⟩ := mem_of_mapM_eq_ok h hm
  cases part
  case literal => cases hs
  case placeholder placeholder _ =>
    rw [segment] at hs
    split at hs
    case h_1 => cases hs
    case h_2 main others hd =>
      have ha : main ∈ declarations verbs placeholder := hd ▸ List.mem_cons_self
      have ⟨v, hv, ha⟩ := List.mem_flatMap.mp ha
      split at hs <;> cases hs
      exact ⟨v, hv, main, List.mem_of_mem_filter ha, rfl, rfl⟩

theorem specific_ofPath (path : String) (first : Pointer) (verbs : List Verb) :
    (ofPath path first verbs).Specific := by
  refine .bind (Template.failsWith_parse fun _ => rfl) fun _ _ => .mapM fun part _ => ?_
  cases part
  case literal => exact .ok _
  case placeholder =>
    rw [segment]
    split
    · exact .error rfl
    · split
      · exact .error rfl
      · exact .ok _

-- A route depends on the arguments of the verbs, and on nothing else that they say.
theorem declarations_congr {verbs' : List Verb}
    (h : verbs.map (·.arguments) = verbs'.map (·.arguments)) (name : String) :
    declarations verbs name = declarations verbs' name := by
  have hf (l : List Verb) : declarations l name =
      (l.map (·.arguments)).flatMap fun arguments =>
        arguments.filter fun a => a.location = .path ∧ a.name = name := by
    rw [declarations, List.flatMap_map]
  rw [hf, hf, h]

theorem ofPath_congr {verbs' : List Verb} (h : verbs.map (·.arguments) = verbs'.map (·.arguments)) :
    ofPath path first verbs = ofPath path first verbs' := by
  have hs : segment path first verbs = segment path first verbs' := by
    funext part
    cases part
    case literal     => rfl
    case placeholder => simp only [segment, declarations_congr h]
  simp only [ofPath, hs]

-- The route of a path with its verbs; without verbs there is nothing to route.
def ofVerbs (entry : PathVerbs) : Result Route :=
  match entry.verbs with
  | []         => .ok []
  | first :: _ => ofPath entry.path first.location entry.verbs

theorem exists_argument_of_mem_ofVerbs {entry : PathVerbs} {name identifier : String}
    {type : FieldType} (h : ofVerbs entry = .ok route)
    (hm : .argument name identifier type ∈ route) :
    ∃ v ∈ entry.verbs, ∃ a ∈ v.arguments, a.identifier = identifier ∧ a.type = type := by
  simp only [ofVerbs] at h
  split at h
  case h_1 => cases h; cases hm
  case h_2 => exact exists_argument_of_mem_ofPath h hm

theorem specific_ofVerbs (entry : PathVerbs) : (ofVerbs entry).Specific := by
  simp only [ofVerbs]
  split
  · exact .ok _
  · exact specific_ofPath _ _ _

end Route

-- The verbs of an endpoint, each with the path and the route by which it is reached.
def Endpoint.operations (e : Endpoint) : List Handler :=
  e.verbs.map fun verb => { path := e.path, route := e.route, verb }

def PathVerbs.operations (entry : PathVerbs) (route : Route) : List Handler :=
  entry.verbs.map fun verb => { path := entry.path, route, verb }

namespace Endpoints

variable {naming : Naming} {classes classes' : Namespace} {entries : List PathVerbs}
  {all part : Endpoints}

def operations (all : Endpoints) : List Handler :=
  all.endpoints.flatMap (·.operations) ++ all.handlers

-- What a path adds. The number in the class name is all that depends on the paths before.
def group (naming : Naming) (number : Nat) (entry : PathVerbs) (route : Route) : Endpoints where
  endpoints :=
    let verbs := entry.verbs.filter (!·.standalone)
    if verbs.isEmpty then []
    else [{
      className := Namespace.candidate naming.ids
        (DerivedName.endpoint entry.path naming.ids.casing) naming.suffix number
      path      := entry.path
      route, verbs
    }]
  handlers := (entry.verbs.filter (·.standalone)).map fun verb =>
    { path := entry.path, route, verb }

-- What a path adds once its route is known, and the names taken then.
def add (naming : Naming) (classes : Namespace) (entry : PathVerbs) (route : Route) :
    Endpoints × Namespace :=
  let path     := entry.path
  let handlers :=
    (entry.verbs.filter (·.standalone)).map fun verb => { path, route, verb : Handler }
  let verbs    := entry.verbs.filter (!·.standalone)
  if verbs.isEmpty then ({ handlers }, classes)
  else
    let base := DerivedName.endpoint path naming.ids.casing
    let (className, classes) := classes.claimFree naming.ids base naming.suffix entry.node
    ({ endpoints := [{ className, path, route, verbs }], handlers }, classes)

theorem ofPath_eq_map (entry : PathVerbs) :
    ofPath naming classes entry = add naming classes entry <$> Route.ofVerbs entry := by
  simp only [ofPath, Route.ofVerbs]
  cases hv : entry.verbs
  case nil => simp [add, hv, Functor.map, Except.map]
  case cons first others =>
    dsimp only
    cases Route.ofPath entry.path first.location (first :: others)
    case error => rfl
    case ok route =>
      simp only [ok_bind, Functor.map, Except.map, add, hv]
      split <;> rfl

theorem add_fst (naming : Naming) (classes : Namespace) (entry : PathVerbs) (route : Route) :
    ∃ number, (add naming classes entry route).1 = group naming number entry route := by
  have ⟨number, hn⟩ := classes.freeName_eq_candidate naming.ids
    (DerivedName.endpoint entry.path naming.ids.casing) naming.suffix
  refine ⟨number, ?_⟩
  simp only [add, group]
  split
  case isTrue  => rfl
  case isFalse => simp only [Namespace.claimFree, hn]

theorem ofPaths_eq_ok (h : ofPaths naming classes entries = .ok (all, classes')) :
    ∃ parts, List.Forall₂ (fun entry part =>
        ∃ route number, Route.ofVerbs entry = .ok route ∧
      part = group naming number entry route) entries parts ∧
      all.endpoints = parts.flatMap (·.endpoints) ∧ all.handlers = parts.flatMap (·.handlers) := by
  induction entries generalizing classes all
  case nil => cases h; exact ⟨[], .nil, rfl, rfl⟩
  case cons entry entries hi =>
    have ⟨⟨part, _⟩, hp, h⟩ := bind_eq_ok.mp h
    have ⟨⟨others, _⟩, ho, h⟩ := bind_eq_ok.mp h
    cases pure_eq_ok.mp h
    have ⟨parts, hf, he, hh⟩ := hi ho
    rw [ofPath_eq_map] at hp
    have ⟨route, hr, hp⟩ := map_eq_ok.mp hp
    have ⟨number, hn⟩ := add_fst naming classes entry route
    rw [hp] at hn
    exact ⟨part :: parts, .cons ⟨route, number, hr, hn⟩ hf, by simp [he], by simp [hh]⟩

-- Endpoints and handlers stand for entries, with what is in these.
theorem exists_of_mem_endpoints {e : Endpoint}
    (h : ofPaths naming classes entries = .ok (all, classes')) (he : e ∈ all.endpoints) :
    ∃ entry ∈ entries, ∃ route number, Route.ofVerbs entry = .ok route ∧ e = {
      className := Namespace.candidate naming.ids
        (DerivedName.endpoint entry.path naming.ids.casing) naming.suffix number
      path      := entry.path
      route
      verbs     := entry.verbs.filter (!·.standalone)
    } := by
  have ⟨_, hf, hall, _⟩ := ofPaths_eq_ok h
  have ⟨_, hp, he⟩ := List.mem_flatMap.mp (hall ▸ he)
  have ⟨entry, hm, route, number, hr, hg⟩ := exists_of_forall₂_of_mem hf hp
  subst hg
  simp only [group] at he
  split at he
  case isTrue  => cases he
  case isFalse => exact ⟨entry, hm, route, number, hr, List.mem_singleton.mp he⟩

theorem exists_of_mem_handlers {x : Handler}
    (h : ofPaths naming classes entries = .ok (all, classes')) (hx : x ∈ all.handlers) :
    ∃ entry ∈ entries, Route.ofVerbs entry = .ok x.route ∧ x.path = entry.path ∧
      x.verb ∈ entry.verbs := by
  have ⟨_, hf, _, hall⟩ := ofPaths_eq_ok h
  have ⟨_, hp, hx⟩ := List.mem_flatMap.mp (hall ▸ hx)
  have ⟨entry, hm, route, _, hr, hg⟩ := exists_of_forall₂_of_mem hf hp
  subst hg
  have ⟨_, hv, hx⟩ := List.mem_map.mp hx
  subst hx
  exact ⟨entry, hm, hr, rfl, List.mem_of_mem_filter hv⟩

theorem exists_ofPaths_eq_ok (h : ∀ entry ∈ entries, ∃ route, Route.ofVerbs entry = .ok route) :
    ∃ x, ofPaths naming classes entries = .ok x := by
  induction entries generalizing classes
  case nil => exact ⟨_, rfl⟩
  case cons entry entries hi =>
    have ⟨route, hr⟩ := h entry List.mem_cons_self
    have hp : ofPath naming classes entry = .ok (add naming classes entry route) := by
      rw [ofPath_eq_map, hr]; rfl
    have ⟨_, ho⟩ : ∃ x, ofPaths naming (add naming classes entry route).2 entries = .ok x :=
      hi fun entry hm => h entry (List.mem_cons_of_mem _ hm)
    exact ⟨_, bind_eq_ok.mpr ⟨_, hp, bind_eq_ok.mpr ⟨_, ho, rfl⟩⟩⟩

theorem failsWith_ofPaths {P : Error → Prop}
    (h : ∀ entry ∈ entries, (Route.ofVerbs entry).FailsWith P) :
    (ofPaths naming classes entries).FailsWith P := by
  induction entries generalizing classes
  case nil => exact .ok _
  case cons entry entries hi =>
    have hp : (ofPath naming classes entry).FailsWith P :=
      ofPath_eq_map entry ▸ (h entry List.mem_cons_self).map
    exact .bind hp fun _ _ =>
      .bind (hi fun entry hm => h entry (List.mem_cons_of_mem _ hm)) fun _ _ => .pure _

theorem specific_ofPaths : (ofPaths naming classes entries).Specific :=
  failsWith_ofPaths fun _ _ => Route.specific_ofVerbs _

-- A path without verbs for an endpoint has none.
theorem verbs_ne_nil_of_mem_endpoints {e : Endpoint}
    (h : ofPaths naming classes entries = .ok (all, classes')) (he : e ∈ all.endpoints) :
    e.verbs ≠ [] := by
  have ⟨_, hf, hall, _⟩ := ofPaths_eq_ok h
  have ⟨_, hp, he⟩ := List.mem_flatMap.mp (hall ▸ he)
  have ⟨_, _, _, _, _, hg⟩ := exists_of_forall₂_of_mem hf hp
  subst hg
  simp only [group] at he
  split at he
  case isTrue     => cases he
  case isFalse hn =>
    cases List.mem_singleton.mp he
    exact fun hv => hn (List.isEmpty_iff.mpr hv)

theorem perm_operations_group (naming : Naming) (number : Nat) (entry : PathVerbs) (route : Route) :
    (group naming number entry route).operations.Perm (entry.operations route) := by
  have hp := List.filter_append_perm (!·.standalone) entry.verbs
  have he : (group naming number entry route).endpoints.flatMap (·.operations) =
      (entry.verbs.filter (!·.standalone)).map fun verb => { path := entry.path, route, verb } := by
    simp only [group]
    split
    case isTrue he  => rw [List.isEmpty_iff.mp he]; rfl
    case isFalse he => simp [Endpoint.operations]
  rw [operations, he, group, PathVerbs.operations, ← List.map_append]
  simpa using hp.map _

-- Nothing is lost where verbs are grouped: each has the path and the route of its entry.
theorem perm_operations_ofPaths (h : ofPaths naming classes entries = .ok (all, classes')) :
    ∃ routes, entries.mapM Route.ofVerbs = .ok routes ∧
      all.operations.Perm ((entries.zipWith (·.operations) routes).flatten) := by
  have ⟨parts, hf, he, hh⟩ := ofPaths_eq_ok h
  rw [operations, he, hh]
  clear h he hh
  induction hf
  case nil => exact ⟨[], rfl, .rfl⟩
  case cons entry part entries parts hp hf hi =>
    have ⟨route, number, hr, he⟩ := hp
    have ⟨routes, hm, hi⟩ := hi
    refine ⟨route :: routes, mapM_eq_ok.mpr (.cons hr (mapM_eq_ok.mp hm)), ?_⟩
    have hg := perm_operations_group naming number entry route
    rw [← he, operations] at hg
    simp only [List.flatMap_cons, List.flatMap_append, List.zipWith_cons_cons, List.flatten_cons]
    refine .trans ?_ (hg.append hi)
    grind

theorem perm_map_operations_ofPaths {γ : Type} (f : String → Verb → γ)
    (h : ofPaths naming classes entries = .ok (all, classes')) :
    (all.operations.map fun x => f x.path x.verb).Perm
      (entries.flatMap fun entry => entry.verbs.map (f entry.path)) := by
  have ⟨routes, hm, hp⟩ := perm_operations_ofPaths h
  have hf : ((entries.zipWith (·.operations) routes).flatten).map (fun x => f x.path x.verb) =
      entries.flatMap fun entry => entry.verbs.map (f entry.path) := by
    have hl := mapM_eq_ok.mp hm
    clear h hm hp
    induction hl
    case nil       => rfl
    case cons _ hi => simpa [PathVerbs.operations, Function.comp_def] using hi
  exact hf ▸ hp.map _

end Endpoints
end ApiDescriptors
