import ApiDescriptors.Objects
import ApiDescriptors.Proofs.Document

namespace ApiDescriptors

open Result

namespace Result

variable {ε α β γ : Type} {step : α → γ → Except ε α} {get : α → β} {l : List γ} {a a' : α}

-- What every step of a fold keeps holds at its end.
theorem foldlM_invariant {P : α → Prop} (ha : P a)
    (hf : ∀ x ∈ l, ∀ a a', P a → step a x = .ok a' → P a') (h : l.foldlM step a = .ok a') :
    P a' := by
  induction l generalizing a
  case nil => cases h; exact ha
  case cons x l hi =>
    rw [List.foldlM_cons] at h
    have ⟨b, hb, h⟩ := bind_eq_ok.mp h
    exact hi (hf x List.mem_cons_self a b ha hb) (fun y hy => hf y (List.mem_cons_of_mem _ hy)) h

-- What no step of a fold touches stays as it was.
theorem foldlM_frame (hf : ∀ x ∈ l, ∀ a a', step a x = .ok a' → get a' = get a)
    (h : l.foldlM step a = .ok a') : get a' = get a :=
  foldlM_invariant (P := fun b => get b = get a) rfl
    (fun x hx b b' hb hs => (hf x hx b b' hs).trans hb) h

-- What one step of a fold alone touches is what this step makes of it.
theorem foldlM_frame_of_mem (key : γ → String) {x : γ} (hn : (l.map key).Nodup) (hx : x ∈ l)
    (hf : ∀ y ∈ l, key y ≠ key x → ∀ a a', step a y = .ok a' → get a' = get a)
    (h : l.foldlM step a = .ok a') :
    ∃ b b', get b = get a ∧ step b x = .ok b' ∧ get a' = get b' := by
  obtain ⟨before, after, rfl⟩ := List.append_of_mem hx
  rw [List.map_append, List.map_cons, List.nodup_append'] at hn
  obtain ⟨-, hafter, hbefore⟩ := hn
  rw [List.foldlM_append] at h
  have ⟨b, hb, h⟩ := bind_eq_ok.mp h
  rw [List.foldlM_cons] at h
  have ⟨b', hb', h⟩ := bind_eq_ok.mp h
  refine ⟨b, b', foldlM_frame (fun y hy => ?_) hb, hb', foldlM_frame (fun y hy => ?_) h⟩
  · have hne : key y ≠ key x := fun he =>
      hbefore (List.mem_map_of_mem hy) (he ▸ List.mem_cons_self)
    exact hf y (List.mem_append_left _ hy) hne
  · have hne : key y ≠ key x := fun he =>
      (List.nodup_cons.mp hafter).left (he ▸ List.mem_map_of_mem hy)
    exact hf y (List.mem_append_right _ (List.mem_cons_of_mem _ hy)) hne

end Result

namespace Record

theorem within_eq_ok {α : Type} {crumb : Crumb} {x : Except Fault α} {a : α} :
    within crumb x = .ok a ↔ x = .ok a :=
  Result.mapError_eq_ok

namespace Rules

variable {α β : Type} {rules : Rules α} {name : String} {get : α → β} {value : Json} {a : α}
  {members : Members} {items : List Json}

-- The value for a field, in either notation of a record.
def member? (rules : Rules α) (name : String) : Json → Option Json
  | .obj members => members.lookup name
  | .arr items   => (rules.fields.findIdx? (·.1 = name)).bind (items[·]?)
  | _            => none

-- The part of a record that one field alone is read into.
def Owns (rules : Rules α) (name : String) (get : α → β) : Prop :=
  ∀ other value a a', other ≠ name → rules.set other value a = .ok a' → get a' = get a

-- A part of a record that one field owns is its default, or what is read from the value for this
-- field.
inductive Yields (rules : Rules α) (name : String) (get : α → β) (value : Json) (a : α) : Prop
  | absent : rules.member? name value = none → get a = get rules.start →
    Yields rules name get value a
  | present {v b b'} : rules.member? name value = some v → rules.set name v b = .ok b' →
    get a = get b' → Yields rules name get value a

namespace Owns

variable (ho : rules.Owns name get)
include ho

theorem yields_ofMembers (hn : members.names.Nodup) (hm : (rules.fields.lookup name).isSome)
    (h : rules.ofMembers members = .ok a) : rules.Yields name get (.obj members) a := by
  have ⟨b, hf, h⟩ := bind_eq_ok.mp h
  dsimp only at h
  split at h <;> cases h
  have hframe (m : String × Json) (hne : m.1 ≠ name) (b b' : α)
      (hs : (if (rules.fields.lookup m.1).isSome then within (.field m.1) (rules.set m.1 m.2 b)
        else .ok b) = .ok b') : get b' = get b := by
    split at hs
    case isTrue  => exact ho _ _ _ _ hne (within_eq_ok.mp hs)
    case isFalse => cases hs; rfl
  cases hl : members.lookup name
  case none =>
    refine .absent hl (foldlM_frame (fun m hm => hframe m fun he => ?_) hf)
    have ⟨_, hs⟩ := Json.exists_lookup_of_mem_names (List.mem_map.mpr ⟨m, hm, he⟩)
    cases hl.symm.trans hs
  case some v =>
    have ⟨b, b', _, hs, he⟩ := foldlM_frame_of_mem Prod.fst hn (mem_of_lookup hl)
      (fun m _ => hframe m) hf
    dsimp only at hs
    rw [if_pos hm] at hs
    exact .present hl (within_eq_ok.mp hs) he

theorem yields_ofItems (hn : (rules.fields.map (·.1)).Nodup)
    (hm : (rules.fields.lookup name).isSome) (h : rules.ofItems items = .ok a) :
    rules.Yields name get (.arr items) a := by
  have ⟨i, hi⟩ : ∃ i, rules.fields.findIdx? (·.1 = name) = some i := by
    have ⟨field, hf, he⟩ := List.lookup_isSome_iff.mp hm
    rw [← Option.isSome_iff_exists, List.findIdx?_isSome]
    exact List.any_eq_true.mpr ⟨field, hf, decide_eq_true (eq_of_beq he).symm⟩
  have ⟨hlt, he, _⟩ := List.findIdx?_eq_some_iff_getElem.mp hi
  have hfield : (rules.fields[i], i) ∈ rules.fields.zipIdx :=
    List.mem_zipIdx_iff_getElem?.mpr (List.getElem?_eq_getElem hlt)
  have hkeys : (rules.fields.zipIdx.map (·.1.1)).Nodup := by
    have hz : rules.fields.zipIdx.map (·.1.1) = rules.fields.map (·.1) := by
      conv_rhs => rw [← List.zipIdx_map_fst 0 rules.fields, List.map_map]
      rfl
    exact hz ▸ hn
  have he := of_decide_eq_true he
  have ⟨b, hf, h⟩ := bind_eq_ok.mp h
  split at h <;> cases h
  have ⟨b, b', hb, hs, hget⟩ := foldlM_frame_of_mem (·.1.1) hkeys hfield
    (fun m _ hne b b' hs => (?frame : get b' = get b)) hf
  case frame =>
    dsimp only at hs
    split at hs
    case h_1 => exact ho _ _ _ _ (he ▸ hne) (within_eq_ok.mp hs)
    case h_2 => split at hs <;> cases hs; rfl
  dsimp only at hs
  split at hs
  case h_1 v hv => exact .present (by simp [member?, hi, hv]) (he ▸ within_eq_ok.mp hs) hget
  case h_2 hv =>
    split at hs <;> cases hs
    exact .absent (by simp [member?, hi, hv]) (hget.trans hb)

theorem yields_read (hn : (rules.fields.map (·.1)).Nodup) (hm : (rules.fields.lookup name).isSome)
    (hv : value.Distinct) (h : rules.read value = .ok a) : rules.Yields name get value a := by
  cases value
  case obj members => exact ho.yields_ofMembers hv.of_obj.nodup hm h
  case arr items   => exact ho.yields_ofItems hn hm h
  all_goals cases h

end Owns

-- A part of a record that one field alone is read into, by this reader.
def Reads (rules : Rules α) (name : String) (get : α → β) (reader : Reader β) : Prop :=
  ∀ other value a a', rules.set other value a = .ok a' →
    if other = name then reader value = .ok (get a') else get a' = get a

theorem Reads.owns {reader : Reader β} (h : rules.Reads name get reader) : rules.Owns name get :=
  fun other value a a' hne hs => by simpa [hne] using h other value a a' hs

theorem Reads.of_read {reader : Reader β} (h : rules.Reads name get reader)
    (hn : (rules.fields.map (·.1)).Nodup) (hm : (rules.fields.lookup name).isSome)
    (hv : value.Distinct) (hr : rules.read value = .ok a) :
    (rules.member? name value = none ∧ get a = get rules.start) ∨
    ∃ v, rules.member? name value = some v ∧ reader v = .ok (get a) := by
  cases h.owns.yields_read hn hm hv hr
  case absent hv hg         => exact .inl ⟨hv, hg⟩
  case present v b b' hv hs hg =>
    have hb := h name v b b' hs
    rw [if_pos rfl] at hb
    exact .inr ⟨v, hv, hg ▸ hb⟩

theorem Reads.read_member {reader : Reader β} {v : Json} (h : rules.Reads name get reader)
    (hn : (rules.fields.map (·.1)).Nodup) (hm : (rules.fields.lookup name).isSome)
    (hv : value.Distinct) (hr : rules.read value = .ok a) (hs : rules.member? name value = some v) :
    reader v = .ok (get a) := by
  obtain ⟨hs', _⟩ | ⟨w, hs', hg⟩ := h.of_read hn hm hv hr
  case inl => cases hs.symm.trans hs'
  case inr => exact Option.some.inj (hs.symm.trans hs') ▸ hg

theorem read_of_readAt {node : Pointer} (h : rules.readAt node value = .ok a) :
    rules.read value = .ok a := by
  simp only [readAt] at h
  cases hr : rules.read value <;> rw [hr] at h <;> cases h
  rfl

end Rules

variable {α : Type} {v : Json}

theorem optional_eq_ok {reader : Reader α} {a : α} (h : optional reader v = .ok (some a)) :
    reader v = .ok a := by
  cases v
  case null => cases h
  all_goals
    have ⟨_, hr, ha⟩ := map_eq_ok.mp h
    exact Option.some.inj ha ▸ hr

theorem table_eq_ok {members : Members} (h : table v = .ok members) : v = .obj members := by
  cases v <;> cases h
  rfl

theorem listOf_any_eq_ok {items : List Json} (h : listOf any v = .ok items) : v = .arr items := by
  cases v
  case arr vs =>
    have hi := map_eq_of_mapM_eq_ok (p := Prod.fst) (q := id) h fun x y hx => by
      have hx : (.ok x.1 : Except Fault Json) = .ok y := hx
      exact (Except.ok.inj hx).symm
    rw [List.map_id, List.zipIdx_map_fst] at hi
    rw [hi]
  all_goals cases h

end Record

open Record

namespace OperationObject

theorem set_eq_ok {name : String} {value : Json} {o o' : OperationObject}
    (h : rules.set name value o = .ok o') :
    (if name = "parameters" then listOf any value = .ok o'.parameters
      else o'.parameters = o.parameters) ∧
    (if name = "requestBody" then optional any value = .ok o'.requestBody
      else o'.requestBody = o.requestBody) ∧
    if name = "responses" then table value = .ok o'.responses
      else o'.responses = o.responses := by
  simp only [rules] at h
  split at h
  case h_11 _ _ _ _ _ hp hb hr _ _ =>
    cases pure_eq_ok.mp h
    rw [if_neg hp, if_neg hb, if_neg hr]
    exact ⟨rfl, rfl, rfl⟩
  all_goals
    have ⟨_, hr, h⟩ := bind_eq_ok.mp h
    cases pure_eq_ok.mp h
    simp [hr]

theorem reads_parameters : rules.Reads "parameters" (·.parameters) (listOf any) :=
  fun _ _ _ _ h => (set_eq_ok h).left

theorem reads_requestBody : rules.Reads "requestBody" (·.requestBody) (optional any) :=
  fun _ _ _ _ h => (set_eq_ok h).right.left

theorem reads_responses : rules.Reads "responses" (·.responses) table :=
  fun _ _ _ _ h => (set_eq_ok h).right.right

-- Whether an operation asks for a handler of its own.
def isStandalone (value : Json) : Bool :=
  match rules.member? "x-appgen-standalone" value with
  | some (.bool standalone) => standalone
  | _                       => false

theorem owns_standalone : rules.Owns "x-appgen-standalone" (·.standalone) := by
  intro other value o o' hne h
  simp only [rules] at h
  split at h
  case h_10 => cases hne rfl
  case h_11 => cases pure_eq_ok.mp h; rfl
  all_goals
    have ⟨_, _, h⟩ := bind_eq_ok.mp h
    cases pure_eq_ok.mp h
    rfl

theorem standalone_of_readAt {node : Pointer} {value : Json} {object : OperationObject}
    (hv : value.Distinct) (h : rules.readAt node value = .ok object) :
    object.standalone = isStandalone value := by
  have hy := owns_standalone.yields_read (by decide) (by decide) hv (Record.Rules.read_of_readAt h)
  cases hy
  case absent hm hs => rw [hs, isStandalone, hm]; rfl
  case present v b b' hm hs hg =>
    have ⟨flag, hf, hs⟩ := bind_eq_ok.mp hs
    cases pure_eq_ok.mp hs
    rw [hg, isStandalone, hm]
    cases v <;> cases hf
    rfl

end OperationObject

namespace ParameterObject

theorem set_eq_ok {name : String} {value : Json} {o o' : ParameterObject}
    (h : rules.set name value o = .ok o') :
    (if name = "name" then text value = .ok o'.name else o'.name = o.name) ∧
    (if name = "in" then text value = .ok o'.location else o'.location = o.location) ∧
    (if name = "schema" then optional any value = .ok o'.schema else o'.schema = o.schema) ∧
    if name = "content" then optional table value = .ok o'.content
      else o'.content = o.content := by
  simp only [rules] at h
  split at h
  case h_10 _ hn hl _ _ hs hc _ _ _ =>
    cases pure_eq_ok.mp h
    rw [if_neg hn, if_neg hl, if_neg hs, if_neg hc]
    exact ⟨rfl, rfl, rfl, rfl⟩
  all_goals
    have ⟨_, hr, h⟩ := bind_eq_ok.mp h
    cases pure_eq_ok.mp h
    simp [hr]

theorem reads_name : rules.Reads "name" (·.name) text :=
  fun _ _ _ _ h => (set_eq_ok h).left

theorem reads_location : rules.Reads "in" (·.location) text :=
  fun _ _ _ _ h => (set_eq_ok h).right.left

theorem reads_schema : rules.Reads "schema" (·.schema) (optional any) :=
  fun _ _ _ _ h => (set_eq_ok h).right.right.left

theorem reads_content : rules.Reads "content" (·.content) (optional table) :=
  fun _ _ _ _ h => (set_eq_ok h).right.right.right

end ParameterObject

theorem RequestBodyObject.reads_content : rules.Reads "content" (·.content) table := by
  intro name value o o' h
  simp only [rules] at h
  split at h
  case h_4 _ _ hc => cases pure_eq_ok.mp h; rw [if_neg hc]
  all_goals
    have ⟨_, hr, h⟩ := bind_eq_ok.mp h
    cases pure_eq_ok.mp h
    simp [hr]

namespace ResponseObject

theorem set_eq_ok {name : String} {value : Json} {o o' : ResponseObject}
    (h : rules.set name value o = .ok o') :
    (if name = "schema" then optional any value = .ok o'.schema else o'.schema = o.schema) ∧
    if name = "content" then optional table value = .ok o'.content
      else o'.content = o.content := by
  simp only [rules] at h
  split at h
  case h_4 _ hs hc =>
    cases pure_eq_ok.mp h
    rw [if_neg hs, if_neg hc]
    exact ⟨rfl, rfl⟩
  all_goals
    have ⟨_, hr, h⟩ := bind_eq_ok.mp h
    cases pure_eq_ok.mp h
    simp [hr]

theorem reads_schema : rules.Reads "schema" (·.schema) (optional any) :=
  fun _ _ _ _ h => (set_eq_ok h).left

theorem reads_content : rules.Reads "content" (·.content) (optional table) :=
  fun _ _ _ _ h => (set_eq_ok h).right

end ResponseObject
end ApiDescriptors
