import ApiDescriptors.Proofs.Sites
import Mathlib.Data.List.Induction

namespace ApiDescriptors

open Result Record

-- The name and the location that a parameter is known by.
def Parameter.key (p : Parameter) : String × Location :=
  (p.object.name, p.location)

namespace Declared

-- What an entry of a parameter list is known by. There is one body at most, so it needs no key.
def key : Declared → Option (String × Location)
  | parameter p => some p.key
  | body _      => none

def parameter? : Declared → Option Parameter
  | parameter p => some p
  | body _      => none

def body? : Declared → Option Body
  | parameter _ => none
  | body b      => some b

-- The name by which an error refers to an entry.
def name : Declared → String
  | parameter p => p.object.name
  | body _      => "body"

end Declared

namespace Paths

def keys (list : List Declared) : List (Option (String × Location)) :=
  list.map (·.key)

-- The entries whose key no entry before them has, neither in the list nor ahead of it.
def unseen (before list : List Declared) : List Declared :=
  (list.zipIdx.filter fun entry => entry.1.key ∉ keys (before ++ list.take entry.2)).map (·.1)

-- The inputs that a list declares: its parameters, and the first body.
def Inputs.of (list : List Declared) : Inputs where
  parameters := list.filterMap (·.parameter?)
  body       := (list.filterMap (·.body?)).head?

variable {node : Pointer} {before own shared list : List Declared} {x : Declared} {p : Parameter}
  {b : Body} {inputs : Inputs} {key : Option (String × Location)}

theorem mem_keys_append :
    key ∈ keys (before ++ list) ↔ key ∈ keys before ∨ key ∈ keys list := by
  rw [keys, List.map_append, List.mem_append, keys, keys]

theorem mem_keys_concat : key ∈ keys (list ++ [x]) ↔ key ∈ keys list ∨ key = x.key := by
  rw [mem_keys_append]
  exact or_congr_right List.mem_singleton

theorem nodup_keys_concat :
    (keys (list ++ [x])).Nodup ↔ (keys list).Nodup ∧ x.key ∉ keys list := by
  simp [keys, List.nodup_append]

theorem unseen_concat (before list : List Declared) (x : Declared) :
    unseen before (list ++ [x]) =
      unseen before list ++ if x.key ∈ keys (before ++ list) then [] else [x] := by
  have hsame : list.zipIdx.filter (fun e => e.1.key ∉ keys (before ++ (list ++ [x]).take e.2)) =
      list.zipIdx.filter fun e => e.1.key ∉ keys (before ++ list.take e.2) := by
    refine List.filter_congr fun e he => ?_
    have hi := List.snd_lt_of_mem_zipIdx he
    rw [List.take_append_of_le_length (by omega)]
  rw [unseen, List.zipIdx_append, List.filter_append, List.map_append, hsame, ← unseen]
  simp only [List.zipIdx_singleton, List.filter_singleton]
  split <;> simp_all

theorem unseen_concat_of_mem (h : x.key ∈ keys (before ++ list)) :
    unseen before (list ++ [x]) = unseen before list := by
  rw [unseen_concat, if_pos h, List.append_nil]

theorem unseen_concat_of_not_mem (h : x.key ∉ keys (before ++ list)) :
    unseen before (list ++ [x]) = unseen before list ++ [x] := by
  rw [unseen_concat, if_neg h]

-- What is left out is known by the key of something that is not.
theorem mem_keys_unseen :
    key ∈ keys (before ++ unseen before list) ↔ key ∈ keys (before ++ list) := by
  induction list using List.reverseRecOn generalizing key
  case nil => rfl
  case append_singleton list x hi =>
    rw [← List.append_assoc, mem_keys_concat, ← hi]
    by_cases hx : x.key ∈ keys (before ++ list)
    case pos =>
      rw [unseen_concat_of_mem hx]
      exact ⟨.inl, (·.elim id (· ▸ hi.mpr hx))⟩
    case neg => rw [unseen_concat_of_not_mem hx, ← List.append_assoc, mem_keys_concat]

theorem nodup_keys_unseen (h : (keys before).Nodup) :
    (keys (before ++ unseen before list)).Nodup := by
  induction list using List.reverseRecOn
  case nil => simpa [unseen] using h
  case append_singleton list x hi =>
    by_cases hx : x.key ∈ keys (before ++ list)
    case pos => rwa [unseen_concat_of_mem hx]
    case neg =>
      rw [unseen_concat_of_not_mem hx, ← List.append_assoc, nodup_keys_concat, mem_keys_unseen]
      exact ⟨hi, hx⟩

namespace Inputs

theorem of_concat_parameter : of (list ++ [.parameter p]) = (of list).add p := by
  simp [of, add, Declared.parameter?, Declared.body?]

theorem of_concat_body :
    of (list ++ [.body b]) = { of list with body := (of list).body.or (some b) } := by
  simp only [of, List.filterMap_append, List.head?_append]
  simp [Declared.parameter?, Declared.body?]

theorem has_of : (of list).has p ↔ some p.key ∈ keys list := by
  induction list using List.reverseRecOn
  case nil => simp [of, has, keys]
  case append_singleton list x hi =>
    rw [mem_keys_concat, ← hi]
    cases x
    case parameter q =>
      simp [of_concat_parameter, has, add, Declared.key, Parameter.key,
        @eq_comm _ p.object.name, @eq_comm _ p.location]
    case body b => simp [of_concat_body, has, Declared.key]

theorem isSome_body_of : (of list).body.isSome ↔ none ∈ keys list := by
  induction list using List.reverseRecOn
  case nil => simp [of, keys]
  case append_singleton list x hi =>
    rw [mem_keys_concat, ← hi]
    cases x
    case parameter q => simp [of_concat_parameter, add, Declared.key]
    case body b      => simp [of_concat_body, Declared.key]

-- An entry whose key is there already is refused in a list of its own and left out in an inherited
-- one, whether it is a parameter or a body.

theorem addOwn_of_mem (h : x.key ∈ keys list) :
    addOwn node (of list) x = .error (.duplicateParameter x.name node) := by
  cases x
  case parameter p => exact if_pos (has_of.mpr h)
  case body b      => exact if_pos (isSome_body_of.mpr h)

theorem addOwn_of_not_mem (h : x.key ∉ keys list) :
    addOwn node (of list) x = .ok (of (list ++ [x])) := by
  cases x
  case parameter p =>
    rw [of_concat_parameter]
    exact if_neg fun hp => h (has_of.mp hp)
  case body b =>
    have hb : ¬(of list).body.isSome := fun hb => h (isSome_body_of.mp hb)
    rw [of_concat_body, Option.not_isSome_iff_eq_none.mp hb]
    exact if_neg hb

theorem addInherited_of_mem (h : x.key ∈ keys list) : addInherited (of list) x = of list := by
  cases x
  case parameter p => exact if_pos (has_of.mpr h)
  case body b      => rw [addInherited, Option.or_of_isSome (isSome_body_of.mpr h)]

theorem addInherited_of_not_mem (h : x.key ∉ keys list) :
    addInherited (of list) x = of (list ++ [x]) := by
  cases x
  case parameter p =>
    rw [of_concat_parameter]
    exact if_neg fun hp => h (has_of.mp hp)
  case body b => exact of_concat_body.symm

theorem foldlM_addOwn_eq_ok (h : (keys before).Nodup) :
    own.foldlM (addOwn node) (of before) = .ok inputs ↔
      (keys (before ++ own)).Nodup ∧ inputs = of (before ++ own) := by
  induction own generalizing before
  case nil => simpa [h, pure_eq_ok] using eq_comm
  case cons x own hi =>
    rw [List.foldlM_cons, List.append_cons]
    by_cases hx : x.key ∈ keys before
    case pos =>
      have hdup : ¬(keys (before ++ [x] ++ own)).Nodup := by
        rw [keys, List.map_append]
        exact fun hn => (nodup_keys_concat.mp hn.of_append_left).right hx
      rw [addOwn_of_mem hx]
      exact ⟨nofun, fun hn => absurd hn.left hdup⟩
    case neg => rw [addOwn_of_not_mem hx, ok_bind, hi (nodup_keys_concat.mpr ⟨h, hx⟩)]

theorem foldl_addInherited :
    shared.foldl addInherited (of own) = of (own ++ unseen own shared) := by
  induction shared using List.reverseRecOn
  case nil => simp [unseen]
  case append_singleton shared x hi =>
    rw [List.foldl_concat, hi]
    by_cases hx : x.key ∈ keys (own ++ shared)
    case pos => rw [unseen_concat_of_mem hx, addInherited_of_mem (mem_keys_unseen.mpr hx)]
    case neg =>
      rw [unseen_concat_of_not_mem hx, ← List.append_assoc,
        addInherited_of_not_mem fun hu => hx (mem_keys_unseen.mp hu)]

theorem ofDeclared_eq_ok :
    ofDeclared node own shared = .ok inputs ↔
      (keys own).Nodup ∧ inputs = of (own ++ unseen own shared) := by
  have hown {start : Inputs} :
      own.foldlM (addOwn node) {} = .ok start ↔ (keys own).Nodup ∧ start = of own :=
    foldlM_addOwn_eq_ok (show (keys []).Nodup from List.nodup_nil)
  rw [ofDeclared, bind_eq_ok]
  simp only [hown, pure_eq_ok, and_assoc, exists_and_left, exists_eq_left, foldl_addInherited]
  exact and_congr_right fun _ => eq_comm

theorem nodup_parameters_of (h : (keys list).Nodup) :
    ((of list).parameters.map (·.key)).Nodup := by
  have hk : (of list).parameters.map (·.key) = (keys list).filterMap id := by
    rw [of, keys, List.map_filterMap, List.filterMap_map]
    exact List.filterMap_congr fun x _ => by cases x <;> rfl
  rw [hk]
  exact h.filterMap fun _ _ _ hx hy => hx.trans hy.symm

theorem body_of_unseen : (of (own ++ unseen own shared)).body = (of (own ++ shared)).body := by
  induction shared using List.reverseRecOn
  case nil => rfl
  case append_singleton shared x hi =>
    rw [← List.append_assoc own]
    by_cases hx : x.key ∈ keys (own ++ shared)
    case pos =>
      rw [unseen_concat_of_mem hx, hi]
      cases x
      case parameter p => rw [of_concat_parameter, add]
      case body b      => rw [of_concat_body, Option.or_of_isSome (isSome_body_of.mpr hx)]
    case neg =>
      rw [unseen_concat_of_not_mem hx, ← List.append_assoc]
      cases x
      case parameter p => rw [of_concat_parameter, of_concat_parameter, add, add, hi]
      case body b      => rw [of_concat_body, of_concat_body, hi]

end Inputs
end Paths
end ApiDescriptors
