import ApiDescriptors.Document
import ApiDescriptors.Proofs.Positions
import ApiDescriptors.Proofs.Result
import Mathlib.Data.List.Nodup

namespace ApiDescriptors

open Result

-- A tree whose objects all have a property.
inductive Json.Every (p : Members → Prop) : Json → Prop
  | leaf {v} : v.arr? = none → v.obj? = none → Every p v
  | arr {items} : (∀ v ∈ items, Every p v) → Every p (.arr items)
  | obj {members : Members} : p members → (∀ m ∈ members, Every p m.2) → Every p (.obj members)

-- A tree in which no object has two members of one name.
inductive Json.Distinct : Json → Prop
  | leaf {v} : v.arr? = none → v.obj? = none → Distinct v
  | arr {items} : (∀ v ∈ items, Distinct v) → Distinct (.arr items)
  | obj {members : Members} : members.names.Nodup → (∀ m ∈ members, Distinct m.2) →
    Distinct (.obj members)

namespace Json.Every

variable {p q : Members → Prop} {v : Json} {members : Members} {items : List Json}

theorem of_obj (h : Every p (.obj members)) : p members ∧ ∀ m ∈ members, m.2.Every p := by
  cases h
  case leaf h    => cases h
  case obj hp hv => exact ⟨hp, hv⟩

theorem of_arr (h : Every p (.arr items)) : ∀ v ∈ items, v.Every p := by
  cases h
  case leaf h _ => cases h
  case arr h    => exact h

theorem mono (hq : ∀ members, p members → q members) (h : v.Every p) : v.Every q := by
  induction h
  case leaf ha ho  => exact .leaf ha ho
  case arr hi      => exact .arr hi
  case obj hp _ hi => exact .obj (hq _ hp) hi

theorem distinct (h : v.Every (·.names.Nodup)) : v.Distinct := by
  induction h
  case leaf ha ho  => exact .leaf ha ho
  case arr hi      => exact .arr hi
  case obj hn _ hi => exact .obj hn hi

end Json.Every

namespace Members

structure Distinct (members : Members) : Prop where
  nodup  : members.names.Nodup
  values : ∀ m ∈ members, m.2.Distinct

-- Members as a mapping has them once its merges are made.
structure Merged (members : Members) : Prop where
  nodup   : members.names.Nodup
  not_mem : Document.mergeKey ∉ members.names

variable {members others source : Members} {sources : List Members} {name : String} {value : Json}
  {m : String × Json}

theorem distinct_nil : Distinct [] :=
  ⟨List.nodup_nil, nofun⟩

@[simp]
theorem names_nil : names [] = [] :=
  rfl

@[simp]
theorem names_cons (m : String × Json) (members : Members) :
    names (m :: members) = m.1 :: names members :=
  rfl

@[simp]
theorem names_append (members others : Members) :
    names (members ++ others) = names members ++ names others :=
  List.map_append ..

theorem mem_names_iff : name ∈ members.names ↔ (members.lookup name).isSome := by
  rw [List.lookup_isSome_iff, names, List.mem_map]
  exact exists_congr fun _ => and_congr_right' (eq_comm.trans beq_iff_eq.symm)

theorem lookup_eq_none_of_not_mem (h : name ∉ members.names) : members.lookup name = none :=
  Option.not_isSome_iff_eq_none.mp fun hs => h (mem_names_iff.mpr hs)

-- Members with one name more, if it is new.
def Adds (members : Members) (name : String) (others : Members) : Prop :=
  others.names = if name ∈ members.names then members.names else members.names ++ [name]

theorem adds_insert : members.Adds name (members.insert name value) := by
  induction members
  case nil => simp [Adds, insert]
  case cons member members hi =>
    rw [Adds, insert]
    split
    case isTrue he  => simp [he]
    case isFalse hn =>
      simp only [names_cons, List.mem_cons, Ne.symm hn, false_or, show _ = _ from hi]
      split <;> rfl

theorem insert_of_not_mem (h : name ∉ members.names) (value : Json) :
    members.insert name value = members ++ [(name, value)] := by
  induction members
  case nil => rfl
  case cons m members hi =>
    have ⟨hne, hn⟩ := List.ne_and_not_mem_of_not_mem_cons h
    rw [insert, if_neg hne.symm, hi hn, List.cons_append]

theorem adds_insertNew : members.Adds name (members.insertNew name value) := by
  simp only [Adds, insertNew, mem_names_iff]
  split
  · rfl
  · simp

theorem mem_insert (h : m ∈ members.insert name value) : m ∈ members ∨ m.2 = value := by
  induction members
  case nil => exact .inr (List.mem_singleton.mp h ▸ rfl)
  case cons member members hi =>
    rw [insert] at h
    split at h <;> cases h
    case isTrue.head    => exact .inr rfl
    case isTrue.tail h  => exact .inl (List.mem_cons_of_mem _ h)
    case isFalse.head   => exact .inl List.mem_cons_self
    case isFalse.tail h => exact (hi h).imp_left (List.mem_cons_of_mem _)

theorem mem_insertNew (h : m ∈ members.insertNew name value) : m ∈ members ∨ m.2 = value := by
  simp only [insertNew] at h
  split at h
  case isTrue  => exact .inl h
  case isFalse =>
    refine (List.mem_append.mp h).imp_right fun h => ?_
    rw [List.mem_singleton.mp h]

-- Many merges are one, of all that is merged in its order.
theorem foldl_merge : sources.foldl merge members = members.merge sources.flatten :=
  List.foldl_flatten.symm

theorem Merged.adds (h : members.Merged) (hn : name ≠ Document.mergeKey)
    (ha : members.Adds name others) : others.Merged := by
  rw [Adds] at ha
  split at ha
  case isTrue => exact ⟨ha ▸ h.nodup, ha ▸ h.not_mem⟩
  case isFalse hm =>
    have hnodup := List.nodup_append.mpr ⟨h.nodup, List.nodup_singleton name, by grind⟩
    exact ⟨ha ▸ hnodup, ha ▸ by simpa using ⟨h.not_mem, Ne.symm hn⟩⟩

end Members

namespace Json.Every

variable {members source : Members} {f : Members → String × Json → Members}

theorem foldl (h : Every Members.Merged (.obj members))
    (hs : ∀ m ∈ source, m.1 ≠ Document.mergeKey ∧ m.2.Every Members.Merged)
    (ha : ∀ members m, Members.Adds members m.1 (f members m))
    (hf : ∀ members m n, n ∈ f members m → n ∈ members ∨ n.2 = m.2) :
    Every Members.Merged (.obj (source.foldl f members)) := by
  induction source generalizing members
  case nil => exact h
  case cons m source hi =>
    have ⟨⟨hn, hv⟩, hs⟩ := List.forall_mem_cons.mp hs
    have ⟨hm, hvs⟩ := h.of_obj
    refine hi (.obj (hm.adds hn (ha members m)) fun n hm => ?_) hs
    cases hf members m n hm
    case inl hm => exact hvs n hm
    case inr he => exact he ▸ hv

end Json.Every

namespace Json

variable {v w : Json} {members : Members} {items : List Json} {p : Pointer}

-- What passes from values to their parts passes to all that pointers lead to.
theorem of_lookup? {q : Json → Prop} (harr : ∀ items, q (.arr items) → ∀ v ∈ items, q v)
    (hobj : ∀ members, q (.obj members) → ∀ m ∈ members, q m.2) (hv : q v)
    (h : p.lookup? v = some w) : q w := by
  have ⟨segments⟩ := p
  induction segments generalizing v
  case nil => cases h; exact hv
  case cons segment segments hi =>
    obtain ⟨u, hs, hu⟩ := Option.bind_eq_some_iff.mp h
    refine hi ?_ hu
    cases v <;> simp only [Pointer.step?, reduceCtorEq] at hs
    case arr items =>
      obtain ⟨i, _, hi⟩ := Option.bind_eq_some_iff.mp hs
      exact harr items hv u (List.mem_of_getElem? hi)
    case obj members => exact hobj members hv _ (mem_of_lookup hs)

namespace Distinct

theorem of_obj (h : Distinct (.obj members)) : members.Distinct := by
  cases h
  case leaf h    => cases h
  case obj hn hv => exact ⟨hn, hv⟩

theorem of_arr (h : Distinct (.arr items)) : ∀ v ∈ items, v.Distinct := by
  cases h
  case leaf h _ => cases h
  case arr h    => exact h

theorem lookup? (h : v.Distinct) (hp : p.lookup? v = some w) : w.Distinct :=
  of_lookup? (fun _ => of_arr) (fun _ h => h.of_obj.values) h hp

end Distinct
end Json

namespace Document

variable {node : Pointer} {sources : List Members} {v : Json}

theorem every_ofScalar {s : Yaml.Scalar} {p : Members → Prop} (h : ofScalar node s = .ok v) :
    v.Every p := by
  cases s <;> cases h <;> exact .leaf rfl rfl

theorem every_mergeSources {p : Members → Prop} (hv : v.Every p)
    (h : mergeSources node v = .ok sources) : ∀ source ∈ sources, (Json.obj source).Every p := by
  simp only [mergeSources] at h
  split at h
  case h_1 => cases h; simpa using hv
  case h_2 =>
    intro source hs
    have ⟨item, hi, he⟩ := mem_of_mapM_eq_ok h hs
    split at he <;> cases he
    exact hv.of_arr _ hi
  case h_3 => cases h

mutual

-- However often a key stands in a mapping and in what is merged into it, it becomes one member, and
-- the key that asks for a merge becomes none.
theorem every_tree {node : Pointer} {v : Json} :
    (value : Yaml.Value) → tree node value = .ok v → v.Every Members.Merged
  | .scalar _, h => every_ofScalar h
  | .seq items, h => by
    have ⟨_, hi, he⟩ := map_eq_ok.mp h
    exact he ▸ .arr (every_treeItems items hi)
  | .map entries, h => by
    have ⟨⟨_, _⟩, he, h⟩ := bind_eq_ok.mp h
    have ⟨hm, hx⟩ := every_treeEntries entries he (.obj ⟨List.nodup_nil, nofun⟩ nofun) nofun
    cases pure_eq_ok.mp h
    exact hm.foldl hx (fun _ _ => Members.adds_insert) fun _ _ _ => Members.mem_insert
  | .tagged _ value, h => every_tree value h

theorem every_treeItems {node : Pointer} {index : Nat} {vs : List Json} :
    (items : List Yaml.Value) → treeItems node index items = .ok vs →
    ∀ v ∈ vs, v.Every Members.Merged
  | [], h => by cases h; exact nofun
  | item :: items, h => by
    have ⟨_, hf, h⟩ := bind_eq_ok.mp h
    have ⟨_, ho, h⟩ := bind_eq_ok.mp h
    cases pure_eq_ok.mp h
    exact List.forall_mem_cons.mpr ⟨every_tree item hf, every_treeItems items ho⟩

theorem every_treeEntries {node : Pointer} {merged merged' explicit explicit' : Members} :
    (entries : List (Yaml.Value × Yaml.Value)) →
    treeEntries node merged explicit entries = .ok (merged', explicit') →
    (Json.obj merged).Every Members.Merged →
    (∀ m ∈ explicit, m.1 ≠ mergeKey ∧ m.2.Every Members.Merged) →
    (Json.obj merged').Every Members.Merged ∧
      ∀ m ∈ explicit', m.1 ≠ mergeKey ∧ m.2.Every Members.Merged
  | [], h, hm, hx => by cases h; exact ⟨hm, hx⟩
  | (key, value) :: entries, h, hm, hx => by
    rw [treeEntries] at h
    split at h
    case h_1 => cases h
    case h_2 =>
      have ⟨v, hv, h⟩ := bind_eq_ok.mp h
      have hv := every_tree value hv
      split at h
      case isTrue =>
        have ⟨sources, hs, h⟩ := bind_eq_ok.mp h
        have hs := every_mergeSources hv hs
        refine every_treeEntries entries h ?_ hx
        rw [Members.foldl_merge]
        refine hm.foldl (fun m hm => ?_) (fun _ _ => Members.adds_insertNew)
          fun _ _ _ => Members.mem_insertNew
        have ⟨source, hsource, hm⟩ := List.mem_flatten.mp hm
        have ⟨hmerged, hvs⟩ := (hs source hsource).of_obj
        exact ⟨fun he => hmerged.not_mem (he ▸ List.mem_map_of_mem hm), hvs m hm⟩
      case isFalse hn =>
        refine every_treeEntries entries h hm fun m hm => ?_
        cases List.mem_append.mp hm
        case inl hm => exact hx m hm
        case inr hm => exact List.mem_singleton.mp hm ▸ ⟨hn, hv⟩

end

theorem ofValue_eq_ok {value : Yaml.Value} {d : Document} :
    ofValue value = .ok d ↔ tree .root value = .ok d.root ∧ dialectOf d.root = .ok d.dialect := by
  constructor
  case mp =>
    intro h
    obtain ⟨_, ht, h⟩ := bind_eq_ok.mp h
    obtain ⟨_, hd, h⟩ := bind_eq_ok.mp h
    cases pure_eq_ok.mp h
    exact ⟨ht, hd⟩
  case mpr =>
    rintro ⟨ht, hd⟩
    exact bind_eq_ok.mpr ⟨_, ht, bind_eq_ok.mpr ⟨_, hd, rfl⟩⟩

theorem ofValue_of_tree {value : Yaml.Value} {d : Document} (ht : tree .root value = .ok d.root)
    (hd : (dialectOf d.root).toOption = some d.dialect) : ofValue value = .ok d :=
  ofValue_eq_ok.mpr ⟨ht, eq_ok_of_toOption_eq_some hd⟩

theorem every_ofValue {value : Yaml.Value} {d : Document} (h : ofValue value = .ok d) :
    d.root.Every Members.Merged :=
  every_tree value (ofValue_eq_ok.mp h).left

theorem distinct_ofValue {value : Yaml.Value} {d : Document} (h : ofValue value = .ok d) :
    d.root.Distinct ∧ dialectOf d.root = .ok d.dialect :=
  ⟨((every_ofValue h).mono fun _ => Members.Merged.nodup).distinct, (ofValue_eq_ok.mp h).right⟩

end Document
end ApiDescriptors
