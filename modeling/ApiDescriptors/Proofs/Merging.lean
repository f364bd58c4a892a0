import ApiDescriptors.Proofs.Entries

namespace ApiDescriptors

open Result

namespace Members

variable {members source explicit : Members} {sources : List Members} {name other : String}
  {value : Json}

-- A name that is there already keeps its place, and one that is new comes last.
theorem names_foldl {f : Members → String × Json → Members} {before : List String}
    (ha : ∀ members m, Members.Adds members m.1 (f members m))
    (h : members.names = before.eraseDups) :
    (source.foldl f members).names = (before ++ source.names).eraseDups := by
  induction source generalizing members before
  case nil => simpa using h
  case cons m source hi =>
    have hm : (f members m).names = (before ++ [m.1]).eraseDups := by
      rw [eraseDups_concat, show (f members m).names = _ from ha members m, h]
      simp only [List.mem_eraseDups]
    simpa using hi hm

theorem lookup_insertNew :
    (members.insertNew name value).lookup other =
      (members.lookup other).or (if other = name then some value else none) := by
  simp only [insertNew]
  split
  case isTrue hs =>
    split
    case isTrue he  => rw [he, Option.or_of_isSome hs]
    case isFalse    => rw [Option.or_none]
  case isFalse =>
    rw [List.lookup_append, List.lookup_cons, List.lookup_nil]
    congr 1
    split <;> simp_all

theorem lookup_merge :
    (members.merge source).lookup name = (members.lookup name).or (source.lookup name) := by
  induction source generalizing members
  case nil => exact (Option.or_none ..).symm
  case cons m source hi =>
    show ((members.insertNew m.1 m.2).merge source).lookup name = _
    rw [hi, lookup_insertNew, Option.or_assoc, List.lookup_cons]
    cases he : name == m.1 <;> simp_all

theorem lookup_override (hn : explicit.names.Nodup) :
    (members.override explicit).lookup name = (explicit.lookup name).or (members.lookup name) := by
  induction explicit generalizing members
  case nil => rfl
  case cons m explicit hi =>
    have ⟨hm, hn⟩ := List.nodup_cons.mp hn
    show ((members.insert m.1 m.2).override explicit).lookup name = _
    rw [hi hn, lookup_insert, List.lookup_cons]
    by_cases he : name = m.1
    case pos =>
      have hl : explicit.lookup m.1 = none := lookup_eq_none_of_not_mem hm
      simp [he, hl]
    case neg => simp [he, beq_eq_false_iff_ne.mpr he]

theorem names_flatten : names sources.flatten = sources.flatMap names := by
  rw [names, List.map_flatten, List.flatMap_def]
  rfl

theorem lookup_flatten :
    List.lookup name sources.flatten = sources.findSome? (·.lookup name) := by
  induction sources
  case nil => rfl
  case cons source sources hi =>
    rw [List.flatten_cons, List.lookup_append, hi, List.findSome?_cons]
    cases source.lookup name <;> rfl

-- The members of a mapping that takes those of the sources and has explicit ones: their names in
-- the order in which they come up first, and of each name the explicit value, or else the value of
-- the first source that has one.
structure Layers (members : Members) (sources : List Members) (explicit : Members) : Prop where
  names  : members.names = (sources.flatMap Members.names ++ explicit.names).eraseDups
  lookup : ∀ name, members.lookup name =
    (explicit.lookup name).or (sources.findSome? (·.lookup name))

theorem layers_override (hn : explicit.names.Nodup) :
    Layers ((sources.foldl merge []).override explicit) sources explicit where
  names := by
    have hnil : names [] = [].eraseDups := rfl
    have hm : (merge [] sources.flatten).names = (sources.flatMap Members.names).eraseDups := by
      rw [← names_flatten]
      exact names_foldl (fun _ _ => adds_insertNew) hnil
    rw [foldl_merge]
    exact names_foldl (fun _ _ => adds_insert) hm
  lookup name := by
    rw [lookup_override hn, foldl_merge, lookup_merge, lookup_flatten, List.lookup_nil,
      Option.none_or]

end Members

namespace Document

variable {node : Pointer} {v : Json} {merged explicit explicit' : Members} {sources : List Members}
  {entry asking : Yaml.Value × Yaml.Value} {before after : List (Yaml.Value × Yaml.Value)}

-- What a value lends to the mapping that it is merged into: its own members, or those of its items.
inductive Lends : Json → List Members → Prop
  | mapping (members : Members) : Lends (.obj members) [members]
  | sequence (sources : List Members) : Lends (.arr (sources.map .obj)) sources

-- A mapping that stands at a node, as an entry that asks for a merge between entries that do not,
-- and what its parts become.
structure Splits (node : Pointer) (before : List (Yaml.Value × Yaml.Value))
    (asking : Yaml.Value × Yaml.Value) (after : List (Yaml.Value × Yaml.Value)) (v : Json)
    (explicit : Members) : Prop where
  merge    : isMerge asking = true
  value    : tree (node.child mergeKey) asking.2 = .ok v
  others   : ∀ entry ∈ before ++ after, isMerge entry = false
  explicit : List.Forall₂ (Becomes node) (before ++ after) explicit

theorem mergeSources_eq_ok : mergeSources node v = .ok sources ↔ Lends v sources := by
  constructor
  case mp =>
    intro h
    cases v <;> simp only [mergeSources, refuse, reduceCtorEq] at h
    case obj members => cases h; exact .mapping members
    case arr items =>
      have hi : items = sources.map .obj := by
        rw [← items.map_id]
        refine map_eq_of_forall₂ ((mapM_eq_ok.mp h).imp fun item source he => ?_)
        split at he <;> cases he
        rfl
      exact hi ▸ .sequence sources
  case mpr =>
    intro h
    cases h
    case mapping  => rfl
    case sequence => simp [mergeSources, mapM_eq_ok, List.forall₂_same]

theorem failsWith_mergeSources :
    (mergeSources node v).FailsWith fun e => ∃ problem, e = .invalid node problem := by
  simp only [mergeSources]
  split
  case h_1 => exact .ok _
  case h_2 =>
    refine .mapM fun item _ => ?_
    split
    · exact .ok _
    · exact .error ⟨_, rfl⟩
  case h_3 => exact .error ⟨_, rfl⟩

-- Entries that ask for no merge are read one after the other, each as an explicit member.
theorem treeEntries_append (h : List.Forall₂ (Becomes node) before explicit')
    (hm : ∀ entry ∈ before, isMerge entry = false) :
    treeEntries node merged explicit (before ++ after) =
      treeEntries node merged (explicit ++ explicit') after := by
  induction h generalizing explicit
  case nil => simp
  case cons entry m before members hb _ hi =>
    have ⟨hx, hm⟩ := List.forall_mem_cons.mp hm
    have hn : m.1 ≠ mergeKey := fun he => by simp [isMerge, hb.name, he] at hx
    simp only [List.cons_append, treeEntries, hb.name, hb.value, ok_bind, if_neg hn, hi hm,
      List.append_assoc, List.nil_append]

theorem Splits.treeEntries_eq (h : Splits node before asking after v explicit) :
    treeEntries node [] [] (before ++ asking :: after) = do
      let sources ← mergeSources (node.child mergeKey) v
      return (sources.foldl Members.merge [], explicit) := by
  have hb := (List.forall₂_take_append explicit before after h.explicit.flip).flip
  have ha := (List.forall₂_drop_append explicit before after h.explicit.flip).flip
  have ⟨hmb, hma⟩ := List.forall_mem_append.mp h.others
  have hn : key? asking.1 = some mergeKey := of_decide_eq_true h.merge
  rw [treeEntries_append hb hmb, treeEntries, hn]
  simp only [h.value, ok_bind, if_pos]
  congr 1
  funext sources
  rw [← List.append_nil after, treeEntries_append ha hma, treeEntries, List.nil_append,
    List.take_append_drop]
  rfl

theorem Splits.tree_eq (h : Splits node before asking after v explicit) :
    tree node (.map (before ++ asking :: after)) = do
      let sources ← mergeSources (node.child mergeKey) v
      return .obj ((sources.foldl Members.merge []).override explicit) := by
  rw [tree, h.treeEntries_eq]
  cases mergeSources (node.child mergeKey) v <;> rfl

-- A mapping that asks for a merge becomes one whose members lie in layers, unless what it asks for
-- has no members to lend. No object of a document keeps the key of a merge.
theorem layers_of_splits :
    (∀ node before asking after v explicit, Splits node before asking after v explicit →
      (∀ sources, Lends v sources → explicit.names.Nodup →
        ∃ members, tree node (.map (before ++ asking :: after)) = .ok (.obj members) ∧
          Members.Layers members sources explicit) ∧
      ((∀ sources, ¬Lends v sources) →
        ∃ problem, tree node (.map (before ++ asking :: after)) =
          .error (.invalid (node.child mergeKey) problem))) ∧
    ∀ value d, ofValue value = .ok d → d.root.Every (mergeKey ∉ ·.names) := by
  refine ⟨fun node before asking after v explicit h => ?_, fun value d h => ?_⟩
  case refine_1 =>
    rw [h.tree_eq]
    constructor
    case left =>
      intro sources hs hn
      rw [mergeSources_eq_ok.mpr hs]
      exact ⟨_, rfl, Members.layers_override hn⟩
    case right =>
      intro hl
      cases hv : mergeSources (node.child mergeKey) v
      case ok sources => exact absurd (mergeSources_eq_ok.mp hv) (hl sources)
      case error e    =>
        have ⟨problem, he⟩ := failsWith_mergeSources e hv
        exact ⟨problem, he ▸ rfl⟩
  case refine_2 => exact (every_ofValue h).mono fun _ => Members.Merged.not_mem

-- Both sources have a title, and one has a type that the mapping overrides.
def petType : Yaml.Value × Yaml.Value :=
  (.scalar (.str "type"), .scalar (.str "object"))

def petMerge : Yaml.Value × Yaml.Value :=
  (.scalar (.str "<<"), .seq [
    .map [
      (.scalar (.str "title"), .scalar (.str "Pet")),
      (.scalar (.str "type"), .scalar (.str "array"))],
    .map [
      (.scalar (.str "title"), .scalar (.str "Cat")),
      (.scalar (.str "x-sound"), .scalar (.str "purr"))]])

def petFormat : Yaml.Value × Yaml.Value :=
  (.scalar (.str "format"), .scalar (.str "pet"))

def numberMerge : Yaml.Value × Yaml.Value :=
  (.scalar (.str "<<"), .scalar (.int 7))

def mergedPet : Yaml.Value := .map [
  (.scalar (.str "swagger"), .scalar (.str "2.0")),
  (.scalar (.str "definitions"), .map [(.scalar (.str "Pet"), .map [petType, petMerge, petFormat])])
]

theorem splits_petMerge : Splits ⟨["definitions", "Pet"]⟩ [petType] petMerge [petFormat]
    (.arr [
      .obj [("title", .str "Pet"), ("type", .str "array")],
      .obj [("title", .str "Cat"), ("x-sound", .str "purr")]])
    [("type", .str "object"), ("format", .str "pet")] where
  merge    := by decide +kernel
  value    := rfl
  others   := by decide +kernel
  explicit := .cons ⟨rfl, rfl⟩ (.cons ⟨rfl, rfl⟩ .nil)

theorem splits_numberMerge : Splits ⟨["definitions", "Pet"]⟩ [petType] numberMerge [] (.int 7)
    [("type", .str "object")] where
  merge    := by decide +kernel
  value    := rfl
  others   := by decide +kernel
  explicit := .cons ⟨rfl, rfl⟩ .nil

theorem exists_layers_mergedPet :
    (∃ members, tree ⟨["definitions", "Pet"]⟩ (.map [petType, petMerge, petFormat]) =
        .ok (.obj members) ∧
      Members.Layers members
        [[("title", .str "Pet"), ("type", .str "array")],
          [("title", .str "Cat"), ("x-sound", .str "purr")]]
        [("type", .str "object"), ("format", .str "pet")]) ∧
    (∃ problem, tree ⟨["definitions", "Pet"]⟩ (.map [petType, numberMerge]) =
      .error (.invalid ⟨["definitions", "Pet", "<<"]⟩ problem)) ∧
    ∃ d, ofValue mergedPet = .ok d ∧ d.get? ⟨["definitions", "Pet"]⟩ = some (.obj [
        ("title", .str "Pet"), ("type", .str "object"), ("x-sound", .str "purr"),
        ("format", .str "pet")]) ∧
      d.root.Every (mergeKey ∉ ·.names) := by
  obtain ⟨hmap, hdoc⟩ := layers_of_splits
  obtain ⟨hlayers, _⟩ := hmap _ _ _ _ _ _ splits_petMerge
  obtain ⟨_, hfails⟩ := hmap _ _ _ _ _ _ splits_numberMerge
  refine ⟨hlayers _ (.sequence [_, _]) (by decide), hfails nofun, ?_⟩
  have hd : ∃ d, ofValue mergedPet = .ok d ∧ d.get? ⟨["definitions", "Pet"]⟩ = some (.obj [
      ("title", .str "Pet"), ("type", .str "object"), ("x-sound", .str "purr"),
      ("format", .str "pet")]) := ⟨⟨_, .swagger2⟩, ofValue_of_tree rfl (by decide +kernel), rfl⟩
  obtain ⟨d, hd, hpet⟩ := hd
  exact ⟨d, hd, hpet, hdoc _ _ hd⟩

end Document
end ApiDescriptors
