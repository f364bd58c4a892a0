import ApiDescriptors.Pointer
import ApiDescriptors.Proofs.Result

namespace ApiDescriptors

namespace Json

-- Keys on the way from a value to one inside it. An array is entered at its first item only.
inductive Leads : Json → List String → Json → Prop
  | here {v} : Leads v [] v
  | member {members name v path w} :
    members.lookup name = some v → Leads v path w → Leads (.obj members) (name :: path) w
  | first {v items path w} : Leads v path w → Leads (.arr (v :: items)) ("0" :: path) w

mutual

-- All ways into a tree that enter arrays at their first items.
def positions : Json → List (List String)
  | arr items   => [] :: positionsOfFirst items
  | obj members => [] :: positionsOfMembers members
  | _           => [[]]

def positionsOfFirst : List Json → List (List String)
  | []        => []
  | item :: _ => item.positions.map ("0" :: ·)

def positionsOfMembers : List (String × Json) → List (List String)
  | []                       => []
  | (name, value) :: members => value.positions.map (name :: ·) ++ positionsOfMembers members

end

mutual

theorem length_positions_le_size : (v : Json) → v.positions.length ≤ v.size
  | arr items => by
    have := length_positionsOfFirst_le items
    simp only [positions, size, List.length_cons]
    omega
  | obj members => by
    have := length_positionsOfMembers_le members
    simp only [positions, size, List.length_cons]
    omega
  | null | bool _ | int _ | double _ | str _ => by simp [positions, size]

theorem length_positionsOfFirst_le :
    (items : List Json) → (positionsOfFirst items).length ≤ sizeItems items
  | []        => by simp [positionsOfFirst]
  | item :: _ => by
    have := length_positions_le_size item
    simp only [positionsOfFirst, sizeItems, List.length_map]
    omega

theorem length_positionsOfMembers_le :
    (members : List (String × Json)) → (positionsOfMembers members).length ≤ sizeMembers members
  | []                    => by simp [positionsOfMembers]
  | (_, value) :: members => by
    have := length_positions_le_size value
    have := length_positionsOfMembers_le members
    simp only [positionsOfMembers, sizeMembers, List.length_append, List.length_map]
    omega

end

theorem mem_positionsOfMembers {members : Members} {name : String} {v : Json} {path : List String}
    (hm : (name, v) ∈ members) (hp : path ∈ v.positions) :
    name :: path ∈ positionsOfMembers members := by
  induction members
  case nil => cases hm
  case cons member members hi =>
    simp only [positionsOfMembers, List.mem_append, List.mem_map]
    cases hm
    case head   => exact .inl ⟨path, hp, rfl⟩
    case tail h => exact .inr (hi h)

theorem size_pos (v : Json) : 0 < v.size := by
  cases v <;> simp only [size] <;> omega

theorem nil_mem_positions (v : Json) : [] ∈ v.positions := by
  cases v <;> simp [positions]

theorem exists_lookup_of_mem_names {members : Members} {name : String} (h : name ∈ members.names) :
    ∃ v, members.lookup name = some v := by
  have ⟨m, hm, he⟩ := List.mem_map.mp h
  exact Option.isSome_iff_exists.mp (List.lookup_isSome_iff.mpr ⟨m, hm, by simp [he]⟩)

namespace Leads

variable {u v w : Json} {path path' : List String}

theorem trans (h : Leads u path v) (h' : Leads v path' w) : Leads u (path ++ path') w := by
  induction h
  case here           => exact h'
  case member hl _ hi => exact .member hl (hi h')
  case first hi       => exact .first (hi h')

theorem mem_positions (h : Leads v path w) : path ∈ v.positions := by
  induction h
  case here           => exact nil_mem_positions _
  case member hl _ hi => exact List.mem_cons_of_mem _ (mem_positionsOfMembers (mem_of_lookup hl) hi)
  case first hi       => exact List.mem_cons_of_mem _ (List.mem_map_of_mem hi)

theorem foldlM_step? (h : Leads v path w) : path.foldlM Pointer.step? v = some w := by
  induction h
  case here           => rfl
  case member hl _ hi => simpa [Pointer.step?, hl] using hi
  case first hi       =>
    simpa [Pointer.step?, show Pointer.position? "0" = some 0 by decide] using hi

end Leads

-- Values inside a value

theorem size_le_of_mem_items {w : Json} {items : List Json} (h : w ∈ items) :
    w.size ≤ sizeItems items := by
  induction h <;> simp only [sizeItems] <;> omega

theorem size_le_of_mem_members {name : String} {w : Json} {members : Members}
    (h : (name, w) ∈ members) :
    w.size ≤ sizeMembers members := by
  induction members
  case nil => cases h
  case cons member members hi =>
    cases h <;> simp only [sizeMembers]
    case head   => omega
    case tail h => have := hi h; omega

theorem textsAt_subset_items {key : String} {w : Json} {items : List Json} (h : w ∈ items) :
    w.textsAt key ⊆ textsInItems key items := by
  induction h <;> simp only [textsInItems]
  case head         => exact List.subset_append_left ..
  case tail hi      => exact List.Subset.trans hi (List.subset_append_right ..)

theorem textsAt_subset_members {key name : String} {w : Json} {members : Members}
    (h : (name, w) ∈ members) :
    w.textsAt key ⊆ textsInMembers key members := by
  induction members
  case nil => cases h
  case cons member members hi =>
    cases h <;> simp only [textsInMembers]
    case head   =>
      exact List.Subset.trans (List.subset_append_right ..) (List.subset_append_left ..)
    case tail h => exact List.Subset.trans (hi h) (List.subset_append_right ..)

theorem mem_textsAt {key text : String} {members : Members}
    (h : members.lookup key = some (.str text)) :
    text ∈ (obj members).textsAt key := by
  rw [textsAt]
  induction members
  case nil => cases h
  case cons member members hi =>
    obtain ⟨name, value⟩ := member
    rw [List.lookup_cons] at h
    split at h
    case h_1 => simp_all [textsInMembers, str?]
    case h_2 => simp [textsInMembers, hi h]

theorem mem_textsAt_of_get? {key text : String} {v : Json} (h : v.get? key = some (.str text)) :
    text ∈ v.textsAt key := by
  cases v <;> simp only [get?, reduceCtorEq] at h
  exact mem_textsAt h

-- What holds of the step to a direct part of a value holds of the way to any part.
theorem size_le_of_step? {v w : Json} {segment : String} (h : Pointer.step? v segment = some w) :
    w.size ≤ v.size := by
  cases v <;> simp only [Pointer.step?, reduceCtorEq] at h
  case arr items =>
    have ⟨i, _, hi⟩ := Option.bind_eq_some_iff.mp h
    have := size_le_of_mem_items (List.mem_of_getElem? hi)
    simp only [size]
    omega
  case obj members =>
    have := size_le_of_mem_members (mem_of_lookup h)
    simp only [size]
    omega

theorem textsAt_subset_of_step? {key : String} {v w : Json} {segment : String}
    (h : Pointer.step? v segment = some w) : w.textsAt key ⊆ v.textsAt key := by
  cases v <;> simp only [Pointer.step?, reduceCtorEq] at h
  case arr items =>
    have ⟨i, _, hi⟩ := Option.bind_eq_some_iff.mp h
    exact textsAt_subset_items (List.mem_of_getElem? hi)
  case obj members => exact textsAt_subset_members (mem_of_lookup h)

end Json

namespace Pointer

variable {p : Pointer} {v w : Json}

theorem size_le_of_lookup? (h : p.lookup? v = some w) : w.size ≤ v.size := by
  obtain ⟨segments⟩ := p
  induction segments generalizing v
  case nil => simp_all [lookup?]
  case cons segment segments hi =>
    obtain ⟨u, hs, hu⟩ := Option.bind_eq_some_iff.mp h
    exact Nat.le_trans (hi hu) (Json.size_le_of_step? hs)

theorem textsAt_subset_of_lookup? {key : String} (h : p.lookup? v = some w) :
    w.textsAt key ⊆ v.textsAt key := by
  obtain ⟨segments⟩ := p
  induction segments generalizing v
  case nil => simp_all [lookup?]
  case cons segment segments hi =>
    obtain ⟨u, hs, hu⟩ := Option.bind_eq_some_iff.mp h
    exact List.Subset.trans (hi hu) (Json.textsAt_subset_of_step? hs)

end Pointer
end ApiDescriptors
