import ApiDescriptors.Proofs.Schema.Resolution

namespace ApiDescriptors.Resolution

variable {r : Resolution} {roots unvisited stack : List Pointer} {p : Pointer} {s t : Schema}

-- All canonical schemas that the nodes on a stack lead to, in the order in which discovery comes
-- across them. Those that are objects are what is discovered.
def visitFrom (r : Resolution) (unvisited stack : List Pointer) : List Schema :=
  match stack with
  | []            => []
  | node :: stack =>
    match _hc : r.canonical? node with
    | none        => r.visitFrom unvisited stack
    | some schema =>
      if _h : schema.node ∈ unvisited then
        schema :: r.visitFrom (unvisited.erase schema.node) (schema.links ++ stack)
      else r.visitFrom unvisited stack
termination_by unvisited.length * (r.width + 1) + stack.length
decreasing_by
  · simp
  · have hl := length_links_le_width _hc
    have he := Nat.mul_le_mul_right (r.width + 1) (length_erase_lt _h)
    rw [Nat.succ_mul] at he
    simp only [List.length_append, List.length_cons]
    omega
  · simp

-- One turn of the search: nothing is visited at a node without a canonical schema, or with one that
-- was visited before.

theorem visitFrom_cons_of_eq_none (hn : r.canonical? p = none) :
    r.visitFrom unvisited (p :: stack) = r.visitFrom unvisited stack := by
  rw [visitFrom]
  split
  case h_1    => rfl
  case h_2 hs => cases hn.symm.trans hs

theorem visitFrom_cons_of_mem (hs : r.canonical? p = some s) (hu : s.node ∈ unvisited) :
    r.visitFrom unvisited (p :: stack) =
      s :: r.visitFrom (unvisited.erase s.node) (s.links ++ stack) := by
  rw [visitFrom]
  split
  case h_1 hn  => cases hn.symm.trans hs
  case h_2 hs' => cases hs.symm.trans hs'; rw [dif_pos hu]

theorem visitFrom_cons_of_not_mem (hs : r.canonical? p = some s) (hu : s.node ∉ unvisited) :
    r.visitFrom unvisited (p :: stack) = r.visitFrom unvisited stack := by
  rw [visitFrom]
  split
  case h_1 hn  => cases hn.symm.trans hs
  case h_2 hs' => cases hs.symm.trans hs'; rw [dif_neg hu]

theorem discoverFrom_eq_filter :
    r.discoverFrom unvisited stack = (r.visitFrom unvisited stack).filter (·.isObject) := by
  fun_induction r.discoverFrom unvisited stack
  case case1 => rw [visitFrom]; rfl
  case case2 hn hi => rw [visitFrom_cons_of_eq_none hn, hi]
  case case3 hc hu others ho hi =>
    rw [visitFrom_cons_of_mem hc hu, List.filter_cons_of_pos ho, ← hi]
  case case4 hc hu others ho hi =>
    rw [visitFrom_cons_of_mem hc hu, List.filter_cons_of_neg ho, ← hi]
  case case5 hc hu hi => rw [visitFrom_cons_of_not_mem hc hu, hi]

theorem mem_unvisited_of_mem_visitFrom (h : s ∈ r.visitFrom unvisited stack) :
    s.node ∈ unvisited := by
  fun_induction r.visitFrom unvisited stack
  case case1 => cases h
  case case2 hi => exact hi h
  case case3 schema _ hu hi =>
    cases h
    case head   => exact hu
    case tail h => exact List.mem_of_mem_erase (hi h)
  case case4 hi => exact hi h

theorem nodup_visitFrom (h : unvisited.Nodup) :
    ((r.visitFrom unvisited stack).map (·.node)).Nodup := by
  fun_induction r.visitFrom unvisited stack
  case case1 => exact List.nodup_nil
  case case2 hi => exact hi h
  case case3 schema _ hu hi =>
    refine List.nodup_cons.mpr ⟨fun hm => ?_, hi (h.erase _)⟩
    have ⟨t, ht, he⟩ := List.mem_map.mp hm
    exact h.not_mem_erase (he ▸ mem_unvisited_of_mem_visitFrom ht)
  case case4 hi => exact hi h

theorem reaches_of_mem_visitFrom
    (hr : ∀ p ∈ stack, ∀ s, r.canonical? p = some s → r.Reaches roots s)
    (h : s ∈ r.visitFrom unvisited stack) : r.Reaches roots s := by
  fun_induction r.visitFrom unvisited stack
  case case1 => cases h
  case case2 hi => exact hi (fun p hp => hr p (List.mem_cons_of_mem _ hp)) h
  case case3 schema hc _ hi =>
    have hs := hr _ List.mem_cons_self schema hc
    cases h
    case head => exact hs
    case tail h =>
      refine hi (fun p hp t ht => ?_) h
      cases List.mem_append.mp hp
      case inl hp => exact hs.link hp ht
      case inr hp => exact hr p (List.mem_cons_of_mem _ hp) t ht
  case case4 hi => exact hi (fun p hp => hr p (List.mem_cons_of_mem _ hp)) h

-- What the stack leads to was visited before or is visited now. The links of a visited schema go
-- onto the stack, so the same holds of what these lead to.
theorem Sound.mem_visitFrom_of_mem_stack (h : r.Sound) (hp : p ∈ stack)
    (hs : r.canonical? p = some s) (hu : s.node ∈ unvisited) : s ∈ r.visitFrom unvisited stack := by
  fun_induction r.visitFrom unvisited stack
  case case1 => cases hp
  case case2 hn hi =>
    cases hp
    case head    => cases hn.symm.trans hs
    case tail hp => exact hi hp hu
  case case3 schema hc _ hi =>
    by_cases he : s.node = schema.node
    case pos => exact h.eq_of_node_eq hs hc he ▸ List.mem_cons_self
    case neg =>
      cases hp
      case head    => exact absurd (Option.some.inj (hs.symm.trans hc) ▸ rfl) he
      case tail hp =>
        have hu := (List.mem_erase_of_ne he).mpr hu
        exact List.mem_cons_of_mem _ (hi (List.mem_append_right _ hp) hu)
  case case4 hc hn hi =>
    cases hp
    case head    => exact absurd (Option.some.inj (hs.symm.trans hc) ▸ hu) hn
    case tail hp => exact hi hp hu

theorem Sound.mem_visitFrom_of_mem_links (h : r.Sound) (ht : t ∈ r.visitFrom unvisited stack)
    (hp : p ∈ t.links) (hs : r.canonical? p = some s) (hu : s.node ∈ unvisited) :
    s ∈ r.visitFrom unvisited stack := by
  fun_induction r.visitFrom unvisited stack
  case case1 => cases ht
  case case2 hi => exact hi ht hu
  case case3 schema hc _ hi =>
    by_cases he : s.node = schema.node
    case pos => exact h.eq_of_node_eq hs hc he ▸ List.mem_cons_self
    case neg =>
      have hu := (List.mem_erase_of_ne he).mpr hu
      apply List.mem_cons_of_mem
      cases ht
      case head    => exact h.mem_visitFrom_of_mem_stack (List.mem_append_left _ hp) hs hu
      case tail ht => exact hi ht hu
  case case4 hi => exact hi ht hu

-- Discovery finds the objects that links lead to, and nothing else.
theorem Sound.mem_discover_iff (h : r.Sound) :
    s ∈ r.discover roots ↔ s.isObject ∧ r.Reaches roots s := by
  rw [discover, discoverFrom_eq_filter, List.mem_filter, and_comm]
  refine and_congr_right' ⟨reaches_of_mem_visitFrom fun p hp s hs => .root hp hs, fun hr => ?_⟩
  induction hr
  case root hp hs    => exact h.mem_visitFrom_of_mem_stack hp hs (h.node_mem_of_canonical? hs)
  case link hp hs hi => exact h.mem_visitFrom_of_mem_links hi hp hs (h.node_mem_of_canonical? hs)

theorem Sound.discover_subset (h : r.Sound) (roots : List Pointer) :
    r.discover roots ⊆ r.graph.schemas :=
  fun _ hs => h.mem_schemas_of_reaches (h.mem_discover_iff.mp hs).right

theorem Sound.nodup_discover (h : r.Sound) (roots : List Pointer) :
    ((r.discover roots).map (·.node)).Nodup := by
  rw [discover, discoverFrom_eq_filter]
  exact (nodup_visitFrom h.closed.nodup).sublist (List.filter_sublist.map _)

-- What is below on the stack comes up when all that is above it was visited.
theorem visitFrom_prefix_append (more : List Pointer) :
    r.visitFrom unvisited stack <+: r.visitFrom unvisited (stack ++ more) := by
  fun_induction r.visitFrom unvisited stack
  case case1 => exact List.nil_prefix
  case case2 hn hi =>
    rw [List.cons_append, visitFrom_cons_of_eq_none hn]
    exact hi
  case case3 hc hu hi =>
    rw [List.cons_append, visitFrom_cons_of_mem hc hu, ← List.append_assoc]
    exact List.cons_prefix_cons.mpr ⟨rfl, hi⟩
  case case4 hc hu hi =>
    rw [List.cons_append, visitFrom_cons_of_not_mem hc hu]
    exact hi

-- Discovery from more roots finds the same first.
theorem discover_prefix_append (roots more : List Pointer) :
    r.discover roots <+: r.discover (roots ++ more) := by
  rw [discover, discover, discoverFrom_eq_filter, discoverFrom_eq_filter]
  exact (visitFrom_prefix_append more).filter _

end ApiDescriptors.Resolution
