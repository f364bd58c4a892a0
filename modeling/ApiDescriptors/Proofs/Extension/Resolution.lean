import ApiDescriptors.Proofs.Schema.Discovery

namespace ApiDescriptors

open Result

theorem erase_subset_erase {α : Type} [DecidableEq α] {l l' : List α} (hn : l.Nodup) (h : l ⊆ l')
    (a : α) : l.erase a ⊆ l'.erase a := by
  intro b hb
  have ⟨hne, hb⟩ := hn.mem_erase_iff.mp hb
  exact (List.mem_erase_of_ne hne).mpr (h hb)

namespace SchemaGraph

variable {g g' : SchemaGraph} {p q : Pointer} {s : Schema}

-- The schemas of one graph, as another one has them too.
def Within (g g' : SchemaGraph) : Prop :=
  ∀ p s, g.get? p = some s → g'.get? p = some s

-- A chain that was followed to its end is followed there from wherever more may still come up.
theorem Within.kept_aliasChainFrom (h : g.Within g') (hc : g.Closed)
    {unvisited unvisited' : List Pointer} (hn : unvisited.Nodup) (hu : unvisited ⊆ unvisited')
    (visited visited' : List Pointer) (hp : p ∈ g.nodes) :
    Kept (g.aliasChainFrom unvisited visited p) (g'.aliasChainFrom unvisited' visited' p) := by
  fun_induction g.aliasChainFrom unvisited visited p generalizing unvisited' visited' <;>
    rw [aliasChainFrom.eq_def g']
  case case1 hs =>
    obtain ⟨_, hs'⟩ := exists_get?_of_mem_nodes hp
    cases hs.symm.trans hs'
  case case2 p s hs target hf hm hi =>
    have hi := hi (hn.erase target) (erase_subset_erase hn hu target) (visited' ++ [target])
      (hc.mem_nodes_of_step ⟨s, hs, hf⟩)
    simp only [h p s hs, hf, hu hm, dif_pos]
    exact hi.bind fun _ _ => .refl _
  case case3 =>
    intro _ he
    cases he
  case case4 hs hf =>
    simp only [h _ _ hs]
    exact .refl _

theorem Within.nodes_subset (h : g.Within g') : g.nodes ⊆ g'.nodes := by
  intro p hp
  have ⟨s, hs⟩ := exists_get?_of_mem_nodes hp
  exact mem_nodes_of_get? (h p s hs)

end SchemaGraph

namespace Resolution.Sound

variable {r : Resolution} (h : r.Sound) {p target : Pointer} {s : Schema}
include h

-- An alias has the canonical schema of its target.
theorem canonical?_of_aliasOf (hg : r.graph.get? p = some s) (hf : s.form = .aliasOf target) :
    r.canonical? p = r.canonical? target := by
  have hstep : r.graph.AliasStep p target := ⟨s, hg, hf⟩
  have ⟨t, ht⟩ := h.total target (h.closed.mem_nodes_of_step hstep)
  rw [ht, h.settles]
  exact .of_way (.single hstep) ((h.settles target t).mp ht)

theorem canonical?_of_concrete (hg : r.graph.get? p = some s) (hs : s.Concrete) :
    r.canonical? p = some s :=
  (h.settles p s).mpr (.of_concrete hg hs)

end Resolution.Sound

-- Lists of nodes to visit that agree on those in question.
structure SameAmong (nodes l l' : List Pointer) : Prop where
  nodup  : l.Nodup
  nodup' : l'.Nodup
  mem    : ∀ p ∈ nodes, p ∈ l ↔ p ∈ l'

theorem SameAmong.erase {nodes l l' : List Pointer} (h : SameAmong nodes l l') (p : Pointer) :
    SameAmong nodes (l.erase p) (l'.erase p) where
  nodup    := h.nodup.erase p
  nodup'   := h.nodup'.erase p
  mem q hq := by rw [h.nodup.mem_erase_iff, h.nodup'.mem_erase_iff, h.mem q hq]

namespace Resolution

-- A resolution of some of the schemas that another one resolves.
structure Within (r r' : Resolution) : Prop where
  sound  : r.Sound
  sound' : r'.Sound
  graph  : r.graph.Within r'.graph

namespace Within

variable {r r' : Resolution} {unvisited unvisited' stack : List Pointer} {p : Pointer}
variable (h : r.Within r')
include h

theorem chain_eq (hp : p ∈ r.graph.nodes) : r.chain p = r'.chain p := by
  have hk := h.graph.kept_aliasChainFrom h.sound.closed (h.sound.closed.nodup.erase p)
    (erase_subset_erase h.sound.closed.nodup h.graph.nodes_subset p) [p] [p] hp
  have hc := hk _ (h.sound.chain hp)
  exact Except.ok.inj (hc.symm.trans (h.sound'.chain (h.graph.nodes_subset hp)))

theorem canonical?_eq (hp : p ∈ r.graph.nodes) : r.canonical? p = r'.canonical? p := by
  have ⟨s, hs⟩ := h.sound.total p hp
  rw [hs, eq_comm, h.sound'.settles]
  exact ((h.sound.settles p s).mp hs).mono h.graph

theorem fieldTypeFrom_eq (hu : SameAmong r.graph.nodes unvisited unvisited') (arrays : List Pointer)
    (hp : p ∈ r.graph.nodes) :
    r.fieldTypeFrom unvisited arrays p = r'.fieldTypeFrom unvisited' arrays p := by
  fun_induction r.fieldTypeFrom unvisited arrays p generalizing unvisited' <;>
    rw [fieldTypeFrom.eq_def r', ← h.canonical?_eq hp]
  case case1 hn => simp only [hn]
  case case2 schema hs items hf hm hi =>
    have hl : items ∈ schema.links := Schema.mem_links_of_array hf
    have hm' := (hu.mem _ (h.sound.node_mem_of_canonical? hs)).mp hm
    have hi := hi (hu.erase schema.node) (h.sound.mem_nodes_of_mem_links hs hl)
    simp only [hs, hf, hm', dif_pos, hi]
  case case3 schema hs items hf hm =>
    have hm' := mt (hu.mem _ (h.sound.node_mem_of_canonical? hs)).mpr hm
    simp only [hs, hf, hm', dif_neg, not_false_eq_true]
  case case4 hs _ _ hf => simp only [hs, hf]
  case case5 hs _ hf   => simp only [hs, hf]
  case case6 hs _ hf   => simp only [hs, hf]

theorem sameAmong_nodes : SameAmong r.graph.nodes r.graph.nodes r'.graph.nodes where
  nodup    := h.sound.closed.nodup
  nodup'   := h.sound'.closed.nodup
  mem _ hp := iff_of_true hp (h.graph.nodes_subset hp)

theorem agreeAt (hp : p ∈ r.graph.nodes) : r.AgreeAt r' p where
  chain      := h.chain_eq hp
  canonical? := h.canonical?_eq hp
  fieldType  := h.fieldTypeFrom_eq h.sameAmong_nodes [] hp
  usage?     := by
    simp only [usage?, ← h.canonical?_eq hp]
    cases hs : r.canonical? p
    case none => rfl
    case some schema =>
      simp only [Option.bind_eq_bind, Option.bind_some]
      split
      case h_1 => rfl
      case h_3 => rfl
      case h_2 items hf =>
        have hl : items ∈ schema.links := Schema.mem_links_of_array hf
        rw [h.canonical?_eq (h.sound.mem_nodes_of_mem_links hs hl)]

theorem visitFrom_eq (hu : SameAmong r.graph.nodes unvisited unvisited')
    (hs : stack ⊆ r.graph.nodes) : r.visitFrom unvisited stack = r'.visitFrom unvisited' stack := by
  fun_induction r.visitFrom unvisited stack generalizing unvisited'
  case case1 => rw [visitFrom]
  case case2 hn hi =>
    obtain ⟨hp, hs⟩ := List.cons_subset.mp hs
    rw [visitFrom_cons_of_eq_none (h.canonical?_eq hp ▸ hn), hi hu hs]
  case case3 schema hc hm hi =>
    obtain ⟨hp, hs⟩ := List.cons_subset.mp hs
    have hl : schema.links ⊆ r.graph.nodes := fun _ hq => h.sound.mem_nodes_of_mem_links hc hq
    have hm' := (hu.mem _ (h.sound.node_mem_of_canonical? hc)).mp hm
    rw [visitFrom_cons_of_mem (h.canonical?_eq hp ▸ hc) hm',
      hi (hu.erase schema.node) (List.append_subset.mpr ⟨hl, hs⟩)]
  case case4 hc hm hi =>
    obtain ⟨hp, hs⟩ := List.cons_subset.mp hs
    have hm' := mt (hu.mem _ (h.sound.node_mem_of_canonical? hc)).mpr hm
    rw [visitFrom_cons_of_not_mem (h.canonical?_eq hp ▸ hc) hm', hi hu hs]

-- What else the other resolution has is not discovered from nodes of this one.
theorem discover_eq (hs : stack ⊆ r.graph.nodes) : r.discover stack = r'.discover stack := by
  rw [discover, discover, discoverFrom_eq_filter, discoverFrom_eq_filter,
    h.visitFrom_eq h.sameAmong_nodes hs]

theorem agreeAt_of_mem_discover {roots : List Pointer} {s : Schema} (hs : s ∈ r.discover roots) :
    ∀ p ∈ s.links, r.AgreeAt r' p := by
  intro p hp
  have ⟨_, hreach⟩ := h.sound.mem_discover_iff.mp hs
  exact h.agreeAt (h.sound.mem_nodes_of_reaches hreach hp)

end Within
end Resolution
end ApiDescriptors
