import ApiDescriptors.Proofs.Reordering.Schemas

namespace ApiDescriptors

open Result

namespace SchemaGraph

variable {g g' : SchemaGraph}

namespace Reordered

theorem symm (h : g.Reordered g') : g'.Reordered g where
  schemas := h.schemas.symm
  named   := h.named.symm
  roots   := h.roots.symm

theorem nodes (h : g.Reordered g') : g.nodes.Perm g'.nodes :=
  h.schemas.map _

theorem closed (h : g.Reordered g') (hc : g.Closed) : g'.Closed where
  nodup           := h.nodes.nodup_iff.mp hc.nodup
  links s hs p hp := h.nodes.mem_iff.mp (hc.links s (h.schemas.mem_iff.mpr hs) p hp)

theorem get?_eq (h : g.Reordered g') (hc : g.Closed) (p : Pointer) : g.get? p = g'.get? p :=
  find?_eq_of_perm hc.nodup h.schemas p

-- Chains follow links, whatever the order of the nodes that are still to be visited.
theorem aliasChainFrom_eq (h : g.Reordered g') (hc : g.Closed) {unvisited unvisited' : List Pointer}
    (hu : unvisited.Perm unvisited') (visited : List Pointer) (p : Pointer) :
    g.aliasChainFrom unvisited visited p = g'.aliasChainFrom unvisited' visited p := by
  have hget (p : Pointer) := h.get?_eq hc p
  fun_induction g.aliasChainFrom unvisited visited p generalizing unvisited' <;>
    rw [aliasChainFrom.eq_def g']
  case case1 hn =>
    rw [hget] at hn
    simp only [hn]
  case case2 hs target hf hm hi =>
    rw [hget] at hs
    simp only [hs, hf, hu.mem_iff.mp hm, dif_pos, hi (hu.erase target)]
  case case3 hs target hf hm =>
    rw [hget] at hs
    simp only [hs, hf, mt hu.mem_iff.mpr hm, dif_neg, not_false_eq_true]
  case case4 hs hf =>
    rw [hget] at hs
    simp only [hs]

theorem aliasChain_eq (h : g.Reordered g') (hc : g.Closed) (p : Pointer) :
    g.aliasChain p = g'.aliasChain p :=
  h.aliasChainFrom_eq hc (h.nodes.erase p) [p] p

end Reordered
end SchemaGraph

namespace Resolution

variable {r r' : Resolution} {p : Pointer}

-- Resolutions of the same schemas in another order.
structure Reordered (r r' : Resolution) : Prop where
  graph      : r.graph.Reordered r'.graph
  chain      : ∀ p, r.chain p = r'.chain p
  canonical? : ∀ p, r.canonical? p = r'.canonical? p

theorem exists_ofGraph_eq_ok {g g' : SchemaGraph} (h : g.Reordered g') (hc : g.Closed)
    (hr : ofGraph g = .ok r) :
    ∃ r', ofGraph g' = .ok r' ∧ r.Reordered r' := by
  have hs := sound_ofGraph hc hr
  have hg := graph_ofGraph hr
  subst hg
  have hsettles (p : Pointer) (s : Schema) : r.graph.Settles p s ↔ g'.Settles p s :=
    ⟨fun hs => hs.mono fun q _ ht => h.get?_eq hc q ▸ ht,
      fun hs => hs.mono fun q _ ht => (h.get?_eq hc q).symm ▸ ht⟩
  have ⟨r', hr'⟩ := exists_ofGraph_of_not_cycles (h.closed hc) fun p hp => by
    have ⟨s, hcan⟩ := hs.total p (h.nodes.mem_iff.mpr hp)
    exact ((hsettles p s).mp ((hs.settles p s).mp hcan)).not_cycles
  have hs' := sound_ofGraph (h.closed hc) hr'
  have hg' := graph_ofGraph hr'
  subst hg'
  refine ⟨r', hr', h, fun p => ?_, fun p => ?_⟩
  case refine_1 => rw [Resolution.chain, h.aliasChain_eq hc, Resolution.chain]
  case refine_2 =>
    apply Option.ext fun s => ?_
    rw [hs.settles, hsettles, hs'.settles]

namespace Reordered

theorem refl (r : Resolution) : r.Reordered r where
  graph        := ⟨.rfl, rfl, .rfl⟩
  chain _      := rfl
  canonical? _ := rfl

variable (h : r.Reordered r')
include h

theorem symm : r'.Reordered r where
  graph        := h.graph.symm
  chain p      := (h.chain p).symm
  canonical? p := (h.canonical? p).symm

theorem usage?_eq (p : Pointer) : r.usage? p = r'.usage? p := by
  simp only [usage?, h.canonical?]

theorem fieldTypeFrom_eq {unvisited unvisited' : List Pointer} (hu : unvisited.Perm unvisited')
    (arrays : List Pointer) (p : Pointer) :
    r.fieldTypeFrom unvisited arrays p = r'.fieldTypeFrom unvisited' arrays p := by
  fun_induction r.fieldTypeFrom unvisited arrays p generalizing unvisited' <;>
    rw [fieldTypeFrom.eq_def r']
  case case1 hn =>
    rw [h.canonical?] at hn
    simp only [hn]
  case case2 schema hs items hf hm hi =>
    rw [h.canonical?] at hs
    simp only [hs, hf, hu.mem_iff.mp hm, dif_pos, hi (hu.erase schema.node)]
  case case3 hs items hf hm =>
    rw [h.canonical?] at hs
    simp only [hs, hf, mt hu.mem_iff.mpr hm, dif_neg, not_false_eq_true]
  case case4 hs properties required hf =>
    rw [h.canonical?] at hs
    simp only [hs, hf]
  case case5 hs type hf =>
    rw [h.canonical?] at hs
    simp only [hs, hf]
  case case6 hs target hf =>
    rw [h.canonical?] at hs
    simp only [hs, hf]

theorem fieldType_eq (p : Pointer) : r.fieldType p = r'.fieldType p :=
  h.fieldTypeFrom_eq h.graph.nodes [] p

theorem agreeAt (p : Pointer) : r.AgreeAt r' p where
  chain      := h.chain p
  canonical? := h.canonical? p
  fieldType  := h.fieldType_eq p
  usage?     := h.usage?_eq p

theorem reaches {roots roots' : List Pointer} {s : Schema} (hp : roots ⊆ roots')
    (hs : r.Reaches roots s) :
    r'.Reaches roots' s := by
  induction hs
  case root hm hc    => exact .root (hp hm) (h.canonical? _ ▸ hc)
  case link hm hc hi => exact .link hi hm (h.canonical? _ ▸ hc)

-- The objects discovered are those that are reached, so their order is all that can differ.
theorem perm_discover {roots roots' : List Pointer} (hs : r.Sound) (hs' : r'.Sound)
    (hp : roots.Perm roots') :
    (r.discover roots).Perm (r'.discover roots') := by
  rw [List.perm_ext_iff_of_nodup (.of_map _ (hs.nodup_discover _))
    (.of_map _ (hs'.nodup_discover _))]
  intro s
  rw [hs.mem_discover_iff, hs'.mem_discover_iff]
  exact and_congr_right' ⟨h.reaches hp.subset, h.symm.reaches hp.symm.subset⟩

end Reordered
end Resolution
end ApiDescriptors
