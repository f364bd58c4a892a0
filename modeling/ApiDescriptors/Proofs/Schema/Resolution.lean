import ApiDescriptors.Proofs.Schema.Table

namespace ApiDescriptors

open Result

namespace Resolution

theorem legible_ofGraph (g : SchemaGraph) : (ofGraph g).Legible :=
  .bind (.foldlM (fun _ _ _ => g.legible_settle _ _) _) fun _ _ => .pure _

theorem failsWith_fieldTypeFrom {P : Error → Prop} (hc : ∀ chain, P (.cycle chain))
    (hn : ∀ node, P (.notLoaded node)) (r : Resolution) (unvisited arrays : List Pointer)
    (p : Pointer) : (r.fieldTypeFrom unvisited arrays p).FailsWith P := by
  fun_induction r.fieldTypeFrom unvisited arrays p
  case case1    => exact .error (hn _)
  case case2 hi => exact .bind hi fun _ _ => .pure _
  case case3    => exact .error (hc _)
  case case4    => exact .ok _
  case case5    => exact .ok _
  case case6    => exact .error (hn _)

-- A resolution has the canonical schemas of its graph: each schema has one, at the end of its
-- alias chain.
structure Sound (r : Resolution) : Prop where
  closed  : r.graph.Closed
  total   : ∀ p ∈ r.graph.nodes, ∃ s, r.canonical? p = some s
  settles : ∀ p s, r.canonical? p = some s ↔ r.graph.Settles p s

theorem graph_ofGraph {g : SchemaGraph} {r : Resolution} (h : ofGraph g = .ok r) : r.graph = g := by
  have ⟨_, _, hr⟩ := bind_eq_ok.mp h
  exact pure_eq_ok.mp hr ▸ rfl

-- A canonical schema is the one whose node is noted in the table.
theorem canonical?_eq_known? {g : SchemaGraph} {table : SchemaGraph.Table} (ht : g.Exact table)
    (hg : g.Closed) (hk : ∀ p ∈ g.nodes, (g.known? table p).isSome) (p : Pointer) :
    canonical? ⟨g, table.filterMap id⟩ p = (g.known? table p).bind g.get? := by
  simp only [canonical?, SchemaGraph.known?, Option.bind_assoc, ht.getElem?_filterMap hg hk]

theorem sound_ofGraph {g : SchemaGraph} {r : Resolution} (hg : g.Closed) (h : ofGraph g = .ok r) :
    r.Sound := by
  have ⟨table, ht, hr⟩ := bind_eq_ok.mp h
  have ⟨⟨ht, _⟩, hk⟩ := (SchemaGraph.Exact.start g).foldlM_settle_eq_ok (List.Subset.refl _) ht
  have hc := canonical?_eq_known? ht hg hk
  rw [pure_eq_ok.mp hr] at hc
  have hr : r.graph = g := graph_ofGraph h
  have hsettles (p : Pointer) (s : Schema) (hs : r.canonical? p = some s) : g.Settles p s := by
    have ⟨c, hk, hs⟩ := Option.bind_eq_some_iff.mp (hc p ▸ hs)
    have ⟨t, hn, ht⟩ := ht.settles p c hk
    cases hs.symm.trans (hn ▸ ht.found)
    exact ht
  have htotal : ∀ p ∈ g.nodes, ∃ s, r.canonical? p = some s := by
    intro p hp
    have ⟨c, hk⟩ := Option.isSome_iff_exists.mp (hk p hp)
    have ⟨s, hn, hs⟩ := ht.settles p c hk
    exact ⟨s, by rw [hc, hk, Option.bind_some, ← hn, hs.found]⟩
  subst hr
  refine ⟨hg, htotal, fun p s => ⟨hsettles p s, fun hs => ?_⟩⟩
  have ⟨t, ht⟩ := htotal p hs.mem_nodes
  exact (hsettles p t ht).unique hs ▸ ht

-- Where there is no resolution, the first node in the order of the graph that has no canonical one
-- is told of.
theorem ofGraph_eq_error {g : SchemaGraph} {e : Error} (hg : g.Closed) (h : ofGraph g = .error e) :
    ∃ before first after chain, g.nodes = before ++ first :: after ∧
      (∀ p ∈ before, ∃ s, g.Settles p s) ∧ e = .cycle chain ∧ g.Lasso first chain :=
  (SchemaGraph.Exact.start g).foldlM_settle_eq_error hg (List.Subset.refl _)
    ((bind_eq_error.mp h).resolve_right fun ⟨_, _, he⟩ => nomatch he)

theorem exists_ofGraph_of_not_cycles {g : SchemaGraph} (hg : g.Closed)
    (h : ∀ p ∈ g.nodes, ¬g.Cycles p) : ∃ r, ofGraph g = .ok r := by
  cases hr : ofGraph g
  case ok r => exact ⟨r, rfl⟩
  case error =>
    have ⟨before, first, after, chain, hn, _, _, hl⟩ := ofGraph_eq_error hg hr
    exact absurd hl.cycles (h first (by simp [hn]))

namespace Sound

variable {r : Resolution} (h : r.Sound) {p q : Pointer} {s t : Schema}
include h

theorem mem_nodes_of_canonical? (hc : r.canonical? p = some s) : p ∈ r.graph.nodes :=
  ((h.settles p s).mp hc).mem_nodes

theorem exists_canonical? (hp : p ∈ r.graph.nodes) :
    ∃ s ∈ r.graph.schemas, r.canonical? p = some s ∧ s.Concrete := by
  have ⟨s, hc⟩ := h.total p hp
  have hs := (h.settles p s).mp hc
  exact ⟨s, SchemaGraph.mem_of_get? hs.found, hc, hs.concrete⟩

-- The chain of a schema is the one that the graph has for it.
theorem chain (hp : p ∈ r.graph.nodes) : r.graph.aliasChain p = .ok (r.chain p) := by
  have ⟨s, hc⟩ := h.total p hp
  have ⟨chain, ha, _⟩ := ((h.settles p s).mp hc).exists_aliasChain h.closed
  rw [Resolution.chain, ha]
  rfl

theorem mem_of_canonical? (hc : r.canonical? p = some s) : s ∈ r.graph.schemas ∧ s.Concrete := by
  have ⟨t, ht, hct, htc⟩ := h.exists_canonical? (h.mem_nodes_of_canonical? hc)
  exact Option.some.inj (hct.symm.trans hc) ▸ ⟨ht, htc⟩

theorem node_mem_of_canonical? (hc : r.canonical? p = some s) : s.node ∈ r.graph.nodes :=
  List.mem_map_of_mem (h.mem_of_canonical? hc).left

theorem eq_of_node_eq (hs : r.canonical? p = some s) (ht : r.canonical? q = some t)
    (he : s.node = t.node) : s = t :=
  h.closed.eq_of_node_eq (h.mem_of_canonical? hs).left (h.mem_of_canonical? ht).left he

theorem mem_nodes_of_mem_links (hs : r.canonical? p = some s) (hq : q ∈ s.links) :
    q ∈ r.graph.nodes :=
  h.closed.links s (h.mem_of_canonical? hs).left q hq

-- A type that is asked for at a node of the graph is found, or there is a cycle.
theorem specific_fieldTypeFrom (hp : p ∈ r.graph.nodes) (unvisited arrays : List Pointer) :
    (r.fieldTypeFrom unvisited arrays p).Specific := by
  fun_induction r.fieldTypeFrom unvisited arrays p
  case case1 hn =>
    have ⟨_, _, hs, _⟩ := h.exists_canonical? hp
    cases hn.symm.trans hs
  case case2 schema hs items hf _ hi =>
    have hl : items ∈ schema.links := Schema.mem_links_of_array hf
    exact .bind (hi (h.mem_nodes_of_mem_links hs hl)) fun _ _ => .pure _
  case case3 => exact .error rfl
  case case4 => exact .ok _
  case case5 => exact .ok _
  case case6 hs target hf => exact absurd hf ((h.mem_of_canonical? hs).right target)

theorem specific_fieldType (hp : p ∈ r.graph.nodes) : (r.fieldType p).Specific :=
  h.specific_fieldTypeFrom hp r.graph.nodes []

end Sound

-- The canonical schemas that links lead to from the nodes of `roots`.
inductive Reaches (r : Resolution) (roots : List Pointer) : Schema → Prop
  | root {p s} : p ∈ roots → r.canonical? p = some s → Reaches r roots s
  | link {s p t} : Reaches r roots s → p ∈ s.links → r.canonical? p = some t → Reaches r roots t

theorem Reaches.exists_canonical? {r : Resolution} {roots : List Pointer} {s : Schema}
    (h : r.Reaches roots s) :
    ∃ p, r.canonical? p = some s := by
  cases h
  case root hs => exact ⟨_, hs⟩
  case link hs => exact ⟨_, hs⟩

theorem Sound.mem_schemas_of_reaches {r : Resolution} {roots : List Pointer} {s : Schema}
    (h : r.Sound) (hr : r.Reaches roots s) : s ∈ r.graph.schemas := by
  obtain ⟨_, hc⟩ := hr.exists_canonical?
  exact (h.mem_of_canonical? hc).left

theorem Sound.mem_nodes_of_reaches {r : Resolution} {roots : List Pointer} {s : Schema} {p : Pointer}
    (h : r.Sound) (hr : r.Reaches roots s) (hp : p ∈ s.links) : p ∈ r.graph.nodes :=
  h.closed.links s (h.mem_schemas_of_reaches hr) p hp

-- The object at the core of a type is reached from the schema that has the type.
theorem Reaches.innermost?_fieldTypeFrom {r : Resolution} {roots unvisited arrays : List Pointer}
    {p key : Pointer} {s : Schema} {type : FieldType} (hs : r.canonical? p = some s)
    (h : r.Reaches roots s) (ht : r.fieldTypeFrom unvisited arrays p = .ok type)
    (hk : type.innermost? = some key) :
    ∃ o, r.Reaches roots o ∧ o.isObject ∧ o.node = key := by
  fun_induction r.fieldTypeFrom unvisited arrays p generalizing s type
  case case1 => cases ht
  case case2 schema hcan items hf _ hi =>
    have ⟨inner, hr, he⟩ := bind_eq_ok.mp ht
    cases pure_eq_ok.mp he
    cases hcan.symm.trans hs
    have hl : items ∈ schema.links := Schema.mem_links_of_array hf
    cases hi' : r.canonical? items
    case none => rw [fieldTypeFrom, hi'] at hr; cases hr
    case some t => exact hi hi' (h.link hl hi') hr hk
  case case3 => cases ht
  case case4 schema hcan _ _ hf =>
    cases ht
    cases hk
    cases hcan.symm.trans hs
    exact ⟨schema, h, by simp [Schema.isObject, hf], rfl⟩
  case case5 => cases ht; cases hk
  case case6 => cases ht

theorem Reaches.innermost?_fieldType {r : Resolution} {roots : List Pointer} {p key : Pointer}
    {s : Schema} {type : FieldType} (hs : r.canonical? p = some s) (h : r.Reaches roots s)
    (ht : r.fieldType p = .ok type) (hk : type.innermost? = some key) :
    ∃ o, r.Reaches roots o ∧ o.isObject ∧ o.node = key :=
  innermost?_fieldTypeFrom hs h ht hk

theorem Reaches.usage? {r : Resolution} {roots : List Pointer} {p : Pointer} {s : Schema}
    {usage : Usage} (hs : r.canonical? p = some s) (h : r.Reaches roots s)
    (hu : r.usage? p = some usage) :
    ∃ o, r.Reaches roots o ∧ o.isObject ∧ o.node = usage.schema := by
  simp only [Resolution.usage?, hs, Option.bind_eq_bind, Option.bind_some] at hu
  split at hu
  case h_1 hf =>
    cases hu
    exact ⟨s, h, by simp [Schema.isObject, hf], rfl⟩
  case h_2 items hf =>
    obtain ⟨item, hi, hu⟩ := Option.bind_eq_some_iff.mp hu
    have hl : items ∈ s.links := Schema.mem_links_of_array hf
    split at hu <;> cases hu
    exact ⟨item, h.link hl hi, ‹_›, rfl⟩
  case h_3 => cases hu

-- Resolutions that say the same of a schema where it is used.
structure AgreeAt (r r' : Resolution) (p : Pointer) : Prop where
  chain      : r.chain p = r'.chain p
  canonical? : r.canonical? p = r'.canonical? p
  fieldType  : r.fieldType p = r'.fieldType p
  usage?     : r.usage? p = r'.usage? p

namespace AgreeAt

variable {r r' : Resolution} {p : Pointer} (h : r.AgreeAt r' p)
include h

theorem isNullable_eq : r.isNullable p = r'.isNullable p := by
  rw [isNullable, isNullable, h.chain]

theorem description?_eq : r.description? p = r'.description? p := by
  rw [description?, description?, h.canonical?, h.chain]

theorem choices_eq : r.choices p = r'.choices p := by
  rw [choices, choices, h.canonical?]

end AgreeAt
end Resolution
end ApiDescriptors
