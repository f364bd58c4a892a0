import ApiDescriptors.Proofs.Schema.Loading
import ApiDescriptors.Schema.Resolution
import Mathlib.Data.List.Chain
import Mathlib.Logic.Relation

namespace ApiDescriptors

open Result Relation

theorem transGen_of_isChain {α : Type} {r : α → α → Prop} {a b : α} {way : List α}
    (h : (a :: (way ++ [b])).IsChain r) : TransGen r a b := by
  induction way generalizing a
  case nil => exact .single h.rel
  case cons c way hi =>
    rw [List.cons_append] at h
    exact .head h.rel (hi h.tail)

-- Where each has one successor at most, a cycle is never left.
theorem transGen_self_of_way {α : Type} {r : α → α → Prop} {a b : α}
    (hu : Relator.RightUnique r) (ha : TransGen r a a) (hw : ReflTransGen r a b) :
    TransGen r b b := by
  induction hw
  case refl => exact ha
  case tail b c _ hs hi =>
    have ⟨d, hd, hdb⟩ := TransGen.head'_iff.mp hi
    cases hu hs hd
    exact .tail' hdb hs

-- A schema that stands for no other.
def Schema.Concrete (s : Schema) : Prop :=
  ∀ target, s.form ≠ .aliasOf target

theorem Schema.isObject_iff {s : Schema} :
    s.isObject ↔ ∃ properties required, s.form = .object properties required := by
  simp only [isObject]
  cases s.form <;> simp

theorem Schema.mem_links_of_aliasOf {s : Schema} {target : Pointer} (h : s.form = .aliasOf target) :
    target ∈ s.links := by
  simp [links, h, Form.links]

theorem Schema.mem_links_of_array {s : Schema} {items : Pointer} (h : s.form = .array items) :
    items ∈ s.links := by
  simp [links, h, Form.links]

namespace SchemaGraph

-- Every link leads to a schema of the graph, and no two schemas stand at one node.
structure Closed (g : SchemaGraph) : Prop where
  nodup : g.nodes.Nodup
  links : ∀ s ∈ g.schemas, ∀ p ∈ s.links, p ∈ g.nodes

theorem Loaded.closed {d : Document} {g : SchemaGraph} (h : Loaded d g) : g.Closed where
  nodup          := h.nodup
  links _ hs _ hp := h.mem_nodes_of_mem_links hs hp

-- The schemas from a node on, each the one that the schema before it stands for, to the first that
-- stands for no other.
inductive ChainOf (g : SchemaGraph) : Pointer → List Schema → Prop
  | last {p s} : g.get? p = some s → s.Concrete → ChainOf g p [s]
  | next {p s target chain} :
    g.get? p = some s → s.form = .aliasOf target → ChainOf g target chain → ChainOf g p (s :: chain)

variable {g : SchemaGraph} {p q first : Pointer} {s t : Schema} {chain chain' : List Schema}

theorem mem_of_get? (h : g.get? p = some s) : s ∈ g.schemas :=
  List.mem_of_find?_eq_some h

theorem node_of_get? (h : g.get? p = some s) : s.node = p := by
  simpa using List.find?_some h

theorem mem_nodes_of_get? (h : g.get? p = some s) : p ∈ g.nodes :=
  node_of_get? h ▸ List.mem_map_of_mem (mem_of_get? h)

theorem exists_get?_of_mem_nodes (h : p ∈ g.nodes) : ∃ s, g.get? p = some s := by
  have ⟨s, hs, he⟩ := List.mem_map.mp h
  apply Option.isSome_iff_exists.mp
  exact List.find?_isSome.mpr ⟨s, hs, by simp [he]⟩

theorem Closed.eq_of_node_eq (h : g.Closed) (hs : s ∈ g.schemas) (ht : t ∈ g.schemas)
    (he : s.node = t.node) : s = t :=
  List.inj_on_of_nodup_map h.nodup hs ht he

-- The step from a schema that stands for another one to that other one.
def AliasStep (g : SchemaGraph) (p q : Pointer) : Prop :=
  ∃ s, g.get? p = some s ∧ s.form = .aliasOf q

-- The alias chain of a schema leads to one that stands for no other.
structure Settles (g : SchemaGraph) (p : Pointer) (s : Schema) : Prop where
  way      : ReflTransGen g.AliasStep p s.node
  found    : g.get? s.node = some s
  concrete : s.Concrete

-- The alias chain of a schema runs into a cycle.
def Cycles (g : SchemaGraph) (p : Pointer) : Prop :=
  ∃ q, ReflTransGen g.AliasStep p q ∧ TransGen g.AliasStep q q

theorem AliasStep.unique : Relator.RightUnique g.AliasStep := by
  intro p q t ⟨s, hs, hq⟩ ⟨s', hs', ht⟩
  cases hs.symm.trans hs'
  cases hq.symm.trans ht
  rfl

theorem AliasStep.mem_nodes (h : g.AliasStep p q) : p ∈ g.nodes := by
  have ⟨_, hs, _⟩ := h
  exact mem_nodes_of_get? hs

theorem Closed.mem_nodes_of_step (hg : g.Closed) (h : g.AliasStep p q) : q ∈ g.nodes := by
  have ⟨s, hs, hf⟩ := h
  exact hg.links s (mem_of_get? hs) q (Schema.mem_links_of_aliasOf hf)

namespace Settles

theorem of_concrete (hs : g.get? p = some s) (hc : s.Concrete) : g.Settles p s := by
  have hn := node_of_get? hs
  subst hn
  exact ⟨.refl, hs, hc⟩

theorem of_way (hw : ReflTransGen g.AliasStep p q) (h : g.Settles q s) : g.Settles p s where
  way      := hw.trans h.way
  found    := h.found
  concrete := h.concrete

theorem mono {g' : SchemaGraph} (h : g.Settles p s)
    (hg : ∀ p s, g.get? p = some s → g'.get? p = some s) : g'.Settles p s where
  way      := h.way.lift id fun _ _ ⟨s, hs, hf⟩ => ⟨s, hg _ s hs, hf⟩
  found    := hg _ s h.found
  concrete := h.concrete

theorem not_step (h : g.Settles p s) : ¬g.AliasStep s.node q := by
  intro ⟨t, ht, hf⟩
  cases h.found.symm.trans ht
  exact h.concrete q hf

theorem eq_of_way (h : g.Settles p s) (hw : ReflTransGen g.AliasStep s.node q) : q = s.node := by
  cases hw.cases_head
  case inl he => exact he.symm
  case inr hs =>
    have ⟨_, hs, _⟩ := hs
    exact absurd hs h.not_step

theorem unique (h : g.Settles p s) (h' : g.Settles p t) : s = t := by
  have he : t.node = s.node := by
    cases h.way.total_of_right_unique AliasStep.unique h'.way
    case inl hw => exact h.eq_of_way hw
    case inr hw => exact (h'.eq_of_way hw).symm
  exact Option.some.inj (h.found.symm.trans (he ▸ h'.found))

theorem not_cycles (h : g.Settles p s) : ¬g.Cycles p := by
  intro ⟨q, hq, hc⟩
  have hs : TransGen g.AliasStep s.node s.node := by
    cases h.way.total_of_right_unique AliasStep.unique hq
    case inl hw => exact h.eq_of_way hw ▸ hc
    case inr hw => exact transGen_self_of_way AliasStep.unique hc hw
  have ⟨_, hs, _⟩ := TransGen.head'_iff.mp hs
  exact h.not_step hs

theorem mem_nodes (h : g.Settles p s) : p ∈ g.nodes := by
  cases h.way.cases_head
  case inl he => exact he ▸ mem_nodes_of_get? h.found
  case inr hs =>
    have ⟨_, hs, _⟩ := hs
    exact hs.mem_nodes

end Settles

namespace ChainOf

theorem unique (h : g.ChainOf p chain) (h' : g.ChainOf p chain') : chain = chain' := by
  induction h generalizing chain'
  case last hs hc =>
    obtain ⟨hs', _⟩ | ⟨hs', hf, _⟩ := h' <;> cases hs.symm.trans hs'
    case last => rfl
    case next => exact absurd hf (hc _)
  case next hs hf _ hi =>
    obtain ⟨hs', hc⟩ | ⟨hs', hf', h'⟩ := h' <;> cases hs.symm.trans hs'
    case last => exact absurd hf (hc _)
    case next =>
      cases hf.symm.trans hf'
      rw [hi h']

theorem ne_nil (h : g.ChainOf p chain) : chain ≠ [] := by
  cases h <;> simp

theorem subset (h : g.ChainOf p chain) : chain ⊆ g.schemas := by
  induction h
  case last hs _      => simpa using mem_of_get? hs
  case next hs _ _ hi => simpa using ⟨mem_of_get? hs, hi⟩

-- A schema settles at the end of its chain.
theorem settles (h : g.ChainOf p chain) : ∃ s, chain.getLast? = some s ∧ g.Settles p s := by
  induction h
  case last s hs hc => exact ⟨s, rfl, .of_concrete hs hc⟩
  case next s target _ hs hf _ hi =>
    obtain ⟨t, ht, hw⟩ := hi
    exact ⟨t, by simp [List.getLast?_cons, ht], .of_way (.single ⟨s, hs, hf⟩) hw⟩

end ChainOf

-- Nodes that were visited from the first one on, each by a step from the one before, and the nodes
-- of the graph that were not.
structure Walk (g : SchemaGraph) (first : Pointer) (unvisited visited : List Pointer)
    (p : Pointer) : Prop where
  head  : visited.head? = some first
  last  : visited.getLast? = some p
  steps : visited.IsChain g.AliasStep
  perm  : (visited ++ unvisited).Perm g.nodes

-- A chain that begins at `first` and ends at the first node that it visits twice.
structure Lasso (g : SchemaGraph) (first : Pointer) (chain : List Pointer) : Prop where
  head    : chain.head? = some first
  steps   : chain.IsChain g.AliasStep
  repeats : ∃ visited last, chain = visited ++ [last] ∧ visited.Nodup ∧ last ∈ visited

namespace Walk

variable {unvisited visited : List Pointer}

theorem start (hp : p ∈ g.nodes) : g.Walk p (g.nodes.erase p) [p] p where
  head  := rfl
  last  := rfl
  steps := .singleton p
  perm  := (List.perm_cons_erase hp).symm

variable (h : g.Walk first unvisited visited p)
include h

theorem mem_nodes : p ∈ g.nodes :=
  h.perm.subset (List.mem_append_left _ (List.mem_of_getLast? h.last))

theorem first_mem : first ∈ visited :=
  List.mem_of_head? h.head

-- From every node that was visited, steps lead to the last one.
theorem way (hq : q ∈ visited) : ReflTransGen g.AliasStep q p := by
  have ⟨before, after, he⟩ := List.append_of_mem hq
  have hl := h.last
  have hs := h.steps
  rw [he] at hl hs
  rw [List.getLast?_append_cons] at hl
  cases after using List.reverseRecOn
  case nil =>
    cases hl
    exact .refl
  case append_singleton after last =>
    rw [← List.cons_append, List.getLast?_concat] at hl
    cases hl
    exact (transGen_of_isChain hs.right_of_append).to_reflTransGen

theorem steps_concat (hs : g.AliasStep p q) : (visited ++ [q]).IsChain g.AliasStep := by
  refine h.steps.append (.singleton q) fun x hx y hy => ?_
  cases h.last.symm.trans hx
  cases hy
  exact hs

theorem head_concat (q : Pointer) : (visited ++ [q]).head? = some first := by
  rw [List.head?_append, h.head, Option.some_or]

theorem step (hs : g.AliasStep p q) (hq : q ∈ unvisited) :
    g.Walk first (unvisited.erase q) (visited ++ [q]) q where
  head  := h.head_concat q
  last  := List.getLast?_concat
  steps := h.steps_concat hs
  perm  := by
    rw [List.append_assoc, List.singleton_append]
    exact ((List.perm_cons_erase hq).symm.append_left visited).trans h.perm

-- A step to a node that was visited closes a cycle.
theorem lasso (hg : g.Closed) (hs : g.AliasStep p q) (hq : q ∉ unvisited) :
    g.Lasso first (visited ++ [q]) where
  head    := h.head_concat q
  steps   := h.steps_concat hs
  repeats := by
    have hn := h.perm.nodup_iff.mpr hg.nodup
    have hm := h.perm.mem_iff.mpr (hg.mem_nodes_of_step hs)
    exact ⟨visited, q, rfl, (List.nodup_append.mp hn).left,
      (List.mem_append.mp hm).resolve_right hq⟩

end Walk

theorem Lasso.cycles {chain : List Pointer} (h : g.Lasso first chain) : g.Cycles first := by
  obtain ⟨hd, hs, visited, last, rfl, -, hm⟩ := h
  obtain ⟨before, after, rfl⟩ := List.append_of_mem hm
  rw [List.append_assoc, List.cons_append] at hd hs
  refine ⟨last, ?_, transGen_of_isChain hs.right_of_append⟩
  cases before
  case nil => cases hd; exact .refl
  case cons p before =>
    have hd : p = first := Option.some.inj hd
    subst hd
    have hp : (p :: (before ++ [last])).IsChain g.AliasStep := hs.prefix ⟨after ++ [last], by simp⟩
    exact (transGen_of_isChain hp).to_reflTransGen

theorem Closed.chainOf_of_aliasChainFrom (hg : g.Closed) {unvisited visited : List Pointer}
    (hp : p ∈ g.nodes) (h : g.aliasChainFrom unvisited visited p = .ok chain) :
    g.ChainOf p chain := by
  fun_induction g.aliasChainFrom unvisited visited p generalizing chain
  case case1 hn =>
    obtain ⟨_, hs⟩ := exists_get?_of_mem_nodes hp
    cases hn.symm.trans hs
  case case2 hs target hf _ hi =>
    obtain ⟨rest, hr, hc⟩ := bind_eq_ok.mp h
    cases hc
    exact .next hs hf (hi (hg.mem_nodes_of_step ⟨_, hs, hf⟩) hr)
  case case3 => cases h
  case case4 hs hf =>
    cases h
    exact .last hs hf

-- A chain that cannot be followed to its end comes back to a node on it.
theorem Closed.lasso_of_aliasChainFrom (hg : g.Closed) {unvisited visited : List Pointer}
    {e : Error} (hw : g.Walk first unvisited visited p)
    (h : g.aliasChainFrom unvisited visited p = .error e) :
    ∃ chain, e = .cycle chain ∧ g.Lasso first chain := by
  fun_induction g.aliasChainFrom unvisited visited p
  case case1 => cases h
  case case2 s hs target hf ht hi =>
    obtain he | ⟨_, _, he⟩ := bind_eq_error.mp h
    case inl => exact hi (hw.step ⟨s, hs, hf⟩ ht) he
    case inr => cases he
  case case3 s hs target hf ht =>
    cases h
    exact ⟨_, rfl, hw.lasso hg ⟨s, hs, hf⟩ ht⟩
  case case4 => cases h

-- A schema that settles has an alias chain, at whose end it does.
theorem Settles.exists_aliasChain (h : g.Settles p s) (hg : g.Closed) :
    ∃ chain, g.aliasChain p = .ok chain ∧ chain.getLast? = some s := by
  cases hc : g.aliasChain p
  case error =>
    have ⟨_, _, hl⟩ := hg.lasso_of_aliasChainFrom (.start h.mem_nodes) hc
    exact absurd hl.cycles h.not_cycles
  case ok chain =>
    have ⟨t, ht, hs⟩ := (hg.chainOf_of_aliasChainFrom h.mem_nodes hc).settles
    exact ⟨chain, rfl, hs.unique h ▸ ht⟩

end SchemaGraph
end ApiDescriptors
