import ApiDescriptors.Proofs.Schema.Chains

namespace ApiDescriptors

open Result Relation

theorem map_some_filterMap_id {α : Type} {l : List (Option α)} (h : ∀ a ∈ l, a.isSome) :
    (l.filterMap id).map some = l := by
  induction l
  case nil => rfl
  case cons a l hi =>
    have ⟨ha, hl⟩ := List.forall_mem_cons.mp h
    cases a
    case none   => cases ha
    case some a =>
      have ha : id (some a) = some a := rfl
      rw [List.filterMap_cons_some ha, List.map_cons, hi hl]

namespace SchemaGraph

variable {g : SchemaGraph} {table table' : Table} {nodes unvisited visited way : List Pointer}
  {p q first canonical : Pointer} {s : Schema} {e : Error} {i : Nat}

-- Places

theorem exists_index?_of_mem_nodes (h : p ∈ g.nodes) :
    ∃ i, g.index? p = some i ∧ i < g.schemas.length := by
  have ⟨s, hs, he⟩ := List.mem_map.mp h
  have hi : (g.index? p).isSome :=
    List.findIdx?_isSome.trans (List.any_eq_true.mpr ⟨s, hs, by simp [he]⟩)
  have ⟨i, hi⟩ := Option.isSome_iff_exists.mp hi
  have ⟨hl, _⟩ := List.findIdx?_eq_some_iff_getElem.mp hi
  exact ⟨i, hi, hl⟩

theorem eq_of_index?_eq (hp : g.index? p = some i) (hq : g.index? q = some i) : p = q := by
  have ⟨_, hp, _⟩ := List.findIdx?_eq_some_iff_getElem.mp hp
  have ⟨_, hq, _⟩ := List.findIdx?_eq_some_iff_getElem.mp hq
  simp only [decide_eq_true_eq] at hp hq
  exact hp.symm.trans hq

theorem Closed.index?_getElem (hg : g.Closed) (hi : i < g.schemas.length) :
    g.index? g.schemas[i].node = some i := by
  refine List.findIdx?_eq_some_iff_getElem.mpr ⟨hi, by simp, fun j hj he => ?_⟩
  have he : g.schemas[j] = g.schemas[i] :=
    hg.eq_of_node_eq (List.getElem_mem _) (List.getElem_mem _) (by simpa using he)
  exact hj.ne (hg.nodup.of_map.getElem_inj_iff.mp he)

-- Noting a canonical node

theorem length_note : (g.note canonical table p).length = table.length := by
  simp only [note]
  split
  · exact List.length_set
  · rfl

theorem known?_note (hl : table.length = g.schemas.length) (hp : p ∈ g.nodes) (q : Pointer) :
    g.known? (g.note canonical table p) q = if q = p then some canonical else g.known? table q := by
  have ⟨i, hi, hlt⟩ := exists_index?_of_mem_nodes hp
  simp only [note, hi, known?]
  split
  case isTrue he =>
    subst he
    simp [hi, hl, hlt]
  case isFalse hne =>
    cases hq : g.index? q
    case none   => rfl
    case some j =>
      have hij : i ≠ j := fun he => hne (eq_of_index?_eq hq (he ▸ hi))
      simp only [Option.bind_some, List.getElem?_set_ne hij]

theorem length_foldl_note : (way.foldl (g.note canonical) table).length = table.length := by
  induction way generalizing table
  case nil => rfl
  case cons p way hi => rw [List.foldl_cons, hi, length_note]

theorem known?_foldl_note (hl : table.length = g.schemas.length) (hw : way ⊆ g.nodes)
    (q : Pointer) :
    g.known? (way.foldl (g.note canonical) table) q =
      if q ∈ way then some canonical else g.known? table q := by
  induction way generalizing table
  case nil => simp
  case cons p way hi =>
    have ⟨hp, hw⟩ := List.cons_subset.mp hw
    rw [List.foldl_cons, hi (length_note.trans hl) hw, known?_note hl hp]
    simp only [List.mem_cons]
    grind

theorem legible_canonicalFrom (g : SchemaGraph) (table : Table) (unvisited visited : List Pointer)
    (p : Pointer) : (g.canonicalFrom table unvisited visited p).Legible := by
  fun_induction g.canonicalFrom table unvisited visited p
  case case1    => exact .ok _
  case case2 hi => exact hi
  case case3    => exact .error rfl
  case case4    => exact .ok _

theorem legible_settle (g : SchemaGraph) (table : Table) (p : Pointer) :
    (g.settle table p).Legible := by
  simp only [settle]
  split
  · exact .ok _
  · exact .bind (g.legible_canonicalFrom _ _ _ _) fun _ _ => .pure _

-- Steps that find no canonical node come back to a node on the way.
theorem Closed.lasso_of_canonicalFrom (hg : g.Closed) (hw : g.Walk first unvisited visited p)
    (h : g.canonicalFrom table unvisited visited p = .error e) :
    ∃ chain, e = .cycle chain ∧ g.Lasso first chain := by
  fun_induction g.canonicalFrom table unvisited visited p
  case case1 => cases h
  case case2 target hf hm hi =>
    have ⟨s, hs, hf⟩ := Option.map_eq_some_iff.mp hf
    exact hi (hw.step ⟨s, hs, hf⟩ hm) h
  case case3 target hf hm =>
    have ⟨s, hs, hf⟩ := Option.map_eq_some_iff.mp hf
    cases h
    exact ⟨_, rfl, hw.lasso hg ⟨s, hs, hf⟩ hm⟩
  case case4 => cases h

theorem Closed.lasso_of_settle (hg : g.Closed) (hp : p ∈ g.nodes)
    (h : g.settle table p = .error e) :
    ∃ chain, e = .cycle chain ∧ g.Lasso p chain := by
  simp only [settle] at h
  split at h
  case isTrue => cases h
  case isFalse =>
    obtain h | ⟨_, _, h⟩ := bind_eq_error.mp h
    case inl => exact hg.lasso_of_canonicalFrom (.start hp) h
    case inr => cases h

-- A table that is right about the nodes it knows.
structure Exact (g : SchemaGraph) (table : Table) : Prop where
  length  : table.length = g.schemas.length
  settles : ∀ p canonical, g.known? table p = some canonical →
    ∃ s, s.node = canonical ∧ g.Settles p s

theorem Exact.start (g : SchemaGraph) : g.Exact (List.replicate g.schemas.length none) where
  length        := List.length_replicate
  settles p c h := by
    obtain ⟨i, _, h⟩ := Option.bind_eq_some_iff.mp h
    rw [List.getElem?_replicate] at h
    split at h <;> cases h

-- A table that knows no less than another one, and is right about it.
structure Extends (g : SchemaGraph) (table table' : Table) : Prop where
  exact : g.Exact table'
  keeps : ∀ p, (g.known? table p).isSome → (g.known? table' p).isSome

theorem Extends.refl (h : g.Exact table) : g.Extends table table where
  exact     := h
  keeps _ h := h

theorem Extends.trans {table'' : Table} (h : g.Extends table table')
    (h' : g.Extends table' table'') :
    g.Extends table table'' where
  exact      := h'.exact
  keeps p hp := h'.keeps p (h.keeps p hp)

namespace Exact

variable (ht : g.Exact table)
include ht

theorem extends_foldl_note (hw : ∀ p ∈ way, g.Settles p s) :
    g.Extends table (way.foldl (g.note s.node) table) := by
  have hk (q : Pointer) : g.known? (way.foldl (g.note s.node) table) q =
      if q ∈ way then some s.node else g.known? table q :=
    known?_foldl_note ht.length (fun p hp => (hw p hp).mem_nodes) q
  refine ⟨⟨length_foldl_note.trans ht.length, fun p c hc => ?_⟩, fun p hp => ?_⟩
  case refine_1 =>
    rw [hk] at hc
    split at hc
    case isTrue hm  => exact ⟨s, Option.some.inj hc, hw p hm⟩
    case isFalse hm => exact ht.settles p c hc
  case refine_2 =>
    rw [hk]
    split
    · rfl
    · exact hp

-- Steps that come to a node that is known, or to one that is no alias, lead to where all the nodes
-- on the way settle.
theorem settles_of_canonicalFrom (hw : g.Walk first unvisited visited p)
    (h : g.canonicalFrom table unvisited visited p = .ok (way, canonical)) :
    first ∈ way ∧ ∃ s, s.node = canonical ∧ ∀ q ∈ way, g.Settles q s := by
  fun_induction g.canonicalFrom table unvisited visited p
  case case1 c hk =>
    cases h
    have ⟨s, hn, hs⟩ := ht.settles _ _ hk
    exact ⟨hw.first_mem, s, hn, fun q hq => .of_way (hw.way hq) hs⟩
  case case2 target hf hm hi =>
    have ⟨s, hs, hf⟩ := Option.map_eq_some_iff.mp hf
    exact hi (hw.step ⟨s, hs, hf⟩ hm) h
  case case3 => cases h
  case case4 hf =>
    cases h
    have ⟨s, hs⟩ := exists_get?_of_mem_nodes hw.mem_nodes
    have hc : s.Concrete := fun target ht => hf target (by rw [hs, Option.map_some, ht])
    exact ⟨hw.first_mem, s, node_of_get? hs, fun q hq => .of_way (hw.way hq) (.of_concrete hs hc)⟩

theorem settle_eq_ok (hp : p ∈ g.nodes) (h : g.settle table p = .ok table') :
    g.Extends table table' ∧ (g.known? table' p).isSome := by
  simp only [settle] at h
  split at h
  case isTrue hk =>
    cases h
    exact ⟨.refl ht, hk⟩
  case isFalse =>
    have ⟨(way, _), hc, h⟩ := bind_eq_ok.mp h
    have ⟨hm, s, hn, hw⟩ := ht.settles_of_canonicalFrom (.start hp) hc
    cases pure_eq_ok.mp h
    subst hn
    refine ⟨ht.extends_foldl_note hw, ?_⟩
    rw [known?_foldl_note ht.length (fun q hq => (hw q hq).mem_nodes), if_pos hm]
    rfl

theorem foldlM_settle_eq_ok (hn : nodes ⊆ g.nodes)
    (h : nodes.foldlM g.settle table = .ok table') :
    g.Extends table table' ∧ ∀ p ∈ nodes, (g.known? table' p).isSome := by
  induction nodes generalizing table
  case nil =>
    cases pure_eq_ok.mp h
    exact ⟨.refl ht, nofun⟩
  case cons p nodes hi =>
    have ⟨hp, hn⟩ := List.cons_subset.mp hn
    have ⟨_, hs, h⟩ := bind_eq_ok.mp h
    have ⟨he, hk⟩ := ht.settle_eq_ok hp hs
    have ⟨he', hk'⟩ := hi he.exact hn h
    exact ⟨he.trans he', List.forall_mem_cons.mpr ⟨he'.keeps p hk, hk'⟩⟩

-- Where a node has no canonical one, all that come before it in the order of the graph have one.
theorem foldlM_settle_eq_error (hg : g.Closed) (hn : nodes ⊆ g.nodes)
    (h : nodes.foldlM g.settle table = .error e) :
    ∃ before first after chain, nodes = before ++ first :: after ∧
      (∀ p ∈ before, ∃ s, g.Settles p s) ∧ e = .cycle chain ∧ g.Lasso first chain := by
  induction nodes generalizing table
  case nil => cases h
  case cons p nodes hi =>
    have ⟨hp, hn⟩ := List.cons_subset.mp hn
    obtain h | ⟨table', hs, h⟩ := bind_eq_error.mp h
    case inl =>
      have ⟨chain, he, hl⟩ := hg.lasso_of_settle hp h
      exact ⟨[], p, nodes, chain, rfl, nofun, he, hl⟩
    case inr =>
      have ⟨he, hk⟩ := ht.settle_eq_ok hp hs
      have ⟨_, hk⟩ := Option.isSome_iff_exists.mp hk
      have ⟨s, _, hs⟩ := he.exact.settles _ _ hk
      have ⟨before, first, after, chain, hb, hall, hc⟩ := hi he.exact hn h
      exact ⟨p :: before, first, after, chain, congrArg (p :: ·) hb,
        List.forall_mem_cons.mpr ⟨⟨s, hs⟩, hall⟩, hc⟩

-- No place moves where the entries of a table that knows all nodes are put in a list.
theorem getElem?_filterMap (hg : g.Closed) (hk : ∀ p ∈ g.nodes, (g.known? table p).isSome)
    (i : Nat) : (table.filterMap id)[i]? = table[i]?.join := by
  have he : (table.filterMap id).map some = table := by
    refine map_some_filterMap_id fun entry he => ?_
    have ⟨i, hi, he⟩ := List.mem_iff_getElem.mp he
    have hi' := ht.length ▸ hi
    have hk := hk _ (List.mem_map_of_mem (List.getElem_mem hi'))
    rw [known?, hg.index?_getElem hi', Option.bind_some, List.getElem?_eq_getElem hi, he] at hk
    exact hk
  conv => rhs; rw [← he, List.getElem?_map]
  cases (table.filterMap id)[i]? <;> rfl

end Exact
end SchemaGraph
end ApiDescriptors
