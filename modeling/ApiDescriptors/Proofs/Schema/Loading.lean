import ApiDescriptors.Proofs.Positions
import ApiDescriptors.Proofs.Result
import ApiDescriptors.Schema.Graph
import Mathlib.Data.List.Nodup
import Mathlib.Data.List.Perm.Subperm

namespace ApiDescriptors

open Result

namespace Schema

variable {d : Document} {node q : Pointer} {value : Json} {s : Schema}

-- The nodes that a schema at `node` with this value can link.
inductive MayLink (node : Pointer) (value : Json) : Pointer → Prop
  | reference {text q} :
    value.get? "$ref" = some (.str text) → Pointer.parse text = .ok q → MayLink node value q
  | entry {v} : value.get? "allOf" = some (.arr [v]) →
    MayLink node value ((node.child "allOf").child "0")
  | property {list name v} :
    value.get? "properties" = some (.obj list) → list.lookup name = some v →
    MayLink node value ((node.child "properties").child name)
  | items {v} : value.get? "items" = some v → MayLink node value (node.child "items")

-- A link that is no reference leads to a part of the value.
theorem MayLink.reference_or_inside (h : MayLink node value q) :
    (∃ text, value.get? "$ref" = some (.str text) ∧ Pointer.parse text = .ok q) ∨
    ∃ path w, value.Leads path w ∧ q = ⟨node.segments ++ path⟩ := by
  cases h
  case reference text hr hq => exact .inl ⟨text, hr, hq⟩
  case entry he =>
    cases value <;> simp only [Json.get?, reduceCtorEq] at he
    exact .inr ⟨["allOf", "0"], _, .member he (.first .here), by simp [Pointer.child]⟩
  case property name _ hl hn =>
    cases value <;> simp only [Json.get?, reduceCtorEq] at hl
    exact .inr ⟨["properties", name], _, .member hl (.member hn .here), by simp [Pointer.child]⟩
  case items hi =>
    cases value <;> simp only [Json.get?, reduceCtorEq] at hi
    exact .inr ⟨["items"], _, .member hi .here, rfl⟩

theorem target_eq_ok {reference : String} {v : Json} (h : d.target node reference = .ok (q, v)) :
    Pointer.parse reference = .ok q ∧ d.get? q = some v := by
  simp only [Document.target] at h
  split at h
  case h_1 => cases h
  case h_2 hp =>
    split at h
    case h_1 hg => cases h; exact ⟨hp, hg⟩
    case h_2 => cases h

theorem get?_of_reference?_eq_ok {reference : Option String}
    (h : reference? node value = .ok reference) : value.get? "$ref" = reference.map .str := by
  simp only [reference?] at h
  split at h <;> cases h <;> assumption

theorem mayLink_of_mem_links_formOf {members : Members} {kind : Kind} {form : Form}
    (h : formOf node members kind = .ok form) (hq : q ∈ form.links) :
    MayLink node (.obj members) q := by
  cases kind <;> simp only [formOf, bind_eq_ok, pure_eq_ok] at h
  case object =>
    obtain ⟨properties, hp, _, _, rfl⟩ := h
    have ⟨⟨name, _⟩, hm, hq⟩ := List.mem_map.mp hq
    unfold propertiesOf at hp
    split at hp <;> cases hp
    case h_1 => cases hm
    case h_2 list hl =>
      have ⟨⟨_, v⟩, hv, he⟩ := List.mem_map.mp hm
      cases he
      cases hq
      have hn : name ∈ Members.names list := List.mem_map.mpr ⟨_, hv, rfl⟩
      have ⟨_, hv⟩ := Json.exists_lookup_of_mem_names hn
      exact .property hl hv
  case array =>
    split at h <;> cases h
    case isTrue hi =>
      have ⟨_, hv⟩ := Option.isSome_iff_exists.mp hi
      cases List.mem_singleton.mp hq
      exact .items hv
  case scalar =>
    cases h
    cases hq

theorem node_readConcrete {members : Members} {description : Option String}
    (h : readConcrete node members description = .ok s) : s.node = node := by
  simp only [readConcrete, bind_eq_ok, pure_eq_ok] at h
  obtain ⟨_, _, _, _, _, _, _, _, _, _, _, _, rfl⟩ := h
  rfl

theorem mayLink_of_mem_links_readConcrete {members : Members} {description : Option String}
    (h : readConcrete node members description = .ok s) (hq : q ∈ s.links) :
    MayLink node (.obj members) q := by
  simp only [readConcrete, bind_eq_ok, pure_eq_ok] at h
  obtain ⟨_, _, _, _, _, _, _, _, _, _, _, hf, rfl⟩ := h
  exact mayLink_of_mem_links_formOf hf hq

-- The cases of a schema that was read: a reference, a single `allOf` entry, or neither.
theorem read_cases (h : read d node value = .ok s) :
    (∃ description text q v, value.get? "$ref" = some (.str text) ∧
      d.target node text = .ok (q, v) ∧
      s = { node, description, form := .aliasOf q }) ∨
    (∃ description v, value.get? "$ref" = none ∧ value.get? "allOf" = some (.arr [v]) ∧
      s = { node, description, form := .aliasOf ((node.child "allOf").child "0") }) ∨
    (∃ members description, value = .obj members ∧ members.lookup "$ref" = none ∧
      members.lookup "allOf" = none ∧ readConcrete node members description = .ok s) := by
  simp only [read] at h
  split at h
  case h_2 => cases h
  case h_1 members =>
    simp only [bind_eq_ok] at h
    obtain ⟨description, -, reference, hr, h⟩ := h
    replace hr := get?_of_reference?_eq_ok hr
    split at h
    case h_1 text =>
      simp only [bind_eq_ok, pure_eq_ok] at h
      obtain ⟨⟨q, v⟩, ht, rfl⟩ := h
      exact .inl ⟨description, text, q, v, hr, ht, rfl⟩
    case h_2 =>
      split at h
      case h_1 => cases h
      case h_2 =>
        split at h
        case h_1 ha   => exact .inr <| .inr ⟨members, description, rfl, hr, ha, h⟩
        case h_2 v hv => cases h; exact .inr <| .inl ⟨description, v, hr, hv, rfl⟩
        case h_3 => cases h

theorem node_read (h : read d node value = .ok s) : s.node = node := by
  obtain ⟨_, _, _, _, _, _, rfl⟩ | ⟨_, _, _, _, rfl⟩ | ⟨_, _, _, _, _, hc⟩ := read_cases h
  · rfl
  · rfl
  · exact node_readConcrete hc

theorem mayLink_of_mem_links_read (h : read d node value = .ok s) (hq : q ∈ s.links) :
    MayLink node value q := by
  obtain ⟨_, _, _, _, hr, ht, rfl⟩ | ⟨_, _, _, he, rfl⟩ | ⟨_, _, rfl, _, _, hc⟩ := read_cases h
  · cases List.mem_singleton.mp hq
    exact .reference hr (target_eq_ok ht).left
  · cases List.mem_singleton.mp hq
    exact .entry he
  · exact mayLink_of_mem_links_readConcrete hc hq

end Schema

namespace Document

-- The schema that stands at a node.
def schemaAt (d : Document) (node : Pointer) : Result Schema :=
  match d.get? node with
  | none       => refuse node .schemaNotFound
  | some value => Schema.read d node value

theorem schemaAt_eq_ok {d : Document} {node : Pointer} {s : Schema} (h : d.schemaAt node = .ok s) :
    ∃ value, d.get? node = some value ∧ Schema.read d node value = .ok s := by
  simp only [schemaAt] at h
  split at h
  case h_1 => cases h
  case h_2 value hg => exact ⟨value, hg, h⟩

theorem node_schemaAt {d : Document} {node : Pointer} {s : Schema} (h : d.schemaAt node = .ok s) :
    s.node = node := by
  have ⟨_, _, hr⟩ := schemaAt_eq_ok h
  exact Schema.node_read hr

-- The nodes that references of the document name.
def referenced (d : Document) : List Pointer :=
  (d.root.textsAt "$ref").filterMap fun text => (Pointer.parse text).toOption

theorem mem_referenced {d : Document} {node q : Pointer} {v : Json} {text : String}
    (hv : d.get? node = some v) (hr : v.get? "$ref" = some (.str text))
    (hq : Pointer.parse text = .ok q) : q ∈ d.referenced := by
  refine List.mem_filterMap.mpr ⟨text, ?_, by simp [hq, Except.toOption]⟩
  exact Pointer.textsAt_subset_of_lookup? hv (Json.mem_textsAt_of_get? hr)

theorem get?_append_of_leads {d : Document} {node : Pointer} {v w : Json} {path : List String}
    (hv : d.get? node = some v) (hl : v.Leads path w) : d.get? ⟨node.segments ++ path⟩ = some w := by
  simp only [get?, Pointer.lookup?] at hv ⊢
  simp [hv, hl.foldlM_step?]

-- The nodes at or below `base` that arrays are entered for at their first items.
def below (d : Document) (base : Pointer) : List Pointer :=
  match d.get? base with
  | none       => [base]
  | some value => value.positions.map fun path => ⟨base.segments ++ path⟩

theorem length_below_le (d : Document) (base : Pointer) : (d.below base).length ≤ d.root.size := by
  simp only [below]
  split
  case h_1 => exact d.root.size_pos
  case h_2 value hg =>
    rw [List.length_map]
    exact Nat.le_trans value.length_positions_le_size (Pointer.size_le_of_lookup? hg)

inductive IsBelow (d : Document) (base : Pointer) : Pointer → Prop
  | self : IsBelow d base base
  | inside {v path w} :
    d.get? base = some v → v.Leads path w → IsBelow d base ⟨base.segments ++ path⟩

theorem IsBelow.mem_below {d : Document} {base p : Pointer} (h : d.IsBelow base p) :
    p ∈ d.below base := by
  simp only [below]
  cases h
  case self =>
    split
    case h_1         => exact List.mem_singleton_self _
    case h_2 value _ => exact List.mem_map.mpr ⟨[], value.nil_mem_positions, by simp⟩
  case inside hg hl =>
    rw [hg]
    exact List.mem_map_of_mem hl.mem_positions

theorem IsBelow.leads {d : Document} {base p : Pointer} {v : Json} (h : d.IsBelow base p)
    (hg : d.get? p = some v) :
    ∃ u path, d.get? base = some u ∧ u.Leads path v ∧ p.segments = base.segments ++ path := by
  cases h
  case self => exact ⟨v, [], hg, .here, by simp⟩
  case inside u path w hu hl =>
    have hw := get?_append_of_leads hu hl
    exact ⟨u, path, hu, Option.some.inj (hw.symm.trans hg) ▸ hl, rfl⟩

theorem IsBelow.extend {d : Document} {base p : Pointer} {v w : Json} {path : List String}
    (h : d.IsBelow base p) (hg : d.get? p = some v) (hl : v.Leads path w) :
    d.IsBelow base ⟨p.segments ++ path⟩ := by
  have ⟨_, _, hu, hl', he⟩ := h.leads hg
  rw [he, List.append_assoc]
  exact .inside hu (hl'.trans hl)

end Document

-- A schema at or below one of the bases links nodes there, or what references name.
theorem Schema.MayLink.isBelow {d : Document} {bases : List Pointer} {p q : Pointer} {v : Json}
    (h : MayLink p v q) (hv : d.get? p = some v)
    (hp : ∃ base ∈ bases ++ d.referenced, d.IsBelow base p) :
    ∃ base ∈ bases ++ d.referenced, d.IsBelow base q := by
  obtain ⟨text, ht, hq⟩ | ⟨path, w, hl, rfl⟩ := h.reference_or_inside
  case inl => exact ⟨q, List.mem_append_right _ (Document.mem_referenced hv ht hq), .self⟩
  case inr =>
    have ⟨base, hb, hp⟩ := hp
    exact ⟨base, hb, hp.extend hv hl⟩

namespace SchemaGraph

-- The nodes that loading comes across when it starts with those of `first`.
inductive Mentioned (d : Document) (first : List Pointer) : Pointer → Prop
  | first {p} : p ∈ first → Mentioned d first p
  | link {p s q} : Mentioned d first p → d.schemaAt p = .ok s → q ∈ s.links → Mentioned d first q

theorem Mentioned.isBelow {d : Document} {first : List Pointer} {p : Pointer}
    (h : Mentioned d first p) :
    ∃ base ∈ first ++ d.referenced, d.IsBelow base p := by
  induction h
  case first p hp => exact ⟨p, List.mem_append_left _ hp, .self⟩
  case link hs hq hi =>
    have ⟨_, hv, hr⟩ := Document.schemaAt_eq_ok hs
    exact (Schema.mayLink_of_mem_links_read hr hq).isBelow hv hi

-- All nodes that loading can come across.
def mentionable (d : Document) (first : List Pointer) : List Pointer :=
  (first ++ d.referenced).flatMap d.below

theorem Mentioned.mem_mentionable {d : Document} {first : List Pointer} {p : Pointer}
    (h : Mentioned d first p) :
    p ∈ mentionable d first := by
  have ⟨base, hb, hp⟩ := h.isBelow
  exact List.mem_flatMap.mpr ⟨base, hb, hp.mem_below⟩

theorem length_mentionable_lt (d : Document) (first : List Pointer) :
    (mentionable d first).length < loadLimit d first := by
  have hr : d.referenced.length ≤ (d.root.textsAt "$ref").length := List.length_filterMap_le ..
  have hu : (mentionable d first).length ≤ (first ++ d.referenced).length * d.root.size := by
    rw [mentionable, List.length_flatMap]
    generalize first ++ d.referenced = bases
    induction bases
    case nil => simp
    case cons base bases hi =>
      have := d.length_below_le base
      simp only [List.map_cons, List.sum_cons, List.length_cons, Nat.succ_mul]
      omega
  have := Nat.mul_le_mul_right d.root.size (Nat.add_le_add_left hr first.length)
  rw [List.length_append] at hu
  simp only [loadLimit]
  omega

namespace Loading

-- The nodes that were read or mentioned.
def nodes (l : Loading) : List Pointer :=
  l.loaded.map (·.node) ++ l.pending

theorem knows_iff {l : Loading} {p : Pointer} : l.knows p ↔ p ∈ l.nodes := by
  simp [knows, nodes]

theorem mem_nodes_of_pending {l : Loading} {p : Pointer} {rest : List Pointer}
    (hp : l.pending = p :: rest) : p ∈ l.nodes := by
  simp [nodes, hp]

theorem nodes_mention (l : Loading) (p : Pointer) :
    (l.mention p).nodes = if p ∈ l.nodes then l.nodes else l.nodes ++ [p] := by
  simp only [mention]
  by_cases hp : p ∈ l.nodes
  case pos => rw [if_pos (knows_iff.mpr hp), if_pos hp]
  case neg => rw [if_neg (mt knows_iff.mp hp), if_neg hp]; simp [nodes]

theorem loaded_mention (l : Loading) (p : Pointer) : (l.mention p).loaded = l.loaded := by
  simp only [mention]
  split <;> rfl

theorem loaded_mentionAll (l : Loading) (ps : List Pointer) :
    (l.mentionAll ps).loaded = l.loaded := by
  simp only [mentionAll]
  induction ps generalizing l
  case nil => rfl
  case cons p ps hi => rw [List.foldl_cons, hi, loaded_mention]

theorem mem_nodes_mentionAll {l : Loading} {ps : List Pointer} {q : Pointer} :
    q ∈ (l.mentionAll ps).nodes ↔ q ∈ l.nodes ∨ q ∈ ps := by
  simp only [mentionAll]
  induction ps generalizing l
  case nil => simp
  case cons p ps hi =>
    rw [List.foldl_cons, hi, nodes_mention, List.mem_cons]
    split <;> grind

theorem nodup_nodes_mentionAll {l : Loading} (h : l.nodes.Nodup) (ps : List Pointer) :
    (l.mentionAll ps).nodes.Nodup := by
  simp only [mentionAll]
  induction ps generalizing l
  case nil => exact h
  case cons p ps hi =>
    apply hi
    rw [nodes_mention]
    split
    · exact h
    · exact List.nodup_append.mpr ⟨h, List.nodup_singleton p, by grind⟩

-- The queue as it is before the first turn.
def start (first : List Pointer) : Loading :=
  ({} : Loading).mentionAll first

-- What holds whenever the next node is looked at.
structure Invariant (d : Document) (first : List Pointer) (l : Loading) : Prop where
  nodup     : l.nodes.Nodup
  mentioned : ∀ p ∈ l.nodes, Mentioned d first p
  first     : ∀ p ∈ first, p ∈ l.nodes
  links     : ∀ s ∈ l.loaded, ∀ p ∈ s.links, p ∈ l.nodes
  read      : ∀ s ∈ l.loaded, d.schemaAt s.node = .ok s

variable {d : Document} {first : List Pointer} {l : Loading}

theorem loaded_start (first : List Pointer) : (start first).loaded = [] :=
  loaded_mentionAll _ _

theorem Invariant.start (d : Document) (first : List Pointer) :
    Invariant d first (.start first) where
  nodup           := nodup_nodes_mentionAll (by simp [nodes]) first
  mentioned _ hp  := .first ((mem_nodes_mentionAll.mp hp).resolve_left List.not_mem_nil)
  first _ hp      := mem_nodes_mentionAll.mpr (.inr hp)
  links _ hs      := by simp [loaded_start] at hs
  read _ hs       := by simp [loaded_start] at hs

-- One turn of the loop: the first pending node is read, and what it links is mentioned.
theorem Invariant.step {p : Pointer} {rest : List Pointer} {s : Schema} (h : Invariant d first l)
    (hp : l.pending = p :: rest) (hs : d.schemaAt p = .ok s) :
    Invariant d first
      (({ loaded := l.loaded ++ [s], pending := rest } : Loading).mentionAll s.links) := by
  have hn : ({ loaded := l.loaded ++ [s], pending := rest } : Loading).nodes = l.nodes := by
    simp [nodes, hp, Document.node_schemaAt hs]
  have hm := mem_nodes_of_pending hp
  constructor
  case nodup => exact nodup_nodes_mentionAll (hn ▸ h.nodup) _
  case mentioned =>
    intro q hq
    cases mem_nodes_mentionAll.mp hq
    case inl hq => exact h.mentioned q (hn ▸ hq)
    case inr hq => exact .link (h.mentioned p hm) hs hq
  case first => exact fun q hq => mem_nodes_mentionAll.mpr (.inl (hn ▸ h.first q hq))
  case links =>
    intro t ht q hq
    rw [loaded_mentionAll] at ht
    apply mem_nodes_mentionAll.mpr
    cases List.mem_append.mp ht
    case inl ht => exact .inl (hn ▸ h.links t ht q hq)
    case inr ht => exact .inr (List.mem_singleton.mp ht ▸ hq)
  case read =>
    intro t ht
    rw [loaded_mentionAll] at ht
    cases List.mem_append.mp ht
    case inl ht => exact h.read t ht
    case inr ht =>
      cases List.mem_singleton.mp ht
      rw [Document.node_schemaAt hs]
      exact hs

theorem Invariant.length_loaded_le (h : Invariant d first l) :
    l.loaded.length ≤ (mentionable d first).length := by
  have hs : l.nodes ⊆ mentionable d first := fun p hp => (h.mentioned p hp).mem_mentionable
  have hl := (List.subperm_of_subset h.nodup hs).length_le
  simp only [nodes, List.length_append, List.length_map] at hl
  omega

theorem run_succ {fuel : Nat} {p : Pointer} {rest : List Pointer} (hp : l.pending = p :: rest) :
    run d (fuel + 1) l = d.schemaAt p >>= fun s =>
      run d fuel
        (({ loaded := l.loaded ++ [s], pending := rest } : Loading).mentionAll s.links) := by
  simp only [run, hp, Document.schemaAt]
  cases d.get? p <;> rfl

-- Turns of the loop, one after the other, with the nodes that they took from the queue. There is no
-- bound on their number here.
inductive Turns (d : Document) (l : Loading) : List Pointer → Loading → Prop
  | none : Turns d l [] l
  | turn {taken m p rest s} :
    Turns d l taken m → m.pending = p :: rest → d.schemaAt p = .ok s →
    Turns d l (taken ++ [p])
      (({ loaded := m.loaded ++ [s], pending := rest } : Loading).mentionAll s.links)

-- How the loop ends: the queue is empty, or its first node cannot be read.
inductive Ends (d : Document) (l : Loading) : Result (List Schema) → Prop
  | drained : l.pending = [] → Ends d l (.ok l.loaded)
  | fault {p rest e} : l.pending = p :: rest → d.schemaAt p = .error e → Ends d l (.error e)

variable {taken : List Pointer} {m : Loading} {outcome : Result (List Schema)} {fuel : Nat}

theorem Turns.invariant (h : Turns d (start first) taken l) :
    Invariant d first l ∧ l.loaded.map (·.node) = taken := by
  induction h
  case none => exact ⟨.start d first, by rw [loaded_start, List.map_nil]⟩
  case turn hp hs hi =>
    have ⟨hinv, ht⟩ := hi
    refine ⟨hinv.step hp hs, ?_⟩
    rw [loaded_mentionAll, List.map_append, ht, List.map_singleton, Document.node_schemaAt hs]

theorem Turns.nodes_eq (h : Turns d (start first) taken l) : l.nodes = taken ++ l.pending := by
  rw [nodes, h.invariant.right]

-- Every node is taken once at most, and there are finitely many that can be mentioned.
theorem Turns.length_lt (h : Turns d (start first) taken l) : taken.length < loadLimit d first := by
  have ⟨hinv, ht⟩ := h.invariant
  rw [← ht, List.length_map]
  exact Nat.lt_of_le_of_lt hinv.length_loaded_le (length_mentionable_lt d first)

theorem Turns.run_eq (h : Turns d l taken m) (fuel : Nat) :
    run d (taken.length + fuel) l = run d fuel m := by
  induction h generalizing fuel
  case none => rw [List.length_nil, Nat.zero_add]
  case turn hp hs hi =>
    rw [List.length_append, List.length_singleton, Nat.add_assoc, Nat.add_comm 1, hi, run_succ hp,
      hs, ok_bind]

theorem Ends.run_eq (h : Ends d l outcome) (fuel : Nat) : run d (fuel + 1) l = outcome := by
  cases h
  case drained hp => simp only [run, hp]
  case fault hp he => rw [run_succ hp, he, error_bind]

theorem Turns.run_eq_outcome (h : Turns d (start first) taken l) (he : Ends d l outcome) :
    run d (loadLimit d first) (start first) = outcome := by
  have ⟨fuel, hf⟩ := Nat.exists_eq_add_of_lt h.length_lt
  rw [hf, Nat.add_assoc, h.run_eq, he.run_eq]

-- Turns go on until the loop ends.
theorem Turns.exists_ends (h : Turns d (start first) taken l)
    (hf : taken.length + fuel = loadLimit d first) :
    ∃ taken l outcome, Turns d (start first) taken l ∧ Ends d l outcome := by
  induction fuel generalizing taken l
  case zero =>
    have := h.length_lt
    omega
  case succ fuel hi =>
    cases hp : l.pending
    case nil => exact ⟨taken, l, _, h, .drained hp⟩
    case cons p rest =>
      cases hs : d.schemaAt p
      case error => exact ⟨taken, l, _, h, .fault hp hs⟩
      case ok s =>
        refine hi (h.turn hp hs) ?_
        rw [List.length_append, List.length_singleton]
        omega

theorem exists_ends (d : Document) (first : List Pointer) :
    ∃ taken l outcome, Turns d (start first) taken l ∧ Ends d l outcome :=
  Turns.none.exists_ends (Nat.zero_add _)

end Loading

-- The nodes of the schemas that operations declare.
def sites (paths : List PathEntry) : List Pointer :=
  paths.flatMap fun entry => entry.operations.flatMap (·.schemaSites)

-- A graph that holds what loading comes across, each node once.
structure Loaded (d : Document) (g : SchemaGraph) : Prop where
  nodup     : g.nodes.Nodup
  read      : ∀ s ∈ g.schemas, d.schemaAt s.node = .ok s
  mem_nodes : ∀ p, p ∈ g.nodes ↔ Mentioned d (g.named ++ g.roots) p

variable {d : Document} {paths : List PathEntry} {named : List Pointer} {g : SchemaGraph}

-- Where the queue is empty, all that was mentioned was read.
theorem Loading.Invariant.loaded {l : Loading} {roots : List Pointer}
    (h : Invariant d (named ++ roots) l) (hp : l.pending = []) :
    Loaded d { schemas := l.loaded, named, roots } := by
  have hm : l.nodes = l.loaded.map (·.node) := by simp [nodes, hp]
  have hn : (l.loaded.map (·.node)).Nodup := hm ▸ h.nodup
  refine ⟨hn, h.read, fun p => ⟨fun hp => h.mentioned p (hm ▸ hp), fun hp => ?_⟩⟩
  show p ∈ l.loaded.map (·.node)
  rw [← hm]
  induction hp
  case first hp => exact h.first _ hp
  case link p s q _ hr hq hi =>
    have ⟨t, ht, he⟩ := List.mem_map.mp (hm ▸ hi)
    have := he ▸ h.read t ht
    exact h.links t ht q (Except.ok.inj (this.symm.trans hr) ▸ hq)

theorem load_eq_map (hn : namedSchemas d = .ok named) :
    load d paths = ({ schemas := ·, named, roots := sites paths }) <$>
      Loading.run d (loadLimit d (named ++ sites paths)) (.start (named ++ sites paths)) := by
  rw [load, hn]
  rfl

theorem load_eq_ok (h : load d paths = .ok g) :
    namedSchemas d = .ok g.named ∧ g.roots = sites paths ∧ Loaded d g := by
  simp only [load, bind_eq_ok, pure_eq_ok] at h
  obtain ⟨named, hn, schemas, hr, rfl⟩ := h
  have ⟨_, l, _, ht, he⟩ := Loading.exists_ends d (named ++ sites paths)
  cases (ht.run_eq_outcome he).symm.trans hr
  cases he
  case drained hp => exact ⟨hn, rfl, ht.invariant.left.loaded hp⟩

theorem load_eq_error {e : Error} (h : load d paths = .error e) :
    namedSchemas d = .error e ∨
      ∃ named p, namedSchemas d = .ok named ∧ Mentioned d (named ++ sites paths) p ∧
      d.schemaAt p = .error e := by
  simp only [load, bind_eq_error] at h
  obtain h | ⟨named, hn, h | ⟨_, _, h⟩⟩ := h
  · exact .inl h
  · have ⟨_, l, _, ht, he⟩ := Loading.exists_ends d (named ++ sites paths)
    cases (ht.run_eq_outcome he).symm.trans h
    cases he
    case fault p _ hp hs =>
      exact .inr ⟨named, p, hn, ht.invariant.left.mentioned p (Loading.mem_nodes_of_pending hp), hs⟩
  · cases h

namespace Loaded

variable (h : Loaded d g)
include h

theorem mem_nodes_of_mem_links {s : Schema} {p : Pointer} (hs : s ∈ g.schemas) (hp : p ∈ s.links) :
    p ∈ g.nodes :=
  (h.mem_nodes p).mpr <| .link ((h.mem_nodes s.node).mp (List.mem_map_of_mem hs)) (h.read s hs) hp

theorem mem_nodes_of_mem_roots {p : Pointer} (hp : p ∈ g.roots) : p ∈ g.nodes :=
  (h.mem_nodes p).mpr <| .first (List.mem_append_right _ hp)

end Loaded
end SchemaGraph
end ApiDescriptors
