import ApiDescriptors.Proofs.Paths

namespace ApiDescriptors

open Result

-- A node that keys lead to from one of `bases`, inside the value that stands there.
def Document.Inside (d : Document) (bases : List Pointer) (p : Pointer) : Prop :=
  ∃ base ∈ bases, ∃ keys v w, p.segments = base.segments ++ keys ∧ d.get? base = some v ∧
    (⟨keys⟩ : Pointer).lookup? v = some w

theorem Document.Inside.exists_get? {d : Document} {bases : List Pointer} {p : Pointer}
    (h : d.Inside bases p) : ∃ v, d.get? p = some v := by
  have ⟨_, _, _, v, w, he, hv, hw⟩ := h
  simp only [get?, Pointer.lookup?] at hv hw ⊢
  exact ⟨w, by rw [he, List.foldlM_append, hv]; exact hw⟩

theorem Document.inside_of_isBelow {d : Document} {bases : List Pointer} {p : Pointer} {v : Json}
    (h : ∃ base ∈ bases, d.IsBelow base p) (hv : d.get? p = some v) : d.Inside bases p := by
  have ⟨base, hb, hp⟩ := h
  have ⟨u, keys, hu, hl, he⟩ := hp.leads hv
  exact ⟨base, hb, keys, u, v, he, hu, hl.foldlM_step?⟩

theorem Schema.exists_get?_of_mem_links {d : Document} {node q : Pointer} {value : Json} {s : Schema}
    (hv : d.get? node = some value) (hs : read d node value = .ok s) (hq : q ∈ s.links) :
    ∃ w, d.get? q = some w := by
  obtain ⟨text, hr, ht⟩ | ⟨_, w, hl, rfl⟩ := (mayLink_of_mem_links_read hs hq).reference_or_inside
  case inr => exact ⟨w, Document.get?_append_of_leads hv hl⟩
  case inl =>
    obtain ⟨_, _, _, w, _, ht, rfl⟩ | ⟨_, _, hn, _⟩ | ⟨_, _, rfl, hn, _⟩ := read_cases hs
    · cases List.mem_singleton.mp hq
      exact ⟨w, (target_eq_ok ht).right⟩
    · cases hn.symm.trans hr
    · cases hn.symm.trans hr

namespace SchemaGraph

-- A node that is never read: loading fails at it, or at one that is before it in the queue.
structure Unread (d : Document) (first : List Pointer) (result : Result SchemaGraph)
    (p : Pointer) : Prop where
  missing : d.get? p = none
  fails   : ∃ taken l q rest e, Loading.Turns d (.start first) taken l ∧ l.pending = q :: rest ∧
    p ∈ l.pending ∧ d.schemaAt q = .error e ∧ result = .error e

-- What holds after turns that took some nodes from the queue.
structure Reached (d : Document) (named sites : List Pointer) (result : Result SchemaGraph)
    (taken : List Pointer) (l : Loading) : Prop where
  bounded : taken.length < loadLimit d (named ++ sites)
  -- What was taken from the queue is never in it again.
  once    : (taken ++ l.pending).Nodup
  -- Where the nodes stand that were put into the queue so far.
  created : ∀ p ∈ taken ++ l.pending, d.Inside (named ++ sites ++ d.referenced) p ∨
    p ∈ sites ∧ Unread d (named ++ sites) result p
  -- Likewise for what the next schema links, also where its reading fails after that.
  linked  : ∀ p rest v q w, l.pending = p :: rest → d.get? p = some v → Schema.MayLink p v q →
    d.get? q = some w → d.Inside (named ++ sites ++ d.referenced) q
  outcome : ∀ outcome, Loading.Ends d l outcome →
    result = ({ schemas := ·, named, roots := sites }) <$> outcome

-- The loop that reads the schemas comes to an end, whatever they link.
structure Terminates (d : Document) (named sites : List Pointer) (result : Result SchemaGraph) :
    Prop where
  ends  : ∃ taken l outcome, Loading.Turns d (.start (named ++ sites)) taken l ∧
    Loading.Ends d l outcome
  turns : ∀ taken l, Loading.Turns d (.start (named ++ sites)) taken l →
    Reached d named sites result taken l

variable {d : Document} {paths : List PathEntry} {named first taken : List Pointer} {p : Pointer}
  {l : Loading} {outcome : Result (List Schema)}

theorem exists_get?_of_mem_named (hn : namedSchemas d = .ok named) (hp : p ∈ named) :
    ∃ v, d.get? p = some v := by
  have ⟨_, _, v, hg, hl, he⟩ := exists_of_mem_named hn hp
  exact he ▸ ⟨v, Document.get?_append_of_leads hg (.member hl .here)⟩

theorem Mentioned.exists_get?_or_mem (h : Mentioned d first p) :
    (∃ v, d.get? p = some v) ∨ p ∈ first := by
  cases h
  case first hp => exact .inr hp
  case link hs hq =>
    have ⟨_, hv, hr⟩ := Document.schemaAt_eq_ok hs
    exact .inl (Schema.exists_get?_of_mem_links hv hr hq)

-- A named schema exists, so a node of the first queue that does not is a site.
theorem mem_sites_of_get?_eq_none (hn : namedSchemas d = .ok named)
    (hp : p ∈ named ++ sites paths) (hg : d.get? p = none) : p ∈ sites paths := by
  cases List.mem_append.mp hp
  case inl hp =>
    have ⟨_, hv⟩ := exists_get?_of_mem_named hn hp
    cases hg.symm.trans hv
  case inr hp => exact hp

-- The loop does not get past a node that does not exist.
theorem unread_of_get?_eq_none (hn : namedSchemas d = .ok named) (hp : p ∈ named ++ sites paths)
    (hg : d.get? p = none) : Unread d (named ++ sites paths) (load d paths) p := by
  have ⟨taken, l, _, ht, he⟩ := Loading.exists_ends d (named ++ sites paths)
  have hi := ht.invariant.left
  have hl : p ∉ l.loaded.map (·.node) := by
    intro hl
    have ⟨s, hs, he⟩ := List.mem_map.mp hl
    have ⟨_, hv, _⟩ := Document.schemaAt_eq_ok (hi.read s hs)
    cases hg.symm.trans (he ▸ hv)
  have hp : p ∈ l.pending := (List.mem_append.mp (hi.first p hp)).resolve_left hl
  cases he
  case drained h => cases h ▸ hp
  case fault q rest e h hs =>
    refine ⟨hg, taken, l, q, rest, e, ht, h, hp, hs, ?_⟩
    rw [load_eq_map hn, ht.run_eq_outcome (.fault h hs)]
    rfl

theorem Mentioned.inside_or_unread (hn : namedSchemas d = .ok named)
    (hm : Mentioned d (named ++ sites paths) p) :
    d.Inside (named ++ sites paths ++ d.referenced) p ∨
      p ∈ sites paths ∧ Unread d (named ++ sites paths) (load d paths) p := by
  cases hg : d.get? p
  case some => exact .inl (Document.inside_of_isBelow hm.isBelow hg)
  case none =>
    obtain ⟨_, hv⟩ | hp := hm.exists_get?_or_mem
    case inl => cases hg.symm.trans hv
    case inr =>
      exact .inr ⟨mem_sites_of_get?_eq_none hn hp hg, unread_of_get?_eq_none hn hp hg⟩

theorem Loading.Turns.reached (hn : namedSchemas d = .ok named)
    (h : Turns d (start (named ++ sites paths)) taken l) :
    Reached d named (sites paths) (load d paths) taken l := by
  have hi := h.invariant.left
  have he := h.nodes_eq
  constructor
  case bounded => exact h.length_lt
  case once    => exact he ▸ hi.nodup
  case created => exact fun p hp => (hi.mentioned p (he ▸ hp)).inside_or_unread hn
  case linked  =>
    intro p rest v q w hp hv hq hw
    have hm := hi.mentioned p (mem_nodes_of_pending hp)
    exact Document.inside_of_isBelow (hq.isBelow hv hm.isBelow) hw
  case outcome => exact fun _ ho => by rw [load_eq_map hn, h.run_eq_outcome ho]

-- Loading comes to an end for every document and all entries.
theorem load_terminates (d : Document) (paths : List PathEntry) :
    (∃ e, namedSchemas d = .error e ∧ load d paths = .error e) ∨
    ∃ named, namedSchemas d = .ok named ∧ Terminates d named (sites paths) (load d paths) := by
  cases hn : namedSchemas d
  case error e =>
    refine .inl ⟨e, rfl, ?_⟩
    rw [load, hn, error_bind]
  case ok named =>
    exact .inr ⟨named, rfl, Loading.exists_ends d _, fun _ _ h => h.reached hn⟩

-- A named schema of an unknown type, and a parameter that is the list of its fields. What was read as
-- the schema of the parameter stands at a place of that list, and not at the site.
def misplaced : Document where
  dialect := .swagger2
  root := .obj [
    ("swagger", .str "2.0"),
    ("paths", .obj [("/pets", .obj [("get", .obj [
      ("parameters", .arr [.arr [.str "limit", .str "query", .null, .null,
        .obj [("type", .str "integer")], .null, .null, .null, .null]]),
      ("responses", .obj [])])])]),
    ("definitions", .obj [("Money", .obj [("type", .str "money")])])]

def misplacedSite : Pointer :=
  ⟨["paths", "/pets", "get", "parameters", "0", "schema"]⟩

-- The node where loading fails.
def refused? : Result SchemaGraph → Option Pointer
  | .error (.invalid node _) => some node
  | _                        => none

-- Loading does not fail at the site, but at the named schema, which comes first.
theorem not_fails_at_site_misplaced :
    ¬∀ d paths named, d.paths = .ok paths → namedSchemas d = .ok named →
      ∀ taken l, Loading.Turns d (.start (named ++ sites paths)) taken l → ∀ p ∈ taken ++ l.pending,
        d.Inside (named ++ sites paths ++ d.referenced) p ∨
        p ∈ sites paths ∧ d.get? p = none ∧ ∃ problem, load d paths = .error (.invalid p problem) := by
  have hb : (do return (← misplaced.paths, ← namedSchemas misplaced)).toOption.map
      (fun x : List PathEntry × List Pointer =>
        (misplacedSite ∈ (Loading.start (x.2 ++ sites x.1)).pending,
          refused? (load misplaced x.1))) =
      some (true, some ⟨["definitions", "Money", "type"]⟩) := by decide +kernel
  have hg : misplaced.get? misplacedSite = none := by decide +kernel
  intro h
  obtain ⟨⟨paths, named⟩, hd, he⟩ := exists_of_map_toOption_eq_some hb
  obtain ⟨_, hp, hd⟩ := bind_eq_ok.mp hd
  obtain ⟨_, hn, hd⟩ := bind_eq_ok.mp hd
  cases pure_eq_ok.mp hd
  obtain ⟨hs, hl⟩ := Prod.ext_iff.mp he
  have hs : misplacedSite ∈ [] ++ (Loading.start (named ++ sites paths)).pending := by simpa using hs
  obtain hi | ⟨_, _, _, hf⟩ := h misplaced paths named hp hn [] _ .none misplacedSite hs
  case inl =>
    obtain ⟨_, hv⟩ := hi.exists_get?
    cases hg.symm.trans hv
  case inr =>
    dsimp only at hl
    rw [hf] at hl
    exact absurd (Option.some.inj hl) (by decide)

end SchemaGraph
end ApiDescriptors
