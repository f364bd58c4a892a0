import ApiDescriptors.Proofs.Schema.Resolution

namespace ApiDescriptors

open Result

namespace SchemaGraph

-- A chain that comes back to a node on it, from the first schema in the order of the graph that
-- does not settle.
structure FirstLasso (g : SchemaGraph) (first : Pointer) (chain : List Pointer) : Prop where
  lasso   : g.Lasso first chain
  endless : ∀ s, ¬g.Settles first s
  before  : ∃ before after, g.nodes = before ++ first :: after ∧
    ∀ p ∈ before, ∃ s, g.Settles p s

end SchemaGraph

namespace Resolution

variable {d : Document} {paths : List PathEntry} {g : SchemaGraph} {r : Resolution} {p : Pointer}
  {s : Schema} {e : Error}

-- What a resolution says of alias chains is what the graph has.
structure Follows (r : Resolution) (g : SchemaGraph) : Prop where
  total      : ∀ p ∈ g.nodes, ∃ s, r.canonical? p = some s
  settles    : ∀ p s, r.canonical? p = some s ↔ g.Settles p s
  idempotent : ∀ p s, r.canonical? p = some s → r.canonical? s.node = some s

theorem Sound.follows (h : r.Sound) : r.Follows r.graph where
  total             := h.total
  settles           := h.settles
  idempotent p s hc := by
    have hs := (h.settles p s).mp hc
    exact (h.settles s.node s).mpr ⟨.refl, hs.found, hs.concrete⟩

theorem firstLasso_of_ofGraph (hg : g.Closed) (h : ofGraph g = .error e) :
    ∃ first chain, e = .cycle chain ∧ g.FirstLasso first chain := by
  have ⟨before, first, after, chain, hn, hall, he, hl⟩ := ofGraph_eq_error hg h
  exact ⟨first, chain, he, hl, fun s hs => hs.not_cycles hl.cycles, before, after, hn, hall⟩

-- Aliases are resolved exactly where none runs into a cycle. Each schema then has the one at the
-- end of its alias chain; otherwise the first schema without such an end is told of, with its chain
-- up to where it comes back.
theorem resolves_of_load (h : SchemaGraph.load d paths = .ok g) :
    ((∃ r, ofGraph g = .ok r) ↔ ∀ p ∈ g.nodes, ¬g.Cycles p) ∧
    (∀ r, ofGraph g = .ok r → r.Follows g) ∧
    (∀ e, ofGraph g = .error e → ∃ first chain, e = .cycle chain ∧ g.FirstLasso first chain) := by
  have ⟨_, _, hl⟩ := SchemaGraph.load_eq_ok h
  have hok (r : Resolution) (hr : ofGraph g = .ok r) : r.Follows g :=
    graph_ofGraph hr ▸ (sound_ofGraph hl.closed hr).follows
  refine ⟨⟨fun ⟨r, hr⟩ p hp => ?_, exists_ofGraph_of_not_cycles hl.closed⟩, hok,
    fun e => firstLasso_of_ofGraph hl.closed⟩
  have ⟨s, hs⟩ := (hok r hr).total p hp
  exact ((hok r hr).settles p s |>.mp hs).not_cycles

-- Aliases of which two stand for each other; a third leads to these, and one settles.
def entangled : Document where
  dialect := .swagger2
  root := .obj [
    ("paths", .obj []),
    ("definitions", .obj [
      ("Name", .obj [("$ref", .str "#/definitions/Text")]),
      ("Text", .obj [("type", .str "string")]),
      ("Tail", .obj [("allOf", .arr [.obj [("$ref", .str "#/definitions/Left")]])]),
      ("Left", .obj [("$ref", .str "#/definitions/Right")]),
      ("Right", .obj [("$ref", .str "#/definitions/Left")])])
  ]

theorem exists_resolves_entangled : ∃ paths g first chain,
    entangled.paths = .ok paths ∧ SchemaGraph.load entangled paths = .ok g ∧
    ofGraph g = .error (.cycle chain) ∧
    chain.map (·.segments) = [
      ["definitions", "Tail"], ["definitions", "Tail", "allOf", "0"], ["definitions", "Left"],
      ["definitions", "Right"], ["definitions", "Left"]] ∧
    g.FirstLasso first chain := by
  have hb : (entangled.paths >>= SchemaGraph.load entangled).toOption.map (fun g =>
      (ofGraph g).cycle?.map (·.map (·.segments))) = some (some [
      ["definitions", "Tail"], ["definitions", "Tail", "allOf", "0"], ["definitions", "Left"],
      ["definitions", "Right"], ["definitions", "Left"]]) := by decide +kernel
  obtain ⟨g, hg, hc⟩ := exists_of_map_toOption_eq_some hb
  obtain ⟨paths, hp, hl⟩ := bind_eq_ok.mp hg
  obtain ⟨chain, hc, hn⟩ := Option.map_eq_some_iff.mp hc
  have he := eq_error_of_cycle? hc
  obtain ⟨first, _, hc, hf⟩ := (resolves_of_load hl).right.right _ he
  cases hc
  exact ⟨paths, g, first, chain, hp, hl, he, hn, hf⟩

end Resolution
end ApiDescriptors
