import ApiDescriptors.Proofs.Schema.Resolution

namespace ApiDescriptors

open Result

-- The description that a document declares at a place.
def Document.descriptionAt (d : Document) (p : Pointer) : Option String :=
  ((d.get? p).bind (·.get? "description")).bind (·.str?)

namespace Schema

variable {d : Document} {node : Pointer} {members : Members} {value : Json} {s : Schema}
  {chain : List Schema}

theorem stringMember_eq_ok {key : String} {text : Option String}
    (h : stringMember node members key = .ok text) :
    text = (members.lookup key).bind (·.str?) := by
  simp only [stringMember] at h
  split at h
  case h_1 hl => cases h; simp [hl]
  case h_2 hl => cases h; simp [hl, Json.str?]
  case h_3    => cases h

theorem description_of_readConcrete {description : Option String}
    (h : readConcrete node members description = .ok s) : s.description = description := by
  simp only [readConcrete, bind_eq_ok, pure_eq_ok] at h
  obtain ⟨_, _, _, _, _, _, _, _, _, _, _, _, rfl⟩ := h
  rfl

-- Of what stands beside a reference or an `allOf`, the description is read.
theorem description_of_read (h : read d node value = .ok s) :
    s.description = (value.get? "description").bind (·.str?) := by
  simp only [read] at h
  split at h
  case h_2 => cases h
  case h_1 members =>
    obtain ⟨description, hd, h⟩ := bind_eq_ok.mp h
    obtain ⟨_, _, h⟩ := bind_eq_ok.mp h
    rw [Json.get?, ← stringMember_eq_ok hd]
    split at h
    case h_1 =>
      obtain ⟨_, _, h⟩ := bind_eq_ok.mp h
      cases h
      rfl
    case h_2 =>
      split at h
      case h_1 => cases h
      case h_2 =>
        split at h
        case h_1 => exact description_of_readConcrete h
        case h_2 => cases h; rfl
        case h_3 => cases h

-- The description that is closest to a use stands on the way of its alias chain, and the schema at
-- the end of the chain has none, or another one.
def Overlooks (chain : List Schema) : Prop :=
  ∃ first before s after text, chain = first :: (before ++ s :: after) ∧
    (∀ t ∈ first :: before, t.description = none) ∧ s.description = some text ∧
    chain.getLast?.bind (·.description) ≠ some text

theorem overlooks_cons_iff {first : Schema} :
    Overlooks (first :: chain) ↔ first.description = none ∧
      ∃ text, chain.findSome? (·.description) = some text ∧
        (first :: chain).getLast?.bind (·.description) ≠ some text := by
  constructor
  case mp =>
    rintro ⟨_, before, s, after, text, he, hn, hs, hl⟩
    cases he
    refine ⟨hn _ List.mem_cons_self, text, ?_, hl⟩
    have hb : ∀ t ∈ before, t.description = none := fun t ht => hn t (List.mem_cons_of_mem _ ht)
    exact List.findSome?_eq_some_iff.mpr ⟨before, s, after, rfl, hs, hb⟩
  case mpr =>
    rintro ⟨hn, text, hf, hl⟩
    obtain ⟨before, s, after, rfl, hs, hb⟩ := List.findSome?_eq_some_iff.mp hf
    exact ⟨first, before, s, after, text, rfl, List.forall_mem_cons.mpr ⟨hn, hb⟩, hs, hl⟩

-- What the ends of a chain describe is what is closest to its beginning, or something is overlooked.
theorem ends_eq_closest_iff :
    (chain.head?.bind (·.description)).or (chain.getLast?.bind (·.description)) =
      chain.findSome? (·.description) ↔ ¬Overlooks chain := by
  cases chain
  case nil => simp [Overlooks]
  case cons first chain =>
    rw [overlooks_cons_iff, List.head?_cons, Option.bind_some, List.findSome?_cons]
    cases hd : first.description
    case some => simp
    case none =>
      cases hf : chain.findSome? (·.description)
      case some text => simp
      case none =>
        have hn : ∀ s ∈ first :: chain, s.description = none :=
          List.forall_mem_cons.mpr ⟨hd, List.findSome?_eq_none_iff.mp hf⟩
        simpa using fun s hs => hn s (List.mem_of_getLast? hs)

end Schema

namespace Resolution

variable {d : Document} {paths : List PathEntry} {g : SchemaGraph} {r : Resolution} {p : Pointer}

theorem Sound.chainOf (h : r.Sound) (hp : p ∈ r.graph.nodes) : r.graph.ChainOf p (r.chain p) :=
  h.closed.chainOf_of_aliasChainFrom hp (h.chain hp)

theorem Sound.canonical?_eq_getLast? (h : r.Sound) (hp : p ∈ r.graph.nodes) :
    r.canonical? p = (r.chain p).getLast? := by
  obtain ⟨s, hl, hs⟩ := (h.chainOf hp).settles
  rw [hl, (h.settles p s).mpr hs]

-- How a use is described: as it describes itself, or else as the end of its alias chain does. So a
-- description that is closer to the use than that of the end counts if it is at the use.
structure Describes (d : Document) (r : Resolution) (p : Pointer) (chain : List Schema) : Prop where
  unique   : ∀ other, r.graph.ChainOf p other ↔ other = chain
  declared : ∀ s ∈ chain, s.description = d.descriptionAt s.node
  ends     : ∃ first last, chain.head? = some first ∧ chain.getLast? = some last ∧
    r.canonical? p = some last ∧ r.description? p = first.description.or last.description
  closest  : r.description? p = chain.findSome? (·.description) ↔ ¬Schema.Overlooks chain

theorem describes_of_load (hl : SchemaGraph.load d paths = .ok g) (hr : ofGraph g = .ok r)
    (hp : p ∈ g.nodes) : ∃ chain, Describes d r p chain := by
  obtain ⟨_, _, hloaded⟩ := SchemaGraph.load_eq_ok hl
  obtain rfl := graph_ofGraph hr
  have hsound := sound_ofGraph hloaded.closed hr
  have hchain := hsound.chainOf hp
  have hcanonical := hsound.canonical?_eq_getLast? hp
  refine ⟨r.chain p, fun other => ⟨(·.unique hchain), fun he => he ▸ hchain⟩, fun s hs => ?_, ?_, ?_⟩
  case refine_1 =>
    obtain ⟨value, hg, hs⟩ := Document.schemaAt_eq_ok (hloaded.read s (hchain.subset hs))
    rw [Schema.description_of_read hs, Document.descriptionAt, hg, Option.bind_some]
  case refine_2 =>
    have hf := List.head?_eq_some_head hchain.ne_nil
    have hl := List.getLast?_eq_some_getLast hchain.ne_nil
    exact ⟨_, _, hf, hl, hcanonical.trans hl, by simp [description?, hcanonical, hf, hl]⟩
  case refine_3 => rw [description?, hcanonical, Schema.ends_eq_closest_iff]

-- A chain of three schemas, of which the last two are described.
def hearsay : Document where
  dialect := .swagger2
  root := .obj [
    ("paths", .obj []),
    ("definitions", .obj [
      ("Rumour", .obj [("allOf", .arr [.obj [("$ref", .str "#/definitions/Report")]])]),
      ("Report", .obj [
        ("$ref", .str "#/definitions/Event"), ("description", .str "As it was told.")]),
      ("Event", .obj [("type", .str "string"), ("description", .str "As it was.")])])
  ]

theorem exists_chainOf_hearsay : ∃ paths g r chain, hearsay.paths = .ok paths ∧
    SchemaGraph.load hearsay paths = .ok g ∧ ofGraph g = .ok r ∧
    ⟨["definitions", "Rumour"]⟩ ∈ g.nodes ∧ g.ChainOf ⟨["definitions", "Rumour"]⟩ chain ∧
    chain.findSome? (·.description) = some "As it was told." ∧
    r.description? ⟨["definitions", "Rumour"]⟩ = some "As it was." := by
  have hb : (hearsay.paths >>= SchemaGraph.load hearsay >>= ofGraph).toOption.map (fun r =>
      (decide (⟨["definitions", "Rumour"]⟩ ∈ r.graph.nodes),
        (r.chain ⟨["definitions", "Rumour"]⟩).findSome? (·.description),
        r.description? ⟨["definitions", "Rumour"]⟩)) =
      some (true, some "As it was told.", some "As it was.") := by decide +kernel
  obtain ⟨r, hr, hb⟩ := exists_of_map_toOption_eq_some hb
  obtain ⟨g, hg, hr⟩ := bind_eq_ok.mp hr
  obtain ⟨paths, hp, hl⟩ := bind_eq_ok.mp hg
  obtain ⟨_, _, hloaded⟩ := SchemaGraph.load_eq_ok hl
  obtain rfl := graph_ofGraph hr
  simp only [Prod.mk.injEq, decide_eq_true_eq] at hb
  obtain ⟨hm, hf, hd⟩ := hb
  have hchain := (sound_ofGraph hloaded.closed hr).chainOf hm
  exact ⟨paths, r.graph, r, _, hp, hl, hr, hm, hchain, hf, hd⟩

theorem exists_describes_hearsay : ∃ paths g r chain, hearsay.paths = .ok paths ∧
    SchemaGraph.load hearsay paths = .ok g ∧ ofGraph g = .ok r ∧
    ⟨["definitions", "Rumour"]⟩ ∈ g.nodes ∧
    Describes hearsay r ⟨["definitions", "Rumour"]⟩ chain ∧ Schema.Overlooks chain ∧
    r.description? ⟨["definitions", "Rumour"]⟩ = some "As it was." := by
  obtain ⟨paths, g, r, chain, hp, hl, hr, hm, hc, hf, hd⟩ := exists_chainOf_hearsay
  obtain ⟨_, h⟩ := describes_of_load hl hr hm
  obtain rfl := graph_ofGraph hr
  obtain rfl := (h.unique chain).mp hc
  refine ⟨paths, r.graph, r, chain, hp, hl, hr, hm, h, ?_, hd⟩
  by_contra ho
  have he := h.closest.mpr ho
  rw [hd, hf] at he
  exact absurd he (by decide)

theorem not_closest_hearsay : ¬∀ d paths g r p chain, Document.paths d = .ok paths →
    SchemaGraph.load d paths = .ok g → ofGraph g = .ok r → g.ChainOf p chain →
    r.description? p = chain.findSome? (·.description) := by
  intro hall
  obtain ⟨_, _, _, _, hp, hl, hr, _, hc, hf, hd⟩ := exists_chainOf_hearsay
  have he := hall _ _ _ _ _ _ hp hl hr hc
  rw [hd, hf] at he
  exact absurd he (by decide)

end Resolution
end ApiDescriptors
