import ApiDescriptors.Proofs.Schema.Discovery
import ApiDescriptors.Proofs.Schema.Faithful

namespace ApiDescriptors

open Result Relation

namespace SchemaGraph

-- The step from a schema to one that it links: the target of an alias, the items of an array or a
-- property of an object.
def LinkStep (g : SchemaGraph) (p q : Pointer) : Prop :=
  ∃ s, g.get? p = some s ∧ q ∈ s.links

-- Depth-first pre-order by recursion: the schemas that are visited from the nodes of a list, one
-- after the other, where those of `seen` were visited before. The visit of a schema ends when all
-- that it links was visited. An alias counts as the schema that it settles at.
inductive Preorder (g : SchemaGraph) : List Schema → List Pointer → List Schema → Prop
  | nil {seen} : Preorder g seen [] []
  | again {seen p s rest found} :
    g.Settles p s → s ∈ seen → Preorder g seen rest found → Preorder g seen (p :: rest) found
  | visit {seen p s rest inner outer} :
    g.Settles p s → s ∉ seen → Preorder g (seen ++ [s]) s.links inner →
    Preorder g (seen ++ s :: inner) rest outer → Preorder g seen (p :: rest) (s :: inner ++ outer)

-- The nodes of the graph whose schemas were not seen.
def unseen (g : SchemaGraph) (seen : List Schema) : List Pointer :=
  g.nodes.diff (seen.map (·.node))

-- What discovery is to find from `roots` on: the objects that links lead to, each once, in the
-- order in which the recursion comes to them.
structure Discovers (g : SchemaGraph) (roots : List Pointer) (found : List Schema) : Prop where
  nodup : (found.map (·.node)).Nodup
  mem   : ∀ s, s ∈ found ↔
    s ∈ g.schemas ∧ s.isObject ∧ ∃ p ∈ roots, ReflTransGen g.LinkStep p s.node
  order : ∃ visited, found = visited.filter (·.isObject) ∧
    ∀ l, g.Preorder [] roots l ↔ l = visited

variable {g : SchemaGraph} {seen found inner : List Schema} {nodes : List Pointer}
  {p q : Pointer} {s t : Schema}

theorem AliasStep.linkStep (h : g.AliasStep p q) : g.LinkStep p q := by
  have ⟨s, hs, hf⟩ := h
  exact ⟨s, hs, Schema.mem_links_of_aliasOf hf⟩

theorem Settles.linkWay (h : g.Settles p s) : ReflTransGen g.LinkStep p s.node :=
  h.way.lift id fun _ _ hs => hs.linkStep

theorem Settles.mem_schemas (h : g.Settles p s) : s ∈ g.schemas :=
  mem_of_get? h.found

theorem erase_unseen : (g.unseen seen).erase s.node = g.unseen (seen ++ [s]) := by
  simp [unseen, List.diff_append]

theorem length_unseen_append_le : (g.unseen (seen ++ found)).length ≤ (g.unseen seen).length := by
  rw [unseen, List.map_append, List.diff_append]
  exact (List.diff_sublist _ _).length_le

namespace Closed

variable (hg : g.Closed)
include hg

theorem mem_unseen_iff (hs : s ∈ g.schemas) (hseen : seen ⊆ g.schemas) :
    s.node ∈ g.unseen seen ↔ s ∉ seen := by
  have hm : s.node ∈ g.unseen seen ↔ s.node ∈ g.nodes ∧ s.node ∉ seen.map (·.node) :=
    hg.nodup.mem_sdiff_iff
  have hs' : s.node ∈ g.nodes := List.mem_map_of_mem hs
  rw [hm, and_iff_right hs', not_iff_not]
  refine ⟨fun hm => ?_, List.mem_map_of_mem⟩
  have ⟨t, ht, he⟩ := List.mem_map.mp hm
  exact hg.eq_of_node_eq (hseen ht) hs he ▸ ht

theorem length_unseen_lt (hs : s ∈ g.schemas) (hn : s ∉ seen) (hseen : seen ⊆ g.schemas) :
    (g.unseen (seen ++ [s])).length < (g.unseen seen).length :=
  erase_unseen ▸ length_erase_lt ((hg.mem_unseen_iff hs hseen).mpr hn)

-- The recursion comes to an end: what is left unseen gets less with each visit.
theorem exists_preorder (ht : ∀ p ∈ g.nodes, ∃ s, g.Settles p s) (hseen : seen ⊆ g.schemas)
    (hn : nodes ⊆ g.nodes) : ∃ found, found ⊆ g.schemas ∧ g.Preorder seen nodes found := by
  induction hm : (g.unseen seen).length using Nat.strong_induction_on generalizing seen nodes
  case h m ih =>
    subst hm
    induction nodes
    case nil => exact ⟨[], List.nil_subset _, .nil⟩
    case cons p rest hi =>
      have ⟨hp, hrest⟩ := List.cons_subset.mp hn
      have ⟨s, hs⟩ := ht p hp
      have hmem := hs.mem_schemas
      by_cases hin : s ∈ seen
      case pos =>
        have ⟨found, hf, ho⟩ := hi hrest
        exact ⟨found, hf, .again hs hin ho⟩
      case neg =>
        have hlt := hg.length_unseen_lt hmem hin hseen
        have hseen' : seen ++ [s] ⊆ g.schemas := List.append_subset.mpr ⟨hseen, by simpa⟩
        have ⟨inner, hinner, hv⟩ := ih _ hlt hseen' (hg.links s hmem) rfl
        have he : seen ++ s :: inner = (seen ++ [s]) ++ inner := by simp
        have hle : (g.unseen (seen ++ s :: inner)).length < (g.unseen seen).length :=
          Nat.lt_of_le_of_lt (he ▸ length_unseen_append_le) hlt
        have ⟨outer, houter, ho⟩ :=
          ih _ hle (he ▸ List.append_subset.mpr ⟨hseen', hinner⟩) hrest rfl
        refine ⟨s :: inner ++ outer, ?_, .visit hs hin hv ho⟩
        exact List.append_subset.mpr ⟨List.cons_subset.mpr ⟨hmem, hinner⟩, houter⟩

end Closed

theorem Preorder.subset_schemas (h : g.Preorder seen nodes found) : found ⊆ g.schemas := by
  induction h
  case nil            => exact List.nil_subset _
  case again hi       => exact hi
  case visit hs _ _ _ hi ho =>
    exact List.append_subset.mpr ⟨List.cons_subset.mpr ⟨hs.mem_schemas, hi⟩, ho⟩

end SchemaGraph

namespace Resolution

variable {d : Document} {paths : List PathEntry} {g : SchemaGraph} {r : Resolution}
  {roots nodes : List Pointer} {p q : Pointer} {s : Schema} {seen found : List Schema}

-- The search with a stack does what the recursion does with the nodes on top, and then goes on
-- with those below.
theorem Sound.visitFrom_append (h : r.Sound) (hp : r.graph.Preorder seen nodes found)
    (hseen : seen ⊆ r.graph.schemas) (stack : List Pointer) :
    r.visitFrom (r.graph.unseen seen) (nodes ++ stack) =
      found ++ r.visitFrom (r.graph.unseen (seen ++ found)) stack := by
  induction hp generalizing stack
  case nil => simp
  case again p s _ _ hs hin _ hi =>
    have hu := (h.closed.mem_unseen_iff hs.mem_schemas hseen).not_left.mpr hin
    rw [List.cons_append, visitFrom_cons_of_not_mem ((h.settles p s).mpr hs) hu, hi hseen]
  case visit seen p s rest inner outer hs hn hv _ hi ho =>
    have hu := (h.closed.mem_unseen_iff hs.mem_schemas hseen).mpr hn
    have hseen' : seen ++ [s] ⊆ r.graph.schemas :=
      List.append_subset.mpr ⟨hseen, by simpa using hs.mem_schemas⟩
    have he : seen ++ s :: inner = (seen ++ [s]) ++ inner := by simp
    have hseen'' := List.append_subset.mpr ⟨hseen', hv.subset_schemas⟩
    rw [List.cons_append, visitFrom_cons_of_mem ((h.settles p s).mpr hs) hu,
      SchemaGraph.erase_unseen, hi hseen', ← he, ho (he ▸ hseen'')]
    simp

theorem Sound.visitFrom_of_preorder (h : r.Sound) (hp : r.graph.Preorder [] roots found) :
    r.visitFrom r.graph.nodes roots = found := by
  have he : r.visitFrom (r.graph.unseen ([] ++ found)) [] = [] := by rw [visitFrom]
  have hv := h.visitFrom_append hp (List.nil_subset _) []
  rwa [he, List.append_nil, List.append_nil] at hv

-- What is reached by canonical schemas is reached by links, aliases included.
theorem Sound.exists_linkWay (h : r.Sound) (hr : r.Reaches roots s) :
    ∃ p ∈ roots, ReflTransGen r.graph.LinkStep p s.node := by
  induction hr
  case root p s hp hs => exact ⟨p, hp, ((h.settles p s).mp hs).linkWay⟩
  case link s q t hs hq ht hi =>
    have ⟨p, hp, hw⟩ := hi
    have ⟨_, hs⟩ := hs.exists_canonical?
    have hstep : r.graph.LinkStep s.node q := ⟨s, ((h.settles _ s).mp hs).found, hq⟩
    exact ⟨p, hp, (hw.tail hstep).trans ((h.settles q t).mp ht).linkWay⟩

theorem Sound.exists_reaches (h : r.Sound) (hp : p ∈ roots) (hn : p ∈ r.graph.nodes)
    (hw : ReflTransGen r.graph.LinkStep p q) : ∃ s, r.canonical? q = some s ∧ r.Reaches roots s := by
  induction hw
  case refl =>
    have ⟨s, hs⟩ := h.total p hn
    exact ⟨s, hs, .root hp hs⟩
  case tail q t _ hstep hi =>
    have ⟨c, hc, hreach⟩ := hi
    have ⟨s, hs, hl⟩ := hstep
    have ⟨u, hu⟩ := h.total t (h.closed.links s (SchemaGraph.mem_of_get? hs) t hl)
    have hcs := (h.settles q c).mp hc
    by_cases ha : ∃ target, s.form = .aliasOf target
    case pos =>
      have ⟨target, hf⟩ := ha
      cases (by simpa [Schema.links, hf, Schema.Form.links] using hl : t = target)
      have hus := (h.settles t u).mp hu
      exact ⟨u, hu, hcs.unique (.of_way (.single ⟨s, hs, hf⟩) hus) ▸ hreach⟩
    case neg =>
      have he := hcs.unique (.of_concrete hs (not_exists.mp ha))
      exact ⟨u, hu, .link hreach (he ▸ hl) hu⟩

theorem Sound.mem_discover_iff_linkWay (h : r.Sound) (hroots : roots ⊆ r.graph.nodes) :
    s ∈ r.discover roots ↔ s ∈ r.graph.schemas ∧ s.isObject ∧
      ∃ p ∈ roots, ReflTransGen r.graph.LinkStep p s.node := by
  rw [h.mem_discover_iff]
  constructor
  case mp =>
    intro ⟨ho, hr⟩
    have ⟨_, hs⟩ := hr.exists_canonical?
    exact ⟨(h.mem_of_canonical? hs).left, ho, h.exists_linkWay hr⟩
  case mpr =>
    intro ⟨hs, ho, p, hp, hw⟩
    have ⟨c, hc, hr⟩ := h.exists_reaches hp (hroots hp) hw
    have ⟨_, _, hf⟩ := Schema.isObject_iff.mp ho
    have hself : r.graph.Settles s.node s :=
      .of_concrete (h.closed.get?_of_mem hs) fun _ ha => by rw [hf] at ha; cases ha
    exact ⟨ho, ((h.settles s.node c).mp hc).unique hself ▸ hr⟩

-- Discovery is depth-first pre-order by recursion, with the objects kept.
theorem Sound.discovers (h : r.Sound) (hroots : roots ⊆ r.graph.nodes) :
    r.graph.Discovers roots (r.discover roots) where
  nodup := h.nodup_discover roots
  mem _ := h.mem_discover_iff_linkWay hroots
  order := by
    have ht (p : Pointer) (hp : p ∈ r.graph.nodes) : ∃ s, r.graph.Settles p s :=
      (h.total p hp).imp fun s => (h.settles p s).mp
    have ⟨visited, _, hv⟩ := h.closed.exists_preorder ht (List.nil_subset _) hroots
    refine ⟨visited, ?_, fun l => ⟨fun hl => ?_, fun hl => hl ▸ hv⟩⟩
    · rw [discover, discoverFrom_eq_filter, h.visitFrom_of_preorder hv]
    · exact (h.visitFrom_of_preorder hl).symm.trans (h.visitFrom_of_preorder hv)

-- In a graph that was loaded and resolved, discovery finds what the recursion visits, in its order.
theorem discovers_of_load (hl : SchemaGraph.load d paths = .ok g) (hr : ofGraph g = .ok r)
    (hroots : roots ⊆ g.nodes) : g.Discovers roots (r.discover roots) := by
  have ⟨_, _, hloaded⟩ := SchemaGraph.load_eq_ok hl
  have hg : r.graph = g := graph_ofGraph hr
  exact hg ▸ (sound_ofGraph hloaded.closed hr).discovers (hg ▸ hroots)

-- Persons and teams that refer to each other, by an alias and by nested arrays too. The badge of a
-- team is come across before the home of a person.
def teams : Document where
  dialect := .swagger2
  root := .obj [
    ("paths", .obj [("/boss", .obj [("get", .obj [("responses", .obj [("200", .obj [
      ("schema", .obj [("$ref", .str "#/definitions/Boss")])])])])])]),
    ("definitions", .obj [
      ("Boss", .obj [("$ref", .str "#/definitions/Person")]),
      ("Person", .obj [("properties", .obj [
        ("team", .obj [("$ref", .str "#/definitions/Team")]),
        ("home", .obj [("type", .str "object")])])]),
      ("Team", .obj [("properties", .obj [
        ("shifts", .obj [("type", .str "array"), ("items", .obj [
          ("type", .str "array"), ("items", .obj [("$ref", .str "#/definitions/Boss")])])]),
        ("badge", .obj [("type", .str "object")])])]),
      ("Unused", .obj [("type", .str "object")])
    ])
  ]

theorem exists_discovers_teams : ∃ paths g r, teams.paths = .ok paths ∧
    SchemaGraph.load teams paths = .ok g ∧ ofGraph g = .ok r ∧ g.roots ⊆ g.nodes ∧
    (r.discover g.roots).map (·.node.segments) = [
      ["definitions", "Person"],
      ["definitions", "Team"],
      ["definitions", "Team", "properties", "badge"],
      ["definitions", "Person", "properties", "home"]] ∧
    g.Discovers g.roots (r.discover g.roots) := by
  have hb : (teams.paths >>= SchemaGraph.load teams >>= ofGraph).toOption.map (fun r =>
      (r.discover r.graph.roots).map (·.node.segments)) = some [
      ["definitions", "Person"],
      ["definitions", "Team"],
      ["definitions", "Team", "properties", "badge"],
      ["definitions", "Person", "properties", "home"]] := by decide +kernel
  have ⟨r, hr, hn⟩ := exists_of_map_toOption_eq_some hb
  have ⟨g, hg, hr⟩ := bind_eq_ok.mp hr
  have ⟨paths, hp, hl⟩ := bind_eq_ok.mp hg
  have hroots : g.roots ⊆ g.nodes :=
    have ⟨_, _, hloaded⟩ := SchemaGraph.load_eq_ok hl
    fun _ => hloaded.mem_nodes_of_mem_roots
  exact ⟨paths, g, r, hp, hl, hr, hroots, graph_ofGraph hr ▸ hn, discovers_of_load hl hr hroots⟩

end Resolution
end ApiDescriptors
