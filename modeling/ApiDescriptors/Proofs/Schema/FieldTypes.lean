import ApiDescriptors.Proofs.Schema.Faithful

namespace ApiDescriptors

open Result Relation

-- A type inside a number of arrays.
def FieldType.within (type : FieldType) : Nat → FieldType
  | 0     => type
  | n + 1 => .array (type.within n)

-- The type that a schema has where it is used, if it is an object or a scalar.
def Schema.core? (s : Schema) : Option FieldType :=
  match s.form with
  | .object ..   => some (.object s.node)
  | .scalar type => some (.scalar type s.format)
  | _            => none

theorem Schema.isArray_of_form {s : Schema} {items : Pointer} (h : s.form = .array items) :
    s.isArray := by
  simp [isArray, h]

theorem Schema.not_isArray_of_core? {s : Schema} {type : FieldType} (h : s.core? = some type) :
    ¬s.isArray := by
  simp only [core?] at h
  simp only [isArray]
  split at h <;> simp_all

namespace SchemaGraph

-- The schemas that the use of a node goes through: the arrays from the outside in, and the schema
-- that comes after these. Aliases are passed on the way.
inductive Unwraps (g : SchemaGraph) : Pointer → List Schema → Schema → Prop
  | here {p s} : g.Settles p s → Unwraps g p [] s
  | items {p s items arrays t} :
    g.Settles p s → s.form = .array items → Unwraps g items arrays t → Unwraps g p (s :: arrays) t

-- The step from an array to what its items stand for.
def ItemStep (g : SchemaGraph) (s t : Schema) : Prop :=
  ∃ items, s.form = .array items ∧ g.Settles items t

variable {g : SchemaGraph} {p : Pointer} {s t first : Schema} {arrays arrays' : List Schema}

theorem ItemStep.unique : Relator.RightUnique g.ItemStep := by
  intro s t u ⟨_, hf, ht⟩ ⟨_, hf', hu⟩
  cases hf.symm.trans hf'
  exact ht.unique hu

theorem ItemStep.isArray (h : g.ItemStep s t) : s.isArray := by
  have ⟨_, hf, _⟩ := h
  exact Schema.isArray_of_form hf

namespace Unwraps

theorem exists_settles (h : g.Unwraps p arrays s) : ∃ first, g.Settles p first := by
  cases h
  case here hs    => exact ⟨_, hs⟩
  case items hs _ => exact ⟨_, hs⟩

theorem way (h : g.Unwraps p arrays t) (hf : g.Settles p first) :
    ReflTransGen g.ItemStep first t := by
  induction h generalizing first
  case here hs => exact hf.unique hs ▸ .refl
  case items hs hform hrest hi =>
    have ⟨second, hn⟩ := hrest.exists_settles
    exact hf.unique hs ▸ .head ⟨_, hform, hn⟩ (hi hn)

theorem transGen_of_mem (h : g.Unwraps p arrays t) (hm : s ∈ arrays) :
    TransGen g.ItemStep s t := by
  induction h
  case here => cases hm
  case items hform hrest hi =>
    cases hm
    case head =>
      have ⟨second, hn⟩ := hrest.exists_settles
      exact .head' ⟨_, hform, hn⟩ (hrest.way hn)
    case tail hm => exact hi hm

-- Where the same array comes up again, nothing but arrays ever does.
theorem isArray_of_mem (h : g.Unwraps p arrays s) (hm : s ∈ arrays) (h' : g.Unwraps p arrays' t) :
    t.isArray := by
  have ⟨first, hf⟩ := h.exists_settles
  have hc : TransGen g.ItemStep s s := h.transGen_of_mem hm
  have ht : ∃ u, TransGen g.ItemStep t u := by
    cases (h.way hf).total_of_right_unique ItemStep.unique (h'.way hf)
    case inl hw => exact ⟨t, transGen_self_of_way ItemStep.unique hc hw⟩
    case inr hw => exact ⟨s, .trans_right hw hc⟩
  have ⟨_, ht⟩ := ht
  have ⟨_, hs, _⟩ := TransGen.head'_iff.mp ht
  exact hs.isArray

theorem unique (h : g.Unwraps p arrays s) (h' : g.Unwraps p arrays' t) (hs : ¬s.isArray)
    (ht : ¬t.isArray) : arrays = arrays' ∧ s = t := by
  induction h generalizing arrays'
  case here hp =>
    cases h'
    case here hp'       => exact ⟨rfl, hp.unique hp'⟩
    case items hf hp' _ => exact absurd (Schema.isArray_of_form (hp.unique hp' ▸ hf)) hs
  case items hp hf _ hi =>
    cases h'
    case here hp' => exact absurd (Schema.isArray_of_form (hp.unique hp' ▸ hf)) ht
    case items hf' hp' h' =>
      cases hp.unique hp'
      cases hf.symm.trans hf'
      have ⟨he, hst⟩ := hi h' hs
      exact ⟨congrArg _ he, hst⟩

end Unwraps
end SchemaGraph

namespace Resolution

variable {d : Document} {paths : List PathEntry} {g : SchemaGraph} {r : Resolution} {p : Pointer}
  {unvisited : List Pointer} {seen : List Schema}

-- The type of a node is the one of the first schema that is no array, inside as many arrays as come
-- before it. A node without such a schema has a chain of arrays, up to the first that comes again.
structure Types (r : Resolution) (g : SchemaGraph) (p : Pointer) : Prop where
  ends     : ∀ arrays s, g.Unwraps p arrays s → ¬s.isArray →
    ∃ type, s.core? = some type ∧ r.fieldType p = .ok (type.within arrays.length)
  returns  : (∀ arrays s, g.Unwraps p arrays s → s.isArray) →
    ∃ arrays s, g.Unwraps p arrays s ∧ (arrays.map (·.node)).Nodup ∧ s ∈ arrays ∧
      r.fieldType p = .error (.cycle ((arrays ++ [s]).map (·.node)))
  hasItems : ∀ node, r.fieldType p ≠ .error (.invalid node .arrayWithoutItems)

-- What comes of a type, where those of `seen` were arrays on the way: it is found, or an array comes
-- again.
theorem Sound.fieldTypeFrom_cases (h : r.Sound) (hp : p ∈ r.graph.nodes)
    (hseen : seen ⊆ r.graph.schemas)
    (hv : (seen.map (·.node) ++ unvisited).Perm r.graph.nodes) :
    (∃ arrays s type, r.graph.Unwraps p arrays s ∧ s.core? = some type ∧
      r.fieldTypeFrom unvisited (seen.map (·.node)) p = .ok (type.within arrays.length)) ∨
    (∃ arrays s, r.graph.Unwraps p arrays s ∧ ((seen ++ arrays).map (·.node)).Nodup ∧
      s ∈ seen ++ arrays ∧
      r.fieldTypeFrom unvisited (seen.map (·.node)) p =
        .error (.cycle ((seen ++ arrays ++ [s]).map (·.node)))) := by
  generalize hvisited : seen.map (·.node) = visited at hv ⊢
  fun_induction r.fieldTypeFrom unvisited visited p generalizing seen
  case case1 hn =>
    obtain ⟨s, hs⟩ := h.total _ hp
    cases hn.symm.trans hs
  case case2 unvisited visited p s hs items hf hu hi =>
    have hsettles := (h.settles p s).mp hs
    have hitems := h.mem_nodes_of_mem_links hs (Schema.mem_links_of_array hf)
    have hseen' : seen ++ [s] ⊆ r.graph.schemas :=
      List.append_subset.mpr ⟨hseen, by simpa using (h.mem_of_canonical? hs).left⟩
    have hv' : (visited ++ [s.node] ++ unvisited.erase s.node).Perm r.graph.nodes := by
      rw [List.append_assoc, List.singleton_append]
      exact ((List.perm_cons_erase hu).symm.append_left visited).trans hv
    have hvisited' : (seen ++ [s]).map (·.node) = visited ++ [s.node] := by simp [hvisited]
    obtain ⟨arrays, t, type, hw, hc, he⟩ | ⟨arrays, t, hw, hn, hm, he⟩ :=
      hi hitems hseen' hvisited' hv'
    case inl =>
      refine .inl ⟨s :: arrays, t, type, .items hsettles hf hw, hc, ?_⟩
      rw [he]
      rfl
    case inr =>
      have ha : seen ++ [s] ++ arrays = seen ++ s :: arrays := by simp
      rw [ha] at hn hm he
      refine .inr ⟨s :: arrays, t, .items hsettles hf hw, hn, hm, ?_⟩
      rw [he]
      rfl
  case case3 unvisited visited p s hs items hf hu =>
    have hm : s.node ∈ visited :=
      (List.mem_append.mp (hv.mem_iff.mpr (h.node_mem_of_canonical? hs))).resolve_right hu
    have hn : visited.Nodup := (List.nodup_append.mp (hv.nodup_iff.mpr h.closed.nodup)).left
    obtain ⟨t, ht, he⟩ := List.mem_map.mp (hvisited ▸ hm)
    have hts : t = s := h.closed.eq_of_node_eq (hseen ht) (h.mem_of_canonical? hs).left he
    refine .inr ⟨[], s, .here ((h.settles p s).mp hs), ?_, ?_, ?_⟩
    · rw [List.append_nil, hvisited]
      exact hn
    · rw [List.append_nil]
      exact hts ▸ ht
    · simp [hvisited]
  case case4 p s hs _ _ hf =>
    exact .inl ⟨[], s, _, .here ((h.settles p s).mp hs), by rw [Schema.core?, hf], rfl⟩
  case case5 p s hs _ hf =>
    exact .inl ⟨[], s, _, .here ((h.settles p s).mp hs), by rw [Schema.core?, hf], rfl⟩
  case case6 hs target hf => exact absurd hf ((h.mem_of_canonical? hs).right target)

theorem Sound.types (h : r.Sound) (hp : p ∈ r.graph.nodes) : r.Types r.graph p := by
  obtain ⟨arrays, s, type, hw, hc, ht⟩ | ⟨arrays, s, hw, hn, hm, ht⟩ :=
    h.fieldTypeFrom_cases hp (List.nil_subset _) (List.Perm.refl r.graph.nodes)
  case inl =>
    have hs := Schema.not_isArray_of_core? hc
    refine ⟨fun arrays' s' hw' hs' => ?_, fun hall => absurd (hall arrays s hw) hs,
      fun _ he => nomatch he.symm.trans ht⟩
    obtain ⟨rfl, rfl⟩ := hw.unique hw' hs hs'
    exact ⟨type, hc, ht⟩
  case inr =>
    exact ⟨fun _ _ hw' hs' => absurd (hw.isArray_of_mem hm hw') hs',
      fun _ => ⟨arrays, s, hw, hn, hm, ht⟩, fun _ he => nomatch he.symm.trans ht⟩

-- In a graph that was loaded and resolved, each schema has a type where it is used, or is an array
-- that contains itself.
theorem types_of_load (hl : SchemaGraph.load d paths = .ok g) (hr : ofGraph g = .ok r)
    (hp : p ∈ g.nodes) : r.Types g p := by
  have ⟨_, _, hloaded⟩ := SchemaGraph.load_eq_ok hl
  have hg : r.graph = g := graph_ofGraph hr
  exact hg ▸ (sound_ofGraph hloaded.closed hr).types (hg ▸ hp)

-- Arrays of arrays of an alias, and two arrays that contain each other.
def grids : Document where
  dialect := .swagger2
  root := .obj [
    ("paths", .obj []),
    ("definitions", .obj [
      ("Grid", .obj [("type", .str "array"), ("items", .obj [
        ("type", .str "array"), ("items", .obj [("$ref", .str "#/definitions/Cell")])])]),
      ("Cell", .obj [("type", .str "integer"), ("format", .str "int32")]),
      ("Ring", .obj [("type", .str "array"), ("items", .obj [("$ref", .str "#/definitions/Link")])]),
      ("Link", .obj [("allOf", .arr [.obj [
        ("type", .str "array"), ("items", .obj [("$ref", .str "#/definitions/Ring")])]])])
    ])
  ]

theorem exists_types_grids : ∃ paths g r chain, grids.paths = .ok paths ∧
    SchemaGraph.load grids paths = .ok g ∧ ofGraph g = .ok r ∧
    (⟨["definitions", "Grid"]⟩ : Pointer) ∈ g.nodes ∧
    (⟨["definitions", "Ring"]⟩ : Pointer) ∈ g.nodes ∧
    (r.fieldType ⟨["definitions", "Grid"]⟩).toOption =
      some (.array (.array (.scalar .integer (some "int32")))) ∧
    r.fieldType ⟨["definitions", "Ring"]⟩ = .error (.cycle chain) ∧
    chain.map (·.segments) =
      [["definitions", "Ring"], ["definitions", "Link", "allOf", "0"], ["definitions", "Ring"]] ∧
    r.Types g ⟨["definitions", "Grid"]⟩ ∧ r.Types g ⟨["definitions", "Ring"]⟩ := by
  have hb : (grids.paths >>= SchemaGraph.load grids >>= ofGraph).toOption.map (fun r =>
      decide (⟨["definitions", "Grid"]⟩ ∈ r.graph.nodes ∧ ⟨["definitions", "Ring"]⟩ ∈ r.graph.nodes ∧
        (r.fieldType ⟨["definitions", "Grid"]⟩).toOption =
          some (.array (.array (.scalar .integer (some "int32")))) ∧
        (r.fieldType ⟨["definitions", "Ring"]⟩).cycle?.map (·.map (·.segments)) = some
          [["definitions", "Ring"], ["definitions", "Link", "allOf", "0"],
            ["definitions", "Ring"]])) = some true := by decide +kernel
  obtain ⟨r, hr, hn⟩ := exists_of_map_toOption_eq_some hb
  obtain ⟨g, hg, hr⟩ := bind_eq_ok.mp hr
  obtain ⟨paths, hp, hl⟩ := bind_eq_ok.mp hg
  obtain ⟨hgrid, hring, htype, hc⟩ := of_decide_eq_true hn
  obtain ⟨chain, hc, hchain⟩ := Option.map_eq_some_iff.mp hc
  rw [graph_ofGraph hr] at hgrid hring
  exact ⟨paths, g, r, chain, hp, hl, hr, hgrid, hring, htype, eq_error_of_cycle? hc, hchain,
    types_of_load hl hr hgrid, types_of_load hl hr hring⟩

end Resolution
end ApiDescriptors
