import ApiDescriptors.Proofs.Reordering.Paths
import ApiDescriptors.Proofs.Schema.Discovery

namespace ApiDescriptors

open Result

variable {v v' : Json} {members members' : Members} {d d' : Document} {node : Pointer}

namespace Schema

-- A schema is read by looking up the members with certain names.
theorem readConcrete_congr
    (hl : ∀ name, name ≠ "paths" → members.lookup name = members'.lookup name) (node : Pointer)
    (description : Option String) :
    readConcrete node members description = readConcrete node members' description := by
  have hf (kind : Kind) : formOf node members kind = formOf node members' kind := by
    cases kind <;> simp only [formOf, propertiesOf, requiredNames, hl "properties" (by decide),
      hl "required" (by decide), hl "items" (by decide)]
  simp only [readConcrete, isMarkedNullable, boolMember, typeName, kindOf, stringMember, choicesOf,
    fileFormat, hf, hl "nullable" (by decide), hl "x-nullable" (by decide), hl "type" (by decide),
    hl "properties" (by decide), hl "items" (by decide), hl "format" (by decide),
    hl "enum" (by decide)]

theorem find?_unsupported_congr
    (hl : ∀ name, name ≠ "paths" → members.lookup name = members'.lookup name) :
    (unsupported.find? fun keyword => (members.lookup keyword).isSome) =
      unsupported.find? fun keyword => (members'.lookup keyword).isSome := by
  refine List.find?_congr fun keyword hk => ?_
  rw [hl keyword (by rintro rfl; revert hk; decide)]

end Schema

namespace Document.Similar

variable (h : d.Similar d')
include h

theorem read (hv : v.Alike v') (node : Pointer) :
    Alike Eq (Schema.read d node v) (Schema.read d' node v') := by
  have hobj {members members' : Members} (hv : (Json.obj members).Alike (.obj members')) :
      Alike Eq (Schema.read d node (.obj members)) (Schema.read d' node (.obj members')) := by
    have hl (name : String) (hn : name ≠ "paths") : members.lookup name = members'.lookup name :=
      hv.get? hn
    simp only [Schema.read, Schema.stringMember, hv.reference?_eq, hl "description" (by decide),
      hl "allOf" (by decide), Schema.find?_unsupported_congr hl, Schema.readConcrete_congr hl]
    refine .bind_eq (.refl _) fun description => .bind_eq (.refl _) fun reference => ?_
    cases reference
    case none => exact .refl _
    case some => exact .bind (h.target _ _) fun _ _ he => .of_eq (by rw [he.left])
  cases hv
  case refl =>
    cases v
    case obj => exact hobj (.refl _)
    all_goals exact .refl _
  case obj hl hf hn => exact hobj (.obj hl hf hn)

theorem schemaAt_eq_ok_iff {s : Schema} : d.schemaAt node = .ok s ↔ d'.schemaAt node = .ok s := by
  refine Alike.eq_ok_iff ?_
  simp only [schemaAt]
  obtain ⟨hx, hy⟩ | ⟨_, _, hx, hy, hv⟩ := rel_cases (h.get? node) <;> rw [hx, hy]
  case inl => exact .refl _
  case inr => exact h.read hv node

theorem namedSchemas_eq : SchemaGraph.namedSchemas d = SchemaGraph.namedSchemas d' := by
  have hs : d.schemaTable = d'.schemaTable := by
    simp only [schemaTable]
    rw [h.dialect]
  have ht := h.table
  rw [hs] at ht
  simp only [SchemaGraph.namedSchemas, objectAt]
  rw [hs, ht]

end Document.Similar

namespace SchemaGraph

variable {first first' : List Pointer} {paths paths' : List PathEntry} {g g' : SchemaGraph}
  {p : Pointer}

theorem Mentioned.of_similar (h : d.Similar d') (hf : first ⊆ first') (hp : Mentioned d first p) :
    Mentioned d' first' p := by
  induction hp
  case first hp         => exact .first (hf hp)
  case link hs hq hi => exact .link hi (h.schemaAt_eq_ok_iff.mp hs) hq

-- Graphs of the same schemas in another order.
structure Reordered (g g' : SchemaGraph) : Prop where
  schemas : g.schemas.Perm g'.schemas
  named   : g.named = g'.named
  roots   : g.roots.Perm g'.roots

theorem Loaded.mem_schemas_iff (h : Loaded d g) {s : Schema} :
    s ∈ g.schemas ↔ Mentioned d (g.named ++ g.roots) s.node ∧ d.schemaAt s.node = .ok s := by
  constructor
  case mp => exact fun hs => ⟨(h.mem_nodes _).mp (List.mem_map_of_mem hs), h.read s hs⟩
  case mpr =>
    intro ⟨hm, hs⟩
    have ⟨t, ht, he⟩ := List.mem_map.mp ((h.mem_nodes _).mpr hm)
    exact Except.ok.inj ((he ▸ h.read t ht).symm.trans hs) ▸ ht

theorem Loaded.exists_schemaAt_eq_ok (h : Loaded d g) (hp : Mentioned d (g.named ++ g.roots) p) :
    ∃ s, d.schemaAt p = .ok s := by
  have ⟨s, hs, he⟩ := List.mem_map.mp ((h.mem_nodes p).mpr hp)
  exact ⟨s, he ▸ h.read s hs⟩

-- The order decides when a schema is read, and not which schemas are.
theorem exists_load_eq_ok (h : d.Similar d') (hp : paths.Perm paths') (hg : load d paths = .ok g) :
    ∃ g', load d' paths' = .ok g' ∧ g.Reordered g' := by
  have ⟨hn, hr, hl⟩ := load_eq_ok hg
  have hsites : (sites paths).Perm (sites paths') := hp.flatMap_right _
  have hfirst : (g.named ++ g.roots).Perm (g.named ++ sites paths') := hr ▸ hsites.append_left _
  have hm (p : Pointer) :
      Mentioned d (g.named ++ g.roots) p ↔ Mentioned d' (g.named ++ sites paths') p :=
    ⟨.of_similar h hfirst.subset, .of_similar h.symm hfirst.symm.subset⟩
  rw [h.namedSchemas_eq] at hn
  cases hg' : load d' paths'
  case error =>
    obtain he | ⟨_, p, he, hp, hs⟩ := load_eq_error hg'
    case inl => cases hn.symm.trans he
    case inr =>
      cases hn.symm.trans he
      have ⟨s, hd⟩ := hl.exists_schemaAt_eq_ok ((hm p).mpr hp)
      cases (h.schemaAt_eq_ok_iff.mp hd).symm.trans hs
  case ok g' =>
    have ⟨hn', hr', hl'⟩ := load_eq_ok hg'
    have hn := Except.ok.inj (hn.symm.trans hn')
    refine ⟨g', rfl, ?_, hn, hr ▸ hr' ▸ hsites⟩
    rw [List.perm_ext_iff_of_nodup (.of_map _ hl.nodup) (.of_map _ hl'.nodup)]
    intro s
    rw [hl.mem_schemas_iff, hl'.mem_schemas_iff, hm, h.schemaAt_eq_ok_iff, hr', hn]

end SchemaGraph
end ApiDescriptors
