import ApiDescriptors.Proofs.Extension.Paths
import ApiDescriptors.Proofs.Extension.Resolution
import ApiDescriptors.Proofs.Reordering.Schemas
import ApiDescriptors.Proofs.Schema.Faithful

namespace ApiDescriptors

open Result

theorem Pointer.not_prefix_child {p : Pointer} {path : List String} (h : ¬p.segments <+: path)
    (name : String) : ¬(p.child name).segments <+: path :=
  fun hc => h ((List.prefix_append _ _).trans hc)

namespace Document

variable {d d' : Document} {entries : List PathEntry} {named named' : List Pointer} {p q : Pointer}
  {s : Schema}

theorem mem_textsAt_of_get? {v : Json} {text : String} (hv : d.get? p = some v)
    (ht : v.get? "$ref" = some (.str text)) : text ∈ d.root.textsAt "$ref" :=
  Pointer.textsAt_subset_of_lookup? hv (Json.mem_textsAt_of_get? ht)

theorem not_prefix_of_isSchema (hp : p.IsSchema) : ¬p.segments <+: d.schemaTable.segments := by
  intro hs
  have hm : "schema" ∈ d.schemaTable.segments := hs.subset (List.mem_of_getLast? hp)
  simp only [schemaTable] at hm
  cases hd : d.dialect <;> rw [hd] at hm <;> revert hm <;> decide

theorem not_prefix_of_mem_named (hn : SchemaGraph.namedSchemas d = .ok named) (hp : p ∈ named) :
    ¬p.segments <+: d.schemaTable.segments := by
  have ⟨_, name, _, _, _, he⟩ := SchemaGraph.exists_of_mem_named hn hp
  intro hs
  have hl := hs.length_le
  rw [he, Pointer.child, List.length_append, List.length_singleton] at hl
  omega

namespace Within

variable (h : d.Within d')
include h

theorem outside_of_link (hp : ¬p.segments <+: d.schemaTable.segments) (hs : d.schemaAt p = .ok s)
    (hq : q ∈ s.links) : ¬q.segments <+: d.schemaTable.segments := by
  have ⟨v, hv, hr⟩ := schemaAt_eq_ok hs
  cases Schema.mayLink_of_mem_links_read hr hq
  case reference ht hq => exact h.outside _ (mem_textsAt_of_get? hv ht) q hq
  case entry           => exact Pointer.not_prefix_child (Pointer.not_prefix_child hp _) _
  case property        => exact Pointer.not_prefix_child (Pointer.not_prefix_child hp _) _
  case items           => exact Pointer.not_prefix_child hp _

-- Loading comes across neither the table of named schemas nor what holds that.
theorem outside_of_mentioned (hp : d.paths = .ok entries)
    (hn : SchemaGraph.namedSchemas d = .ok named)
    (hm : SchemaGraph.Mentioned d (named ++ SchemaGraph.sites entries) p) :
    ¬p.segments <+: d.schemaTable.segments := by
  induction hm
  case first hm =>
    cases List.mem_append.mp hm
    case inl hm => exact not_prefix_of_mem_named hn hm
    case inr hm => exact not_prefix_of_isSchema (isSchema_of_mem_sites hp _ hm)
  case link hs hq hi => exact h.outside_of_link hi hs hq

theorem read {v : Json} (hv : d.get? p = some v) :
    Kept (Schema.read d p v) (Schema.read d' p v) := by
  cases v
  case obj members =>
    refine .bind (.refl _) fun description _ => .bind (.refl _) fun reference hr => ?_
    cases reference
    case none => exact .refl _
    case some text =>
      have hr := Schema.get?_of_reference?_eq_ok hr
      exact .bind (h.target (mem_textsAt_of_get? hv hr) p) fun _ _ => .refl _
  all_goals exact .refl _

theorem schemaAt (hp : ¬p.segments <+: d.schemaTable.segments) :
    Kept (d.schemaAt p) (d'.schemaAt p) := by
  intro s hs
  have ⟨v, hv, hr⟩ := schemaAt_eq_ok hs
  simp only [Document.schemaAt, h.kept p v hp hv]
  exact h.read hv s hr

theorem named_subset (hn : SchemaGraph.namedSchemas d = .ok named)
    (hn' : SchemaGraph.namedSchemas d' = .ok named') : named ⊆ named' := by
  have ⟨members, members', hm, hm', hs⟩ := h.named
  have ht : d'.schemaTable = d.schemaTable := by simp only [schemaTable, h.dialect]
  simp only [SchemaGraph.namedSchemas, objectAt, ht, hm, hm', ok_bind] at hn hn'
  cases pure_eq_ok.mp hn
  cases pure_eq_ok.mp hn'
  exact List.map_subset _ hs

theorem mentioned (hp : d.paths = .ok entries) (hn : SchemaGraph.namedSchemas d = .ok named)
    (hs : named ⊆ named') (hm : SchemaGraph.Mentioned d (named ++ SchemaGraph.sites entries) p) :
    SchemaGraph.Mentioned d' (named' ++ SchemaGraph.sites entries) p := by
  induction hm
  case first hm => exact .first (List.mem_append.mpr ((List.mem_append.mp hm).imp_left (hs ·)))
  case link hm hq hl hi => exact .link hi (h.schemaAt (h.outside_of_mentioned hp hn hm) _ hq) hl

end Within
end Document

namespace SchemaGraph

variable {d d' : Document} {entries : List PathEntry} {g g' : SchemaGraph}

-- The graph of the larger document has the schemas of the other one.
theorem within_of_load (h : d.Within d') (hp : d.paths = .ok entries) (hg : load d entries = .ok g)
    (hg' : load d' entries = .ok g') : g.Within g' := by
  have ⟨hn, hr, hl⟩ := load_eq_ok hg
  have ⟨hn', hr', hl'⟩ := load_eq_ok hg'
  intro p s hs
  have hnode := node_of_get? hs
  have ⟨hm, ha⟩ := hl.mem_schemas_iff.mp (mem_of_get? hs)
  rw [hr] at hm
  have hm' := h.mentioned hp hn (h.named_subset hn hn') hm
  have ha' := h.schemaAt (h.outside_of_mentioned hp hn hm) s ha
  exact hnode ▸ hl'.closed.get?_of_mem (hl'.mem_schemas_iff.mpr ⟨hr' ▸ hm', ha'⟩)

end SchemaGraph
end ApiDescriptors
