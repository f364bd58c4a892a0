import ApiDescriptors.Proofs.Places
import ApiDescriptors.Proofs.Registry.Build
import ApiDescriptors.Proofs.Sites

namespace ApiDescriptors.Registry

open Result

variable {d : Document} {o : Options} {g : Registry} {paths : List PathEntry} {r : Resolution}
  {entries : List PathVerbs} {s t : Serializer} {p : Pointer}

namespace Stages

variable (h : Stages d o g paths r entries)
include h

theorem exists_noted_of_mem_nodes (hd : d.root.Distinct) (hp : p ∈ g.graph.nodes) :
    ∃ v, d.Noted p v ∧ d.get? p = some v := by
  have ⟨hn, hr, hl⟩ := SchemaGraph.load_eq_ok h.graph
  have ⟨s, hs, he⟩ := List.mem_map.mp hp
  have ⟨v, hg, _⟩ := Document.schemaAt_eq_ok (he ▸ hl.read s hs)
  have hm := hr ▸ (hl.mem_nodes p).mp hp
  have ⟨w, hw, _⟩ := Document.noted_of_mentioned hd h.read hn hm
  obtain hw' | hm := hw.get?_or_misses
  case inl => exact ⟨w, hw, hw'⟩
  case inr => cases hm.get?_eq_none.symm.trans hg

theorem mem_nodes_of_mem_serializers (hs : s ∈ g.serializers) : s.schema ∈ g.graph.nodes := by
  have ⟨_, hm, he, _⟩ := h.exists_mem_schemas_of_mem_serializers hs
  exact he ▸ List.mem_map_of_mem hm

theorem eq_of_schema_eq (hs : s ∈ g.serializers) (ht : t ∈ g.serializers)
    (he : s.schema = t.schema) : s = t :=
  List.inj_on_of_nodup_map h.nodup_schemas hs ht he

end Stages

-- Every serializer stands for a place of the document. Two of them stand for one place only where
-- references spell the index of an item in two ways.
structure Placed (d : Document) (g : Registry) : Prop where
  placed : ∀ s ∈ g.serializers, ∃ steps, d.At s.schema steps
  alike  : ∀ s ∈ g.serializers, ∀ t ∈ g.serializers, ∀ steps,
    d.At s.schema steps → d.At t.schema steps →
    List.Forall₂ Json.SameStep s.schema.segments t.schema.segments
  unique : (∀ text ∈ d.root.textsAt "$ref", ∀ q, Pointer.parse text = .ok q → d.Plain q) →
    ∀ s ∈ g.serializers, ∀ t ∈ g.serializers, ∀ steps,
      d.At s.schema steps → d.At t.schema steps → s = t

theorem placed_of_build {value : Yaml.Value} (h : Document.ofValue value = .ok d)
    (hb : build d o = .ok g) : g.Placed d := by
  have ⟨paths, r, entries, hst⟩ := build_eq_ok hb
  have hd := (Document.distinct_ofValue h).left
  have hnoted (s : Serializer) (hs : s ∈ g.serializers) :=
    hst.exists_noted_of_mem_nodes hd (hst.mem_nodes_of_mem_serializers hs)
  constructor
  case placed =>
    intro s hs
    have ⟨v, _, hg⟩ := hnoted s hs
    exact Document.exists_at hg
  case alike => exact fun s _ t _ steps ⟨_, hw⟩ ⟨_, hw'⟩ => hw.sameStep hw'
  case unique =>
    intro hr s hs t ht steps hat hat'
    have ⟨_, hv, _⟩ := hnoted s hs
    have ⟨_, hv', _⟩ := hnoted t ht
    exact hst.eq_of_schema_eq hs ht ((hv.plain hr).eq (hv'.plain hr) hat hat')

-- Two operations that answer with one schema, the only item of an array.
def onlyItem (first second : String) : Yaml.Value :=
  let response (reference : String) : Yaml.Value := .map [(.scalar (.str "get"), .map [
    (.scalar (.str "responses"), .map [(.scalar (.str "200"), .map [
      (.scalar (.str "schema"), .map [(.scalar (.str "$ref"), .scalar (.str reference))])])])])]
  .map [
    (.scalar (.str "swagger"), .scalar (.str "2.0")),
    (.scalar (.str "x-shapes"), .seq [.map [(.scalar (.str "properties"), .map [])]]),
    (.scalar (.str "paths"), .map [
      (.scalar (.str "/a"), response first),
      (.scalar (.str "/b"), response second)])
  ]

theorem exists_placed_onlyItem : ∃ d g,
    Document.ofValue (onlyItem "#/x-shapes/0" "#/x-shapes/0") = .ok d ∧ build d {} = .ok g ∧
    g.serializers.map (·.schema.segments) = [["x-shapes", "0"]] ∧ g.Placed d := by
  have hb : (buildValue (onlyItem "#/x-shapes/0" "#/x-shapes/0") {}).toOption.map
      (·.2.serializers.map (·.schema.segments)) = some [["x-shapes", "0"]] := by decide +kernel
  have ⟨(d, g), h, hs⟩ := exists_of_map_toOption_eq_some hb
  have ⟨hd, hg⟩ := buildValue_eq_ok h
  exact ⟨d, g, hd, hg, hs, placed_of_build hd hg⟩

theorem not_placed_onlyItem : ¬∀ value d o g, Document.ofValue value = .ok d →
    build d o = .ok g → ∀ s ∈ g.serializers, ∀ t ∈ g.serializers, s.schema ≠ t.schema →
    ∀ steps, d.At s.schema steps → ¬d.At t.schema steps := by
  intro hall
  have hb : (buildValue (onlyItem "#/x-shapes/0" "#/x-shapes/00") {}).toOption.map (fun (d, g) =>
      ((d.root.get? "x-shapes").bind (·.arr?) |>.map (·.length), g.serializers.map (·.schema))) =
      some (some 1, [⟨["x-shapes", "0"]⟩, ⟨["x-shapes", "00"]⟩]) := by decide +kernel
  have ⟨(⟨root, dialect⟩, g), h, hk⟩ := exists_of_map_toOption_eq_some hb
  have ⟨hd, hg⟩ := buildValue_eq_ok h
  have ⟨hr, hk⟩ := Prod.ext_iff.mp hk
  have ⟨s, t, hst, hs, ht⟩ : ∃ s t, g.serializers = [s, t] ∧ s.schema = ⟨["x-shapes", "0"]⟩ ∧
      t.schema = ⟨["x-shapes", "00"]⟩ := by
    simpa [List.map_eq_cons_iff] using hk
  have ⟨items, hi, hl⟩ := Option.map_eq_some_iff.mp hr
  have ⟨v, hv, ha⟩ := Option.bind_eq_some_iff.mp hi
  have ⟨item, hitem⟩ := List.length_eq_one_iff.mp hl
  cases v <;> cases ha
  cases root <;> simp only [Json.get?, reduceCtorEq] at hv
  refine hall _ _ _ g hd hg s (by simp [hst]) t (by simp [hst]) (by simp [hs, ht])
    [.member "x-shapes", .item 0] ⟨item, ?_⟩ ⟨item, ?_⟩
  · exact hs ▸ .member hv (.item (by decide) (hitem ▸ rfl) .here)
  · exact ht ▸ .member hv (.item (by decide) (hitem ▸ rfl) .here)

end ApiDescriptors.Registry
