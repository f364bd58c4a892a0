import ApiDescriptors.Proofs.Schema.Loading

namespace ApiDescriptors

open Result

theorem Pointer.fault_of_parse {text : String} {fault : Fault} (h : parse text = .error fault) :
    fault = .outside text ∨ fault = .malformed text := by
  simp only [parse] at h
  split at h <;> cases h
  · exact .inl rfl
  · exact .inr rfl

namespace Document

-- The step from a node that holds a reference to the node that this names.
def RefStep (d : Document) (p q : Pointer) : Prop :=
  ∃ v text w, d.get? p = some v ∧ v.get? "$ref" = some (.str text) ∧
    Pointer.parse text = .ok q ∧ d.get? q = some w

-- A reference that names no node of the document.
inductive Unresolvable (d : Document) (text : String) : Prop
  | outside : Pointer.parse text = .error (.outside text) → Unresolvable d text
  | malformed : Pointer.parse text = .error (.malformed text) → Unresolvable d text
  | dangling {q} : Pointer.parse text = .ok q → d.get? q = none → Unresolvable d text

-- The nodes that are visited from the first one on, each named by the reference at the one before,
-- as long as none comes up again.
inductive Trail (d : Document) (first : Pointer) : List Pointer → Pointer → Prop
  | start : Trail d first [first] first
  | step {visited last next} :
    Trail d first visited last → d.RefStep last next → next ∉ visited →
    Trail d first (visited ++ [next]) next

-- How the way along references ends: at a value that is none, at a node that was visited before, or
-- at a reference that cannot be followed.
inductive Outcome (d : Document) (first : Pointer) : Result (Pointer × Json) → Prop
  | value {visited last v} :
    d.Trail first visited last → d.get? last = some v → v.get? "$ref" = none →
    Outcome d first (.ok (last, v))
  | cycle {visited last next} :
    d.Trail first visited last → d.RefStep last next → next ∈ visited →
    Outcome d first (.error (.cycle (visited ++ [next])))
  | unresolved {visited last v text} :
    d.Trail first visited last → d.get? last = some v → v.get? "$ref" = some (.str text) →
    d.Unresolvable text → Outcome d first (.error (.unresolved text last))
  | notString {visited last v w} :
    d.Trail first visited last → d.get? last = some v → v.get? "$ref" = some w →
    (∀ text, w ≠ .str text) → Outcome d first (.error (.invalid (last.child "$ref") .notString))

variable {d : Document} {node last next first : Pointer} {v w : Json} {text : String}
  {visited chain : List Pointer} {fuel : Nat} {result : Result (Pointer × Json)}

theorem unresolvable_of_parse {fault : Pointer.Fault} (h : Pointer.parse text = .error fault) :
    d.Unresolvable text := by
  obtain rfl | rfl := Pointer.fault_of_parse h
  · exact .outside h
  · exact .malformed h

-- One turn, by what stands at the node.

theorem followFrom_of_value (hv : v.get? "$ref" = none) :
    d.followFrom (fuel + 1) chain node v = .ok (node, v) := by
  rw [followFrom, reference?, hv]
  rfl

theorem followFrom_of_notString (hv : v.get? "$ref" = some w) (hw : ∀ text, w ≠ .str text) :
    d.followFrom (fuel + 1) chain node v = .error (.invalid (node.child "$ref") .notString) := by
  have hr : reference? node v = .error (.invalid (node.child "$ref") .notString) := by
    simp only [reference?, hv]
    rfl
  rw [followFrom, hr]
  rfl

theorem followFrom_of_unresolvable (hv : v.get? "$ref" = some (.str text))
    (hu : d.Unresolvable text) :
    d.followFrom (fuel + 1) chain node v = .error (.unresolved text node) := by
  have ht : d.target node text = .error (.unresolved text node) := by
    cases hu
    case outside hp     => rw [target, hp]
    case malformed hp   => rw [target, hp]
    case dangling hp hg => simp only [target, hp, hg]
  have hr : reference? node v = .ok (some text) := by rw [reference?, hv]
  simp only [followFrom, hr, ok_bind, ht, error_bind]

theorem followFrom_of_step (hv : v.get? "$ref" = some (.str text))
    (hp : Pointer.parse text = .ok next) (hg : d.get? next = some w) :
    d.followFrom (fuel + 1) chain node v =
      if next ∈ chain then .error (.cycle (chain ++ [next]))
      else d.followFrom fuel (chain ++ [next]) next w := by
  have ht : d.target node text = .ok (next, w) := by simp only [target, hp, hg]
  have hr : reference? node v = .ok (some text) := by rw [reference?, hv]
  simp only [followFrom, hr, ok_bind, ht]

theorem follow_eq_followFrom (d : Document) (node : Pointer) (v : Json) :
    d.follow node v = d.followFrom d.referenceLimit [node] node v := by
  cases hr : reference? node v
  case error => rw [follow, referenceLimit, followFrom, hr]; rfl
  case ok reference =>
    cases reference
    case none => rw [follow, referenceLimit, followFrom, hr]; rfl
    case some => rw [follow, hr]; rfl

namespace Trail

theorem exists_rest (h : d.Trail first visited last) :
    ∃ rest, visited = first :: rest ∧ rest ⊆ d.referenced := by
  induction h
  case start => exact ⟨[], rfl, List.nil_subset _⟩
  case step hs _ hi =>
    have ⟨rest, he, hr⟩ := hi
    have ⟨_, _, _, hv, hv', hp, _⟩ := hs
    refine ⟨rest ++ [_], by rw [he, List.cons_append], List.append_subset.mpr ⟨hr, ?_⟩⟩
    simpa using mem_referenced hv hv' hp

theorem nodup (h : d.Trail first visited last) : visited.Nodup := by
  induction h
  case start        => exact List.nodup_singleton _
  case step hn hi => exact List.nodup_append.mpr ⟨hi, List.nodup_singleton _, by grind⟩

-- The document has finitely many references, so a trail has an end.
theorem length_lt (h : d.Trail first visited last) : visited.length < d.referenceLimit := by
  have ⟨rest, he, hr⟩ := h.exists_rest
  have hn : rest.Nodup := (List.nodup_cons.mp (he ▸ h.nodup)).right
  have hl := (List.subperm_of_subset hn hr).length_le
  have ht : d.referenced.length ≤ (d.root.textsAt "$ref").length := List.length_filterMap_le ..
  rw [he, List.length_cons, referenceLimit]
  omega

-- What is found from the first node on is what is found from the last, with the turns that are left.
theorem follow_eq (h : d.Trail node visited last) (hn : d.get? node = some v)
    (hl : d.get? last = some w) :
    d.follow node v = d.followFrom (d.referenceLimit - visited.length + 1) visited last w := by
  induction h generalizing w
  case start =>
    cases hn.symm.trans hl
    rw [follow_eq_followFrom, List.length_singleton]
    rfl
  case step visited last next ht hs hnew hi =>
    have ⟨u, _, _, hu, hr, hp, hg⟩ := hs
    cases hl.symm.trans hg
    have hlt := ht.length_lt
    have hf : d.referenceLimit - (visited ++ [next]).length + 1 =
        d.referenceLimit - visited.length := by
      rw [List.length_append, List.length_singleton]
      omega
    rw [hi hu, followFrom_of_step hr hp hg, if_neg hnew, hf]

end Trail

-- Each outcome is what following gives.
theorem Outcome.follow_eq (h : d.Outcome node result) (hn : d.get? node = some v) :
    d.follow node v = result := by
  cases h
  case value ht hl hv => rw [ht.follow_eq hn hl, followFrom_of_value hv]
  case cycle ht hs hm =>
    have ⟨_, _, _, hl, hr, hp, hg⟩ := hs
    rw [ht.follow_eq hn hl, followFrom_of_step hr hp hg, if_pos hm]
  case unresolved ht hl hr hu => rw [ht.follow_eq hn hl, followFrom_of_unresolvable hr hu]
  case notString ht hl hr hw  => rw [ht.follow_eq hn hl, followFrom_of_notString hr hw]

-- What a value holds under the reference key.
theorem reference_cases (d : Document) (v : Json) :
    v.get? "$ref" = none ∨
    (∃ w, v.get? "$ref" = some w ∧ ∀ text, w ≠ .str text) ∨
    (∃ text, v.get? "$ref" = some (.str text) ∧ d.Unresolvable text) ∨
    ∃ text next w, v.get? "$ref" = some (.str text) ∧ Pointer.parse text = .ok next ∧
      d.get? next = some w := by
  cases hr : v.get? "$ref"
  case none => exact .inl rfl
  case some w =>
    by_cases hw : ∃ text, w = .str text
    case neg => exact .inr (.inl ⟨w, rfl, not_exists.mp hw⟩)
    case pos =>
      obtain ⟨text, rfl⟩ := hw
      cases hp : Pointer.parse text
      case error   => exact .inr (.inr (.inl ⟨text, rfl, unresolvable_of_parse hp⟩))
      case ok next =>
        cases hg : d.get? next
        case none => exact .inr (.inr (.inl ⟨text, rfl, .dangling hp hg⟩))
        case some => exact .inr (.inr (.inr ⟨text, next, _, rfl, hp, hg⟩))

-- From a node on a trail, the turns that are left lead to an outcome.
theorem Trail.outcome (h : d.Trail node visited last) (hl : d.get? last = some w)
    (hf : visited.length + fuel = d.referenceLimit + 1) :
    d.Outcome node (d.followFrom fuel visited last w) := by
  induction fuel generalizing visited last w
  case zero =>
    have := h.length_lt
    omega
  case succ fuel hi =>
    obtain hr | ⟨_, hr, hu⟩ | ⟨_, hr, hu⟩ | ⟨_, next, _, hr, hp, hg⟩ := d.reference_cases w
    · exact followFrom_of_value hr ▸ .value h hl hr
    · exact followFrom_of_notString hr hu ▸ .notString h hl hr hu
    · exact followFrom_of_unresolvable hr hu ▸ .unresolved h hl hr hu
    · have hs : d.RefStep last next := ⟨w, _, _, hl, hr, hp, hg⟩
      rw [followFrom_of_step hr hp hg]
      split
      case isTrue hm  => exact .cycle h hs hm
      case isFalse hm =>
        refine hi (h.step hs hm) hg ?_
        rw [List.length_append, List.length_singleton]
        omega

-- Following references from a node of the document always has an outcome, and only one.
theorem follow_eq_iff_outcome (hn : d.get? node = some v) (result : Result (Pointer × Json)) :
    d.follow node v = result ↔ d.Outcome node result := by
  refine ⟨fun h => ?_, fun h => h.follow_eq hn⟩
  have ho := Trail.start.outcome hn (Nat.add_comm 1 _)
  rwa [← follow_eq_followFrom, h] at ho

-- A response that leads to two responses that refer to each other, with the slash of a name in two
-- forms.
def roundabout : Document where
  dialect := .openapi3
  root := .obj [("components", .obj [("responses", .obj [
    ("Entry", .obj [("$ref", .str "#/components/responses/a~1b")]),
    ("a/b", .obj [("$ref", .str "#/components/responses/Other")]),
    ("Other", .obj [("$ref", .str "#/components/responses/a%7E1b")])])])]

theorem exists_outcome_roundabout : ∃ v chain,
    roundabout.get? ⟨["components", "responses", "Entry"]⟩ = some v ∧
    roundabout.follow ⟨["components", "responses", "Entry"]⟩ v = .error (.cycle chain) ∧
    chain.map (·.segments) = [
      ["components", "responses", "Entry"], ["components", "responses", "a/b"],
      ["components", "responses", "Other"], ["components", "responses", "a/b"]] ∧
    roundabout.Outcome ⟨["components", "responses", "Entry"]⟩ (.error (.cycle chain)) := by
  have hb : (roundabout.get? ⟨["components", "responses", "Entry"]⟩).map (fun v =>
      (roundabout.follow ⟨["components", "responses", "Entry"]⟩ v).cycle?.map
        (·.map (·.segments))) = some (some [
      ["components", "responses", "Entry"], ["components", "responses", "a/b"],
      ["components", "responses", "Other"], ["components", "responses", "a/b"]]) := by decide +kernel
  obtain ⟨v, hv, hc⟩ := Option.map_eq_some_iff.mp hb
  obtain ⟨chain, hc, hn⟩ := Option.map_eq_some_iff.mp hc
  have he := eq_error_of_cycle? hc
  exact ⟨v, chain, hv, he, hn, (follow_eq_iff_outcome hv _).mp he⟩

end Document
end ApiDescriptors
