import ApiDescriptors.Proofs.Numerals
import ApiDescriptors.Proofs.Record
import ApiDescriptors.Proofs.Reference

namespace ApiDescriptors

open Result

theorem Pointer.position?_decimal (i : Nat) : position? (Number.decimal i) = some i := by
  have hi := Number.ofDigits?_toDigits i
  rw [position?, Number.toList_decimal]
  split
  case h_2 => exact hi
  case h_1 cs hc =>
    have hd : '+' ∈ Nat.toDigits 10 i := hc ▸ List.mem_cons_self
    exact absurd (Number.isDigit_of_mem_toDigits hd) (by decide)

namespace Document

-- A pointer that asks an array for a name.
def Misses (d : Document) (p : Pointer) : Prop :=
  ∃ q name rest items, p.segments = q.segments ++ name :: rest ∧ d.get? q = some (.arr items) ∧
    Pointer.position? name = none

-- The values that reading a document comes to, each with the pointer by which it is known. Where a
-- record is given as an array, its items are known by the names of the fields.
inductive Noted (d : Document) : Pointer → Json → Prop
  | root : Noted d .root d.root
  | member {p name v} {members : Members} :
    Noted d p (.obj members) → members.lookup name = some v → Noted d (p.child name) v
  | item {p v} {items : List Json} {i : Nat} :
    Noted d p (.arr items) → items[i]? = some v → Noted d (p.child (Number.decimal i)) v
  | field {p name v} {items : List Json} {i : Nat} :
    Noted d p (.arr items) → items[i]? = some v → Pointer.position? name = none →
    Noted d (p.child name) v
  | reference {p v text q w} :
    Noted d p v → v.get? "$ref" = some (.str text) → Pointer.parse text = .ok q →
    d.get? q = some w → Noted d q w

variable {d : Document} {p q : Pointer} {v w : Json} {name : String}

theorem get?_child (h : d.get? p = some v) (name : String) :
    d.get? (p.child name) = Pointer.step? v name := by
  rw [get?, Pointer.lookup?_child, ← get?, h, Option.bind_some]

theorem Misses.get?_eq_none (h : d.Misses p) : d.get? p = none := by
  have ⟨q, name, rest, items, he, hq, hn⟩ := h
  have hq : q.segments.foldlM Pointer.step? d.root = some (.arr items) := hq
  rw [get?, Pointer.lookup?, he, List.foldlM_append, hq]
  simp [Pointer.step?, hn]

theorem Misses.child (h : d.Misses p) (name : String) : d.Misses (p.child name) := by
  have ⟨q, segment, rest, items, he, hq, hn⟩ := h
  exact ⟨q, segment, rest ++ [name], items, by simp [Pointer.child, he], hq, hn⟩

namespace Noted

theorem get?_or_misses (h : d.Noted p v) : d.get? p = some v ∨ d.Misses p := by
  induction h
  case root => exact .inl rfl
  case member hl hi =>
    refine hi.imp (fun hp => ?_) (·.child _)
    rw [get?_child hp]
    exact hl
  case item hv hi =>
    refine hi.imp (fun hp => ?_) (·.child _)
    rw [get?_child hp, Pointer.step?, Pointer.position?_decimal]
    exact hv
  case field p name _ items _ _ _ hn hi =>
    exact .inr <| hi.elim (fun hp => ⟨p, name, [], items, rfl, hp, hn⟩) (·.child _)
  case reference hg _ => exact .inl hg

theorem distinct (h : d.Noted p v) (hd : d.root.Distinct) : v.Distinct := by
  induction h
  case root              => exact hd
  case member hl hi      => exact hi.of_obj.values _ (mem_of_lookup hl)
  case item hv hi        => exact hi.of_arr _ (List.mem_of_getElem? hv)
  case field hv _ hi     => exact hi.of_arr _ (List.mem_of_getElem? hv)
  case reference hg _    => exact hd.lookup? hg

theorem textsAt_subset (h : d.Noted p v) : v.textsAt "$ref" ⊆ d.root.textsAt "$ref" := by
  induction h
  case root           => exact List.Subset.refl _
  case member hl hi   =>
    exact List.Subset.trans (Json.textsAt_subset_members (mem_of_lookup hl)) hi
  case item hv hi     =>
    exact List.Subset.trans (Json.textsAt_subset_items (List.mem_of_getElem? hv)) hi
  case field hv _ hi  =>
    exact List.Subset.trans (Json.textsAt_subset_items (List.mem_of_getElem? hv)) hi
  case reference hg _ => exact Pointer.textsAt_subset_of_lookup? hg

-- Names lead to members only, so what stands inside a value by names is noted with it.
theorem inside {names : List String} (h : d.Noted p v)
    (hn : ∀ name ∈ names, Pointer.position? name = none)
    (hw : names.foldlM Pointer.step? v = some w) : d.Noted ⟨p.segments ++ names⟩ w := by
  induction names generalizing p v
  case nil => cases hw; simpa using h
  case cons name names hi =>
    have ⟨hname, hn⟩ := List.forall_mem_cons.mp hn
    have ⟨u, hs, hw⟩ := Option.bind_eq_some_iff.mp hw
    have hu : d.Noted (p.child name) u := by
      cases v <;> simp only [Pointer.step?, hname, Option.bind_none, reduceCtorEq] at hs
      exact .member h hs
    simpa [Pointer.child] using hi hu hn hw

theorem of_get? (hn : ∀ name ∈ p.segments, Pointer.position? name = none)
    (h : d.get? p = some v) : d.Noted p v :=
  inside .root hn h

theorem denotes (h : d.Noted p v) (hd : d.Denotes p v q w) : d.Noted q w := by
  induction hd
  case here                  => exact h
  case reference hr hp hg _ hi => exact hi (.reference h hr hp hg)

theorem follow (h : d.Noted p v) (hf : d.follow p v = .ok (q, w)) : d.Noted q w :=
  h.denotes (denotes_follow hf)

theorem of_member? {α : Type} {rules : Record.Rules α} (h : d.Noted p v)
    (hn : Pointer.position? name = none) (hm : rules.member? name v = some w) :
    d.Noted (p.child name) w := by
  cases v <;> simp only [Record.Rules.member?, reduceCtorEq] at hm
  case obj => exact .member h hm
  case arr =>
    obtain ⟨_, _, hi⟩ := Option.bind_eq_some_iff.mp hm
    exact .field h hi hn

-- What a schema links is noted with it, and stands where the link says if the schema does.
theorem of_mem_links {s : Schema} (h : d.Noted p v) (hs : Schema.read d p v = .ok s)
    (hq : q ∈ s.links) : ∃ w, d.Noted q w ∧ (d.get? p = some v → d.get? q = some w) := by
  obtain ⟨_, _, _, u, hr, ht, rfl⟩ | ⟨_, u, _, ha, rfl⟩ | ⟨members, _, rfl, hr, hn, hc⟩ :=
    Schema.read_cases hs
  case inl =>
    have ⟨ht, hg⟩ := Schema.target_eq_ok ht
    cases List.mem_singleton.mp hq
    exact ⟨u, .reference h hr ht hg, fun _ => hg⟩
  case inr.inl =>
    cases List.mem_singleton.mp hq
    cases v <;> simp only [Json.get?, reduceCtorEq] at ha
    have hu : ([u] : List Json)[0]? = some u := rfl
    exact ⟨u, .item (.member h ha) hu, fun hp => get?_child ((get?_child hp _).trans ha) _⟩
  case inr.inr =>
    cases Schema.mayLink_of_mem_links_readConcrete hc hq
    case reference hr' _ => cases hr.symm.trans hr'
    case entry ha        => cases hn.symm.trans ha
    case property hl hv  =>
      exact ⟨_, .member (.member h hl) hv, fun hp =>
        (get?_child ((get?_child hp _).trans hl) _).trans hv⟩
    case items hi        => exact ⟨_, .member h hi, fun hp => (get?_child hp _).trans hi⟩

end Noted
end Document
end ApiDescriptors
