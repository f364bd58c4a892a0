import ApiDescriptors.Proofs.Document
import ApiDescriptors.Proofs.Schema.Loading

namespace ApiDescriptors.Document

open Result

-- What a value at a node stands for: itself, or what its reference leads to.
inductive Denotes (d : Document) : Pointer → Json → Pointer → Json → Prop
  | here {node v} : v.get? "$ref" = none → Denotes d node v node v
  | reference {node v text next u n w} :
    v.get? "$ref" = some (.str text) → Pointer.parse text = .ok next → d.get? next = some u →
    Denotes d next u n w → Denotes d node v n w

variable {d : Document} {node n n' : Pointer} {v w w' : Json}

-- A value stands for one node at most.
theorem Denotes.unique (h : d.Denotes node v n w) (h' : d.Denotes node v n' w') :
    n = n' ∧ w = w' := by
  induction h
  case here hv =>
    cases h'
    case here               => exact ⟨rfl, rfl⟩
    case reference _ _ hr _ => cases hv.symm.trans hr
  case reference hr hp hg _ hi =>
    cases h'
    case here hv => cases hv.symm.trans hr
    case reference hp' hg' hr' h' =>
      cases hr.symm.trans hr'
      cases hp.symm.trans hp'
      cases hg.symm.trans hg'
      exact hi h'

theorem Denotes.distinct (hd : d.root.Distinct) (hv : v.Distinct) (h : d.Denotes node v n w) :
    w.Distinct := by
  induction h
  case here              => exact hv
  case reference hg _ hi => exact hi (hd.lookup? hg)

theorem denotes_followFrom {fuel : Nat} {chain : List Pointer}
    (h : d.followFrom fuel chain node v = .ok (n, w)) : d.Denotes node v n w := by
  induction fuel generalizing chain node v
  case zero => cases h
  case succ fuel hi =>
    have ⟨reference, hr, h⟩ := bind_eq_ok.mp h
    cases reference
    case none => cases h; exact .here (Schema.get?_of_reference?_eq_ok hr)
    case some reference =>
      have ⟨⟨_, u⟩, ht, h⟩ := bind_eq_ok.mp h
      have ⟨hp, hg⟩ := Schema.target_eq_ok ht
      dsimp only at h
      split at h
      case isTrue  => cases h
      case isFalse => exact .reference (Schema.get?_of_reference?_eq_ok hr) hp hg (hi h)

theorem denotes_follow (h : d.follow node v = .ok (n, w)) : d.Denotes node v n w := by
  have ⟨reference, hr, h⟩ := bind_eq_ok.mp h
  cases reference
  case none => cases h; exact .here (Schema.get?_of_reference?_eq_ok hr)
  case some => exact denotes_followFrom h

end ApiDescriptors.Document
