import ApiDescriptors.Proofs.Schema.Faithful
import Mathlib.Logic.Relation

namespace ApiDescriptors

open Result Relation

-- A value that says of itself that null is allowed in its place.
def Json.AllowsNull (v : Json) : Prop :=
  v.get? "nullable" = some (.bool true) ∨ v.get? "x-nullable" = some (.bool true) ∨
    ∃ names, v.get? "type" = some (.arr names) ∧ .str "null" ∈ names

namespace Document

-- The schema that the one at a node stands for: the target of a reference, or the only entry of an
-- `allOf`.
inductive AliasOf (d : Document) (p : Pointer) : Pointer → Prop
  | reference {v text q} :
    d.get? p = some v → v.get? "$ref" = some (.str text) → Pointer.parse text = .ok q →
    AliasOf d p q
  | entry {v w} :
    d.get? p = some v → v.get? "$ref" = none → v.get? "allOf" = some (.arr [w]) →
    AliasOf d p ((p.child "allOf").child "0")

-- A schema that stands for no other, at the end of a way of aliases.
structure EndsAt (d : Document) (p q : Pointer) : Prop where
  way  : ReflTransGen d.AliasOf p q
  last : ∀ t, ¬d.AliasOf q t

variable {d : Document} {p q t : Pointer}

theorem AliasOf.unique (h : d.AliasOf p q) (h' : d.AliasOf p t) : q = t := by
  cases h
  case reference hg hr hq =>
    cases h'
    case reference hg' hr' ht =>
      cases hg.symm.trans hg'
      cases hr.symm.trans hr'
      exact Except.ok.inj (hq.symm.trans ht)
    case entry hg' hr' _ =>
      cases hg.symm.trans hg'
      cases hr.symm.trans hr'
  case entry hg hr _ =>
    cases h'
    case reference hg' hr' _ =>
      cases hg.symm.trans hg'
      cases hr.symm.trans hr'
    case entry => rfl

theorem EndsAt.eq_of_way (h : d.EndsAt p q) (hw : ReflTransGen d.AliasOf q t) : q = t := by
  cases hw.cases_head
  case inl he => exact he
  case inr hs =>
    have ⟨_, hs, _⟩ := hs
    exact absurd hs (h.last _)

-- Every schema has one alias chain, which ends at one schema at most.
theorem EndsAt.unique (h : d.EndsAt p q) (h' : d.EndsAt p t) : q = t := by
  have hu : Relator.RightUnique d.AliasOf := fun _ _ _ => AliasOf.unique
  cases h.way.total_of_right_unique hu h'.way
  case inl hw => exact h.eq_of_way hw
  case inr hw => exact (h'.eq_of_way hw).symm

-- A schema that allows null at a node. What stands beside a reference is no schema.
def AllowsNullAt (d : Document) (p : Pointer) : Prop :=
  ∃ v, d.get? p = some v ∧ v.get? "$ref" = none ∧ v.AllowsNull

end Document

namespace Schema

variable {d : Document} {node target : Pointer} {members : Members} {value : Json} {s : Schema}

theorem boolMember_eq_ok {key : String} {b : Bool} (h : boolMember node members key = .ok b) :
    b = true ↔ members.lookup key = some (.bool true) := by
  simp only [boolMember] at h
  split at h
  case h_1 hl => cases h; rw [hl]; simp
  case h_2 hl => cases h; rw [hl]; simp
  case h_3    => cases h

theorem isMarkedNullable_eq_ok {b : Bool} (h : isMarkedNullable node members = .ok b) :
    b = true ↔ members.lookup "nullable" = some (.bool true) ∨
      members.lookup "x-nullable" = some (.bool true) := by
  have ⟨nullable, hn, h⟩ := bind_eq_ok.mp h
  have hn := boolMember_eq_ok hn
  cases nullable
  case true  => cases pure_eq_ok.mp h; simp [hn.mp rfl]
  case false =>
    have hx := boolMember_eq_ok h
    exact ⟨fun hb => .inr (hx.mp hb), fun hb =>
      hx.mpr (hb.resolve_left fun hl => nomatch hn.mpr hl)⟩

theorem typeNames_eq_ok {values : List Json} {names : List String} {b : Bool}
    (h : typeNames node values = .ok (names, b)) : b = true ↔ .str "null" ∈ values := by
  induction values generalizing names b
  case nil => cases h; simp
  case cons value values hi =>
    cases value
    case str name =>
      have ⟨⟨others, listed⟩, ht, h⟩ := bind_eq_ok.mp h
      have hi := hi ht
      dsimp only at h
      split at h
      case isTrue he  => cases pure_eq_ok.mp h; simp [he]
      case isFalse hn => cases pure_eq_ok.mp h; simp [hi, Ne.symm hn]
    all_goals cases h

theorem typeName_eq_ok {type : Option String} {b : Bool}
    (h : typeName node members = .ok (type, b)) :
    b = true ↔ ∃ names, members.lookup "type" = some (.arr names) ∧ .str "null" ∈ names := by
  simp only [typeName] at h
  split at h
  case h_1 hl => cases h; simp [hl]
  case h_2 hl => cases h; simp [hl]
  case h_3 values hl =>
    have ⟨⟨names, listed⟩, ht, h⟩ := bind_eq_ok.mp h
    split at h
    case h_1 he => cases he; cases pure_eq_ok.mp h; simp [hl, typeNames_eq_ok ht]
    case h_2    => cases h
  case h_4 => cases h

theorem nullable_of_readConcrete {description : Option String}
    (h : readConcrete node members description = .ok s) :
    s.nullable = true ↔ (Json.obj members).AllowsNull := by
  simp only [readConcrete, bind_eq_ok, pure_eq_ok] at h
  obtain ⟨marked, hm, ⟨_, listed⟩, hl, _, _, _, _, _, _, _, _, rfl⟩ := h
  rw [Bool.or_eq_true, isMarkedNullable_eq_ok hm, typeName_eq_ok hl, or_assoc]
  rfl

-- A schema that stands for another one allows no null itself, whatever it declares.
theorem aliasOf_of_read (hg : d.get? node = some value) (h : read d node value = .ok s)
    (hf : s.form = .aliasOf target) : d.AliasOf node target ∧ s.nullable = false := by
  obtain ⟨_, _, _, _, hr, ht, rfl⟩ | ⟨_, _, hr, he, rfl⟩ | ⟨members, _, rfl, hr, he, hc⟩ :=
    read_cases h
  case inl    => cases hf; exact ⟨.reference hg hr (target_eq_ok ht).left, rfl⟩
  case inr.inl => cases hf; exact ⟨.entry hg hr he, rfl⟩
  case inr.inr =>
    have hd := declared_of_readConcrete hr he hc
    rw [hf] at hd
    cases hd
    case reference hr' _ => cases hr.symm.trans hr'
    case entry he'       => cases he.symm.trans he'

-- Any other schema allows null as it declares.
theorem nullable_of_read (hg : d.get? node = some value) (h : read d node value = .ok s)
    (hs : s.Concrete) : (∀ t, ¬d.AliasOf node t) ∧ (s.nullable = true ↔ d.AllowsNullAt node) := by
  obtain ⟨_, _, _, _, _, _, rfl⟩ | ⟨_, _, _, _, rfl⟩ | ⟨members, _, rfl, hr, he, hc⟩ :=
    read_cases h
  case inl     => cases hs _ rfl
  case inr.inl => cases hs _ rfl
  case inr.inr =>
    refine ⟨fun t ht => ?_, (nullable_of_readConcrete hc).trans ⟨fun hn => ?_, fun hn => ?_⟩⟩
    case refine_1 =>
      cases ht
      case reference hg' hr' _ => cases hg.symm.trans hg'; cases hr.symm.trans hr'
      case entry hg' _ he'     => cases hg.symm.trans hg'; cases he.symm.trans he'
    case refine_2 => exact ⟨_, hg, hr, hn⟩
    case refine_3 =>
      have ⟨_, hg', _, hn⟩ := hn
      cases hg.symm.trans hg'
      exact hn

end Schema

namespace SchemaGraph

variable {d : Document} {g : SchemaGraph} {p : Pointer}

-- Of the schemas on the way of aliases the last one alone can allow null.
theorem Loaded.nullable_aliasChainFrom (h : Loaded d g) {unvisited visited : List Pointer}
    {chain : List Schema} (hp : p ∈ g.nodes)
    (hc : g.aliasChainFrom unvisited visited p = .ok chain) :
    ∃ q, d.EndsAt p q ∧ (chain.any (·.nullable) = true ↔ d.AllowsNullAt q) := by
  replace hc := h.closed.chainOf_of_aliasChainFrom hp hc
  clear hp
  induction hc
  case last p s hs hf =>
    obtain ⟨value, hg, hv⟩ := Document.schemaAt_eq_ok (h.read s (mem_of_get? hs))
    obtain ⟨hl, hq⟩ := Schema.nullable_of_read hg hv hf
    cases node_of_get? hs
    exact ⟨s.node, ⟨.refl, hl⟩, by simpa using hq⟩
  case next p s target chain hs hf _ hi =>
    obtain ⟨value, hg, hv⟩ := Document.schemaAt_eq_ok (h.read s (mem_of_get? hs))
    obtain ⟨ha, hfalse⟩ := Schema.aliasOf_of_read hg hv hf
    obtain ⟨q, ⟨hw, hl⟩, hq⟩ := hi
    cases node_of_get? hs
    refine ⟨q, ⟨.head ha hw, hl⟩, ?_⟩
    rw [List.any_cons, hfalse, Bool.false_or]
    exact hq

end SchemaGraph
end ApiDescriptors
