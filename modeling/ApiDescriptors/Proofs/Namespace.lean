import ApiDescriptors.Namespace
import ApiDescriptors.Proofs.Result
import Mathlib.Data.List.Nodup

namespace ApiDescriptors

-- Names are noted at the end of a table of those seen so far.
theorem lookup_concat_eq_none {α : Type} {seen : List (String × α)} {name other : String} {a : α} :
    (seen ++ [(name, a)]).lookup other = none ↔ seen.lookup other = none ∧ other ≠ name := by
  rw [List.lookup_append, Option.or_eq_none_iff, List.lookup_cons]
  cases h : other == name <;> simp_all

theorem lookup_concat_eq_some {α : Type} {seen : List (String × α)} {name other : String} {a b : α}
    (h : (seen ++ [(name, a)]).lookup other = some b) :
    seen.lookup other = some b ∨ (other, b) = (name, a) := by
  rw [List.lookup_append, Option.or_eq_some_iff] at h
  exact h.imp_right fun h => List.mem_singleton.mp (mem_of_lookup h.right)

-- One of some claims is refused: its name is in a table before them, or an earlier one has it.
inductive Refuses (table claims : List (String × Pointer)) (name : String) (first second : Pointer) :
    Prop
  | taken : table.lookup name = some first → (name, second) ∈ claims →
      Refuses table claims name first second
  | repeated : [(name, first), (name, second)].Sublist claims →
      Refuses table claims name first second

namespace Refuses

variable {table table' before claims : List (String × Pointer)} {name : String}
  {node first second : Pointer}

theorem head (h : table.lookup name = some first) :
    Refuses table ((name, node) :: claims) name first node :=
  .taken h List.mem_cons_self

-- What is in a later table was in the one before, or was claimed since.
theorem append (h : Refuses table' claims name first second)
    (ht : table'.lookup name = some first →
      table.lookup name = some first ∨ (name, first) ∈ before) :
    Refuses table (before ++ claims) name first second := by
  cases h
  case repeated hs => exact .repeated (hs.trans (List.sublist_append_right _ _))
  case taken hl hm =>
    cases ht hl
    case inl hl => exact .taken hl (List.mem_append_right _ hm)
    case inr hb =>
      exact .repeated ((List.singleton_sublist.mpr hb).append (List.singleton_sublist.mpr hm))

theorem cons {claim : String × Pointer} (h : Refuses table' claims name first second)
    (ht : table'.lookup name = some first →
      table.lookup name = some first ∨ (name, first) = claim) :
    Refuses table (claim :: claims) name first second := by
  rw [← List.singleton_append]
  exact h.append fun hl => (ht hl).imp_right List.mem_singleton.mpr

theorem append_right (h : Refuses table claims name first second)
    (after : List (String × Pointer)) :
    Refuses table (claims ++ after) name first second := by
  cases h
  case taken hl hm => exact .taken hl (List.mem_append_left _ hm)
  case repeated hs => exact .repeated (hs.trans (List.sublist_append_left _ _))

-- With no table before, two of the claims are for the one name.

theorem of_filterMap {α : Type} {l : List α} {f : α → Option (String × Pointer)}
    (h : Refuses [] (l.filterMap f) name first second) :
    ∃ a b, [a, b].Sublist l ∧ f a = some (name, first) ∧ f b = some (name, second) := by
  cases h
  case taken hl _  => cases hl
  case repeated hs =>
    obtain ⟨l', hl, he⟩ := List.sublist_filterMap_iff.mp hs
    obtain ⟨before, a, after, rfl, _, ha, he⟩ := List.filterMap_eq_cons_iff.mp he.symm
    obtain ⟨between, b, after, rfl, _, hb, _⟩ := List.filterMap_eq_cons_iff.mp he
    have hsub := (List.singleton_sublist.mpr List.mem_cons_self).trans
      (List.sublist_append_right between (b :: after))
    exact ⟨a, b, ((hsub.cons_cons a).trans (List.sublist_append_right ..)).trans hl, ha, hb⟩

theorem of_map {α : Type} {l : List α} {f : α → String × Pointer}
    (h : Refuses [] (l.map f) name first second) :
    ∃ a b, [a, b].Sublist l ∧ f a = (name, first) ∧ f b = (name, second) := by
  rw [← List.filterMap_eq_map] at h
  obtain ⟨a, b, hs, ha, hb⟩ := h.of_filterMap
  exact ⟨a, b, hs, Option.some.inj ha, Option.some.inj hb⟩

end Refuses

namespace Namespace

variable {ns ns' : Namespace} {name name' : String} {node : Pointer} {names names' : List String}

theorem claim_eq_ok :
    ns.claim name node = .ok (name', ns') ↔
      ns.contains name = false ∧ name' = name ∧ ns' = ns.add name node := by
  simp only [claim, contains]
  cases ns.claimed.lookup name <;> simp [eq_comm]

theorem claim_eq_error {e : Error} :
    ns.claim name node = .error e ↔
      ∃ first, ns.claimed.lookup name = some first ∧
        e = .duplicateName ns.kind name first node := by
  simp only [claim]
  cases ns.claimed.lookup name <;> simp [eq_comm]

theorem failsWith_claim {P : Error → Prop}
    (h : ∀ first, P (.duplicateName ns.kind name first node)) :
    (ns.claim name node).FailsWith P := by
  intro e he
  have ⟨first, _, he⟩ := claim_eq_error.mp he
  exact he ▸ h first

theorem lookup_add_eq_some {other : String} {first : Pointer}
    (h : (ns.add name node).claimed.lookup other = some first) :
    ns.claimed.lookup other = some first ∨ (other, first) = (name, node) := by
  rw [add, List.lookup_cons] at h
  split at h
  case h_1 he => exact .inr (by rw [eq_of_beq he, Option.some.inj h])
  case h_2    => exact .inl h

-- What claims leave that are made one after the other.
def addAll (ns : Namespace) (claims : List (String × Pointer)) : Namespace :=
  claims.foldl (fun ns claim => ns.add claim.1 claim.2) ns

theorem kind_addAll (ns : Namespace) (claims : List (String × Pointer)) :
    (ns.addAll claims).kind = ns.kind := by
  induction claims generalizing ns
  case nil          => rfl
  case cons claim _ hi => exact hi (ns.add claim.1 claim.2)

theorem lookup_addAll_eq_some {claims : List (String × Pointer)}
    (h : (ns.addAll claims).claimed.lookup name = some node) :
    ns.claimed.lookup name = some node ∨ (name, node) ∈ claims := by
  induction claims generalizing ns
  case nil => exact .inl h
  case cons claim claims hi =>
    obtain hl | hm := hi h
    case inl => exact (lookup_add_eq_some hl).imp_right fun he => List.mem_cons.mpr (.inl he)
    case inr => exact .inr (List.mem_cons_of_mem _ hm)

-- Names that can be claimed one after the other.
def Free (ns : Namespace) (names : List String) : Prop :=
  names.Nodup ∧ ∀ name ∈ names, ns.contains name = false

theorem free_nil (ns : Namespace) : ns.Free [] :=
  ⟨List.nodup_nil, nofun⟩

@[simp]
theorem free_fresh {kind : NameKind} : (Namespace.mk kind []).Free names ↔ names.Nodup :=
  and_iff_left fun _ _ => rfl

theorem free_cons (node : Pointer) :
    ns.Free (name :: names) ↔ ns.contains name = false ∧ (ns.add name node).Free names := by
  simp only [Free]
  simp only [List.nodup_cons, List.forall_mem_cons, contains_add, Bool.or_eq_false_iff,
    beq_eq_false_iff_ne]
  grind

-- What is left after names were claimed.
def Extends (ns : Namespace) (names : List String) (ns' : Namespace) : Prop :=
  ∀ name, ns'.contains name = (ns.contains name || name ∈ names)

theorem extends_nil (ns : Namespace) : ns.Extends [] ns := by
  simp [Extends]

theorem Extends.cons (h : (ns.add name node).Extends names ns') :
    ns.Extends (name :: names) ns' := by
  intro other
  rw [h other, contains_add]
  grind

theorem Extends.free_append_iff (h : ns.Extends names ns') :
    ns.Free (names ++ names') ↔ ns.Free names ∧ ns'.Free names' := by
  have hc (name : String) := h name
  simp only [Free]
  rw [List.nodup_append']
  simp only [List.forall_mem_append, hc, Bool.or_eq_false_iff, decide_eq_false_iff_not]
  grind [List.Disjoint]

theorem Free.perm (h : ns.Free names) (hp : names.Perm names') : ns.Free names' :=
  ⟨hp.nodup_iff.mp h.left, fun name hn => h.right name (hp.mem_iff.mpr hn)⟩

theorem Extends.append {ns'' : Namespace} (h : ns.Extends names ns')
    (h' : ns'.Extends names' ns'') :
    ns.Extends (names ++ names') ns'' := by
  intro name
  rw [h' name, h name]
  grind

theorem Extends.perm (h : ns.Extends names ns') (hp : names.Perm names') :
    ns.Extends names' ns' := by
  intro name
  simp only [h name, hp.mem_iff]

-- The names that were claimed one after the other to get from one namespace to another.
structure Claims (ns : Namespace) (names : List String) (ns' : Namespace) : Prop where
  free  : ns.Free names
  taken : ns.Extends names ns'

namespace Claims

theorem nil (ns : Namespace) : ns.Claims [] ns :=
  ⟨ns.free_nil, ns.extends_nil⟩

theorem cons (hn : ns.contains name = false) (h : (ns.add name node).Claims names ns') :
    ns.Claims (name :: names) ns' :=
  ⟨(free_cons node).mpr ⟨hn, h.free⟩, h.taken.cons⟩

theorem append {ns'' : Namespace} (h : ns.Claims names ns') (h' : ns'.Claims names' ns'') :
    ns.Claims (names ++ names') ns'' :=
  ⟨h.taken.free_append_iff.mpr ⟨h.free, h'.free⟩, h.taken.append h'.taken⟩

theorem perm (h : ns.Claims names ns') (hp : names.Perm names') : ns.Claims names' ns' :=
  ⟨h.free.perm hp, h.taken.perm hp⟩

end Claims

-- Which candidate is free depends on the names claimed before, but it is one of the candidates.
theorem freeName_eq_candidate (ns : Namespace) (ids : Identifiers) (base suffix : String) :
    ∃ n, ns.freeName ids base suffix = candidate ids base suffix n :=
  ⟨_, rfl⟩

end Namespace
end ApiDescriptors
