import ApiDescriptors.Proofs.Registry.Closed
import Mathlib.Logic.Relation

namespace ApiDescriptors.Registry

open Relation

variable {all unvisited : List Serializer} {stack : List Frame} {s t next : Serializer}
  {key : Pointer}

-- The serializers of `all` that a serializer's fields refer to.
def Depends (all : List Serializer) (s t : Serializer) : Prop :=
  s ∈ all ∧ t ∈ all ∧ t.schema ∈ s.dependsOn

-- What is still to come up in an order: serializers not begun and those on the stack.
def remaining (unvisited : List Serializer) (stack : List Frame) : List Serializer :=
  unvisited ++ stack.map (·.serializer)

theorem perm_remaining_start (s : Serializer) (others : List Serializer) (keys : List Pointer) :
    (remaining others [⟨s, keys⟩]).Perm (remaining (s :: others) []) := by
  simp [remaining]

theorem perm_remaining_visit {i : Nat} {rest rest' keys : List Pointer}
    (hn : unvisited[i]? = some next) :
    (remaining (unvisited.eraseIdx i) (⟨next, keys⟩ :: ⟨s, rest⟩ :: stack)).Perm
      (remaining unvisited (⟨s, rest'⟩ :: stack)) := by
  have hp := (perm_cons_eraseIdx hn).append_right (s :: stack.map (·.serializer))
  simpa [remaining] using List.perm_middle.trans hp.symm

-- Everything comes up once.
theorem perm_orderFrom : (orderFrom unvisited stack).Perm (remaining unvisited stack) := by
  fun_induction orderFrom unvisited stack
  case case1 => rfl
  case case2 s others hi => exact hi.trans (perm_remaining_start s others _)
  case case3 s stack hi => exact (hi.cons s).trans List.perm_middle.symm
  case case4 hn hi => exact hi.trans (perm_remaining_visit hn)
  case case5 hi => exact hi
  case case6 hi => exact hi

theorem perm_dependencyOrder (g : Registry) : g.dependencyOrder.Perm g.serializers :=
  perm_orderFrom.trans (.of_eq (List.append_nil _))

-- A frame is done before those below it.
theorem sublist_orderFrom : (stack.map (·.serializer)).Sublist (orderFrom unvisited stack) := by
  fun_induction orderFrom unvisited stack
  case case1 => exact .slnil
  case case2 => exact List.nil_sublist _
  case case3 s stack hi => exact hi.cons_cons s
  case case4 hi => exact (List.sublist_cons_self _ _).trans hi
  case case5 hi => exact hi
  case case6 hi => exact hi

-- What holds whenever the search goes on. Along the stack, dependencies lead from each frame to
-- all those above it.
structure Searching (all unvisited : List Serializer) (stack : List Frame) : Prop where
  nodup  : ((remaining unvisited stack).map (·.schema)).Nodup
  subset : ∀ s ∈ remaining unvisited stack, s ∈ all
  rest   : ∀ f ∈ stack, f.rest ⊆ f.serializer.dependsOn
  leads  : stack.Pairwise fun f below => TransGen (Depends all) below.serializer f.serializer

namespace Searching

theorem init (h : (all.map (·.schema)).Nodup) : Searching all all [] where
  nodup  := by simpa [remaining] using h
  subset := by simp [remaining]
  rest   := nofun
  leads  := .nil

theorem start {others : List Serializer} (h : Searching all (s :: others) []) :
    Searching all others [⟨s, s.dependsOn⟩] := by
  have hp := perm_remaining_start s others s.dependsOn
  constructor
  case nodup  => exact (hp.map _).nodup_iff.mpr h.nodup
  case subset => exact fun t ht => h.subset t (hp.mem_iff.mp ht)
  case rest   => simp
  case leads  => simp

theorem finish (h : Searching all unvisited (⟨s, []⟩ :: stack)) :
    Searching all unvisited stack := by
  have hp : (remaining unvisited (⟨s, []⟩ :: stack)).Perm (s :: remaining unvisited stack) :=
    List.perm_middle
  constructor
  case nodup  => exact (List.nodup_cons.mp ((hp.map _).nodup_iff.mp h.nodup)).right
  case subset => exact fun t ht => h.subset t (hp.mem_iff.mpr (List.mem_cons_of_mem _ ht))
  case rest   => exact fun f hf => h.rest f (List.mem_cons_of_mem _ hf)
  case leads  => exact (List.pairwise_cons.mp h.leads).right

theorem skip {rest : List Pointer} (h : Searching all unvisited (⟨s, key :: rest⟩ :: stack)) :
    Searching all unvisited (⟨s, rest⟩ :: stack) where
  nodup     := h.nodup
  subset    := h.subset
  leads     := List.pairwise_cons.mpr (List.pairwise_cons.mp h.leads)
  rest f hf := by
    cases hf
    case head    => exact fun key hk => h.rest _ List.mem_cons_self (List.mem_cons_of_mem _ hk)
    case tail hf => exact h.rest f (List.mem_cons_of_mem _ hf)

theorem visit {rest : List Pointer} {i : Nat}
    (h : Searching all unvisited (⟨s, key :: rest⟩ :: stack)) (hn : unvisited[i]? = some next)
    (hk : next.schema = key) :
    Searching all (unvisited.eraseIdx i) (⟨next, next.dependsOn⟩ :: ⟨s, rest⟩ :: stack) := by
  have hp : (remaining (unvisited.eraseIdx i) (⟨next, next.dependsOn⟩ :: ⟨s, rest⟩ :: stack)).Perm
      (remaining unvisited (⟨s, key :: rest⟩ :: stack)) := perm_remaining_visit hn
  have hs : s ∈ all := h.subset s (by simp [remaining])
  have hnext : next ∈ all := h.subset next (List.mem_append_left _ (List.mem_of_getElem? hn))
  have hedge : Depends all s next :=
    ⟨hs, hnext, hk ▸ h.rest _ List.mem_cons_self List.mem_cons_self⟩
  have ⟨hbelow, hstack⟩ := List.pairwise_cons.mp h.leads
  constructor
  case nodup  => exact (hp.map _).nodup_iff.mpr h.nodup
  case subset => exact fun t ht => h.subset t (hp.mem_iff.mp ht)
  case rest =>
    intro f hf
    cases hf
    case head    => exact List.Subset.refl _
    case tail hf => exact h.skip.rest f hf
  case leads =>
    refine List.pairwise_cons.mpr ⟨fun f hf => ?_, h.skip.leads⟩
    cases hf
    case head    => exact .single hedge
    case tail hf => exact (hbelow f hf).tail hedge

end Searching

-- The dependencies that were not looked at yet.
inductive Open (unvisited : List Serializer) (stack : List Frame) : Serializer → Pointer → Prop
  | unvisited {a k} : a ∈ unvisited → k ∈ a.dependsOn → Open unvisited stack a k
  | frame {f k} : f ∈ stack → k ∈ f.rest → Open unvisited stack f.serializer k

namespace Open

theorem mem_remaining (h : Open unvisited stack s key) : s ∈ remaining unvisited stack := by
  cases h
  case unvisited hs _ => exact List.mem_append_left _ hs
  case frame hf _     => exact List.mem_append_right _ (List.mem_map_of_mem hf)

theorem start {others : List Serializer} (h : Open (s :: others) [] t key) :
    Open others [⟨s, s.dependsOn⟩] t key := by
  cases h
  case frame hf _ => cases hf
  case unvisited ht hk =>
    cases ht
    case head    => exact .frame (f := ⟨s, s.dependsOn⟩) List.mem_cons_self hk
    case tail ht => exact .unvisited ht hk

theorem finish (h : Open unvisited (⟨s, []⟩ :: stack) t key) : Open unvisited stack t key := by
  cases h
  case unvisited ht hk => exact .unvisited ht hk
  case frame hf hk =>
    cases hf
    case head    => cases hk
    case tail hf => exact .frame hf hk

-- The first dependency of the top frame is looked at; all others stay open.
theorem advance {key' : Pointer} {rest : List Pointer}
    (h : Open unvisited (⟨s, key' :: rest⟩ :: stack) t key) :
    (t = s ∧ key = key') ∨ Open unvisited (⟨s, rest⟩ :: stack) t key := by
  cases h
  case unvisited ht hk => exact .inr (.unvisited ht hk)
  case frame hf hk =>
    cases hf
    case tail hf => exact .inr (.frame (List.mem_cons_of_mem _ hf) hk)
    case head =>
      cases hk
      case head    => exact .inl ⟨rfl, rfl⟩
      case tail hk => exact .inr (.frame (f := ⟨s, rest⟩) List.mem_cons_self hk)

theorem visit {i : Nat} (h : Open unvisited stack t key) (hn : unvisited[i]? = some next) :
    Open (unvisited.eraseIdx i) (⟨next, next.dependsOn⟩ :: stack) t key := by
  cases h
  case frame hf hk => exact .frame (List.mem_cons_of_mem _ hf) hk
  case unvisited ht hk =>
    cases (perm_cons_eraseIdx hn).mem_iff.mp ht
    case head    => exact .frame (f := ⟨t, t.dependsOn⟩) List.mem_cons_self hk
    case tail ht => exact .unvisited ht hk

end Open

-- Where an open dependency is looked at, it is done already, or it is begun now and done before
-- the serializer that waits for it, or it waits itself on the stack and so leads there.
theorem sublist_or_leads (h : Searching all unvisited stack) (ho : Open unvisited stack s key)
    (ht : t ∈ remaining unvisited stack) (hk : t.schema = key) :
    [t, s].Sublist (orderFrom unvisited stack) ∨ ReflTransGen (Depends all) t s := by
  fun_induction orderFrom unvisited stack
  case case1 => cases ht
  case case2 others hi => exact hi h.start ho.start ((perm_remaining_start ..).mem_iff.mpr ht)
  case case3 top stack hi =>
    have hs := perm_orderFrom.mem_iff.mpr ho.finish.mem_remaining
    cases List.perm_middle.mem_iff.mp ht
    case head    => exact .inl ((List.singleton_sublist.mpr hs).cons_cons top)
    case tail ht => exact (hi h.finish ho.finish ht).imp_left fun hl => hl.cons top
  case case4 unvisited top dependency rest stack i hf next hn hi =>
    have hkey : next.schema = dependency := by
      have ⟨hl, hd, _⟩ := List.findIdx?_eq_some_iff_getElem.mp hf
      simp_all
    obtain ⟨hs, hd⟩ | ho := ho.advance
    case inl =>
      have hm : next ∈ remaining unvisited (⟨top, dependency :: rest⟩ :: stack) :=
        List.mem_append_left _ (List.mem_of_getElem? hn)
      have he : t = next := List.inj_on_of_nodup_map h.nodup ht hm (by rw [hk, hd, hkey])
      rw [he, hs]
      exact .inl <| .trans (by simp) sublist_orderFrom
    case inr => exact hi (h.visit hn hkey) (ho.visit hn) ((perm_remaining_visit hn).mem_iff.mpr ht)
  case case5 hf hn _ =>
    have ⟨hl, _⟩ := List.findIdx?_eq_some_iff_getElem.mp hf
    simp at hn
    omega
  case case6 top dependency rest stack hf hi =>
    obtain ⟨rfl, rfl⟩ | ho := ho.advance
    case inr => exact hi h.skip ho ht
    case inl =>
      cases List.mem_append.mp ht
      case inl ht => simpa [hk] using List.findIdx?_eq_none_iff.mp hf t ht
      case inr ht =>
        have ⟨f, hf, he⟩ := List.mem_map.mp ht
        subst he
        cases hf
        case head    => exact .inr .refl
        case tail hf => exact .inr ((List.pairwise_cons.mp h.leads).left f hf).to_reflTransGen

variable {d : Document} {o : Options} {g : Registry} {paths : List PathEntry} {r : Resolution}
variable {entries : List PathVerbs}

theorem Stages.ne_of_mem_dependsOn (h : Stages d o g paths r entries) (hs : s ∈ g.serializers)
    (hk : key ∈ s.dependsOn) : key ≠ s.schema := by
  have ⟨_, _, _, _, hd⟩ := h.exists_schema_of_mem_serializers hs
  exact (Serializer.mem_dependencies_iff.mp (hd ▸ hk)).left

-- A serializer stands after one that it depends on, unless this depends on it in turn.
theorem Stages.exists_dependency (h : Stages d o g paths r entries) (hs : s ∈ g.serializers)
    (hk : key ∈ s.dependsOn) :
    ∃ t ∈ g.serializers, t.schema = key ∧
      ([t, s].Sublist g.dependencyOrder ∨ TransGen (Depends g.serializers) t s) := by
  have ⟨t, ht⟩ := h.exists_serializer?_of_mem_dependsOn hs hk
  have ⟨ht, he⟩ := Serializer.mem_of_find? ht
  have hr : t ∈ remaining g.serializers [] := List.mem_append_left _ ht
  have hsl := sublist_or_leads (.init h.nodup_schemas) (.unvisited hs hk) hr he
  refine ⟨t, ht, he, hsl.imp_right fun hl => ?_⟩
  cases reflTransGen_iff_eq_or_transGen.mp hl
  case inl hst => exact absurd (hst ▸ he.symm) (h.ne_of_mem_dependsOn hs hk)
  case inr hl  => exact hl

-- The order has every serializer once, and a dependency out of order lies on a cycle. Where there
-- are no cycles, it is a topological order.
theorem dependencyOrder_of_build (h : build d o = .ok g) :
    g.dependencyOrder.Perm g.serializers ∧
    (g.dependencyOrder.map (·.schema)).Nodup ∧
    (∀ s ∈ g.serializers, ∀ key ∈ s.dependsOn, ∃ t ∈ g.serializers, t.schema = key ∧
      ([t, s].Sublist g.dependencyOrder ∨ TransGen (Depends g.serializers) t s)) ∧
    ((∀ s, ¬TransGen (Depends g.serializers) s s) →
      ∀ s ∈ g.serializers, ∀ key ∈ s.dependsOn, ∃ t ∈ g.serializers, t.schema = key ∧
        [t, s].Sublist g.dependencyOrder) := by
  have ⟨_, _, _, h⟩ := build_eq_ok h
  have hp := g.perm_dependencyOrder
  refine ⟨hp, (hp.map _).nodup_iff.mpr h.nodup_schemas,
    fun s hs key hk => h.exists_dependency hs hk, ?_⟩
  intro ha s hs key hk
  have ⟨t, ht, he, hl⟩ := h.exists_dependency hs hk
  refine ⟨t, ht, he, hl.resolve_right fun hl => ?_⟩
  exact ha s (.head ⟨hs, ht, he ▸ hk⟩ hl)

-- Pets that know their owners, who do not know them.
def oneWay : Document where
  dialect := .swagger2
  root := .obj [
    ("swagger", .str "2.0"),
    ("definitions", .obj [
      ("Pet", .obj [("properties", .obj [("owner", .obj [("$ref", .str "#/definitions/Owner")])])]),
      ("Owner", .obj [("type", .str "object")])])
  ]

theorem exists_dependencyOrder_sample :
    (∃ g, build sample {} = .ok g ∧
      g.serializers.map (·.className) = ["PetSerializer", "OwnerSerializer"] ∧
      g.dependencyOrder.map (·.className) = ["OwnerSerializer", "PetSerializer"] ∧
      g.dependencyOrder.Perm g.serializers ∧ (g.dependencyOrder.map (·.schema)).Nodup ∧
      ∀ s ∈ g.serializers, ∀ key ∈ s.dependsOn, ∃ t ∈ g.serializers, t.schema = key ∧
        ([t, s].Sublist g.dependencyOrder ∨ TransGen (Depends g.serializers) t s)) ∧
    ∃ g, build oneWay { includeUnreferencedSchemas := true } = .ok g ∧
      g.serializers.map (·.schema) = [⟨["definitions", "Pet"]⟩, ⟨["definitions", "Owner"]⟩] ∧
      g.dependencyOrder.map (·.schema) = [⟨["definitions", "Owner"]⟩, ⟨["definitions", "Pet"]⟩] ∧
      ∀ s ∈ g.serializers, ∀ key ∈ s.dependsOn, ∃ t ∈ g.serializers, t.schema = key ∧
        [t, s].Sublist g.dependencyOrder := by
  constructor
  case left =>
    have hb : (build sample {}).toOption.map (fun g =>
        (g.serializers.map (·.className), g.dependencyOrder.map (·.className))) =
        some (["PetSerializer", "OwnerSerializer"], ["OwnerSerializer", "PetSerializer"]) := by
      decide +kernel
    obtain ⟨g, hg, hb⟩ := Result.exists_of_map_toOption_eq_some hb
    obtain ⟨hserializers, horder⟩ := Prod.mk.inj hb
    obtain ⟨hp, hn, hbefore, _⟩ := dependencyOrder_of_build hg
    exact ⟨g, hg, hserializers, horder, hp, hn, hbefore⟩
  case right =>
    have hb : (build oneWay { includeUnreferencedSchemas := true }).toOption.map (fun g =>
        (g.serializers.map fun s => (s.schema, s.dependsOn), g.dependencyOrder.map (·.schema))) =
        some ([(⟨["definitions", "Pet"]⟩, [⟨["definitions", "Owner"]⟩]),
          (⟨["definitions", "Owner"]⟩, [])],
          [⟨["definitions", "Owner"]⟩, ⟨["definitions", "Pet"]⟩]) := by decide +kernel
    obtain ⟨g, hg, hb⟩ := Result.exists_of_map_toOption_eq_some hb
    obtain ⟨hserializers, horder⟩ := Prod.mk.inj hb
    have hdepends {s t : Serializer} (h : Depends g.serializers s t) :
        s.schema = ⟨["definitions", "Pet"]⟩ ∧ t.schema = ⟨["definitions", "Owner"]⟩ := by
      have hs : (s.schema, s.dependsOn) ∈ g.serializers.map fun s => (s.schema, s.dependsOn) :=
        List.mem_map_of_mem h.left
      simp only [hserializers, List.mem_cons, Prod.mk.injEq, List.not_mem_nil, or_false] at hs
      obtain ⟨hs, hd⟩ | ⟨_, hd⟩ := hs
      case inl => exact ⟨hs, List.mem_singleton.mp (hd ▸ h.right.right)⟩
      case inr => cases hd ▸ h.right.right
    -- What lies on a cycle depends on something, and something depends on it.
    have hacyclic (s : Serializer) : ¬TransGen (Depends g.serializers) s s := by
      intro h
      obtain ⟨_, hs, _⟩ := TransGen.head'_iff.mp h
      obtain ⟨_, _, ht⟩ := TransGen.tail'_iff.mp h
      exact absurd ((hdepends hs).left.symm.trans (hdepends ht).right) (by decide)
    obtain ⟨_, _, _, hbefore⟩ := dependencyOrder_of_build hg
    have hschemas := congrArg (List.map Prod.fst) hserializers
    rw [List.map_map] at hschemas
    exact ⟨g, hg, hschemas, horder, hbefore hacyclic⟩

end ApiDescriptors.Registry
