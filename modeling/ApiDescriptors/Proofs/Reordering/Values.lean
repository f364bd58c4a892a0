import ApiDescriptors.Proofs.Document
import ApiDescriptors.Schema.Graph
import Mathlib.Data.List.Perm.Basic

namespace ApiDescriptors

open Result

theorem find?_eq_some_iff_of_nodup {α κ : Type} [DecidableEq κ] {key : α → κ} {l : List α} {a : α}
    {k : κ} (hn : (l.map key).Nodup) : l.find? (key · = k) = some a ↔ a ∈ l ∧ key a = k := by
  constructor
  case mp => exact fun h => ⟨List.mem_of_find?_eq_some h, by simpa using List.find?_some h⟩
  case mpr =>
    rintro ⟨hm, rfl⟩
    have hs : (l.find? (key · = key a)).isSome := List.find?_isSome.mpr ⟨a, hm, by simp⟩
    have ⟨b, hb⟩ := Option.isSome_iff_exists.mp hs
    have hk : key b = key a := by simpa using List.find?_some hb
    rw [hb, List.inj_on_of_nodup_map hn (List.mem_of_find?_eq_some hb) hm hk]

-- What is found under a key does not depend on an order if the keys are distinct.
theorem find?_eq_of_perm {α κ : Type} [DecidableEq κ] {key : α → κ} {l l' : List α}
    (hn : (l.map key).Nodup) (hp : l.Perm l') (k : κ) :
    l.find? (key · = k) = l'.find? (key · = k) := by
  ext a
  rw [find?_eq_some_iff_of_nodup hn, find?_eq_some_iff_of_nodup ((hp.map key).nodup_iff.mp hn),
    hp.mem_iff]

theorem rel_cases {α β : Type} {R : α → β → Prop} {x : Option α} {y : Option β}
    (h : Option.Rel R x y) :
    (x = none ∧ y = none) ∨ ∃ a b, x = some a ∧ y = some b ∧ R a b := by
  cases h
  case none    => exact .inl ⟨rfl, rfl⟩
  case some hr => exact .inr ⟨_, _, rfl, rfl, hr⟩

-- Names that are neither that of the paths of a document nor allowed for one of these.
def Paths.isPlain (name : String) : Bool :=
  name ≠ "paths" && !name.startsWith "/" && !isExtension name

theorem Paths.ne_paths_of_isPlain {name : String} (h : isPlain name) : name ≠ "paths" := by
  simp only [isPlain, Bool.and_eq_true, decide_eq_true_eq] at h
  exact h.left.left

namespace Members

variable {members members' : Members} {name : String} {value : Json}

theorem lookup_eq_of_perm (hn : members.names.Nodup) (hp : members.Perm members') (name : String) :
    members.lookup name = members'.lookup name := by
  have hn' : members'.names.Nodup := (hp.map _).nodup_iff.mp hn
  ext value
  constructor
  · exact fun h => lookup_of_mem hn' (hp.mem_iff.mp (mem_of_lookup h))
  · exact fun h => lookup_of_mem hn (hp.mem_iff.mpr (mem_of_lookup h))

end Members

namespace Json

theorem textsInMembers_eq_flatMap (key : String) (members : Members) :
    textsInMembers key members =
      members.flatMap fun m => (if m.1 = key then m.2.str?.toList else []) ++ m.2.textsAt key := by
  induction members
  case nil         => rfl
  case cons m _ hi => simp [textsInMembers, hi]

-- Values that show no difference to a reader who does not ask for the paths of a document.
inductive Alike : Json → Json → Prop
  | refl (v) : Alike v v
  | obj {members members' : Members} :
    (∀ name, name ≠ "paths" → members.lookup name = members'.lookup name) →
    members.filter (Paths.isPlain ·.1) = members'.filter (Paths.isPlain ·.1) →
    members.names.Perm members'.names → Alike (.obj members) (.obj members')

theorem Alike.symm {v v' : Json} (h : v.Alike v') : v'.Alike v := by
  cases h
  case refl         => exact .refl _
  case obj hl hf hn => exact .obj (fun name hne => (hl name hne).symm) hf.symm hn.symm

theorem Alike.get? {v v' : Json} {name : String} (h : v.Alike v') (hn : name ≠ "paths") :
    v.get? name = v'.get? name := by
  cases h
  case refl       => rfl
  case obj hl _ _ => exact hl name hn

theorem Alike.dialectOf_eq {v v' : Json} (h : v.Alike v') :
    Document.dialectOf v = Document.dialectOf v' := by
  cases h
  case refl       => rfl
  case obj hl _ _ =>
    simp only [Document.dialectOf, hl "openapi" (by decide), hl "swagger" (by decide)]

-- The tree of a document with its paths, and what stands before and after these.
def withPaths (before paths after : Members) : Json :=
  .obj (before ++ ("paths", .obj paths) :: after)

-- Trees that differ in nothing but the order of the paths.
inductive Reordered : Json → Json → Prop
  | refl (v) : Reordered v v
  | paths {paths paths'} (before after) :
    List.Perm paths paths' →
    Reordered (withPaths before paths after) (withPaths before paths' after)

theorem Reordered.symm {v v' : Json} (h : v.Reordered v') : v'.Reordered v := by
  cases h
  case refl     => exact .refl _
  case paths hp => exact .paths _ _ hp.symm

section

variable {before paths paths' after : Members} {name : String}

theorem step?_withPaths (hv : (withPaths before paths after).Distinct) :
    Pointer.step? (withPaths before paths after) "paths" = some (.obj paths) := by
  have hn := hv.of_obj.nodup
  rw [Members.names_append, Members.names_cons] at hn
  have hb : "paths" ∉ before.names :=
    fun h => (List.nodup_append.mp hn).right.right _ h _ List.mem_cons_self rfl
  simp [withPaths, Pointer.step?, List.lookup_append, Members.lookup_eq_none_of_not_mem hb]

theorem step?_withPaths_of_ne (hn : name ≠ "paths") :
    Pointer.step? (withPaths before paths after) name = (before ++ after).lookup name := by
  simp [withPaths, Pointer.step?, List.lookup_append, List.lookup_cons, beq_eq_false_iff_ne.mpr hn]

theorem alike_withPaths (before paths paths' after : Members) :
    (withPaths before paths after).Alike (withPaths before paths' after) := by
  refine .obj (fun name hn => ?_) ?_ ?_
  · exact (step?_withPaths_of_ne hn).trans (step?_withPaths_of_ne hn).symm
  · simp [List.filter_append, Paths.isPlain]
  · simp

theorem distinct_of_withPaths (hv : (withPaths before paths after).Distinct) : paths.Distinct :=
  (hv.of_obj.values ("paths", .obj paths) (by simp)).of_obj

theorem alike_paths (hn : paths.names.Nodup) (hp : paths.Perm paths')
    (hk : ∀ name ∈ paths.names, ¬Paths.isPlain name) :
    (obj paths).Alike (.obj paths') := by
  have hf {l : Members} (hl : ∀ name ∈ l.names, ¬Paths.isPlain name) :
      l.filter (Paths.isPlain ·.1) = [] :=
    List.filter_eq_nil_iff.mpr fun m hm => hl m.1 (List.mem_map_of_mem hm)
  refine .obj (fun name _ => Members.lookup_eq_of_perm hn hp name) ?_ (hp.map _)
  rw [hf hk, hf fun name hm => hk name ((hp.map _).mem_iff.mpr hm)]

theorem lookup?_withPaths_of_ne (hn : name ≠ "paths") (segments : List String) :
    Pointer.lookup? ⟨name :: segments⟩ (withPaths before paths after) =
      Pointer.lookup? ⟨name :: segments⟩ (withPaths before paths' after) := by
  simp only [Pointer.lookup?, List.foldlM_cons, step?_withPaths_of_ne hn]

-- A pointer leads to the paths or past them, where the order does not matter any more.
theorem alike_lookup?_withPaths (hv : (withPaths before paths after).Distinct)
    (hv' : (withPaths before paths' after).Distinct) (hp : paths.Perm paths')
    (hk : ∀ name ∈ paths.names, ¬Paths.isPlain name) (p : Pointer) :
    Option.Rel Alike (p.lookup? (withPaths before paths after))
      (p.lookup? (withPaths before paths' after)) := by
  have hn := (distinct_of_withPaths hv).nodup
  have hsame (x : Option Json) : Option.Rel Alike x x := by
    cases x
    · exact .none
    · exact .some (.refl _)
  have ⟨segments⟩ := p
  cases segments
  case nil => exact .some (alike_withPaths ..)
  case cons segment segments =>
    by_cases hs : segment = "paths"
    case neg =>
      rw [lookup?_withPaths_of_ne hs]
      exact hsame _
    case pos =>
      simp only [Pointer.lookup?, List.foldlM_cons]
      rw [hs, step?_withPaths hv, step?_withPaths hv']
      cases segments
      case nil => exact .some (alike_paths hn hp hk)
      case cons segment segments =>
        simp only [Option.bind_eq_bind, Option.bind_some, List.foldlM_cons, Pointer.step?,
          Members.lookup_eq_of_perm hn hp segment]
        exact hsame _

theorem length_textsAt_withPaths (key : String) (hp : paths.Perm paths') :
    ((withPaths before paths after).textsAt key).length =
      ((withPaths before paths' after).textsAt key).length := by
  have hl :=
    (hp.flatMap_right fun m =>
      (if m.1 = key then m.2.str?.toList else []) ++ m.2.textsAt key).length_eq
  simp only [← textsInMembers_eq_flatMap] at hl
  simp only [withPaths, textsAt, textsInMembers_eq_flatMap, List.flatMap_append, List.flatMap_cons,
    str?, List.length_append] at hl ⊢
  grind

end
end Json

-- Documents in which every pointer leads to values that show no difference.
structure Document.Similar (d d' : Document) : Prop where
  dialect : d.dialect = d'.dialect
  get?    : ∀ p, Option.Rel Json.Alike (d.get? p) (d'.get? p)
  table   : d.get? d.schemaTable = d'.get? d'.schemaTable
  limit   : d.referenceLimit = d'.referenceLimit

theorem Document.Similar.refl (d : Document) : d.Similar d where
  dialect := rfl
  get? p  := by
    cases d.get? p
    case none => exact .none
    case some => exact .some (.refl _)
  table   := rfl
  limit   := rfl

theorem Document.Similar.symm {d d' : Document} (h : d.Similar d') : d'.Similar d where
  dialect := h.dialect.symm
  get? p  := by
    obtain ⟨hx, hy⟩ | ⟨_, _, hx, hy, hv⟩ := rel_cases (h.get? p) <;> rw [hx, hy]
    case inl => exact .none
    case inr => exact .some hv.symm
  table   := h.table.symm
  limit   := h.limit.symm

open Json in
theorem Document.similar_of_withPaths {d d' : Document} {before paths paths' after : Members}
    (hd : d.root = withPaths before paths after) (hd' : d'.root = withPaths before paths' after)
    (hv : d.root.Distinct) (hv' : d'.root.Distinct) (ho : dialectOf d.root = .ok d.dialect)
    (ho' : dialectOf d'.root = .ok d'.dialect) (hp : paths.Perm paths')
    (hk : ∀ name ∈ paths.names, ¬Paths.isPlain name) :
    d.Similar d' := by
  have ⟨root, dialect⟩ := d
  have ⟨root', dialect'⟩ := d'
  subst hd hd'
  cases ho.symm.trans ((alike_withPaths before paths paths' after).dialectOf_eq.trans ho')
  constructor
  case dialect => rfl
  case get?    => exact alike_lookup?_withPaths hv hv' hp hk
  case table   => cases dialect <;> exact lookup?_withPaths_of_ne (by decide) _
  case limit   => exact congrArg (· + 2) (length_textsAt_withPaths "$ref" hp)

end ApiDescriptors
