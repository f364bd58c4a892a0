import ApiDescriptors.Proofs.Paths
import ApiDescriptors.Proofs.Reordering.Values
import Mathlib.Data.List.Find

namespace ApiDescriptors

open Result

variable {α : Type} {v v' : Json} {members members' : Members} {d d' : Document} {node : Pointer}

-- Readers of single values

theorem Json.Alike.reference?_eq (h : v.Alike v') (node : Pointer) :
    reference? node v = reference? node v' := by
  simp only [reference?]
  rw [h.get? (by decide)]

-- A traversal that passes over what does not satisfy `p` depends on the rest only.
theorem foldlM_eq_of_filter_eq {β γ ε : Type} {p : γ → Bool} {l l' : List γ}
    {f : β → γ → Except ε β} {b : β} (hf : ∀ b x, p x = false → f b x = .ok b)
    (h : l.filter p = l'.filter p) : l.foldlM f b = l'.foldlM f b := by
  have hfilter (l : List γ) : l.foldlM f b = (l.filter p).foldlM f b := by
    rw [List.foldlM_filter]
    congr
    funext b x
    cases hp : p x
    case false => simp [hf b x hp, pure, Except.pure]
    case true  => rfl
  rw [hfilter l, hfilter l', h]

theorem Record.Rules.ofMembers_eq {rules : Rules α}
    (hl : ∀ name, name ≠ "paths" → members.lookup name = members'.lookup name)
    (hm : members.filter (Paths.isPlain ·.1) = members'.filter (Paths.isPlain ·.1))
    (hf : ∀ f ∈ rules.fields, Paths.isPlain f.1) :
    rules.ofMembers members = rules.ofMembers members' := by
  have hskip (record : α) (m : String × Json) (hp : Paths.isPlain m.1 = false) :
      ¬(rules.fields.lookup m.1).isSome := by
    intro hs
    obtain ⟨f, hm, he⟩ := List.lookup_isSome_iff.mp hs
    rw [eq_of_beq he, hf f hm] at hp
    cases hp
  simp only [ofMembers]
  rw [foldlM_eq_of_filter_eq (fun record m hp => if_neg (hskip record m hp)) hm]
  congr 1
  funext record
  congr 1
  refine List.find?_congr fun f hm => ?_
  simp only [hl f.1 (Paths.ne_paths_of_isPlain (hf f hm))]

theorem Json.Alike.readAt_eq {rules : Record.Rules α} (h : v.Alike v')
    (hf : ∀ f ∈ rules.fields, Paths.isPlain f.1) (node : Pointer) :
    rules.readAt node v = rules.readAt node v' := by
  cases h
  case refl        => rfl
  case obj hl hm _ =>
    simp only [Record.Rules.readAt, Record.Rules.read, Record.Rules.ofMembers_eq hl hm hf]

theorem ParameterObject.isPlain_of_mem_fields : ∀ f ∈ rules.fields, Paths.isPlain f.1 := by
  decide +kernel

theorem RequestBodyObject.isPlain_of_mem_fields : ∀ f ∈ rules.fields, Paths.isPlain f.1 := by
  decide +kernel

theorem ResponseObject.isPlain_of_mem_fields : ∀ f ∈ rules.fields, Paths.isPlain f.1 := by
  decide +kernel

-- Values at one node that show no difference.
def AlikeAt (x y : Pointer × Json) : Prop :=
  x.1 = y.1 ∧ x.2.Alike y.2

namespace Document.Similar

variable (h : d.Similar d')
include h

theorem target (holder : Pointer) (reference : String) :
    Alike AlikeAt (d.target holder reference) (d'.target holder reference) := by
  simp only [Document.target]
  split
  case h_1 => exact .error
  case h_2 node _ =>
    obtain ⟨hx, hy⟩ | ⟨_, _, hx, hy, hv⟩ := rel_cases (h.get? node) <;> rw [hx, hy]
    case inl => exact .error
    case inr => exact .ok ⟨rfl, hv⟩

theorem followFrom (hv : v.Alike v') (fuel : Nat) (chain : List Pointer) (node : Pointer) :
    Alike AlikeAt (d.followFrom fuel chain node v) (d'.followFrom fuel chain node v') := by
  induction fuel generalizing chain node v v'
  case zero => exact .error
  case succ fuel hi =>
    rw [Document.followFrom, Document.followFrom, hv.reference?_eq]
    refine .bind_eq (.refl _) fun reference => ?_
    cases reference
    case none => exact .ok ⟨rfl, hv⟩
    case some reference =>
      refine .bind (h.target node reference) fun ⟨next, v⟩ ⟨_, v'⟩ ⟨he, hv⟩ => ?_
      subst he
      dsimp only
      split
      · exact .error
      · exact hi hv _ _

theorem follow (hv : v.Alike v') (node : Pointer) :
    Alike AlikeAt (d.follow node v) (d'.follow node v') := by
  simp only [Document.follow]
  rw [hv.reference?_eq, h.limit]
  refine .bind_eq (.refl _) fun reference => ?_
  cases reference
  case none => exact .ok ⟨rfl, hv⟩
  case some => exact h.followFrom hv _ _ _

theorem declared (node : Pointer) (v : Json) :
    Alike Eq (Paths.declared d node v) (Paths.declared d' node v) := by
  simp only [Paths.declared]
  refine .bind (h.follow (.refl v) node) ?_
  rintro ⟨node, v⟩ ⟨_, v'⟩ ⟨he, hv⟩
  subst he
  dsimp only
  rw [hv.readAt_eq ParameterObject.isPlain_of_mem_fields, h.dialect]
  exact .refl _

theorem requestBody (node : Pointer) (v : Json) :
    Alike Eq (Paths.requestBody d node v) (Paths.requestBody d' node v) := by
  simp only [Paths.requestBody]
  refine .bind (h.follow (.refl v) node) ?_
  rintro ⟨node, v⟩ ⟨_, v'⟩ ⟨he, hv⟩
  subst he
  dsimp only
  rw [hv.readAt_eq RequestBodyObject.isPlain_of_mem_fields]
  exact .refl _

theorem response (status : String) (node : Pointer) (v : Json) :
    Alike Eq (Paths.response d status node v) (Paths.response d' status node v) := by
  simp only [Paths.response]
  refine .bind (h.follow (.refl v) node) ?_
  rintro ⟨node, v⟩ ⟨_, v'⟩ ⟨he, hv⟩
  subst he
  dsimp only
  rw [hv.readAt_eq ResponseObject.isPlain_of_mem_fields]
  exact .refl _

theorem declaredList (list : Pointer) (values : List Json) :
    Alike Eq (Paths.declaredList d list values) (Paths.declaredList d' list values) :=
  .mapM_eq fun _ _ => h.declared _ _

theorem operation (inherited : List Declared) (method : Method) (node : Pointer) (v : Json) :
    Alike Eq (Paths.operation d inherited method node v)
      (Paths.operation d' inherited method node v) := by
  have hr (l : Members) : Alike Eq
      (l.mapM fun m => Paths.response d m.1 ((node.child "responses").child m.1) m.2)
      (l.mapM fun m => Paths.response d' m.1 ((node.child "responses").child m.1) m.2) :=
    .mapM_eq fun _ _ => h.response _ _ _
  simp only [Paths.operation]
  refine .bind_eq (.refl _) fun object => .bind_eq (h.declaredList _ _) fun own =>
    .bind_eq (.refl _) fun inputs => ?_
  split
  case h_1 =>
    refine .bind_eq ((h.requestBody _ _).map fun _ _ he => congrArg some he) fun _ => ?_
    exact .bind_eq (hr _) fun _ => .refl _
  case h_2 => exact .bind_eq (.refl _) fun _ => .bind_eq (hr _) fun _ => .refl _

theorem sharedParameters (hl : members.lookup "parameters" = members'.lookup "parameters")
    (node : Pointer) :
    Alike Eq (Paths.sharedParameters d node members) (Paths.sharedParameters d' node members') := by
  simp only [Paths.sharedParameters]
  rw [hl]
  split
  case h_1 => exact .refl _
  case h_2 => exact h.declaredList _ _
  case h_3 => exact .refl _

end Document.Similar

namespace Paths

theorem isPlain_of_ofKey? {key : String} {method : Method} (h : Method.ofKey? key = some method) :
    isPlain key := by
  rw [← Method.key_of_ofKey? h]
  cases method <;> decide +kernel

theorem filter_isPassive_eq (hk : ∀ name ∈ members.names, isPassive name = false → isPlain name)
    (hf : members.filter (isPlain ·.1) = members'.filter (isPlain ·.1))
    (hn : members.names.Perm members'.names) :
    members.filter (!isPassive ·.1) = members'.filter (!isPassive ·.1) := by
  have hplain {l : Members} (hk : ∀ name ∈ l.names, isPassive name = false → isPlain name) :
      l.filter (!isPassive ·.1) = (l.filter (isPlain ·.1)).filter (!isPassive ·.1) := by
    rw [List.filter_filter]
    refine List.filter_congr fun m hm => ?_
    cases hp : isPassive m.1
    case false => simp [hk m.1 (List.mem_map_of_mem hm) hp]
    case true  => rfl
  rw [hplain hk, hplain fun name hm => hk name (hn.mem_iff.mpr hm), hf]

end Paths

namespace Document.Similar

variable (h : d.Similar d')
include h

theorem itemOperations_of_eq (hl : members.lookup "parameters" = members'.lookup "parameters")
    (hf : members.filter (!Paths.isPassive ·.1) = members'.filter (!Paths.isPassive ·.1))
    (node : Pointer) :
    Alike Eq (Paths.itemOperations d node members) (Paths.itemOperations d' node members') := by
  simp only [Paths.itemOperations]
  refine .bind_eq (h.sharedParameters hl node) fun shared => ?_
  rw [hf]
  refine .mapM_eq ?_
  rintro ⟨key, v⟩ _
  dsimp only
  split
  case h_1 => exact h.operation _ _ _ _
  case h_2 => exact .refl _

-- An operation has a plain key. So an item with a key that is neither plain nor passive is refused,
-- and of any other item the plain members are read.
theorem itemOperations (hv : (Json.obj members).Alike (.obj members')) (node : Pointer) :
    Alike Eq (Paths.itemOperations d node members) (Paths.itemOperations d' node members') := by
  cases hv
  case refl => exact h.itemOperations_of_eq rfl rfl node
  case obj hl hf hn =>
    by_cases hk : ∀ name ∈ members.names, Paths.isPassive name = false → Paths.isPlain name
    case pos =>
      exact h.itemOperations_of_eq (hl _ (by decide)) (Paths.filter_isPassive_eq hk hf hn) node
    case neg =>
      simp only [not_forall] at hk
      have ⟨name, hm, hp, hk⟩ := hk
      have hfail {d : Document} {l : Members} (hm : name ∈ l.names) (operations : List Operation) :
          Paths.itemOperations d node l ≠ .ok operations := by
        intro ho
        have ⟨_, hmethod⟩ := Paths.method_of_itemOperations ho hm hp
        exact hk (Paths.isPlain_of_ofKey? hmethod)
      exact .of_not_ok (hfail hm) (hfail (hn.mem_iff.mp hm))

theorem pathItem (node : Pointer) (v : Json) :
    Alike Eq (Paths.pathItem d node v) (Paths.pathItem d' node v) := by
  rw [Paths.pathItem_eq, Paths.pathItem_eq]
  refine .bind (h.follow (.refl v) node) ?_
  rintro ⟨node, v⟩ ⟨_, v'⟩ ⟨he, hv⟩
  subst he
  cases v
  case obj =>
    cases v'
    case obj => exact h.itemOperations hv node
    all_goals cases hv
  all_goals cases hv; exact .refl _

theorem entry (template : String) (node : Pointer) (v : Json) :
    Alike Eq (Paths.entry d template node v) (Paths.entry d' template node v) := by
  simp only [Paths.entry]
  split
  case isTrue  => exact .bind_eq (h.pathItem node v) fun _ => .refl _
  case isFalse => exact .refl _

end Document.Similar

namespace Document

variable {paths paths' : Members} {entries : List PathEntry}

theorem not_isPlain_of_paths_eq_ok (hg : d.get? ⟨["paths"]⟩ = some (.obj paths))
    (h : d.paths = .ok entries) :
    ∀ name ∈ paths.names, ¬Paths.isPlain name := by
  intro name hm hp
  obtain ⟨⟨_, v⟩, hv, he⟩ := List.mem_map.mp hm
  subst he
  simp only [Paths.isPlain, Bool.and_eq_true] at hp
  rw [paths_eq hg] at h
  obtain ⟨_, _, he⟩ := exists_of_mapM_eq_ok h (List.mem_filter.mpr ⟨hv, hp.right⟩)
  simp [(entry_eq_ok he).left] at hp

-- Each path is read for itself, so the entries come in the order of the paths.
theorem Similar.exists_paths_eq_ok (h : d.Similar d') (hg : d.get? ⟨["paths"]⟩ = some (.obj paths))
    (hg' : d'.get? ⟨["paths"]⟩ = some (.obj paths')) (hp : paths.Perm paths')
    (ho : d.paths = .ok entries) :
    ∃ entries', d'.paths = .ok entries' ∧ entries.Perm entries' := by
  rw [paths_eq hg] at ho
  rw [paths_eq hg']
  refine exists_perm_of_mapM_eq_ok (hp.filter _) ?_
  exact (Alike.mapM_eq fun _ _ => h.entry _ _ _).eq_ok_iff.mp ho

theorem exists_paths_of_reordered {value value' : Yaml.Value} (hd : ofValue value = .ok d)
    (hd' : ofValue value' = .ok d') (h : d.root.Reordered d'.root) (ho : d.paths = .ok entries) :
    d.Similar d' ∧ ∃ entries', d'.paths = .ok entries' ∧ entries.Perm entries' := by
  have ⟨hv, hdialect⟩ := distinct_ofValue hd
  have ⟨hv', hdialect'⟩ := distinct_ofValue hd'
  have ⟨root, _⟩ := d
  have ⟨root', _⟩ := d'
  cases h
  case refl =>
    cases hdialect.symm.trans hdialect'
    exact ⟨.refl _, entries, ho, .rfl⟩
  case paths before after hp =>
    have hg {paths : Members} {dialect : Dialect}
      (hv : (Json.withPaths before paths after).Distinct) :
        (Document.mk (Json.withPaths before paths after) dialect).get? ⟨["paths"]⟩ =
          some (.obj paths) := by
      simp [Document.get?, Pointer.lookup?, Json.step?_withPaths hv]
    have hk := not_isPlain_of_paths_eq_ok (hg hv) ho
    have hs := similar_of_withPaths rfl rfl hv hv' hdialect hdialect' hp hk
    exact ⟨hs, hs.exists_paths_eq_ok (hg hv) (hg hv') hp ho⟩

end Document
end ApiDescriptors
