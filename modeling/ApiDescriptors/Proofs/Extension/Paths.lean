import ApiDescriptors.Proofs.Extension.Values
import ApiDescriptors.Proofs.Sites

namespace ApiDescriptors

open Result

namespace Document.Within

variable {d d' : Document} {node : Pointer} {v : Json} {members : Members}
variable (h : d.Within d')
include h

theorem target {text : String} (ht : text ∈ d.root.textsAt "$ref") (holder : Pointer) :
    Kept (d.target holder text) (d'.target holder text) := by
  intro ⟨q, w⟩ he
  have ⟨hp, hg⟩ := Schema.target_eq_ok he
  simp only [Document.target, hp, h.kept q w (h.outside text ht q hp) hg]

-- A way along references is no longer than before, so the limit on it does not end it.
theorem followFrom {fuel fuel' : Nat} (hf : fuel ≤ fuel') (hv : d.Noted node v)
    (chain : List Pointer) :
    Kept (d.followFrom fuel chain node v) (d'.followFrom fuel' chain node v) := by
  induction fuel generalizing fuel' chain node v
  case zero => exact nofun
  case succ fuel hi =>
    obtain ⟨fuel', rfl⟩ := Nat.exists_eq_add_of_le' (Nat.one_le_of_lt hf)
    refine .bind (.refl _) fun reference hr => ?_
    have hr := Schema.get?_of_reference?_eq_ok hr
    cases reference
    case none => exact .refl _
    case some text =>
      have ht := hv.textsAt_subset (Json.mem_textsAt_of_get? hr)
      refine .bind (h.target ht node) fun ⟨next, w⟩ ht => ?_
      have ⟨hp, hg⟩ := Schema.target_eq_ok ht
      dsimp only
      split
      case isTrue  => exact .refl _
      case isFalse => exact hi (Nat.le_of_succ_le_succ hf) (hv.reference hr hp hg) _

theorem follow (hv : d.Noted node v) : Kept (d.follow node v) (d'.follow node v) := by
  refine .bind (.refl _) fun reference _ => ?_
  cases reference
  case none => exact .refl _
  case some => exact h.followFrom h.limit hv _

theorem declared (hv : d.Noted node v) :
    Kept (Paths.declared d node v) (Paths.declared d' node v) := by
  refine .bind (h.follow hv) fun ⟨n, w⟩ _ => ?_
  rw [h.dialect]
  exact .refl _

theorem declaredList {values : List Json} (hv : Paths.NotedItems d node values) :
    Kept (Paths.declaredList d node values) (Paths.declaredList d' node values) :=
  .mapM fun x hx => h.declared (hv x hx)

theorem requestBody (hv : d.Noted node v) :
    Kept (Paths.requestBody d node v) (Paths.requestBody d' node v) :=
  .bind (h.follow hv) fun _ _ => .refl _

theorem response (status : String) (hv : d.Noted node v) :
    Kept (Paths.response d status node v) (Paths.response d' status node v) :=
  .bind (h.follow hv) fun _ _ => .refl _

theorem operation (inherited : List Declared) (method : Method) (hv : d.Noted node v) :
    Kept (Paths.operation d inherited method node v)
      (Paths.operation d' inherited method node v) := by
  simp only [Paths.operation]
  refine .bind (.refl _) fun object ho => ?_
  have hr (l : Members) (hl : l ⊆ object.responses) : Kept
      (l.mapM fun m => Paths.response d m.1 ((node.child "responses").child m.1) m.2)
      (l.mapM fun m => Paths.response d' m.1 ((node.child "responses").child m.1) m.2) :=
    .mapM fun m hm => h.response m.1 (Paths.noted_of_mem_responses h.distinct hv ho (hl hm))
  refine .bind (h.declaredList (Paths.notedItems_parameters h.distinct hv ho)) fun own _ =>
    .bind (.refl _) fun inputs _ => ?_
  split
  case h_1 value hb =>
    refine .bind (.map (h.requestBody (Paths.noted_requestBody h.distinct hv ho hb))) fun _ _ => ?_
    exact .bind (hr _ (List.filter_subset_self _)) fun _ _ => .refl _
  case h_2 =>
    refine .bind (.refl _) fun _ _ => ?_
    exact .bind (hr _ (List.filter_subset_self _)) fun _ _ => .refl _

theorem sharedParameters (hv : d.Noted node (.obj members)) :
    Kept (Paths.sharedParameters d node members) (Paths.sharedParameters d' node members) := by
  simp only [Paths.sharedParameters]
  split
  case h_1    => exact .refl _
  case h_2 hl => exact h.declaredList (Paths.notedItems_of_arr (hv.member hl))
  case h_3    => exact .refl _

theorem pathItem (hv : d.Noted node v) :
    Kept (Paths.pathItem d node v) (Paths.pathItem d' node v) := by
  rw [Paths.pathItem_eq, Paths.pathItem_eq]
  refine .bind (h.follow hv) fun ⟨n, w⟩ hf => ?_
  have hw := hv.follow hf
  cases w
  case obj item =>
    refine .bind (h.sharedParameters hw) fun shared _ => .mapM fun ⟨key, u⟩ hm => ?_
    have hl := lookup_of_mem (hw.distinct h.distinct).of_obj.nodup
      (List.mem_of_mem_filter hm)
    dsimp only
    split
    case h_1 => exact h.operation shared _ (hw.member hl)
    case h_2 => exact .refl _
  all_goals exact .refl _

theorem entry (template : String) (hv : d.Noted node v) :
    Kept (Paths.entry d template node v) (Paths.entry d' template node v) := by
  simp only [Paths.entry]
  split
  case isTrue  => exact .bind (h.pathItem hv) fun _ _ => .refl _
  case isFalse => exact .refl _

-- The operations are read from what both documents have.
theorem kept_paths : Kept d.paths d'.paths := by
  have hobject : d'.objectAt ⟨["paths"]⟩ = d.objectAt ⟨["paths"]⟩ := by
    simp only [objectAt, h.paths]
  simp only [Document.paths, hobject]
  refine .bind (.refl _) fun members ho => ?_
  cases members
  case none => exact .refl _
  case some members =>
    refine .mapM ?_
    rintro ⟨template, v⟩ hm
    refine h.entry template (noted_of_mem_pathTable h.distinct ?_)
    rw [pathTable, get?_of_objectAt_eq_ok ho]
    exact hm

end Document.Within
end ApiDescriptors
