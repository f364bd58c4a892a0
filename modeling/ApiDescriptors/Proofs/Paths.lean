import ApiDescriptors.Proofs.Reference

namespace ApiDescriptors

open Result

variable {d : Document} {node n : Pointer} {v w : Json} {members : Members}

theorem Method.key_of_ofKey? {key : String} {method : Method} (h : ofKey? key = some method) :
    method.key = key := by
  simpa using List.find?_some h

namespace Document

theorem distinct_follow (hd : d.root.Distinct) (hv : v.Distinct)
    (h : d.follow node v = .ok (n, w)) : w.Distinct :=
  (denotes_follow h).distinct hd hv

end Document

namespace Paths

-- What a path item at a node declares that is an object.
def itemOperations (d : Document) (node : Pointer) (item : Members) : Result (List Operation) := do
  let shared ← sharedParameters d node item
  (item.filter (!isPassive ·.1)).mapM fun (key, value) =>
    match Method.ofKey? key with
    | some method => operation d shared method (node.child key) value
    | none        => refuse (node.child key) (.unknownPathItemField key)

theorem pathItem_eq (d : Document) (node : Pointer) (v : Json) :
    pathItem d node v = d.follow node v >>= fun (node, v) =>
      match v.obj? with
      | some item => itemOperations d node item
      | none      => refuse node .pathItemNotObject := by
  simp only [pathItem, itemOperations]
  congr
  funext x
  obtain ⟨node, v⟩ := x
  cases v <;> rfl

theorem method_of_itemOperations {operations : List Operation} {key : String}
    (h : itemOperations d node members = .ok operations) (hm : key ∈ members.names)
    (hp : isPassive key = false) :
    ∃ method, Method.ofKey? key = some method := by
  have ⟨⟨_, v⟩, hv, he⟩ := List.mem_map.mp hm
  subst he
  have ⟨_, _, h⟩ := bind_eq_ok.mp h
  have ⟨_, _, ho⟩ := exists_of_mapM_eq_ok h (List.mem_filter.mpr ⟨hv, by simp [hp]⟩)
  dsimp only at ho
  split at ho
  case h_1 => exact ⟨_, ‹_›⟩
  case h_2 => cases ho

theorem operation_eq_ok {inherited : List Declared} {method : Method} {op : Operation}
    (h : operation d inherited method node v = .ok op) :
    op.method = method ∧ op.node = node ∧ OperationObject.rules.readAt node v = .ok op.object := by
  have ⟨_, ho, h⟩ := bind_eq_ok.mp h
  have ⟨_, _, h⟩ := bind_eq_ok.mp h
  have ⟨_, _, h⟩ := bind_eq_ok.mp h
  dsimp only at h
  split at h
  all_goals
    have ⟨_, _, h⟩ := bind_eq_ok.mp h
    have ⟨_, _, h⟩ := bind_eq_ok.mp h
    cases pure_eq_ok.mp h
    exact ⟨rfl, rfl, ho⟩

theorem nodup_methods_pathItem {operations : List Operation} (hd : d.root.Distinct)
    (hv : v.Distinct) (h : pathItem d node v = .ok operations) :
    (operations.map (·.method)).Nodup := by
  rw [pathItem_eq] at h
  have ⟨⟨node, w⟩, hf, h⟩ := bind_eq_ok.mp h
  have hw := Document.distinct_follow hd hv hf
  cases w <;> simp only [Json.obj?] at h
  case obj item =>
    have ⟨_, _, h⟩ := bind_eq_ok.mp h
    have hkeys : operations.map (·.method.key) = (item.filter (!isPassive ·.1)).map (·.1) := by
      refine map_eq_of_mapM_eq_ok h fun ⟨key, _⟩ op ho => ?_
      dsimp only at ho
      split at ho
      case h_1 hk => rw [(operation_eq_ok ho).left, Method.key_of_ofKey? hk]
      case h_2    => cases ho
    have hn : ((item.filter (!isPassive ·.1)).map (·.1)).Nodup :=
      hw.of_obj.nodup.sublist (List.filter_sublist.map _)
    rw [← hkeys] at hn
    exact .of_map Method.key (by rwa [List.map_map])
  all_goals cases h

end Paths

namespace Document

variable {paths : Members} {entries : List PathEntry}

theorem get?_of_objectAt_eq_ok (h : d.objectAt node = .ok (some members)) :
    d.get? node = some (.obj members) := by
  simp only [objectAt] at h
  split at h <;> cases h
  assumption

theorem paths_eq (hg : d.get? ⟨["paths"]⟩ = some (.obj paths)) :
    d.paths = (paths.filter (!Paths.isExtension ·.1)).mapM fun (template, v) =>
      Paths.entry d template (Pointer.child ⟨["paths"]⟩ template) v := by
  simp only [Document.paths, objectAt, hg, ok_bind]

-- The members of the path table, without those of extensions.
def pathTable (d : Document) : Members :=
  (((d.get? ⟨["paths"]⟩).bind (·.obj?)).getD []).filter (!Paths.isExtension ·.1)

theorem distinct_pathTable (hd : d.root.Distinct) : d.pathTable.Distinct := by
  have ht : Members.Distinct (((d.get? ⟨["paths"]⟩).bind (·.obj?)).getD []) := by
    cases hg : (d.get? ⟨["paths"]⟩).bind (·.obj?)
    case none => exact Members.distinct_nil
    case some =>
      have ⟨v, hg, ho⟩ := Option.bind_eq_some_iff.mp hg
      cases v <;> cases ho
      exact (hd.lookup? hg).of_obj
  exact ⟨ht.nodup.sublist (List.filter_sublist.map _), fun m hm =>
    ht.values m (List.mem_of_mem_filter hm)⟩

-- Entries are what the members of the path table declare, one by one.
theorem paths_eq_ok (h : d.paths = .ok entries) :
    d.pathTable.mapM (fun (template, v) =>
      Paths.entry d template (Pointer.child ⟨["paths"]⟩ template) v) = .ok entries := by
  simp only [Document.paths, objectAt] at h
  rw [pathTable]
  split at h
  case h_1 hg => cases h; rw [hg]; rfl
  case h_2 hg => cases h; rw [hg]; rfl
  case h_3 hg => rw [hg]; exact h
  case h_4    => cases h

theorem entry_eq_ok {template : String} {entry : PathEntry}
    (h : Paths.entry d template node v = .ok entry) :
    template.startsWith "/" ∧ entry.template = template ∧
      Paths.pathItem d node v = .ok entry.operations := by
  simp only [Paths.entry] at h
  split at h
  case isTrue hs =>
    have ⟨_, hi, h⟩ := bind_eq_ok.mp h
    cases pure_eq_ok.mp h
    exact ⟨hs, rfl, hi⟩
  case isFalse => cases h

theorem nodup_templates (hd : d.root.Distinct) (h : d.paths = .ok entries) :
    (entries.map (·.template)).Nodup := by
  have ht : entries.map (·.template) = d.pathTable.names :=
    map_eq_of_mapM_eq_ok (paths_eq_ok h) fun _ _ he => (entry_eq_ok he).right.left
  exact ht ▸ (distinct_pathTable hd).nodup

-- A path with a method names one operation.
theorem nodup_operations (hd : d.root.Distinct) (h : d.paths = .ok entries) :
    (entries.flatMap fun entry => entry.operations.map fun op =>
      (entry.template, op.method)).Nodup := by
  refine List.nodup_flatMap.mpr ⟨fun entry hm => ?_,
    (List.pairwise_map.mp (nodup_templates hd h)).imp fun hne => ?_⟩
  case refine_1 =>
    have ⟨m, hm, he⟩ := mem_of_mapM_eq_ok (paths_eq_ok h) hm
    have hmethods :=
      Paths.nodup_methods_pathItem hd ((distinct_pathTable hd).values m hm)
        (entry_eq_ok he).right.right
    exact .of_map Prod.snd (by simpa [Function.comp_def] using hmethods)
  case refine_2 =>
    intro key hk hk'
    have ⟨_, _, he⟩ := List.mem_map.mp hk
    have ⟨_, _, he'⟩ := List.mem_map.mp hk'
    exact hne (Prod.ext_iff.mp (he.trans he'.symm)).left

end Document

-- A named schema is a member of the table of schemas.
theorem SchemaGraph.exists_of_mem_named {d : Document} {named : List Pointer} {p : Pointer}
    (hn : namedSchemas d = .ok named) (hp : p ∈ named) :
    ∃ members name v, d.get? d.schemaTable = some (.obj members) ∧
      members.lookup name = some v ∧ p = d.schemaTable.child name := by
  have ⟨members, ho, hn⟩ := bind_eq_ok.mp hn
  cases members <;> cases hn
  case none => cases hp
  case some members =>
    have ⟨name, hm, he⟩ := List.mem_map.mp hp
    have ⟨v, hl⟩ := Json.exists_lookup_of_mem_names hm
    exact ⟨members, name, v, Document.get?_of_objectAt_eq_ok ho, hl, he.symm⟩

end ApiDescriptors
