import ApiDescriptors.Proofs.Schema.Loading

namespace ApiDescriptors

open Result

-- Reading a document finds faults that stand there, and none of the program.

variable {d : Document} {node : Pointer} {value : Json} {members : Members}

namespace Schema

theorem readable_stringMember (node : Pointer) (members : Members) (key : String) :
    (stringMember node members key).Readable := by
  simp only [stringMember]
  split
  · exact .ok _
  · exact .ok _
  · exact .error rfl

theorem readable_boolMember (node : Pointer) (members : Members) (key : String) :
    (boolMember node members key).Readable := by
  simp only [boolMember]
  split
  · exact .ok _
  · exact .ok _
  · exact .error rfl

theorem readable_isMarkedNullable (node : Pointer) (members : Members) :
    (isMarkedNullable node members).Readable := by
  refine .bind (readable_boolMember _ _ _) fun nullable _ => ?_
  cases nullable
  case true  => exact .pure _
  case false => exact readable_boolMember _ _ _

theorem readable_typeNames (node : Pointer) (names : List Json) :
    (typeNames node names).Readable := by
  induction names
  case nil => exact .ok _
  case cons name names hi =>
    cases name
    case str => exact .bind hi fun _ _ => .pure _
    all_goals exact .error rfl

theorem readable_typeName (node : Pointer) (members : Members) :
    (typeName node members).Readable := by
  simp only [typeName]
  split
  · exact .ok _
  · exact .ok _
  · refine .bind (readable_typeNames _ _) fun _ _ => ?_
    split
    · exact .pure _
    · exact .error rfl
  · exact .error rfl

theorem readable_kindOf (node : Pointer) (members : Members) (type : Option String) :
    (kindOf node members type).Readable := by
  simp only [kindOf]
  split
  · split
    · exact .ok _
    · exact .error rfl
  · split
    · exact .ok _
    · split
      · exact .ok _
      · exact .error rfl

theorem readable_propertiesOf (node : Pointer) (members : Members) :
    (propertiesOf node members).Readable := by
  simp only [propertiesOf]
  split
  · exact .ok _
  · exact .ok _
  · exact .error rfl

theorem readable_requiredNames (node : Pointer) (members : Members) :
    (requiredNames node members).Readable := by
  simp only [requiredNames]
  split
  · exact .ok _
  · refine .mapM fun _ _ => ?_
    split
    · exact .ok _
    · exact .error rfl
  · exact .error rfl

theorem readable_formOf (node : Pointer) (members : Members) (kind : Kind) :
    (formOf node members kind).Readable := by
  cases kind
  case object =>
    exact .bind (readable_propertiesOf _ _) fun _ _ =>
      .bind (readable_requiredNames _ _) fun _ _ => .pure _
  case scalar => exact .ok _
  case array  =>
    simp only [formOf]
    split
    · exact .ok _
    · exact .error rfl

theorem readable_choicesOf (node : Pointer) (members : Members) :
    (choicesOf node members).Readable := by
  simp only [choicesOf]
  split
  · exact .ok _
  · exact .ok _
  · exact .error rfl

theorem readable_readConcrete (node : Pointer) (members : Members) (description : Option String) :
    (readConcrete node members description).Readable := by
  refine .bind (readable_isMarkedNullable _ _) fun _ _ =>
    .bind (readable_typeName _ _) fun _ _ => ?_
  refine .bind (readable_kindOf _ _ _) fun _ _ => .bind (readable_stringMember _ _ _) fun _ _ => ?_
  exact .bind (readable_choicesOf _ _) fun _ _ => .bind (readable_formOf _ _ _) fun _ _ => .pure _

end Schema

theorem readable_reference? (node : Pointer) (value : Json) : (reference? node value).Readable := by
  simp only [reference?]
  split
  · exact .ok _
  · exact .ok _
  · exact .error rfl

namespace Document

theorem readable_target (d : Document) (holder : Pointer) (reference : String) :
    (d.target holder reference).Readable := by
  simp only [target]
  split
  · exact .error rfl
  · split
    · exact .ok _
    · exact .error rfl

theorem legible_followFrom (d : Document) (fuel : Nat) (chain : List Pointer) (node : Pointer)
    (value : Json) :
    (d.followFrom fuel chain node value).Legible := by
  induction fuel generalizing chain node value
  case zero => exact .error rfl
  case succ fuel hi =>
    refine .bind (readable_reference? _ _).legible fun reference _ => ?_
    cases reference
    case none => exact .pure _
    case some =>
      refine .bind (readable_target _ _ _).legible fun _ _ => ?_
      dsimp only
      split
      · exact .error rfl
      · exact hi _ _ _

theorem legible_follow (d : Document) (node : Pointer) (value : Json) :
    (d.follow node value).Legible := by
  refine .bind (readable_reference? _ _).legible fun reference _ => ?_
  cases reference
  case none => exact .pure _
  case some => exact legible_followFrom _ _ _ _ _

theorem readable_objectAt (d : Document) (node : Pointer) : (d.objectAt node).Readable := by
  simp only [objectAt]
  split
  · exact .ok _
  · exact .ok _
  · exact .ok _
  · exact .error rfl

end Document

theorem Schema.readable_read (d : Document) (node : Pointer) (value : Json) :
    (read d node value).Readable := by
  simp only [read]
  split
  case h_2 => exact .error rfl
  case h_1 =>
    refine .bind (readable_stringMember _ _ _) fun _ _ =>
      .bind (readable_reference? _ _) fun reference _ => ?_
    cases reference
    case some => exact .bind (d.readable_target _ _) fun _ _ => .pure _
    case none =>
      dsimp only
      split
      · exact .error rfl
      · split
        · exact readable_readConcrete _ _ _
        · exact .pure _
        · exact .error rfl

theorem SchemaGraph.readable_namedSchemas (d : Document) : (namedSchemas d).Readable := by
  refine .bind (d.readable_objectAt _) fun members _ => ?_
  cases members <;> exact .pure _

theorem SchemaGraph.legible_load (d : Document) (paths : List PathEntry) :
    (load d paths).Legible := by
  intro e he
  obtain he | ⟨_, p, _, _, he⟩ := load_eq_error he
  case inl => exact (readable_namedSchemas d).legible e he
  case inr =>
    simp only [Document.schemaAt] at he
    split at he
    case h_1 => cases he; rfl
    case h_2 => exact (Schema.readable_read _ _ _).legible e he

-- Paths

namespace Paths

theorem legible_declared (d : Document) (node : Pointer) (value : Json) :
    (declared d node value).Legible := by
  refine .bind (d.legible_follow _ _) fun _ _ => .bind (.readAt fun _ => rfl) fun _ _ => ?_
  dsimp only
  split
  · split
    · exact .error rfl
    · exact .pure _
  · split
    · exact .error rfl
    · exact .pure _

theorem legible_declaredList (d : Document) (list : Pointer) (values : List Json) :
    (declaredList d list values).Legible :=
  .mapM fun _ _ => legible_declared _ _ _

theorem Inputs.legible_ofDeclared (operation : Pointer) (own inherited : List Declared) :
    (ofDeclared operation own inherited).Legible := by
  refine .bind (.foldlM (fun inputs item _ => ?_) _) fun _ _ => .pure _
  simp only [addOwn]
  cases item <;> dsimp only
  all_goals
    split
    · exact .error rfl
    · exact .ok _

theorem legible_requestBody (d : Document) (node : Pointer) (value : Json) :
    (requestBody d node value).Legible := by
  refine .bind (d.legible_follow _ _) fun _ _ => .bind (.readAt fun _ => rfl) fun _ _ => ?_
  split
  · exact .error rfl
  · exact .pure _

theorem legible_response (d : Document) (status : String) (node : Pointer) (value : Json) :
    (response d status node value).Legible := by
  refine .bind (d.legible_follow _ _) fun _ _ => .bind (.readAt fun _ => rfl) fun _ _ => ?_
  dsimp only
  split <;> exact .pure _

theorem legible_operation (d : Document) (inherited : List Declared) (method : Method)
    (node : Pointer) (value : Json) : (operation d inherited method node value).Legible := by
  refine .bind (.readAt fun _ => rfl) fun object _ => ?_
  refine .bind (legible_declaredList _ _ _) fun _ _ => ?_
  refine .bind (Inputs.legible_ofDeclared _ _ _) fun _ _ => ?_
  dsimp only
  split
  · refine .bind (.map (legible_requestBody _ _ _)) fun _ _ => ?_
    exact .bind (.mapM fun _ _ => legible_response _ _ _ _) fun _ _ => .pure _
  · exact .bind (.pure _) fun _ _ =>
      .bind (.mapM fun _ _ => legible_response _ _ _ _) fun _ _ => .pure _

theorem legible_sharedParameters (d : Document) (node : Pointer) (item : Members) :
    (sharedParameters d node item).Legible := by
  simp only [sharedParameters]
  split
  · exact .ok _
  · exact legible_declaredList _ _ _
  · exact .error rfl

theorem legible_pathItem (d : Document) (node : Pointer) (value : Json) :
    (pathItem d node value).Legible := by
  refine .bind (d.legible_follow _ _) fun ⟨_, value⟩ _ => ?_
  dsimp only
  split
  case h_2 => exact .error rfl
  case h_1 =>
    refine .bind (legible_sharedParameters _ _ _) fun _ _ => .mapM fun _ _ => ?_
    split
    · exact legible_operation _ _ _ _ _
    · exact .error rfl

theorem legible_entry (d : Document) (template : String) (node : Pointer) (value : Json) :
    (entry d template node value).Legible := by
  simp only [entry]
  split
  · exact .bind (legible_pathItem _ _ _) fun _ _ => .pure _
  · exact .error rfl

end Paths

theorem Document.legible_paths (d : Document) : d.paths.Legible := by
  refine .bind (d.readable_objectAt _).legible fun members _ => ?_
  cases members
  case none => exact .pure _
  case some => exact .mapM fun _ _ => Paths.legible_entry _ _ _ _

end ApiDescriptors
