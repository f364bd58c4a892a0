import ApiDescriptors.Proofs.Paths
import ApiDescriptors.Proofs.Record
import ApiDescriptors.Proofs.Reference

namespace ApiDescriptors

open Result

-- An operation as a path item declares it.
structure Declaration where
  method     : Method
  node       : Pointer
  standalone : Bool
deriving DecidableEq

def Operation.declaration (op : Operation) : Declaration where
  method     := op.method
  node       := op.node
  standalone := op.object.standalone

namespace Paths

variable {d : Document} {node : Pointer} {item : Members} {v : Json} {operations : List Operation}

-- The operations of a path item at a node, in the order of its members.
def declarations (node : Pointer) (item : Members) : List Declaration :=
  item.filterMap fun (key, value) => (Method.ofKey? key).map fun method =>
    { method, node := node.child key, standalone := OperationObject.isStandalone value }

theorem isPassive_of_ofKey? {key : String} {method : Method} (h : Method.ofKey? key = some method) :
    isPassive key = false := by
  rw [← Method.key_of_ofKey? h]
  cases method <;> decide +kernel

theorem declaration_of_operation {inherited : List Declared} {method : Method} {op : Operation}
    (hv : v.Distinct) (h : operation d inherited method node v = .ok op) :
    op.declaration =
      { method, node, standalone := OperationObject.isStandalone v : Declaration } := by
  have ⟨hm, hn, ho⟩ := operation_eq_ok h
  rw [Operation.declaration, hm, hn, OperationObject.standalone_of_readAt hv ho]

-- Members that are no operations are passive, or the item is refused.
theorem declarations_of_itemOperations (hi : item.Distinct)
    (h : itemOperations d node item = .ok operations) :
    operations.map (·.declaration) = declarations node item := by
  have ⟨_, _, h⟩ := bind_eq_ok.mp h
  have hactive : declarations node item = declarations node (item.filter (!isPassive ·.1)) := by
    rw [declarations, declarations, List.filterMap_filter]
    refine List.filterMap_congr fun m _ => ?_
    cases hk : Method.ofKey? m.1
    case none   => simp [hk]
    case some _ => simp [hk, isPassive_of_ofKey? hk]
  rw [hactive]
  refine (filterMap_eq_of_mapM_eq_ok h fun m hm op ho => ?_).symm
  dsimp only at ho ⊢
  split at ho
  case h_1 hk =>
    rw [hk, declaration_of_operation (hi.values m (List.mem_of_mem_filter hm)) ho, Option.map_some]
  case h_2    => cases ho

theorem declarations_of_pathItem (hd : d.root.Distinct) (hv : v.Distinct)
    (h : pathItem d node v = .ok operations) :
    ∃ n item, d.Denotes node v n (.obj item) ∧
      operations.map (·.declaration) = declarations n item := by
  rw [pathItem_eq] at h
  have ⟨⟨n, w⟩, hf, h⟩ := bind_eq_ok.mp h
  have hw := Document.distinct_follow hd hv hf
  cases w <;> simp only [Json.obj?] at h
  case obj item =>
    exact ⟨n, item, Document.denotes_follow hf, declarations_of_itemOperations hw.of_obj h⟩
  all_goals cases h

end Paths

-- A path with the operations that are declared for it.
structure Row where
  path         : String
  declarations : List Declaration
deriving DecidableEq

def PathEntry.row (entry : PathEntry) : Row where
  path         := entry.template
  declarations := entry.operations.map (·.declaration)

namespace Document

variable {d : Document} {rows rows' : List Row} {entries : List PathEntry}

-- What a member of the path table declares.
structure DeclaresRow (d : Document) (m : String × Json) (row : Row) : Prop where
  path         : row.path = m.1
  declarations : ∃ node item, d.Denotes (.child ⟨["paths"]⟩ m.1) m.2 node (.obj item) ∧
    row.declarations = Paths.declarations node item

-- The paths of a document with their operations.
def Declares (d : Document) (rows : List Row) : Prop :=
  List.Forall₂ d.DeclaresRow d.pathTable rows

theorem DeclaresRow.unique {m : String × Json} {row row' : Row} (h : d.DeclaresRow m row)
    (h' : d.DeclaresRow m row') : row = row' := by
  have ⟨hp, _, _, hn, hr⟩ := h
  have ⟨hp', _, _, hn', hr'⟩ := h'
  have ⟨he, hi⟩ := hn.unique hn'
  cases hi
  cases row
  cases row'
  simp_all

theorem Declares.unique (h : d.Declares rows) (h' : d.Declares rows') : rows = rows' :=
  List.right_unique_forall₂' (R := d.DeclaresRow) (fun _ _ _ => DeclaresRow.unique) h h'

theorem declares_paths (hd : d.root.Distinct) (h : d.paths = .ok entries) :
    d.Declares (entries.map (·.row)) := by
  have hm := (List.forall₂_and_left d.pathTable entries).mpr
    ⟨fun _ => id, mapM_eq_ok.mp (paths_eq_ok h)⟩
  refine List.forall₂_map_right_iff.mpr (hm.imp fun m entry ⟨hm, he⟩ => ?_)
  have ⟨_, hp, hi⟩ := entry_eq_ok he
  have hv := (distinct_pathTable hd).values m hm
  exact ⟨hp, Paths.declarations_of_pathItem hd hv hi⟩

end Document
end ApiDescriptors
