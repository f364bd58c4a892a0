import ApiDescriptors.Main
import ApiDescriptors.Proofs.Positions
import ApiDescriptors.Proofs.Result
import ApiDescriptors.Proofs.Document
import ApiDescriptors.Proofs.Schema.Loading
import ApiDescriptors.Proofs.Schema.Chains
import ApiDescriptors.Proofs.Schema.Table
import ApiDescriptors.Proofs.Schema.Resolution
import ApiDescriptors.Proofs.Schema.Discovery
import ApiDescriptors.Proofs.Namespace
import ApiDescriptors.Proofs.Serializer
import ApiDescriptors.Proofs.SuccessStatus
import ApiDescriptors.Proofs.Verb
import ApiDescriptors.Proofs.Endpoint
import ApiDescriptors.Proofs.Paths
import ApiDescriptors.Proofs.Reading
import ApiDescriptors.Proofs.Reordering.Values
import ApiDescriptors.Proofs.Reordering.Paths
import ApiDescriptors.Proofs.Reordering.Schemas
import ApiDescriptors.Proofs.Reordering.Resolution
import ApiDescriptors.Proofs.Reordering.Serializers
import ApiDescriptors.Proofs.Reordering.Verbs
import ApiDescriptors.Proofs.Registry.Build
import ApiDescriptors.Proofs.Registry.Closed
import ApiDescriptors.Proofs.Registry.Uses
import ApiDescriptors.Proofs.Registry.DependencyOrder
import ApiDescriptors.Proofs.Registry.Reordering
import ApiDescriptors.Proofs.FreshNames
import ApiDescriptors.Proofs.Operations
import ApiDescriptors.Proofs.Registry.Names
import ApiDescriptors.Proofs.Registry.Operations
import ApiDescriptors.Proofs.Registry.Routes
import ApiDescriptors.Proofs.Schema.Faithful
import ApiDescriptors.Proofs.Entries
import ApiDescriptors.Proofs.Locations
import ApiDescriptors.Proofs.Sites
import ApiDescriptors.Proofs.Places
import ApiDescriptors.Proofs.Schema.Nullability
import ApiDescriptors.Proofs.Registry.Places
import ApiDescriptors.Proofs.Registry.Nullability
import ApiDescriptors.Proofs.Utf8
import ApiDescriptors.Proofs.Percent
import ApiDescriptors.Proofs.Pointer
import ApiDescriptors.Proofs.Fragment
import ApiDescriptors.Proofs.Manifest
import ApiDescriptors.Proofs.Extension.Resolution
import ApiDescriptors.Proofs.Extension.Values
import ApiDescriptors.Proofs.Extension.Paths
import ApiDescriptors.Proofs.Extension.Schemas
import ApiDescriptors.Proofs.Registry.Unreferenced
import ApiDescriptors.Proofs.Registry.Extension
import ApiDescriptors.Proofs.Schema.Aliases
import ApiDescriptors.Proofs.Split
import ApiDescriptors.Proofs.FileTree
import ApiDescriptors.Proofs.Program
import ApiDescriptors.Proofs.Identifiers
import ApiDescriptors.Proofs.Registry.Identifiers
import ApiDescriptors.Proofs.Schema.Preorder
import ApiDescriptors.Proofs.Schema.FieldTypes
import ApiDescriptors.Proofs.Following
import ApiDescriptors.Proofs.Schema.Termination
import ApiDescriptors.Proofs.Calls
import ApiDescriptors.Proofs.Merging
import ApiDescriptors.Proofs.Inputs
import ApiDescriptors.Proofs.Inheritance
import ApiDescriptors.Proofs.Repetitions
import ApiDescriptors.Proofs.Splitting
import ApiDescriptors.Proofs.DeclaredNames
import ApiDescriptors.Proofs.Fields
import ApiDescriptors.Proofs.Disputes
import ApiDescriptors.Proofs.Registry.Clashes
import ApiDescriptors.Proofs.Registry.Culprits
import ApiDescriptors.Proofs.Schema.Descriptions
