import AssemblyGraph.Session.Step
import AssemblyGraph.Proofs.Identity.Chain
import AssemblyGraph.Proofs.Graph.Growth
import AssemblyGraph.Proofs.Matching.Rank
import AssemblyGraph.Proofs.OrderedMap
import AssemblyGraph.Proofs.Registry.Keyed
import AssemblyGraph.Proofs.Session.Run
import AssemblyGraph.Proofs.Session.Move
import AssemblyGraph.Proofs.Except
import AssemblyGraph.Proofs.Ownership
import AssemblyGraph.Proofs.Factory
import AssemblyGraph.Proofs.Session.Perform
import AssemblyGraph.Proofs.Matching.Scan
import AssemblyGraph.Proofs.Session.Keyed
import AssemblyGraph.Proofs.Matching.Registries
import AssemblyGraph.Proofs.Registry.Registered
import AssemblyGraph.Proofs.TargetModule.Ledger
import AssemblyGraph.Proofs.Session.MemberTable
import AssemblyGraph.Proofs.Session.CachedImport
import AssemblyGraph.Proofs.Factory.Checks
import AssemblyGraph.Proofs.Factory.Validation
import AssemblyGraph.Proofs.Graph.Release
import AssemblyGraph.Proofs.Session.Settled
import AssemblyGraph.Proofs.Session.Annotation
import AssemblyGraph.Proofs.Factory.Arguments
import AssemblyGraph.Proofs.Session.Records
import AssemblyGraph.Proofs.Session.RegistryLog
import AssemblyGraph.Proofs.Session.RegistryIndex
import AssemblyGraph.Proofs.Registry.Call
import AssemblyGraph.Proofs.Session.Registration
import AssemblyGraph.Proofs.TargetModule.Rows
import AssemblyGraph.Proofs.Session.MemberRows
import AssemblyGraph.Proofs.Matching.Script
import AssemblyGraph.Proofs.Matching.Carries
import AssemblyGraph.Proofs.Matching.Bench
import AssemblyGraph.Proofs.Identity.Recursion
import AssemblyGraph.Proofs.Matching.Symmetry
import AssemblyGraph.Proofs.Identity.Members
import AssemblyGraph.Proofs.Graph.Grounded
import AssemblyGraph.Proofs.Session.Owners
import AssemblyGraph.Proofs.Session.Handles
import AssemblyGraph.Proofs.Session.Stability
import AssemblyGraph.Proofs.Session.Calls
import AssemblyGraph.Proofs.Session.CallOrder
import AssemblyGraph.Proofs.Graph.Lifetime
import AssemblyGraph.Proofs.Graph.Slots
import AssemblyGraph.Proofs.Session.Links
import AssemblyGraph.Proofs.Session.Cycles
import AssemblyGraph.Proofs.Matching.Coverage
import AssemblyGraph.Proofs.Factory.Attribute
import AssemblyGraph.Proofs.Session.FactoryLife
import AssemblyGraph.Proofs.Constructor.Traits
import AssemblyGraph.Proofs.Identity.FullName
import AssemblyGraph.Proofs.Session.Resolution
import AssemblyGraph.Proofs.Session.WellKnown
import AssemblyGraph.Proofs.Registry.Nesting
import AssemblyGraph.Proofs.Session.Nesting
import AssemblyGraph.Proofs.Session.TableOwner
import AssemblyGraph.Proofs.Session.ResolvedTable
import AssemblyGraph.Proofs.Constructor.Initializers
import AssemblyGraph.Proofs.Factory.Decoding
import AssemblyGraph.Proofs.Token.Text
import AssemblyGraph.Proofs.Identity.Parity
import AssemblyGraph.Proofs.Session.Forest
