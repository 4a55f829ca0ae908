import GlassChain.Contracts.Budget
import GlassChain.Contracts.Engine
import GlassChain.Contracts.Rebuild
import GlassChain.Contracts.Terms
import GlassChain.Core.Aggregation
import GlassChain.Core.Authorization
import GlassChain.Core.Bft
import GlassChain.Core.CapabilityReplay
import GlassChain.Core.CarrierTargets
import GlassChain.Core.Certificate
import GlassChain.Core.Minable
import GlassChain.Core.Pin
import GlassChain.Core.PolicyScopes
import GlassChain.Core.PolicyTree
import GlassChain.Core.PoolDiscipline
import GlassChain.Core.TamperEvidence
import GlassChain.Core.Text
import GlassChain.Identity.Der
import GlassChain.Identity.Endorsements
import GlassChain.Identity.MspEvaluation
import GlassChain.Identity.MspRegistry
import GlassChain.Identity.OrganizationCustody
import GlassChain.Identity.Purposes
import GlassChain.Identity.Revocation
import GlassChain.Indexer.Csv
import GlassChain.Indexer.InMemory
import GlassChain.Indexer.Lineage
import GlassChain.Library.BigEndian
import GlassChain.Library.Calls
import GlassChain.Library.Expiring
import GlassChain.Library.KeyedMap
import GlassChain.Library.Metered
import GlassChain.Library.OrderedMap
import GlassChain.Library.Pins
import GlassChain.Library.Replay
import GlassChain.Library.Tasks
import GlassChain.Network.Admission
import GlassChain.Network.AfterCommit
import GlassChain.Network.Agreement
import GlassChain.Network.Automation
import GlassChain.Network.Backends
import GlassChain.Network.CatchUp
import GlassChain.Network.ChainRules
import GlassChain.Network.Cluster
import GlassChain.Network.CommitCertificate
import GlassChain.Network.Durability
import GlassChain.Network.Emissions
import GlassChain.Network.Equivocation
import GlassChain.Network.Evidence
import GlassChain.Network.Finality
import GlassChain.Network.Framing
import GlassChain.Network.FullRules
import GlassChain.Network.GeneratedIds
import GlassChain.Network.Journal
import GlassChain.Network.LeaderCertificate
import GlassChain.Network.Locking
import GlassChain.Network.Mining
import GlassChain.Network.Node
import GlassChain.Network.Offers
import GlassChain.Network.PeerPins
import GlassChain.Network.PostCommit
import GlassChain.Network.PrivateDelivery
import GlassChain.Network.PrivatePayload
import GlassChain.Network.Projection
import GlassChain.Network.QueryIndex
import GlassChain.Network.ReceiptRuns
import GlassChain.Network.Registry
import GlassChain.Network.Retention
import GlassChain.Network.Rounds
import GlassChain.Network.Storage
import GlassChain.Network.Submission
import GlassChain.Network.SyncGate
import GlassChain.Network.Unauthenticated
import GlassChain.Network.ViewChange
import GlassChain.Network.Voting
import GlassChain.Network.WatcherFold
import GlassChain.Network.WriteCoverage
import GlassChain.Network.WriteForm
import GlassChain.Network.WriteScopes
import GlassChain.Rpc.AdminGate
import GlassChain.Rpc.BlockStream
import GlassChain.Vm.CanonicalWrites
import GlassChain.Vm.OperationGas
import GlassChain.Vm.Wasm
import GlassChain.Workflows.Completion
import GlassChain.Workflows.Custody
import GlassChain.Workflows.Isolation
import GlassChain.Workflows.LotFlows
import GlassChain.Workflows.Progress
import GlassChain.Workflows.PurchaseFlow
