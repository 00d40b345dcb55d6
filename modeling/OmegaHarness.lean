import OmegaHarness.FiniteCollisions
import OmegaHarness.FixedWidthBytes
import OmegaHarness.LayeredTree
import OmegaHarness.DomainHashes
import OmegaHarness.MerkleTreeV1
import OmegaHarness.BabyBearField
import OmegaHarness.ClaimTypes
import OmegaHarness.ProofPublicValues
import OmegaHarness.ClaimVerifier
import OmegaHarness.Blake3Compression
import OmegaHarness.MembershipRelation
import OmegaHarness.PaddingForgery
import OmegaHarness.MembershipAir
import OmegaHarness.LookupHashes
import OmegaHarness.AirSoundness
import OmegaHarness.CellWrites
import OmegaHarness.MembershipTrace
import OmegaHarness.AirCompleteness
import OmegaHarness.FaultyTransactions
import OmegaHarness.KeyedTables
import OmegaHarness.LedgerStore
import OmegaHarness.RaftTypes
import OmegaHarness.ClaimApplication
import OmegaHarness.LedgerWriter
import OmegaHarness.LedgerHistory
import OmegaHarness.EnvelopeCodec
import OmegaHarness.MintedValues
import OmegaHarness.ClaimUniqueness
import OmegaHarness.SubmittedCommitments
import OmegaHarness.RaftStorage
import OmegaHarness.VoteSurvival
import OmegaHarness.FaultStreams
import OmegaHarness.ClaimStatements
import OmegaHarness.CommitPrefixes
import OmegaHarness.EntryCommits
import OmegaHarness.ReplicaAgreement
import OmegaHarness.CrashRecovery
import OmegaHarness.MembershipRecovery
import OmegaHarness.SnapshotInterleaving
import OmegaHarness.CurrentSnapshot
import OmegaHarness.RestoreFailure
import OmegaHarness.RaftLogStore
import OmegaHarness.RootBinding
import OmegaHarness.MembershipExactness
import OmegaHarness.ByteFraming
import OmegaHarness.LeafEncodings
import OmegaHarness.BundleAssembly
import OmegaHarness.CollectionProver
import OmegaHarness.SemanticKeys
import OmegaHarness.CommitCommand
import OmegaHarness.SnapshotReceiver
import OmegaHarness.SnapshotTransfer
import OmegaHarness.ByteDecoders
import OmegaHarness.CborHeads
import OmegaHarness.ClaimCodec
import OmegaHarness.ClaimEnvelope
import OmegaHarness.LedgerIngest
import OmegaHarness.HostileLengths
import OmegaHarness.BatchSplits
import OmegaHarness.DuplicatePayloads
import OmegaHarness.ReplayClasses
import OmegaHarness.DecoderViews
import OmegaHarness.SnapshotWalkers
import OmegaHarness.TokenTotals
import OmegaHarness.WalkerAgreement
import OmegaHarness.ForeignFrames
import OmegaHarness.FaultyFiles
import OmegaHarness.FaultyReceiver
import OmegaHarness.ChunkRetries
import OmegaHarness.InstallCrashes
import OmegaHarness.AssetOrder
import OmegaHarness.GovernanceEntries
import OmegaHarness.ScriptRegistry
import OmegaHarness.AssetMapForms
import OmegaHarness.LegacyWitnesses
import OmegaHarness.MirroredRoots
import OmegaHarness.BindingDigest
import OmegaHarness.Blake3Trace
import OmegaHarness.LookupBalance
import OmegaHarness.CheckedLayers
import OmegaHarness.CheckedRuns
import OmegaHarness.Blake3Spec
import OmegaHarness.CompressionRecords
import OmegaHarness.BoundedActors
import OmegaHarness.WriterActor
import OmegaHarness.RpcFrames
import OmegaHarness.RaftRpc
import OmegaHarness.ActorOrder
import OmegaHarness.RaftSwarm
import OmegaHarness.SwarmInvariant
import OmegaHarness.SwarmSafety
import OmegaHarness.AbsorbingLogs
import OmegaHarness.ClusterRuns
import OmegaHarness.ClusterSafety
import OmegaHarness.BundleVerification
import OmegaHarness.IngestedTrees
import OmegaHarness.ClaimSubmission
import OmegaHarness.ClaimPipeline
import OmegaHarness.NodeConfigs
import OmegaHarness.NodeStart
import OmegaHarness.ClusterBootstrap
import OmegaHarness.PeerDiscovery
import OmegaHarness.FieldAdapters
