import KVTiering.Soundness.LocationCache
import KVTiering.Soundness.Placement
import KVTiering.Soundness.PoolDrain
import KVTiering.Soundness.PoolShutdown
import KVTiering.Soundness.LifecycleCoherence
import KVTiering.Soundness.ExpirationGate
import KVTiering.Soundness.Expiration
import KVTiering.Soundness.Finalization
import KVTiering.Soundness.SpanBounds
import KVTiering.Soundness.PlanAcceptance
import KVTiering.Soundness.AscendTransfer
import KVTiering.Soundness.LookupFreshness
import KVTiering.Soundness.DeletedKeys
import KVTiering.Soundness.JobDrain
import KVTiering.Soundness.Integrity
import KVTiering.Soundness.SessionPruning
import KVTiering.Soundness.ReuseCounts
import KVTiering.Soundness.IdleBlocks
import KVTiering.Soundness.Transfers
import KVTiering.Soundness.PlainWrites
import KVTiering.Soundness.PlainReads
import KVTiering.Soundness.LookupAgreement
import KVTiering.Soundness.TierDeletion
import KVTiering.Soundness.BlockFiles
import KVTiering.Soundness.SelfHealing
import KVTiering.Soundness.LookupBookkeeping
import KVTiering.Soundness.OwnershipIndex
import KVTiering.Soundness.PressureSelection
import KVTiering.Soundness.WakeUps
import KVTiering.Soundness.StoreLocks
import KVTiering.Soundness.StatementAtomicity
import KVTiering.Soundness.StreamOverlap
import KVTiering.Soundness.StreamRoundTrip
import KVTiering.Soundness.StreamShutdown
import KVTiering.Soundness.SharedContents
import KVTiering.Soundness.PoolProgress
import KVTiering.Soundness.IdleHistory
import KVTiering.Soundness.Snapshots
import KVTiering.Soundness.TierShutdown
import KVTiering.Soundness.PoolOrder
import KVTiering.Soundness.Temporaries
import KVTiering.Soundness.MemoryFrame
import KVTiering.Soundness.FileIntegrity
