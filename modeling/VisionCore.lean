import VisionCore.Foundation.ForkChoice
import VisionCore.Foundation.OrderedMap
import VisionCore.Foundation.Outcome
import VisionCore.Chain.Promotion
import VisionCore.Chain.Transition
import VisionCore.Chain.Persistence
import VisionCore.Chain.Work
import VisionCore.Chain.Run
import VisionCore.Node.Recovery
import VisionCore.Node.Bootstrap
import VisionCore.Chain.Sample
import VisionCore.Node.Session
import VisionCore.Chain.Replay
import VisionCore.Chain.ForkChoice
import VisionCore.Chain.Rejection
import VisionCore.Chain.Verdict
import VisionCore.Chain.Totality
import VisionCore.Chain.Outcome
import VisionCore.Chain.Convergence
import VisionCore.Chain.Accounts
import VisionCore.Chain.Validity
import VisionCore.Chain.SnapshotContents
import VisionCore.Node.Restart
import VisionCore.Node.Reconstruct
import VisionCore.Node.Startup
import VisionCore.Chain.Crash
import VisionCore.Node.Crash
import VisionCore.Miner.Manager
import VisionCore.Types.Spending
import VisionCore.Chain.Supply
import VisionCore.Miner.Agreement
import VisionCore.Mempool.Pool
import VisionCore.Node.Mirror
import VisionCore.Chain.Nonces
import VisionCore.Chain.Conservation
import VisionCore.Chain.Reversal
import VisionCore.Mempool.WellFormed
import VisionCore.Mempool.Requeue
import VisionCore.Chain.Commitment
import VisionCore.Miner.Production
import VisionCore.P2p.Protocol
import VisionCore.P2p.PeerManager
import VisionCore.P2p.SessionRegistry
import VisionCore.P2p.SessionSteps
import VisionCore.P2p.SessionView
import VisionCore.P2p.Sessions
import VisionCore.Types.Binding
import VisionCore.Chain.Identity
import VisionCore.P2p.Address
import VisionCore.P2p.Messages
import VisionCore.Foundation.Interaction
import VisionCore.P2p.Connection
import VisionCore.P2p.LiveSync
import VisionCore.Node.Importers
import VisionCore.P2p.Download
import VisionCore.Foundation.Requests
import VisionCore.P2p.SessionActions
import VisionCore.P2p.InboundSession
import VisionCore.Foundation.Buckets
import VisionCore.Chain.KnownHashes
import VisionCore.Chain.OrphanIndex
import VisionCore.Chain.Completeness
import VisionCore.Mempool.Policy
import VisionCore.Chain.Transfer
import VisionCore.Node.Restore
import VisionCore.Chain.StateVector
import VisionCore.Foundation.Average
import VisionCore.Pow.Retarget
import VisionCore.Foundation.Halving
import VisionCore.Chain.Emission
import VisionCore.Foundation.Selection
import VisionCore.P2p.SyncTarget
import VisionCore.P2p.PeerNotes
import VisionCore.P2p.SessionSafety
import VisionCore.P2p.SeedSession
import VisionCore.Foundation.Codec
import VisionCore.Types.Bincode
import VisionCore.Foundation.Framing
import VisionCore.P2p.Wire
import VisionCore.P2p.Frames
import VisionCore.P2p.InboundStream
import VisionCore.Pow.Preimage
import VisionCore.Miner.Splice
import VisionCore.Node.Rooted
import VisionCore.Miner.Weight
import VisionCore.Chain.Faults
import VisionCore.Foundation.Climb
import VisionCore.Chain.Ancestry
import VisionCore.Foundation.Listing
import VisionCore.Foundation.Memo
import VisionCore.Pow.DatasetCache
import VisionCore.P2p.SharedAddresses
import VisionCore.Node.MiningJobs
import VisionCore.Foundation.Mixing
import VisionCore.Pow.VisionXHash
import VisionCore.Miner.Search
import VisionCore.Node.CatchUp
import VisionCore.Api.Airdrop
import VisionCore.Api.AirdropRestart
import VisionCore.Foundation.Tagged
import VisionCore.Node.KeyScheme
import VisionCore.Node.History
import VisionCore.Api.Transactions
import VisionCore.Node.Watchdog
