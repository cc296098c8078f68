import OramHub.Lib.Program
import OramHub.Lib.Preservation
import OramHub.Lib.Streams
import OramHub.Lib.Tape
import OramHub.Lib.Duplex
import OramHub.Lib.CommandLoop
import OramHub.Lib.Confluence
import OramHub.Lib.Dialogue
import OramHub.Lib.Correspondence
import OramHub.Lib.Exchange
import OramHub.Lib.Fragments
import OramHub.Lib.LittleEndian
import OramHub.Lib.BigEndian
import OramHub.Lib.Layout
import OramHub.Lib.HeapTree
import OramHub.Lib.BitReversal
import OramHub.Lib.XorBytes
import OramHub.Lib.Inventory
import OramHub.Lib.Packing
import OramHub.Lib.Updates
import OramHub.Lib.Chance
import OramHub.Lib.Renaming
import OramHub.Lib.TranspositionSort
import OramHub.Core.Ram
import OramHub.Core.Machine
import OramHub.Network.NetIO
import OramHub.Network.Sockets
import OramHub.Network.Processes
import OramHub.Crypto.AesCtr
import OramHub.Crypto.Evp
import OramHub.Crypto.Counter
import OramHub.RingOram.Config
import OramHub.RingOram.RingBucket
import OramHub.RingOram.Serialization
import OramHub.RingOram.Codec
import OramHub.RingOram.Scanning
import OramHub.RingOram.RoundTrip
import OramHub.RingOram.Server
import OramHub.RingOram.Client
import OramHub.RingOram.LiveBlocks
import OramHub.RingOram.Reset
import OramHub.RingOram.Plain
import OramHub.RingOram.Sealing
import OramHub.RingOram.StoredTree
import OramHub.RingOram.Refinement
import OramHub.RingOram.Schedule
import OramHub.RingOram.Maintenance
import OramHub.RingOram.PathRead
import OramHub.RingOram.Access
import OramHub.RingOram.Construction
import OramHub.RingOram.Runs
import OramHub.RingOram.Invariants
import OramHub.RingOram.Packing
import OramHub.RingOram.Trace
import OramHub.RingOram.Costs
import OramHub.RingOram.TapeReads
import OramHub.RingOram.LeafDraws
import OramHub.PathOram.LeafDraws
import OramHub.PathOram.Processes
import OramHub.RingOram.Handlers
import OramHub.RingOram.History
import OramHub.RingOram.Wire
import OramHub.RingOram.SlotUse
import OramHub.RingOram.XorRead
import OramHub.RingOram.TouchRoundTrip
import OramHub.RingOram.StashGrowth
import OramHub.RingOram.SlotChoice
import OramHub.RingOram.EvictionOrder
import OramHub.PathOram.Config
import OramHub.PathOram.Serializer
import OramHub.PathOram.Server
import OramHub.PathOram.Client
import OramHub.PathOram.Storage
import OramHub.PathOram.Decoding
import OramHub.PathOram.Requests
import OramHub.PathOram.Wire
import OramHub.PathOram.Eviction
import OramHub.PathOram.EvictionOptimality
import OramHub.PathOram.PathTransfer
import OramHub.PathOram.Access
import OramHub.PathOram.Setup
import OramHub.PathOram.Runs
import OramHub.PathOram.Invariants
import OramHub.PathOram.Trace
import OramHub.PathOram.BucketRoundTrip
import OramHub.PathOram.BatchedRequests
import OramHub.OnionRing.Config
import OramHub.OnionRing.TfheAdapter
import OramHub.OnionRing.Server
import OramHub.OnionRing.Client
import OramHub.OnionRing.Storage
import OramHub.OnionRing.Exchange
import OramHub.OnionRing.Placement
import OramHub.OnionRing.Coherence
import OramHub.OnionRing.Eviction
import OramHub.OnionRing.Access
import OramHub.OnionRing.Setup
import OramHub.OnionRing.Runs
import OramHub.OnionRing.Failures
import OramHub.OnionRing.Trace
import OramHub.OnionRing.HomOps
import OramHub.OnionRing.WaksmanNetwork
import OramHub.OnionRing.ServerEviction
import OramHub.OnionRing.EvictionAgreement
import OramHub.OnionRing.Frame
import OramHub.OnionRing.EvictionOrder
import OramHub.OnionRing.FullRoot
import OramHub.RingOram.Rejection
import OramHub.RingOram.CommandLoop
import OramHub.RingOram.Processes
import OramHub.PathOram.Rejection
import OramHub.PathOram.CommandLoop
import OramHub.OnionRing.Rejection
import OramHub.PathOram.PositionMap
import OramHub.PathOram.Navigation
import OramHub.RingOram.Navigation
import OramHub.RingOram.BucketReset
import OramHub.OnionRing.Wire
import OramHub.OnionRing.Processes
