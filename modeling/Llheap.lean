import Llheap.Base.Arena
import Llheap.Base.Chain
import Llheap.Base.Failure
import Llheap.Base.Ledger
import Llheap.Base.Memory
import Llheap.Base.Pool
import Llheap.Base.Rounding
import Llheap.Base.Simulation
import Llheap.Base.Transition
import Llheap.Model.Buckets
import Llheap.Model.Builds
import Llheap.Model.Debug
import Llheap.Model.Header
import Llheap.Model.Heaps
import Llheap.Model.Malloc
import Llheap.Model.Remote
import Llheap.Model.Routines
import Llheap.Model.Sections
import Llheap.Model.State
import Llheap.Model.Threshold
import Llheap.Proof.Aborts
import Llheap.Proof.Accounts
import Llheap.Proof.Aligned
import Llheap.Proof.Allocating
import Llheap.Proof.Arrays
import Llheap.Proof.Balance
import Llheap.Proof.Blocks
import Llheap.Proof.BucketFit
import Llheap.Proof.Buffers
import Llheap.Proof.Builds
import Llheap.Proof.Calls
import Llheap.Proof.Decoding
import Llheap.Proof.Duplicates
import Llheap.Proof.Editing
import Llheap.Proof.Encoding
import Llheap.Proof.Errno
import Llheap.Proof.Exhaustion
import Llheap.Proof.FailedRequests
import Llheap.Proof.FirstCall
import Llheap.Proof.Freeing
import Llheap.Proof.Granted
import Llheap.Proof.Growth
import Llheap.Proof.HeapCount
import Llheap.Proof.HeapPieces
import Llheap.Proof.Inversion
import Llheap.Proof.Leaks
import Llheap.Proof.LookupTable
import Llheap.Proof.MappingBalance
import Llheap.Proof.Mappings
import Llheap.Proof.Moving
import Llheap.Proof.Overhead
import Llheap.Proof.Overlap
import Llheap.Proof.Owners
import Llheap.Proof.Ownership
import Llheap.Proof.Postings
import Llheap.Proof.Primitives
import Llheap.Proof.Programs
import Llheap.Proof.Refines
import Llheap.Proof.Refusal
import Llheap.Proof.Remainder
import Llheap.Proof.Remote
import Llheap.Proof.RemoteAtomic
import Llheap.Proof.RemoteQuery
import Llheap.Proof.Resizing
import Llheap.Proof.ReturnCode
import Llheap.Proof.Reuse
import Llheap.Proof.Routines
import Llheap.Proof.Scrubbing
import Llheap.Proof.Sections
import Llheap.Proof.Separation
import Llheap.Proof.Slab
import Llheap.Proof.SlabBlocks
import Llheap.Proof.SlabKept
import Llheap.Proof.Startup
import Llheap.Proof.Statistics
import Llheap.Proof.Sticky
import Llheap.Proof.Store
import Llheap.Proof.StoreRefines
import Llheap.Proof.Tenants
import Llheap.Proof.Threshold
import Llheap.Proof.WholeCalls
import Llheap.Proof.Wrapping
import Llheap.Proof.ZeroFill
