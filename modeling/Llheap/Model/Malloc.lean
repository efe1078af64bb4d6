import Llheap.Model.Header
import Llheap.Model.Heaps

/-!
# Allocating and freeing

`doMalloc`, `doFree` and `memalignNoStats` with the storage they extend the heap by. The model follows the default build: ownership and fast lookup on, no statistics, no debug checks, assertions compiled out.
-/

namespace Llheap

variable {cfg : Config}

/-- `MMAP_CHECK`: out of memory is reported to the caller, anything else aborts. -/
def mmapCheck (size e : ℕ) (s : State) : Result (Option ℕ × State) :=
  if e = ENOMEM then .ok (none, { s with heapMaster := { s.heapMaster with extLock := false } })
  else .error (.largeObject size e)

/-- The second half of `master_extend`: map the next block of the slab for access. -/
def extendBlock (k : Kernel cfg) (t : Tid) (size rem : ℕ) (s : State) :
    Result (Option ℕ × State) :=
  match s.mmap k t s.heapMaster.sbrkEnd (max size s.heapMaster.sbrkThreadBlock) .readWrite with
  | (.error e, s) => mmapCheck size e s
  | (.ok newblock, s) =>
    .ok (some newblock, { s with heapMaster := { s.heapMaster with
      sbrkRemaining := rem
      sbrkEnd := s.heapMaster.sbrkEnd + size
      extLock := false } })

/-- `sbrkStart = sbrkEnd = block` -/
def startSlab (block : ℕ) (s : State) : State :=
  { s with heapMaster := { s.heapMaster with sbrkStart := block, sbrkEnd := block } }

def masterExtend (k : Kernel cfg) (t : Tid) (size : ℕ) (s : State) :
    Result (Option ℕ × State) :=
  let s := { s with heapMaster := { s.heapMaster with extLock := true } }
  let rem := sub64 s.heapMaster.sbrkRemaining size
  if negative rem then
    let increase := ceiling (max size s.heapMaster.sbrkExtend) libAlign
    -- the slab that is reserved has the extension amount, not `increase`
    match s.mmap k t 0 s.heapMaster.sbrkExtend .none with
    | (.error e, s) => mmapCheck size e s
    | (.ok block, s) => extendBlock k t size (sub64 increase size) (startSlab block s)
  else extendBlock k t size rem s

/-- The bucket that is searched for a left-over of `rem` bytes. -/
def remainderBucket (maxBucketsUsed rem : ℕ) : ℕ :=
  if rem < lookupSizes then lookup rem else bsearchl rem bucketSize maxBucketsUsed

/-- Chain what is left of the thread's buffer onto a free list, unless it is too small. -/
def chainRemainder (heap : ℕ) (s : State) : State :=
  let rem := (s.heap heap).bufRemaining
  if bucketSize 0 ≤ rem % 2 ^ 32 then
    let freeHead := freeListsAddr heap (remainderBucket s.heapMaster.maxBucketsUsed rem)
    -- `freeHead -= 1`: round down to the bucket before
    let freeHead :=
      if rem < (s.freeHeader freeHead).blockSize then freeHead - sizeofFreeHeader else freeHead
    s.push .freeList freeHead (s.heap heap).bufStart
  else s

def managerExtend (k : Kernel cfg) (t : Tid) (size : ℕ) (s : State) :
    Result (Option ℕ × State) := do
  let increase := ceiling (max size cfg.mallocThreadBlock) libAlign
  match ← masterExtend k t increase s with
  | (none, s) => .ok (none, s)
  | (some newblock, s) =>
    let heap := s.heapManager t
    let s := if newblock ≠ (s.heap heap).bufStart + (s.heap heap).bufRemaining then
        chainRemainder heap s
      else s
    let buffer :=
      { s.heap heap with bufRemaining := sub64 increase size, bufStart := newblock + size }
    .ok (some newblock, { s with heap := Function.update s.heap heap buffer })

/-- A block of a bucket: from its free list, else all of its remote list, else bump storage. -/
def allocateBlock (k : Kernel cfg) (t : Tid) (freeHead : ℕ) (s : State) :
    Result (Option ℕ × State) :=
  let f := s.freeHeader freeHead
  if f.freeList ≠ 0 then
    let f' := { f with freeList := s.mem.word f.freeList }
    .ok (some f.freeList, { s with freeHeader := Function.update s.freeHeader freeHead f' })
  else if f.remoteList ≠ 0 then
    let f' := { f with remoteList := 0, freeList := s.mem.word f.remoteList }
    .ok (some f.remoteList, { s with freeHeader := Function.update s.freeHeader freeHead f' })
  else
    let tsize := f.blockSize
    let heap := s.heap (s.heapManager t)
    let rem := sub64 heap.bufRemaining tsize
    if ¬ negative rem then
      let heap' := { heap with bufRemaining := rem, bufStart := heap.bufStart + tsize }
      .ok (some heap.bufStart, { s with heap := Function.update s.heap (s.heapManager t) heap' })
    else managerExtend k t tsize s

/-- The two words of a block's header. -/
def setHeader (block home size : ℕ) (s : State) : State :=
  { s with mem := (s.mem.setWord block home).setWord (sizeField block) size }

/-- A large request is mapped on its own, in whole pages. -/
def mapLarge (k : Kernel cfg) (t : Tid) (size : ℕ) (s : State) : Result (Option ℕ × State) :=
  let tsize := ceiling ((size + sizeofStorage) % 2 ^ 64) s.heapMaster.pageSize
  match s.mmap k t 0 tsize .readWrite with
  | (.error e, s) => if e = ENOMEM then .ok (none, s) else .error (.largeObject size e)
  | (.ok block, s) =>
    .ok (some (block + sizeofStorage), setHeader block (markMmappedBit tsize) size s)

def doMalloc [Os] (k : Kernel cfg) (t : Tid) (size : ℕ) (s : State) : Result (Option ℕ × State) := do
  let s ← bootHeapManager k t s
  let tsize := (size + sizeofStorage) % 2 ^ 64
  if size < s.heapMaster.mmapStart then
    let freeHead := freeListsAddr (s.heapManager t) (selectBucket s.heapMaster.maxBucketsUsed tsize)
    match ← allocateBlock k t freeHead s with
    | (none, s) => .ok (none, s)
    | (some block, s) => .ok (some (block + sizeofStorage), setHeader block freeHead size s)
  else mapLarge k t size s

/-- `munmap` refuses an address that is not page-aligned and an empty range, and whatever else the system refuses. -/
def unmapBlock [Os] (header tsize : ℕ) (addr : ℕ) (s : State) : Result State :=
  if s.heapMaster.pageSize ∣ header ∧ tsize ≠ 0 then
    match Os.munmap s.mappings header tsize with
    | some e => .error (.deallocate addr e)
    | none => .ok (s.munmap header tsize)
  else .error (.deallocate addr EINVAL)

theorem unmapBlock_granting (header tsize addr : ℕ) (s : State) :
    unmapBlock header tsize addr s =
      if s.heapMaster.pageSize ∣ header ∧ tsize ≠ 0 then .ok (s.munmap header tsize)
      else .error (.deallocate addr EINVAL) := rfl

/-- The push on a remote list is one step here; its interleavings are those of `Llheap.Remote`. -/
def doFree [Os] (t : Tid) (addr : ℕ) (s : State) : Result State :=
  let hd := headers s addr
  if ¬ hd.mapped then
    let l := if s.heapManager t = (s.freeHeader hd.freeHead).homeManager then ListField.freeList
      else ListField.remoteList
    .ok (s.push l hd.freeHead hd.header)
  else unmapBlock hd.header hd.size addr s

/-- The fake header in front of an aligned address, and the request size in the real one. -/
def setFakeHeader (addr user alignment size : ℕ) (s : State) : State :=
  let m := s.mem.setWord (sizeField (headerAddr addr)) size
  let m := m.setWord (sizeField (headerAddr user)) (headerAddr user - headerAddr addr)
  { s with mem := m.setWord (headerAddr user) (markAlignmentBit alignment) }

def memalignNoStats [Os] (k : Kernel cfg) (t : Tid) (alignment size : ℕ) (s : State) :
    Result (Option ℕ × State) := do
  if alignment ≤ libAlign ∨ size = 0 then doMalloc k t size s
  else
    let offset := alignment - libAlign + sizeofStorage
    match ← doMalloc k t ((size + offset) % 2 ^ 64) s with
    | (none, s) => .ok (none, s)
    | (some addr, s) =>
      let user := ceiling (addr + sizeofStorage) alignment
      .ok (some user, setFakeHeader addr user alignment size s)

end Llheap
