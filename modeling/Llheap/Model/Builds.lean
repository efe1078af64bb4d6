import Llheap.Model.Routines
import Mathlib.Data.BitVec

/-!
# Builds with accounting

The `__DEBUG__` and `__STATISTICS__` builds keep a record in every heap and one in the heap master, and the same routines update it at the same places. What a build does at each place is a hook; the routines are written once, in the order of the source, and call the hooks of their build. Both builds give the thread a heap before it frees or asks for storage, but not where a routine counts its calls or keeps the old block: a thread that has no heap faults there.

Left out are what no record and no header depends on: the counters that no allocation adds its storage to, and of the debug build the scrubbing of data bytes with the zeroing of mapped storage that undoes it, and the aborts on corrupted headers and alignments. `Llheap.Debug` has these.
-/

namespace Llheap

/-- `STAT_NAME`: the counter that an allocation is counted under. -/
inductive Counter
  | malloc
  | aalloc
  | calloc
  | resize
  | realloc
  | memalign
  | amemalign
  | cmemalign
  | alignedAlloc
  | posixMemalign
  | valloc
  | alignedResize
  | alignedRealloc
deriving DecidableEq

/-- What a build does to the record `H` of a heap at each place. -/
structure Hooks (H : Type) where
  /-- the size guards and the assertions are compiled in -/
  debug : Bool
  /-- the counters of calls are compiled in -/
  statistics : Bool
  zero : H
  /-- in `doMalloc`, for the request size -/
  requested : Counter → ℕ → H → H
  /-- in `doMalloc`, for the storage that is about to be taken -/
  allocating : Counter → ℕ → H → H
  /-- in `memalignNoStats`, for the offset that was asked for on top -/
  offset : ℕ → H → H
  /-- in `doFree`, for the request size and the storage -/
  freed : ℕ → ℕ → H → H
  /-- where a size is changed in place, for the new and the old one -/
  resized : ℕ → ℕ → H → H
  /-- in `getHeap`, for a heap that is new -/
  newHeap : H → H
  /-- in `heapManagerCtor` -/
  taken : H → H
  /-- in `startup` -/
  started : H → H
  /-- in `heapManagerDtor`, for the master's record and the heap's -/
  left : H → H → H × H

/-- `allocUnfreed` is the only record of the debug build. -/
def debugHooks : Hooks (BitVec 64) where
  debug := true
  statistics := false
  zero := 0
  requested _ size unfreed := unfreed + BitVec.ofNat 64 size
  allocating _ _ unfreed := unfreed
  offset offset unfreed := unfreed - BitVec.ofNat 64 offset
  freed size _ unfreed := unfreed - BitVec.ofNat 64 size
  resized nsize osize unfreed := unfreed + (BitVec.ofNat 64 nsize - BitVec.ofNat 64 osize)
  newHeap _ := 0
  taken unfreed := unfreed
  started _ := 0
  left master unfreed := (master, unfreed)

/-- `HeapStatistics`: the `alloc` fields, and `free_alloc`. -/
structure HeapStatistics where
  alloc : Counter → BitVec 64
  freeAlloc : BitVec 64

namespace HeapStatistics

/-- `HeapStatisticsCtor` -/
def zero : HeapStatistics := ⟨fun _ => 0, 0⟩

/-- `operator+=` -/
def add (lhs rhs : HeapStatistics) : HeapStatistics :=
  ⟨fun name => lhs.alloc name + rhs.alloc name, lhs.freeAlloc + rhs.freeAlloc⟩

end HeapStatistics

/-- The statistics build counts storage, and merges a heap's table into the master's when its thread exits. -/
def statHooks : Hooks HeapStatistics where
  debug := false
  statistics := true
  zero := .zero
  requested _ _ stats := stats
  allocating name tsize stats :=
    { stats with alloc := Function.update stats.alloc name (stats.alloc name + BitVec.ofNat 64 tsize) }
  offset _ stats := stats
  freed _ tsize stats := { stats with freeAlloc := stats.freeAlloc + BitVec.ofNat 64 tsize }
  resized _ _ stats := stats
  newHeap stats := stats
  taken _ := .zero
  started stats := stats
  left master stats := (master.add stats, .zero)

/-- The allocator's state with the records. -/
structure Counted (H : Type) where
  st : State
  master : H
  heap : ℕ → H

namespace Counted

variable {H : Type}

/-- Change the record of the thread's heap: `heapManager->… = …`. -/
def record (t : Tid) (f : H → H) (d : Counted H) : Counted H :=
  let heap := d.st.heapManager t
  { d with heap := Function.update d.heap heap (f (d.heap heap)) }

/-- Change the state but no record. -/
def edit (f : State → State) (d : Counted H) : Counted H := { d with st := f d.st }

end Counted

namespace Hooks

variable {cfg : Config} {H : Type} (I : Hooks H)

def heapMasterCtor (cfg : Config) (d : Counted H) : Result (Counted H) := do
  let s ← Llheap.heapMasterCtor cfg d.st
  .ok { d with st := s, master := I.zero }

def getHeap (k : Kernel cfg) (t : Tid) (d : Counted H) : Result (ℕ × Counted H) := do
  let (heap, s) ← Llheap.getHeap k t d.st
  if d.st.heapMaster.freeHeapManagersList ≠ 0 then .ok (heap, { d with st := s })
  else .ok (heap, { d with st := s, heap := Function.update d.heap heap (I.newHeap (d.heap heap)) })

def heapManagerCtor [Os] (k : Kernel cfg) (t : Tid) (d : Counted H) : Result (Counted H) := do
  let d ← if d.st.heapMasterBootFlag = 0 then I.heapMasterCtor cfg d else .ok d
  let (heap, d) ← I.getHeap k t d
  let s := { d.st with heapManager := Function.update d.st.heapManager t heap }
  let s ← if s.heapMasterBootFlag = 2 then setspecific t s else .ok s
  .ok ({ d with st := s }.record t I.taken)

def startup [Os] (k : Kernel cfg) (t : Tid) (d : Counted H) : Result (Counted H) := do
  let d ← if d.st.heapMasterBootFlag = 0 then I.heapManagerCtor k t d else .ok d
  if d.st.heapMasterBootFlag ≠ 1 then .error .alwaysAssert
  else
    match Os.keyCreate with
    | some rc => .error (.keyCreate rc)
    | none =>
      let s ← setspecific t d.st
      .ok ({ d with st := { s with heapMasterBootFlag := 2 } }.record t I.started)

def bootHeapManager [Os] (k : Kernel cfg) (t : Tid) (d : Counted H) : Result (Counted H) :=
  if d.st.heapManager t = 1 then I.heapManagerCtor k t d else .ok d

def heapManagerDtor (t : Tid) (d : Counted H) : Counted H :=
  let heap := d.st.heapManager t
  let (master, stats) := I.left d.master (d.heap heap)
  ⟨Llheap.heapManagerDtor t d.st, master, Function.update d.heap heap stats⟩

def doMalloc [Os] (k : Kernel cfg) (t : Tid) (name : Counter) (size : ℕ) (d : Counted H) :
    Result (Option ℕ × Counted H) := do
  let d ← I.bootHeapManager k t d
  if I.debug ∧ 2 ^ 64 - 1 - sizeofStorage < size then .ok (none, d.edit (State.refuse t ENOMEM))
  else
    let tsize := (size + sizeofStorage) % 2 ^ 64
    let d := d.record t (I.requested name size)
    if size < d.st.heapMaster.mmapStart then
      let bucket := selectBucket d.st.heapMaster.maxBucketsUsed tsize
      let freeHead := freeListsAddr (d.st.heapManager t) bucket
      let blockSize := (d.st.freeHeader freeHead).blockSize
      if I.debug ∧ ¬ (bucket ≤ d.st.heapMaster.maxBucketsUsed ∧ tsize ≤ blockSize) then
        .error .alwaysAssert
      else
        let d := d.record t (I.allocating name blockSize)
        match ← allocateBlock k t freeHead d.st with
        | (none, s) => .ok (none, { d with st := s })
        | (some block, s) =>
          .ok (some (block + sizeofStorage), { d with st := setHeader block freeHead size s })
    else if I.debug ∧ 2 ^ 64 - 1 - d.st.heapMaster.pageSize < size then
      .ok (none, d.edit (State.refuse t ENOMEM))
    else
      let d := d.record t (I.allocating name (ceiling tsize d.st.heapMaster.pageSize))
      let (r, s) ← mapLarge k t size d.st
      .ok (r, { d with st := s })

def doFree [Os] (k : Kernel cfg) (t : Tid) (addr : ℕ) (d : Counted H) : Result (Counted H) := do
  let d ← I.bootHeapManager k t d
  let hd := headers d.st addr
  let size := d.st.mem.word (sizeField hd.header)
  let d := d.record t (I.freed size hd.size)
  let s ← Llheap.doFree t addr d.st
  .ok { d with st := s }

def memalignNoStats [Os] (k : Kernel cfg) (t : Tid) (name : Counter) (alignment size : ℕ) (d : Counted H) :
    Result (Option ℕ × Counted H) := do
  if alignment ≤ libAlign ∨ size = 0 then I.doMalloc k t name size d
  else
    let offset := alignment - libAlign + sizeofStorage
    match ← I.doMalloc k t name ((size + offset) % 2 ^ 64) d with
    | (none, d) => .ok (none, d)
    | (some addr, d) =>
      let user := ceiling (addr + sizeofStorage) alignment
      .ok (some user, (d.edit (setFakeHeader addr user alignment size)).record t (I.offset offset))

def calloc [Os] (k : Kernel cfg) (t : Tid) (dimension elemSize : ℕ) (d : Counted H) :
    Result (Option ℕ × Counted H) := do
  let size := dimension * elemSize % 2 ^ 64
  match ← I.doMalloc k t .calloc size d with
  | (none, d) => .ok (none, d)
  | (some addr, d) => .ok (some addr, d.edit (zeroFill addr (headerAddr addr) size))

def cmemalign [Os] (k : Kernel cfg) (t : Tid) (alignment dimension elemSize : ℕ) (d : Counted H) :
    Result (Option ℕ × Counted H) := do
  let size := dimension * elemSize % 2 ^ 64
  match ← I.memalignNoStats k t .cmemalign alignment size d with
  | (none, d) => .ok (none, d)
  | (some addr, d) =>
    .ok (some addr, d.edit (zeroFill addr (fakeHeader d.st.mem (headerAddr addr)).1 size))

/-- `heapManager->…`, which faults in a thread that has no heap. -/
def touch (t : Tid) (d : Counted H) : Result Unit :=
  if d.st.heapManager t = 1 then .error .fault else .ok ()

/-- A counter of calls, `STAT_0_CNT` among them. -/
def count (t : Tid) (d : Counted H) : Result Unit := if I.statistics then touch t d else .ok ()

/-- The size in the header of `addr` becomes `nsize`, and the record says so. -/
def resizedTo (t : Tid) (header nsize : ℕ) (d : Counted H) : Counted H :=
  d.record t (I.resized nsize (d.st.mem.word (sizeField header)))

def resize [Os] (k : Kernel cfg) (t : Tid) (oaddr : Option ℕ) (size : ℕ) (d : Counted H) :
    Result (Option ℕ × Counted H) := do
  match oaddr with
  | none => I.doMalloc k t .resize size d
  | some oaddr =>
    if size = 0 then
      I.count t d
      let d ← I.doFree k t oaddr d
      .ok (none, d)
    else
      let hd := headers d.st oaddr
      let odsize := dataSize hd.size oaddr hd.header
      if hd.alignment = libAlign ∧ reusable size odsize then
        touch t d
        .ok (some oaddr, (I.resizedTo t hd.header size d).edit (resizeInPlace hd.header size))
      else
        let d ← I.doFree k t oaddr d
        I.doMalloc k t .resize size d

/-- Copy the old contents to the new block, free the old one, and carry the zero fill over. -/
def moveContents [Os] (k : Kernel cfg) (t : Tid) (oaddr naddr osize nsize : ℕ) (ozfill : Bool) (d : Counted H) :
    Result (Counted H) := do
  let header := (fakeHeader d.st.mem (headerAddr naddr)).1
  let d := d.edit fun s => { s with mem := s.mem.copy naddr oaddr (min osize nsize) }
  let d ← I.doFree k t oaddr d
  if ozfill then
    let m := d.st.mem.setWord header (markZeroFilledBit (d.st.mem.word header))
    let m := if osize < nsize then m.fill (naddr + osize) (nsize - osize) 0 else m
    .ok (d.edit fun s => { s with mem := m })
  else .ok d

def realloc [Os] (k : Kernel cfg) (t : Tid) (oaddr : Option ℕ) (nsize : ℕ) (d : Counted H) :
    Result (Option ℕ × Counted H) := do
  match oaddr with
  | none => I.doMalloc k t .realloc nsize d
  | some oaddr =>
    if nsize = 0 then
      I.count t d
      let d ← I.doFree k t oaddr d
      .ok (none, d)
    else
      let hd := headers d.st oaddr
      let odsize := dataSize hd.size oaddr hd.header
      let osize := d.st.mem.word (sizeField hd.header)
      let ozfill : Bool := zeroFillBit (d.st.mem.word hd.header) ≠ 0
      if reusable nsize odsize then
        touch t d
        .ok (some oaddr, (I.resizedTo t hd.header nsize d).edit (reallocInPlace oaddr hd.header nsize))
      else
        I.count t d
        let r ← if hd.alignment ≤ libAlign then I.doMalloc k t .realloc nsize d
          else I.memalignNoStats k t .realloc hd.alignment nsize d
        match r with
        | (none, d) => .ok (none, d)
        | (some naddr, d) =>
          let d ← I.moveContents k t oaddr naddr osize nsize ozfill d
          .ok (some naddr, d)

/-- The end of `aligned_resize`: the old storage is freed even if no new storage is found. -/
def alignedResizeMove [Os] (k : Kernel cfg) (t : Tid) (oaddr nalignment size : ℕ) (d : Counted H) :
    Result (Option ℕ × Counted H) := do
  let d ← I.doFree k t oaddr d
  I.memalignNoStats k t .alignedResize nalignment size d

def alignedResize [Os] (k : Kernel cfg) (t : Tid) (oaddr : Option ℕ) (nalignment size : ℕ) (d : Counted H) :
    Result (Option ℕ × Counted H) := do
  match oaddr with
  | none => I.memalignNoStats k t .alignedResize nalignment size d
  | some oaddr =>
    if size = 0 then
      I.count t d
      let d ← I.doFree k t oaddr d
      .ok (none, d)
    else
      let nalignment := max nalignment libAlign
      let word := d.st.mem.word (headerAddr oaddr)
      if alignmentBit word ≠ 0 then
        if luckyMatch oaddr (clearAlignmentBit word) nalignment then
          let d := d.edit (updateAlignment oaddr nalignment)
          let hd := headers d.st oaddr
          let odsize := dataSize hd.size oaddr hd.header
          if reusable size odsize then
            let d := d.edit (updateAlignment oaddr nalignment)
            touch t d
            .ok (some oaddr, (I.resizedTo t hd.header size d).edit (resizeInPlace hd.header size))
          else I.alignedResizeMove k t oaddr nalignment size d
        else I.alignedResizeMove k t oaddr nalignment size d
      else if nalignment = libAlign then I.resize k t (some oaddr) size d
      else I.alignedResizeMove k t oaddr nalignment size d

/-- The end of `aligned_realloc`: the old storage is kept if no new storage is found. -/
def alignedReallocMove [Os] (k : Kernel cfg) (t : Tid) (oaddr nalignment size : ℕ) (d : Counted H) :
    Result (Option ℕ × Counted H) := do
  let hd := headers d.st oaddr
  let osize := d.st.mem.word (sizeField hd.header)
  let ozfill : Bool := zeroFillBit (d.st.mem.word hd.header) ≠ 0
  match ← I.memalignNoStats k t .alignedRealloc nalignment size d with
  | (none, d) => .ok (none, d)
  | (some naddr, d) =>
    let d ← I.moveContents k t oaddr naddr osize size ozfill d
    .ok (some naddr, d)

def alignedRealloc [Os] (k : Kernel cfg) (t : Tid) (oaddr : Option ℕ) (nalignment size : ℕ) (d : Counted H) :
    Result (Option ℕ × Counted H) := do
  match oaddr with
  | none => I.memalignNoStats k t .alignedRealloc nalignment size d
  | some oaddr =>
    if size = 0 then
      I.count t d
      let d ← I.doFree k t oaddr d
      .ok (none, d)
    else
      let word := d.st.mem.word (headerAddr oaddr)
      if alignmentBit word ≠ 0 then
        let nalignment := max nalignment libAlign
        if luckyMatch oaddr (clearAlignmentBit word) nalignment then
          I.realloc k t (some oaddr) size (d.edit (updateAlignment oaddr nalignment))
        else I.alignedReallocMove k t oaddr nalignment size d
      else if nalignment = libAlign then I.realloc k t (some oaddr) size d
      else I.alignedReallocMove k t oaddr nalignment size d

def valloc [Os] (k : Kernel cfg) (t : Tid) (size : ℕ) (d : Counted H) : Result (Option ℕ × Counted H) :=
  I.memalignNoStats k t .valloc d.st.heapMaster.pageSize size d

def pvalloc [Os] (k : Kernel cfg) (t : Tid) (size : ℕ) (d : Counted H) : Result (Option ℕ × Counted H) :=
  I.valloc k t (ceiling size d.st.heapMaster.pageSize) d

def free [Os] (k : Kernel cfg) (t : Tid) (addr : Option ℕ) (d : Counted H) : Result (Counted H) :=
  match addr with
  | none => .ok d
  | some addr => I.doFree k t addr d

end Hooks

/-! ### Reading the records -/

/-- The loop of `shutdown` over the heaps. -/
def Counted.unfreed (d : Counted (BitVec 64)) : BitVec 64 :=
  d.st.heapMaster.heapManagersList.foldl (fun unfreed heap => unfreed + d.heap heap) d.master

/-- `collectStats`, for statistics that start from zero. -/
def collectStats (d : Counted HeapStatistics) : HeapStatistics :=
  d.st.heapMaster.heapManagersList.foldl (fun stats heap => stats.add (d.heap heap))
    (HeapStatistics.zero.add d.master)

end Llheap
