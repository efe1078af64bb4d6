import Llheap.Model.State

/-!
# Start-up, heaps and threads

Booting the heap master, handing a heap to a thread at its first call and taking it back when the thread exits.
-/

namespace Llheap

variable {cfg : Config}

/-- `Bsearchl` over the whole table: the bucket at or above the crossover point. -/
def bucketOf (mmapStart : ℕ) : ℕ := bsearchl mmapStart bucketSize noBucketSizes

/-- `true` when the value is accepted as the new crossover point -/
def setMmapStart (value : ℕ) (m : HeapMaster) : Bool × HeapMaster :=
  if value < m.pageSize ∨ bucketSize (noBucketSizes - 1) < value then (false, m)
  else (true, { m with mmapStart := value, maxBucketsUsed := bucketOf value })

/-- The heap master that `heapMasterCtor` fills in, before its assertions. `sbrkStart` and `sbrkEnd` are not assigned. -/
def initHeapMaster (cfg : Config) (m : HeapMaster) : HeapMaster where
  extLock := false
  sbrkStart := m.sbrkStart
  sbrkEnd := m.sbrkEnd
  sbrkRemaining := 0
  sbrkExtend := ceiling cfg.mallocHeapExtend cfg.pageSize
  sbrkThreadBlock := cfg.mallocThreadBlock
  pageSize := cfg.pageSize
  mmapStart := cfg.mallocMmapStart
  maxBucketsUsed := bucketOf cfg.mallocMmapStart
  heapManagersList := []
  freeHeapManagersList := 0
  heapManagersStorage := 0
  heapManagersStorageEnd := 0

/-- The assertions of `heapMasterCtor`, the ones of its table loop last. -/
def bootAsserts (m : HeapMaster) : Prop :=
  256 * 1024 ≤ m.sbrkExtend ∧ m.sbrkThreadBlock ≤ m.sbrkExtend ∧
    (m.pageSize ≤ m.mmapStart ∧ m.mmapStart ≤ bucketSize (noBucketSizes - 1)) ∧
    m.maxBucketsUsed < noBucketSizes ∧ m.mmapStart ≤ bucketSize m.maxBucketsUsed ∧
    ∀ i < lookupSizes, lookupAssert bucketSize i

instance (vals : ℕ → ℕ) (i : ℕ) : Decidable (lookupAssert vals i) :=
  inferInstanceAs (Decidable (_ ∨ _))

instance (m : HeapMaster) : Decidable (bootAsserts m) := inferInstanceAs (Decidable (_ ∧ _))

def heapMasterCtor (cfg : Config) (s : State) : Result State :=
  if s.heapMasterBootFlag ≠ 0 then .error .alwaysAssert
  else if bootAsserts (initHeapMaster cfg s.heapMaster) then
    .ok { s with heapMaster := initHeapMaster cfg s.heapMaster, heapMasterBootFlag := 1 }
  else .error .alwaysAssert

/-- `malloc_thread_extend()` assigned to an `int` -/
def superblockDimension (cfg : Config) : ℤ := (BitVec.ofNat 32 cfg.mallocThreadExtend).toInt

/-- The byte size of a superblock, a product in `size_t`. -/
def superblockSize (cfg : Config) : ℕ := (superblockDimension cfg * sizeofHeap % 2 ^ 64).toNat

/-- Map a superblock of heaps when none is left to carve from. -/
def extendHeaps (k : Kernel cfg) (t : Tid) (s : State) : Result State :=
  if s.heapMaster.heapManagersStorage = 0 ∨
      (s.heapMaster.heapManagersStorageEnd - s.heapMaster.heapManagersStorage) / sizeofHeap = 0 then
    match s.mmap k t 0 (superblockSize cfg) .readWrite with
    | (.error e, _) =>
      if e = ENOMEM then .error (.noMemory (superblockSize cfg))
      else .error (.heapBlock (superblockSize cfg) e)
    | (.ok a, s) =>
      .ok { s with heapMaster := { s.heapMaster with
        heapManagersStorage := a
        heapManagersStorageEnd := (a + superblockDimension cfg * sizeofHeap).toNat } }
  else .ok s

/-- The bucket array of a new heap. -/
def initFreeLists (heap : ℕ) (freeHeader : ℕ → FreeHeader) : ℕ → FreeHeader :=
  fun a =>
    if heap ≤ a ∧ a < freeListsAddr heap noBucketSizes ∧ (a - heap) % sizeofFreeHeader = 0 then
      ⟨0, heap, bucketSize ((a - heap) / sizeofFreeHeader), 0⟩
    else freeHeader a

/-- Take the next heap of the superblock and initialize it. -/
def carveHeap (s : State) : ℕ × State :=
  let heap := s.heapMaster.heapManagersStorage
  (heap, { s with
    heapMaster := { s.heapMaster with
      heapManagersStorage := heap + sizeofHeap
      heapManagersList := heap :: s.heapMaster.heapManagersList }
    freeHeader := initFreeLists heap s.freeHeader
    heap := Function.update s.heap heap ⟨0, 0, 0⟩ })

def getHeap (k : Kernel cfg) (t : Tid) (s : State) : Result (ℕ × State) :=
  if s.heapMaster.freeHeapManagersList ≠ 0 then
    let heap := s.heapMaster.freeHeapManagersList
    .ok (heap, { s with heapMaster := { s.heapMaster with
      freeHeapManagersList := (s.heap heap).nextFreeHeapManager } })
  else do
    let s ← extendHeaps k t s
    .ok (carveHeap s)

/-- The thread's exit runs the destructor from now on. -/
def registerDtor (t : Tid) (s : State) : State :=
  { s with setspecific := Function.update s.setspecific t true }

/-- `SETSPECIFIC`. The message has `errno`, which `pthread_setspecific` does not set. -/
def setspecific [Os] (t : Tid) (s : State) : Result State :=
  if Os.refusesSetspecific t then .error (.setspecific (s.errno t)) else .ok (registerDtor t s)

@[simp] theorem setspecific_granting (t : Tid) (s : State) : setspecific t s = .ok (registerDtor t s) := rfl

def heapManagerCtor [Os] (k : Kernel cfg) (t : Tid) (s : State) : Result State := do
  let s ← if s.heapMasterBootFlag = 0 then heapMasterCtor cfg s else .ok s
  let (heap, s) ← getHeap k t s
  let s := { s with heapManager := Function.update s.heapManager t heap }
  if s.heapMasterBootFlag = 2 then setspecific t s else .ok s

/-- The program's constructor: it ends the boot sequence. -/
def startup [Os] (k : Kernel cfg) (t : Tid) (s : State) : Result State := do
  let s ← if s.heapMasterBootFlag = 0 then heapManagerCtor k t s else .ok s
  if s.heapMasterBootFlag ≠ 1 then .error .alwaysAssert
  else
    match Os.keyCreate with
    | some rc => .error (.keyCreate rc)
    | none =>
      let s ← setspecific t s
      .ok { s with heapMasterBootFlag := 2 }

/-- A system that refuses no key lets the boot sequence end. -/
theorem startup_granting (k : Kernel cfg) (t : Tid) (s : State) :
    startup k t s = (if s.heapMasterBootFlag = 0 then heapManagerCtor k t s else .ok s) >>= fun s =>
      if s.heapMasterBootFlag ≠ 1 then .error .alwaysAssert
      else .ok { registerDtor t s with heapMasterBootFlag := 2 } := by
  unfold startup
  by_cases hzero : s.heapMasterBootFlag = 0
  · rw [if_pos hzero, if_pos hzero]
    rfl
  · rw [if_neg hzero, if_neg hzero]
    rfl

/-- `BOOT_HEAP_MANAGER` -/
def bootHeapManager [Os] (k : Kernel cfg) (t : Tid) (s : State) : Result State :=
  if s.heapManager t = 1 then heapManagerCtor k t s else .ok s

/-- The thread's exit destructor. It does not reset the thread's `heapManager`. -/
def heapManagerDtor (t : Tid) (s : State) : State :=
  let heap := s.heapManager t
  { s with
    heap := Function.update s.heap heap
      { s.heap heap with nextFreeHeapManager := s.heapMaster.freeHeapManagersList }
    heapMaster := { s.heapMaster with freeHeapManagersList := heap } }

end Llheap
