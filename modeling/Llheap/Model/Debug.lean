import Llheap.Model.Malloc

/-!
# The debug build

What `__DEBUG__` adds to allocating and freeing: the checks of alignments and headers, which end the program, and the scrubbing of new and freed storage, with the default `scrub_size`. The running total of unfreed storage is kept by `Llheap.Hooks`.

The check of a header follows the first word of a block to a bucket. If the block is free that word is the link to the next free block instead, and the check reads the first words of that block as a bucket's.
-/

namespace Llheap.Debug

variable {cfg : Config}

/-- Where the debug build ends the program, with what the message names. -/
inductive Abort
  | notPowerOfTwo (alignment : ℕ)
  /-- "with corrupted header, bad alignment" -/
  | badAlignment (name : String) (addr alignment : ℕ)
  /-- "with corrupted header" -/
  | corruptedHeader (name : String) (addr : ℕ)
  | assertion
  /-- an abort that the other builds have too -/
  | build (abort : Llheap.Abort)
deriving DecidableEq

/-- The program is told that a header is corrupted. -/
def Abort.Corrupted : Abort → Prop
  | .badAlignment .. | .corruptedHeader .. => True
  | _ => False

instance (a : Abort) : Decidable a.Corrupted := by
  cases a
  all_goals first | exact isTrue trivial | exact isFalse id

/-- A step that the debug build shares with the others. -/
def shared {α : Type} (x : Result α) : Except Abort α := x.mapError .build

/-- `Pow2` -/
def pow2 (value : ℕ) : Prop := value &&& (value - 1) = 0

instance (value : ℕ) : Decidable (pow2 value) := inferInstanceAs (Decidable (_ = _))

/-! ### Scrubbing -/

def SCRUB : UInt8 := 0xff

/-- `scrub_size` -/
def scrubSize : ℕ := 128

/-- New storage of a block is scrubbed in front. -/
def scrubNew (block tsize : ℕ) (s : State) : State :=
  { s with mem := s.mem.fill (block + sizeofStorage) (min scrubSize (sub64 tsize sizeofStorage)) SCRUB }

/-- Freed storage of a block is scrubbed in front and at the back. -/
def scrubFreed (header tsize : ℕ) (s : State) : State :=
  let data := header + sizeofStorage
  let dsize := sub64 tsize sizeofStorage
  if dsize ≤ scrubSize * 2 then { s with mem := s.mem.fill data dsize SCRUB }
  else
    let back := sub64 (data + dsize) scrubSize
    { s with mem := (s.mem.fill data scrubSize SCRUB).fill back scrubSize SCRUB }

/-! ### Buckets in memory -/

/-- There is a bucket of some heap at `p`. -/
def IsBucketAt (m : HeapMaster) (p : ℕ) : Prop :=
  ∃ h ∈ m.heapManagersList, ∃ i < noBucketSizes, p = freeListsAddr h i

instance (m : HeapMaster) (p : ℕ) : Decidable (IsBucketAt m p) :=
  inferInstanceAs (Decidable (∃ h ∈ _, _))

/-- Where the fields of a `FreeHeader` are. -/
def homeManagerField (p : ℕ) : ℕ := p + 8
def blockSizeField (p : ℕ) : ℕ := p + 16

def ListField.offset : ListField → ℕ
  | .freeList => 0
  | .remoteList => 64

/-- The `FreeHeader` that a pointer is taken to point at. -/
def freeHeaderAt (s : State) (p : ℕ) : FreeHeader :=
  if IsBucketAt s.heapMaster p then s.freeHeader p
  else
    { freeList := s.mem.word (p + ListField.offset .freeList)
      homeManager := s.mem.word (homeManagerField p)
      blockSize := s.mem.word (blockSizeField p)
      remoteList := s.mem.word (p + ListField.offset .remoteList) }

/-- `State.push`, for a pointer that is taken to point at a bucket. -/
def pushAt (l : ListField) (freeHead block : ℕ) (s : State) : State :=
  if IsBucketAt s.heapMaster freeHead then s.push l freeHead block
  else
    let m := s.mem.setWord block ((freeHeaderAt s freeHead).top l)
    { s with mem := m.setWord (freeHead + ListField.offset l) block }

/-! ### Checks -/

/-- The three checks of `headers` on the header's home bucket. -/
def corrupted (t : Tid) (header freeHead : ℕ) (s : State) : Prop :=
  let heap := s.heapManager t
  let temp := freeHeaderAt s freeHead
  freeHead = 0 ∨
    heap = temp.homeManager ∧ (freeHead < freeListsAddr heap 0 ∨ freeListsAddr heap noBucketSizes ≤ freeHead) ∨
    temp.blockSize < s.mem.word (sizeField header)

instance (t : Tid) (header freeHead : ℕ) (s : State) : Decidable (corrupted t header freeHead s) :=
  inferInstanceAs (Decidable (_ ∨ _))

/-- The end of `headers`, for a block of a bucket. -/
def bucketHeaders (t : Tid) (name : String) (addr header freeHead alignment : ℕ) (s : State) :
    Except Abort Headers :=
  if corrupted t header freeHead s then .error (.corruptedHeader name addr)
  else .ok ⟨false, header, freeHead, (freeHeaderAt s freeHead).blockSize, alignment⟩

def headers (t : Tid) (name : String) (addr : ℕ) (s : State) : Except Abort Headers :=
  let header := headerAddr addr
  if stickyBits (s.mem.word header) = 0 then
    bucketHeaders t name addr header (s.mem.word header) libAlign s
  else
    let (header, alignment) := fakeHeader s.mem header
    if alignment < libAlign ∨ ¬ pow2 alignment then .error (.badAlignment name addr alignment)
    else if mmappedBit (s.mem.word header) ≠ 0 then
      if addr < s.heapMaster.sbrkStart ∨ s.heapMaster.sbrkEnd < addr then
        .ok ⟨true, header, 0, clearStickyBits (s.mem.word header), alignment⟩
      else .error .assertion
    else bucketHeaders t name addr header (clearStickyBits (s.mem.word header)) alignment s

/-! ### Allocating and freeing -/

/-- Only storage that `manager_extend` has obtained is scrubbed. -/
def allocateBlock (k : Kernel cfg) (t : Tid) (freeHead : ℕ) (s : State) :
    Except Abort (Option ℕ × State) := do
  let f := s.freeHeader freeHead
  let rem := sub64 (s.heap (s.heapManager t)).bufRemaining f.blockSize
  match ← shared (Llheap.allocateBlock k t freeHead s) with
  | (none, s) => .ok (none, s)
  | (some block, s) =>
    if f.freeList = 0 ∧ f.remoteList = 0 ∧ negative rem then
      .ok (some block, scrubNew block f.blockSize s)
    else .ok (some block, s)

def doMalloc [Os] (k : Kernel cfg) (t : Tid) (size : ℕ) (s : State) : Except Abort (Option ℕ × State) := do
  let s ← shared (bootHeapManager k t s)
  if 2 ^ 64 - 1 - sizeofStorage < size then .ok (none, s.refuse t ENOMEM)
  else
    let tsize := (size + sizeofStorage) % 2 ^ 64
    if size < s.heapMaster.mmapStart then
      let bucket := selectBucket s.heapMaster.maxBucketsUsed tsize
      let freeHead := freeListsAddr (s.heapManager t) bucket
      if ¬ (bucket ≤ s.heapMaster.maxBucketsUsed ∧ tsize ≤ (s.freeHeader freeHead).blockSize) then
        .error .assertion
      else
        match ← allocateBlock k t freeHead s with
        | (none, s) => .ok (none, s)
        | (some block, s) => .ok (some (block + sizeofStorage), setHeader block freeHead size s)
    else if 2 ^ 64 - 1 - s.heapMaster.pageSize < size then .ok (none, s.refuse t ENOMEM)
    else
      let tsize := ceiling tsize s.heapMaster.pageSize
      match ← shared (mapLarge k t size s) with
      | (none, s) => .ok (none, s)
      -- the scrubbed bytes are behind the header that `mapLarge` writes
      | (some addr, s) => .ok (some addr, scrubNew (headerAddr addr) tsize s)

def doFree [Os] (k : Kernel cfg) (t : Tid) (addr : ℕ) (s : State) : Except Abort State := do
  let s ← shared (bootHeapManager k t s)
  let hd ← headers t "free" addr s
  if ¬ hd.mapped then
    let s := scrubFreed hd.header hd.size s
    let l := if s.heapManager t = (freeHeaderAt s hd.freeHead).homeManager then ListField.freeList
      else ListField.remoteList
    .ok (pushAt l hd.freeHead hd.header s)
  else shared (unmapBlock hd.header hd.size addr s)

def memalignNoStats [Os] (k : Kernel cfg) (t : Tid) (alignment size : ℕ) (s : State) :
    Except Abort (Option ℕ × State) := do
  if ¬ pow2 alignment then .error (.notPowerOfTwo alignment)
  else if alignment ≤ libAlign ∨ size = 0 then doMalloc k t size s
  else
    let offset := alignment - libAlign + sizeofStorage
    match ← doMalloc k t ((size + offset) % 2 ^ 64) s with
    | (none, s) => .ok (none, s)
    | (some addr, s) =>
      let user := ceiling (addr + sizeofStorage) alignment
      .ok (some user, setFakeHeader addr user alignment size s)

end Llheap.Debug
