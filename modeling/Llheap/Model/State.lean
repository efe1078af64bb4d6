import Llheap.Base.Memory
import Llheap.Model.Buckets
import Mathlib.Logic.Function.Basic

/-!
# Allocator state

The global and per-thread data of `llheap.cc`, the storage the blocks live in, and the kernel the allocator asks for more. A pointer is an address, `nullptr` is `0`; where the source returns or tests a null pointer the model uses an `Option`. `FreeHeader` and `Heap` objects are found by their addresses in maps of their own, block headers and user data share the byte memory.
-/

namespace Llheap

abbrev Tid := ℕ

def ENOMEM : ℕ := 12

def EINVAL : ℕ := 22

/-- `Heap::FreeHeader` -/
structure FreeHeader where
  freeList : ℕ
  homeManager : ℕ
  blockSize : ℕ
  remoteList : ℕ
deriving DecidableEq

/-- The two lists of a bucket: the owner's own, and the one other threads return blocks to. -/
inductive ListField
  | freeList
  | remoteList
deriving DecidableEq

def FreeHeader.top (f : FreeHeader) : ListField → ℕ
  | .freeList => f.freeList
  | .remoteList => f.remoteList

def FreeHeader.setTop (f : FreeHeader) : ListField → ℕ → FreeHeader
  | .freeList, block => { f with freeList := block }
  | .remoteList, block => { f with remoteList := block }

/-- `Heap`, without its `freeLists` array -/
structure Heap where
  bufStart : ℕ
  bufRemaining : ℕ
  nextFreeHeapManager : ℕ
deriving DecidableEq

/-- `sizeof(Heap::FreeHeader)`: two cache lines, the second one for `remoteList` -/
@[simp] def sizeofFreeHeader : ℕ := 128

/-- `sizeof(Heap)`: an array of 64 buckets and three words, rounded to a cache line -/
def sizeofHeap : ℕ := 8256

/-- `&heap->freeLists[i]` -/
def freeListsAddr (heap : ℕ) (i : ℕ) : ℕ := heap + sizeofFreeHeader * i

/-- `HeapMaster`. `heapManagersList` is the intrusive list of all heaps, kept as a list; the source links it in the statistics and debug builds only. -/
structure HeapMaster where
  extLock : Bool
  sbrkStart : ℕ
  sbrkEnd : ℕ
  sbrkRemaining : ℕ
  sbrkExtend : ℕ
  sbrkThreadBlock : ℕ
  pageSize : ℕ
  mmapStart : ℕ
  maxBucketsUsed : ℕ
  heapManagersList : List ℕ
  freeHeapManagersList : ℕ
  heapManagersStorage : ℕ
  heapManagersStorageEnd : ℕ
deriving DecidableEq

inductive Prot
  | none
  | readWrite
deriving DecidableEq

structure Mapping where
  base : ℕ
  len : ℕ
  prot : Prot
deriving DecidableEq

/-- The page size and the program's control routines: what `sysconf` and the weak `malloc_*` functions return. -/
structure Config where
  pageSize : ℕ
  mallocHeapExtend : ℕ
  mallocThreadBlock : ℕ
  mallocMmapStart : ℕ
  mallocThreadExtend : ℕ
  pageSize_pow2 : pageSize.isPowerOfTwo
  le_pageSize : 16 ≤ pageSize
  pageSize_lt : pageSize < 2 ^ 64
  mallocHeapExtend_lt : mallocHeapExtend < 2 ^ 64
  mallocThreadBlock_lt : mallocThreadBlock < 2 ^ 64
  mallocMmapStart_lt : mallocMmapStart < 2 ^ 64
  mallocThreadExtend_lt : mallocThreadExtend < 2 ^ 64

/-- The default control routines on a machine with 4096-byte pages. -/
def defaultConfig : Config where
  pageSize := 4096
  mallocHeapExtend := 128 * 1024 * 1024
  mallocThreadBlock := 2 * 1024 * 1024
  mallocMmapStart := 32 * 1024 * 1024 + sizeofStorage
  mallocThreadExtend := 32
  pageSize_pow2 := ⟨12, rfl⟩
  le_pageSize := by decide
  pageSize_lt := by decide
  mallocHeapExtend_lt := by decide
  mallocThreadBlock_lt := by decide
  mallocMmapStart_lt := by decide
  mallocThreadExtend_lt := by decide

/-- How the kernel answers `mmap` for a hint and a length, given what is mapped. It may refuse with any `errno`; a region it grants is page-aligned, overlaps nothing that is mapped, and lies in the user half of the address space. -/
structure Kernel (cfg : Config) where
  mmap : List Mapping → ℕ → ℕ → Except ℕ ℕ
  aligned : ∀ {ms hint len a}, mmap ms hint len = .ok a → cfg.pageSize ∣ a
  bounds : ∀ {ms hint len a}, mmap ms hint len = .ok a → 0 < a ∧ 0 < len ∧ a + len ≤ 2 ^ 63
  fresh : ∀ {ms hint len a}, mmap ms hint len = .ok a →
    ∀ m ∈ ms, a + len ≤ m.base ∨ m.base + m.len ≤ a

/-- Whether the laws of the kernel allow it to grant `[a, a + len)`. -/
def mayGrant (cfg : Config) (ms : List Mapping) (len a : ℕ) : Prop :=
  cfg.pageSize ∣ a ∧ (0 < a ∧ 0 < len ∧ a + len ≤ 2 ^ 63) ∧
    ∀ m ∈ ms, a + len ≤ m.base ∨ m.base + m.len ≤ a

instance (cfg : Config) (ms : List Mapping) (len a : ℕ) : Decidable (mayGrant cfg ms len a) :=
  inferInstanceAs (Decidable (_ ∧ _))

/-- The kernel that grants what `place` chooses for a length, and has no memory where it may not. -/
def Kernel.ofPlacement (cfg : Config) (place : List Mapping → ℕ → ℕ) : Kernel cfg where
  mmap ms _ len := if mayGrant cfg ms len (place ms len) then .ok (place ms len) else .error ENOMEM
  aligned h := by
    split at h
    · next hok => cases h; exact hok.1
    · cases h
  bounds h := by
    split at h
    · next hok => cases h; exact hok.2.1
    · cases h
  fresh h := by
    split at h
    · next hok => cases h; exact hok.2.2
    · cases h

/-- What the system may refuse besides `mmap`. A region that the kernel has merged with its neighbours is split by `munmap`, which then can lack memory. -/
class Os where
  /-- `munmap` of whole pages, given what is mapped: its `errno` -/
  munmap : List Mapping → ℕ → ℕ → Option ℕ
  /-- `pthread_key_create`: its return code -/
  keyCreate : Option ℕ
  /-- `pthread_setspecific` -/
  refusesSetspecific : Tid → Bool

/-- The system that refuses none of these. What is said of no particular system is said of this one. -/
instance Os.granting : Os where
  munmap _ _ _ := none
  keyCreate := none
  refusesSetspecific _ := false

/-- The kernel that maps every region on the first page above all mappings. -/
def Kernel.above (cfg : Config) : Kernel cfg :=
  .ofPlacement cfg fun ms _ =>
    (ms.foldr (fun m a => max a (m.base + m.len)) 1 + cfg.pageSize - 1) / cfg.pageSize * cfg.pageSize

structure State where
  mem : Memory
  freeHeader : ℕ → FreeHeader
  heap : ℕ → Heap
  heapMaster : HeapMaster
  heapMasterBootFlag : ℕ
  /-- the thread-local heap, `1` before the thread's first call -/
  heapManager : Tid → ℕ
  /-- the thread has called `pthread_setspecific`, so its exit runs the destructor -/
  setspecific : Tid → Bool
  errno : Tid → ℕ
  mappings : List Mapping

/-- Where the source calls `abort`, fails an `always_assert` or faults. -/
inductive Abort
  | alwaysAssert
  | noMemory (size : ℕ)
  | heapBlock (size errno : ℕ)
  | largeObject (size errno : ℕ)
  | deallocate (addr errno : ℕ)
  | setspecific (errno : ℕ)
  | keyCreate (rc : ℕ)
  /-- an access through a `heapManager` that is still `1` -/
  | fault
deriving DecidableEq

abbrev Result (α : Type) := Except Abort α

def Result.getD {α : Type} (d : α) : Result α → α
  | .ok a => a
  | .error _ => d

theorem Result.eq_ok {α : Type} {x : Result α} (h : x.isOk = true) (d : α) : x = .ok (x.getD d) := by
  cases x with
  | error e => cases h
  | ok a => rfl

/-- The abort that ended a computation. -/
def Result.abort {α : Type} : Result α → Option Abort
  | .ok _ => none
  | .error e => some e

theorem Result.eq_error {α : Type} {x : Result α} {e : Abort} (h : x.abort = some e) : x = .error e := by
  cases x with
  | error e' => exact congrArg Except.error (Option.some.inj h)
  | ok a => cases h

theorem Result.eq_ok_pair {α β : Type} {x : Result (α × β)} {d : α × β} {a : α}
    (h : x.isOk = true) (ha : (x.getD d).1 = a) : x = .ok (a, (x.getD d).2) := by
  subst ha
  exact x.eq_ok h d

/-- Every static object is zero before the first call, and no thread has a heap. -/
def State.unbooted : State where
  mem _ := 0
  freeHeader _ := ⟨0, 0, 0, 0⟩
  heap _ := ⟨0, 0, 0⟩
  heapMaster := ⟨false, 0, 0, 0, 0, 0, 0, 0, 0, [], 0, 0, 0⟩
  heapMasterBootFlag := 0
  heapManager _ := 1
  setspecific _ := false
  errno _ := 0
  mappings := []

/-- What is left of a mapping when `[base, base + len)` is taken out of it. -/
def Mapping.remove (base len : ℕ) (m : Mapping) : List Mapping :=
  [⟨m.base, min (m.base + m.len) base - m.base, m.prot⟩,
    ⟨max m.base (base + len), m.base + m.len - max m.base (base + len), m.prot⟩].filter
      fun part => 0 < part.len

namespace State

variable {cfg : Config}

/-- A granted region reads as zero. -/
def grant (a len : ℕ) (prot : Prot) (s : State) : State :=
  { s with mem := s.mem.fill a len 0, mappings := ⟨a, len, prot⟩ :: s.mappings }

def refuse (t : Tid) (e : ℕ) (s : State) : State :=
  { s with errno := Function.update s.errno t e }

/-- `mmap` -/
def mmap (k : Kernel cfg) (t : Tid) (hint len : ℕ) (prot : Prot) (s : State) :
    Except ℕ ℕ × State :=
  match k.mmap s.mappings hint len with
  | .error e => (.error e, s.refuse t e)
  | .ok a => (.ok a, s.grant a len prot)

/-- `munmap` -/
def munmap (base len : ℕ) (s : State) : State :=
  { s with mappings := s.mappings.flatMap (Mapping.remove base len) }

/-- Link a block in front of a list: `block->next = top; top = block`. -/
def push (l : ListField) (freeHead block : ℕ) (s : State) : State :=
  { s with
    mem := s.mem.setWord block ((s.freeHeader freeHead).top l)
    freeHeader := Function.update s.freeHeader freeHead ((s.freeHeader freeHead).setTop l block) }

end State

@[simp] theorem FreeHeader.homeManager_setTop (f : FreeHeader) (l : ListField) (a : ℕ) :
    (f.setTop l a).homeManager = f.homeManager := by cases l <;> rfl

@[simp] theorem FreeHeader.blockSize_setTop (f : FreeHeader) (l : ListField) (a : ℕ) :
    (f.setTop l a).blockSize = f.blockSize := by cases l <;> rfl

@[simp] theorem FreeHeader.top_setTop_self (f : FreeHeader) (l : ListField) (a : ℕ) :
    (f.setTop l a).top l = a := by cases l <;> rfl

theorem FreeHeader.top_setTop_of_ne (f : FreeHeader) {l l' : ListField} (a : ℕ) (h : l' ≠ l) :
    (f.setTop l a).top l' = f.top l' := by
  cases l <;> cases l' <;> first | rfl | exact absurd rfl h

end Llheap
