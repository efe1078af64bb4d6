import Llheap.Model.Routines

/-!
# What each step can do

One lemma per function that maps storage: every result it can return and the state it returns it with. Later proofs split on these and do not unfold the functions.
-/

namespace Llheap

variable {cfg : Config} {k : Kernel cfg} {t : Tid} {s s' : State} {r : Option ℕ}

theorem Result.bind_eq_ok {α β : Type} {x : Result α} {f : α → Result β} {b : β} :
    (x >>= f) = .ok b ↔ ∃ a, x = .ok a ∧ f a = .ok b := by
  cases x with
  | error e => simp [bind, Except.bind]
  | ok a => simp [bind, Except.bind]

/-- A region the kernel may grant while `ms` is mapped. -/
structure FreshRegion (cfg : Config) (ms : List Mapping) (a len : ℕ) : Prop where
  aligned : cfg.pageSize ∣ a
  pos : 0 < a
  len_pos : 0 < len
  user : a + len ≤ 2 ^ 63
  apart : ∀ m ∈ ms, a + len ≤ m.base ∨ m.base + m.len ≤ a

theorem State.mmap_cases (k : Kernel cfg) (t : Tid) (hint len : ℕ) (prot : Prot) (s : State) :
    (∃ e, s.mmap k t hint len prot = (.error e, s.refuse t e)) ∨
      ∃ a, s.mmap k t hint len prot = (.ok a, s.grant a len prot) ∧
        FreshRegion cfg s.mappings a len := by
  unfold State.mmap
  cases h : k.mmap s.mappings hint len with
  | error e => exact .inl ⟨e, rfl⟩
  | ok a =>
    obtain ⟨hpos, hlen, huser⟩ := k.bounds h
    exact .inr ⟨a, rfl, k.aligned h, hpos, hlen, huser, k.fresh h⟩

theorem State.mmap_ok {hint len a : ℕ} {prot : Prot} (h : s.mmap k t hint len prot = (.ok a, s')) :
    s' = s.grant a len prot ∧ FreshRegion cfg s.mappings a len := by
  obtain ⟨e, he⟩ | ⟨b, hb, hfresh⟩ := s.mmap_cases k t hint len prot
  · cases he.symm.trans h
  · cases hb.symm.trans h
    exact ⟨rfl, hfresh⟩

/-- The state after a refused `mmap` of `master_extend`. -/
def refused (t : Tid) (s : State) : State :=
  { s.refuse t ENOMEM with heapMaster := { s.heapMaster with extLock := false } }

theorem mmapCheck_cases {size e : ℕ} (h : mmapCheck size e (s.refuse t e) = .ok (r, s')) :
    r = none ∧ s' = refused t s := by
  unfold mmapCheck at h
  split at h
  · next he =>
    cases h
    subst he
    exact ⟨rfl, rfl⟩
  · cases h

/-- The state after the block at `a` has been mapped out of the slab. -/
def extendedBlock (a size rem : ℕ) (s : State) : State :=
  { s.grant a (max size s.heapMaster.sbrkThreadBlock) .readWrite with
    heapMaster := { s.heapMaster with
      sbrkRemaining := rem, sbrkEnd := s.heapMaster.sbrkEnd + size, extLock := false } }

theorem extendBlock_cases {size rem : ℕ} (h : extendBlock k t size rem s = .ok (r, s')) :
    (r = none ∧ s' = refused t s) ∨
      ∃ a, r = some a ∧ FreshRegion cfg s.mappings a (max size s.heapMaster.sbrkThreadBlock) ∧
        s' = extendedBlock a size rem s := by
  unfold extendBlock at h
  obtain ⟨e, he⟩ | ⟨a, ha, hfresh⟩ := s.mmap_cases k t s.heapMaster.sbrkEnd
    (max size s.heapMaster.sbrkThreadBlock) .readWrite
  · rw [he] at h
    exact .inl (mmapCheck_cases h)
  · rw [ha] at h
    cases h
    exact .inr ⟨a, rfl, hfresh, rfl⟩

def locked (s : State) : State := { s with heapMaster := { s.heapMaster with extLock := true } }

theorem masterExtend_cases {size : ℕ} (h : masterExtend k t size s = .ok (r, s')) :
    (negative (sub64 s.heapMaster.sbrkRemaining size) ∧
      ((r = none ∧ s' = refused t (locked s)) ∨
        ∃ a, FreshRegion cfg s.mappings a s.heapMaster.sbrkExtend ∧
          extendBlock k t size
            (sub64 (ceiling (max size s.heapMaster.sbrkExtend) libAlign) size)
            (startSlab a ((locked s).grant a s.heapMaster.sbrkExtend .none)) = .ok (r, s'))) ∨
      (¬ negative (sub64 s.heapMaster.sbrkRemaining size) ∧
        extendBlock k t size (sub64 s.heapMaster.sbrkRemaining size) (locked s) = .ok (r, s')) := by
  have hlocked : { s with heapMaster := { s.heapMaster with extLock := true } } = locked s := rfl
  unfold masterExtend at h
  dsimp only at h
  split at h
  · next hneg =>
    refine .inl ⟨hneg, ?_⟩
    obtain ⟨e, he⟩ | ⟨a, ha, hfresh⟩ :=
      (locked s).mmap_cases k t 0 s.heapMaster.sbrkExtend .none
    · rw [hlocked, he] at h
      exact .inl (mmapCheck_cases h)
    · rw [hlocked, ha] at h
      exact .inr ⟨a, hfresh, h⟩
  · next hneg => exact .inr ⟨hneg, h⟩

theorem mapLarge_cases {size : ℕ} (h : mapLarge k t size s = .ok (r, s')) :
    (r = none ∧ s' = s.refuse t ENOMEM) ∨
      ∃ a, r = some (a + sizeofStorage) ∧
        FreshRegion cfg s.mappings a
          (ceiling ((size + sizeofStorage) % 2 ^ 64) s.heapMaster.pageSize) ∧
        s' = setHeader a
          (markMmappedBit (ceiling ((size + sizeofStorage) % 2 ^ 64) s.heapMaster.pageSize)) size
          (s.grant a (ceiling ((size + sizeofStorage) % 2 ^ 64) s.heapMaster.pageSize) .readWrite) := by
  unfold mapLarge at h
  dsimp only at h
  obtain ⟨e, he⟩ | ⟨a, ha, hfresh⟩ := s.mmap_cases k t 0
    (ceiling ((size + sizeofStorage) % 2 ^ 64) s.heapMaster.pageSize) .readWrite
  · rw [he] at h
    dsimp only at h
    split at h
    · next hmem =>
      cases h
      subst hmem
      exact .inl ⟨rfl, rfl⟩
    · cases h
  · rw [ha] at h
    cases h
    exact .inr ⟨a, rfl, hfresh, rfl⟩

/-! ### Buffers and buckets -/

/-- The rest of `manager_extend` once `newblock` has been obtained. -/
def replaceBuffer (t : Tid) (newblock size rem : ℕ) (s : State) : State :=
  let heap := s.heapManager t
  let s := if newblock ≠ (s.heap heap).bufStart + (s.heap heap).bufRemaining then
      chainRemainder heap s
    else s
  let buffer := { s.heap heap with bufRemaining := rem, bufStart := newblock + size }
  { s with heap := Function.update s.heap heap buffer }

theorem managerExtend_cases {size : ℕ} (h : managerExtend k t size s = .ok (r, s')) :
    (r = none ∧ masterExtend k t (ceiling (max size cfg.mallocThreadBlock) libAlign) s =
        .ok (none, s')) ∨
      ∃ newblock s₁, r = some newblock ∧
        masterExtend k t (ceiling (max size cfg.mallocThreadBlock) libAlign) s =
          .ok (some newblock, s₁) ∧
        s' = replaceBuffer t newblock size
          (sub64 (ceiling (max size cfg.mallocThreadBlock) libAlign) size) s₁ := by
  unfold managerExtend at h
  obtain ⟨⟨r₁, s₁⟩, hext, h⟩ := Result.bind_eq_ok.mp h
  cases r₁ with
  | none =>
    cases h
    exact .inl ⟨rfl, hext⟩
  | some newblock =>
    cases h
    exact .inr ⟨newblock, s₁, rfl, hext, rfl⟩

/-- The bucket with another top of its own list, and the remote list as it was or empty. -/
def popped (freeHead : ℕ) (f : FreeHeader) (s : State) : State :=
  { s with freeHeader := Function.update s.freeHeader freeHead f }

/-- The buffer after `size` bytes have been carved from its start. -/
def carved (t : Tid) (size : ℕ) (s : State) : State :=
  let heap := s.heap (s.heapManager t)
  let buffer :=
    { heap with bufRemaining := sub64 heap.bufRemaining size, bufStart := heap.bufStart + size }
  { s with heap := Function.update s.heap (s.heapManager t) buffer }

theorem allocateBlock_cases {f : ℕ} (h : allocateBlock k t f s = .ok (r, s')) :
    ((s.freeHeader f).freeList ≠ 0 ∧ r = some (s.freeHeader f).freeList ∧
      s' = popped f { s.freeHeader f with freeList := s.mem.word (s.freeHeader f).freeList } s) ∨
    ((s.freeHeader f).freeList = 0 ∧ (s.freeHeader f).remoteList ≠ 0 ∧
      r = some (s.freeHeader f).remoteList ∧
      s' = popped f { s.freeHeader f with
        remoteList := 0, freeList := s.mem.word (s.freeHeader f).remoteList } s) ∨
    ((s.freeHeader f).freeList = 0 ∧ (s.freeHeader f).remoteList = 0 ∧
      ¬ negative (sub64 (s.heap (s.heapManager t)).bufRemaining (s.freeHeader f).blockSize) ∧
      r = some (s.heap (s.heapManager t)).bufStart ∧ s' = carved t (s.freeHeader f).blockSize s) ∨
    ((s.freeHeader f).freeList = 0 ∧ (s.freeHeader f).remoteList = 0 ∧
      negative (sub64 (s.heap (s.heapManager t)).bufRemaining (s.freeHeader f).blockSize) ∧
      managerExtend k t (s.freeHeader f).blockSize s = .ok (r, s')) := by
  unfold allocateBlock at h
  dsimp only at h
  split at h
  · next hfree =>
    cases h
    exact .inl ⟨hfree, rfl, rfl⟩
  · next hfree =>
    rw [not_not] at hfree
    split at h
    · next hremote =>
      cases h
      exact .inr (.inl ⟨hfree, hremote, rfl, rfl⟩)
    · next hremote =>
      rw [not_not] at hremote
      split at h
      · next hneg =>
        cases h
        exact .inr (.inr (.inl ⟨hfree, hremote, hneg, rfl, rfl⟩))
      · next hneg => exact .inr (.inr (.inr ⟨hfree, hremote, not_not.mp hneg, h⟩))

/-- The bucket that a request of `size` bytes goes to. -/
def requestBucket (t : Tid) (size : ℕ) (s : State) : ℕ :=
  freeListsAddr (s.heapManager t)
    (selectBucket s.heapMaster.maxBucketsUsed ((size + sizeofStorage) % 2 ^ 64))

theorem doMalloc_cases {size : ℕ} (h : doMalloc k t size s = .ok (r, s')) :
    ∃ s₁, bootHeapManager k t s = .ok s₁ ∧
      ((size < s₁.heapMaster.mmapStart ∧ r = none ∧
          allocateBlock k t (requestBucket t size s₁) s₁ = .ok (none, s')) ∨
        (size < s₁.heapMaster.mmapStart ∧ ∃ block s₂, r = some (block + sizeofStorage) ∧
          allocateBlock k t (requestBucket t size s₁) s₁ = .ok (some block, s₂) ∧
          s' = setHeader block (requestBucket t size s₁) size s₂) ∨
        (s₁.heapMaster.mmapStart ≤ size ∧ mapLarge k t size s₁ = .ok (r, s'))) := by
  unfold doMalloc at h
  obtain ⟨s₁, hboot, h⟩ := Result.bind_eq_ok.mp h
  refine ⟨s₁, hboot, ?_⟩
  dsimp only at h
  split at h
  · next hsmall =>
    obtain ⟨⟨r₂, s₂⟩, hblock, h⟩ := Result.bind_eq_ok.mp h
    cases r₂ with
    | none =>
      cases h
      exact .inl ⟨hsmall, rfl, hblock⟩
    | some block =>
      cases h
      exact .inr (.inl ⟨hsmall, block, s₂, rfl, hblock, rfl⟩)
  · next hlarge => exact .inr (.inr ⟨not_lt.mp hlarge, h⟩)

/-- What `memalignNoStats` asks `doMalloc` for. -/
def alignedSize (alignment size : ℕ) : ℕ := (size + (alignment - libAlign + sizeofStorage)) % 2 ^ 64

theorem memalignNoStats_cases {alignment size : ℕ}
    (h : memalignNoStats k t alignment size s = .ok (r, s')) :
    ((alignment ≤ libAlign ∨ size = 0) ∧ doMalloc k t size s = .ok (r, s')) ∨
    (libAlign < alignment ∧ size ≠ 0 ∧
      ((r = none ∧ doMalloc k t (alignedSize alignment size) s = .ok (none, s')) ∨
        ∃ addr s₁, doMalloc k t (alignedSize alignment size) s = .ok (some addr, s₁) ∧
          r = some (ceiling (addr + sizeofStorage) alignment) ∧
          s' = setFakeHeader addr (ceiling (addr + sizeofStorage) alignment) alignment size s₁)) := by
  unfold memalignNoStats at h
  split at h
  · next hplain => exact .inl ⟨hplain, h⟩
  · next hfake =>
    rw [not_or] at hfake
    obtain ⟨⟨r₁, s₁⟩, hmalloc, h⟩ := Result.bind_eq_ok.mp h
    refine .inr ⟨not_le.mp hfake.1, hfake.2, ?_⟩
    cases r₁ with
    | none =>
      cases h
      exact .inl ⟨rfl, hmalloc⟩
    | some addr =>
      cases h
      exact .inr ⟨addr, s₁, hmalloc, rfl, rfl⟩

/-! ### Heaps -/

/-- The state after a superblock has been mapped at `a`. -/
def superblock (cfg : Config) (a : ℕ) (s : State) : State :=
  { s.grant a (superblockSize cfg) .readWrite with heapMaster := { s.heapMaster with
      heapManagersStorage := a
      heapManagersStorageEnd := (a + superblockDimension cfg * sizeofHeap).toNat } }

/-- The state after the heap at the top of the stack of free heaps has been taken. -/
def reusedHeap (s : State) : State :=
  { s with heapMaster := { s.heapMaster with
      freeHeapManagersList := (s.heap s.heapMaster.freeHeapManagersList).nextFreeHeapManager } }

theorem getHeap_cases {heap : ℕ} (h : getHeap k t s = .ok (heap, s')) :
    (s.heapMaster.freeHeapManagersList ≠ 0 ∧ heap = s.heapMaster.freeHeapManagersList ∧
      s' = reusedHeap s) ∨
    (s.heapMaster.freeHeapManagersList = 0 ∧ s.heapMaster.heapManagersStorage ≠ 0 ∧
      (s.heapMaster.heapManagersStorageEnd - s.heapMaster.heapManagersStorage) / sizeofHeap ≠ 0 ∧
      heap = s.heapMaster.heapManagersStorage ∧ s' = (carveHeap s).2) ∨
    (s.heapMaster.freeHeapManagersList = 0 ∧
      (s.heapMaster.heapManagersStorage = 0 ∨
        (s.heapMaster.heapManagersStorageEnd - s.heapMaster.heapManagersStorage) / sizeofHeap = 0) ∧
      ∃ a, FreshRegion cfg s.mappings a (superblockSize cfg) ∧
        heap = a ∧ s' = (carveHeap (superblock cfg a s)).2) := by
  unfold getHeap at h
  split at h
  · next hfree =>
    cases h
    exact .inl ⟨hfree, rfl, rfl⟩
  · next hfree =>
    rw [not_not] at hfree
    obtain ⟨s₁, hext, h⟩ := Result.bind_eq_ok.mp h
    cases h
    unfold extendHeaps at hext
    split at hext
    · next hspare =>
      obtain ⟨e, he⟩ | ⟨a, ha, hfresh⟩ := s.mmap_cases k t 0 (superblockSize cfg) .readWrite
      · rw [he] at hext
        dsimp only at hext
        split at hext <;> cases hext
      · rw [ha] at hext
        cases hext
        exact .inr (.inr ⟨hfree, hspare, a, hfresh, rfl, rfl⟩)
    · next hspare =>
      cases hext
      exact .inr (.inl ⟨hfree, (not_or.mp hspare).1, (not_or.mp hspare).2, rfl, rfl⟩)

/-- The thread's heap is `heap` from now on. -/
def assignHeap (t : Tid) (heap : ℕ) (s : State) : State :=
  let s := { s with heapManager := Function.update s.heapManager t heap }
  if s.heapMasterBootFlag = 2 then registerDtor t s else s

section

variable {heap : ℕ}

@[simp] theorem assignHeap_heap (s : State) : (assignHeap t heap s).heap = s.heap := by
  unfold assignHeap
  dsimp only
  split <;> rfl

@[simp] theorem assignHeap_mem (s : State) : (assignHeap t heap s).mem = s.mem := by
  unfold assignHeap
  dsimp only
  split <;> rfl

@[simp] theorem assignHeap_freeHeader (s : State) :
    (assignHeap t heap s).freeHeader = s.freeHeader := by
  unfold assignHeap
  dsimp only
  split <;> rfl

@[simp] theorem assignHeap_heapMaster (s : State) :
    (assignHeap t heap s).heapMaster = s.heapMaster := by
  unfold assignHeap
  dsimp only
  split <;> rfl

@[simp] theorem assignHeap_mappings (s : State) : (assignHeap t heap s).mappings = s.mappings := by
  unfold assignHeap
  dsimp only
  split <;> rfl

@[simp] theorem assignHeap_bootFlag (s : State) :
    (assignHeap t heap s).heapMasterBootFlag = s.heapMasterBootFlag := by
  unfold assignHeap
  dsimp only
  split <;> rfl

@[simp] theorem assignHeap_heapManager (s : State) :
    (assignHeap t heap s).heapManager = Function.update s.heapManager t heap := by
  unfold assignHeap
  dsimp only
  split <;> rfl

theorem assignHeap_setspecific (s : State) :
    (assignHeap t heap s).setspecific =
      if s.heapMasterBootFlag = 2 then Function.update s.setspecific t true else s.setspecific := by
  unfold assignHeap
  dsimp only
  split <;> rfl

end

theorem assign_granting (t : Tid) (heap : ℕ) (s : State) :
    (if s.heapMasterBootFlag = 2 then
        setspecific t { s with heapManager := Function.update s.heapManager t heap }
      else .ok { s with heapManager := Function.update s.heapManager t heap }) =
    (.ok (assignHeap t heap s) : Result State) := by
  unfold assignHeap
  dsimp only
  split <;> rfl

theorem heapManagerCtor_granting (k : Kernel cfg) (t : Tid) (s : State) :
    heapManagerCtor k t s = (if s.heapMasterBootFlag = 0 then heapMasterCtor cfg s else .ok s) >>= fun s =>
      getHeap k t s >>= fun p => .ok (assignHeap t p.1 p.2) := by
  have hrest : ∀ s : State, (getHeap k t s >>= fun p => .ok (assignHeap t p.1 p.2)) =
      (getHeap k t s >>= fun p =>
        if p.2.heapMasterBootFlag = 2 then
          setspecific t { p.2 with heapManager := Function.update p.2.heapManager t p.1 }
        else .ok { p.2 with heapManager := Function.update p.2.heapManager t p.1 }) := by
    intro s
    apply congrArg (getHeap k t s >>= ·)
    funext p
    exact (assign_granting t p.1 p.2).symm
  unfold heapManagerCtor
  by_cases hzero : s.heapMasterBootFlag = 0
  · rw [if_pos hzero, if_pos hzero]
    exact (congrArg (heapMasterCtor cfg s >>= ·) (funext hrest)).symm
  · rw [if_neg hzero, if_neg hzero]
    exact (hrest s).symm

theorem bootHeapManager_cases (hbooted : s.heapMasterBootFlag ≠ 0)
    (h : bootHeapManager k t s = .ok s') :
    (s.heapManager t ≠ 1 ∧ s' = s) ∨
      (s.heapManager t = 1 ∧ ∃ heap s₁, getHeap k t s = .ok (heap, s₁) ∧ s' = assignHeap t heap s₁) := by
  unfold bootHeapManager at h
  split at h
  · next hnew =>
    rw [heapManagerCtor_granting, if_neg hbooted] at h
    obtain ⟨s₀, hs₀, h⟩ := Result.bind_eq_ok.mp h
    cases hs₀
    obtain ⟨⟨heap, s₁⟩, hheap, h⟩ := Result.bind_eq_ok.mp h
    cases h
    exact .inr ⟨hnew, heap, s₁, hheap, rfl⟩
  · next hold =>
    cases h
    exact .inl ⟨hold, rfl⟩

theorem bootHeapManager_bootFlag (hbooted : s.heapMasterBootFlag ≠ 0)
    (h : bootHeapManager k t s = .ok s') : s'.heapMasterBootFlag = s.heapMasterBootFlag := by
  obtain ⟨_, rfl⟩ | ⟨_, heap, s₁, hget, rfl⟩ := bootHeapManager_cases hbooted h
  · rfl
  · rw [assignHeap_bootFlag]
    rcases getHeap_cases hget with ⟨_, _, rfl⟩ | ⟨_, _, _, _, rfl⟩ | ⟨_, _, a, _, _, rfl⟩ <;> rfl

theorem startup_cases (h : startup k t s = .ok s') :
    ∃ s₁, (s.heapMasterBootFlag = 0 ∧ heapManagerCtor k t s = .ok s₁ ∨
        s.heapMasterBootFlag ≠ 0 ∧ s₁ = s) ∧
      s₁.heapMasterBootFlag = 1 ∧ s' = { registerDtor t s₁ with heapMasterBootFlag := 2 } := by
  rw [startup_granting] at h
  obtain ⟨s₁, hs₁, h⟩ := Result.bind_eq_ok.mp h
  dsimp only at h
  split at h
  · cases h
  next hflag =>
    cases h
    refine ⟨s₁, ?_, not_not.mp hflag, rfl⟩
    split at hs₁
    · next hzero => exact .inl ⟨hzero, hs₁⟩
    · next hne =>
      cases hs₁
      exact .inr ⟨hne, rfl⟩

/-! ### Edits in place -/

/-- The memory after `realloc` in place. -/
def regrown (oaddr header nsize : ℕ) (m : Memory) : Memory :=
  let osize := m.word (sizeField header)
  if zeroFillBit (m.word header) ≠ 0 ∧ osize < nsize then
    (m.setWord (sizeField header) nsize).fill (oaddr + osize) (nsize - osize) 0
  else m.setWord (sizeField header) nsize

theorem reallocInPlace_eq (oaddr header nsize : ℕ) (s : State) :
    reallocInPlace oaddr header nsize s = { s with mem := regrown oaddr header nsize s.mem } := by
  unfold reallocInPlace regrown
  dsimp only
  split <;> rfl

/-- The end of the routines that move contents: nothing is moved if no storage was found. -/
theorem moveContents_cases {x : Option ℕ × State} {oaddr osize nsize : ℕ} {z : Bool}
    (h : (match x with
      | (none, s) => .ok (none, s)
      | (some naddr, s) => do
        let s ← moveContents t oaddr naddr osize nsize z s
        .ok (some naddr, s) : Result (Option ℕ × State)) = .ok (r, s')) :
    (x.1 = none ∧ r = none ∧ s' = x.2) ∨ ∃ naddr, x.1 = some naddr ∧ r = some naddr ∧
      moveContents t oaddr naddr osize nsize z x.2 = .ok s' := by
  obtain ⟨r₁, s₁⟩ := x
  cases r₁ with
  | none =>
    cases h
    exact .inl ⟨rfl, rfl, rfl⟩
  | some naddr =>
    obtain ⟨s₂, hmove, h⟩ := Result.bind_eq_ok.mp h
    cases h
    exact .inr ⟨naddr, rfl, rfl, hmove⟩

theorem realloc_cases {oaddr nsize : ℕ} (hne : nsize ≠ 0) (h : realloc k t (some oaddr) nsize s = .ok (r, s')) :
    let hd := headers s oaddr
    (reusable nsize (dataSize hd.size oaddr hd.header) ∧ r = some oaddr ∧
      s' = reallocInPlace oaddr hd.header nsize s) ∨
    (¬ reusable nsize (dataSize hd.size oaddr hd.header) ∧ ∃ r₁ s₁,
      memalignNoStats k t hd.alignment nsize s = .ok (r₁, s₁) ∧
        ((r₁ = none ∧ r = none ∧ s' = s₁) ∨ ∃ naddr, r₁ = some naddr ∧ r = some naddr ∧
          moveContents t oaddr naddr (s.mem.word (sizeField hd.header)) nsize
            (zeroFillBit (s.mem.word hd.header) ≠ 0) s₁ = .ok s')) := by
  unfold realloc at h
  dsimp only at h ⊢
  rw [if_neg hne] at h
  split at h
  · next hreuse =>
    cases h
    exact .inl ⟨hreuse, rfl, rfl⟩
  · next hreuse =>
    have hplain : ∀ f : Option ℕ × State → Result (Option ℕ × State),
        (if (headers s oaddr).alignment ≤ libAlign then doMalloc k t nsize s >>= f
          else memalignNoStats k t (headers s oaddr).alignment nsize s >>= f) =
        memalignNoStats k t (headers s oaddr).alignment nsize s >>= f := by
      intro f
      split
      · next hsmall => rw [memalignNoStats, if_pos (.inl hsmall)]
      · rfl
    rw [hplain] at h
    obtain ⟨⟨r₁, s₁⟩, hm, h⟩ := Result.bind_eq_ok.mp h
    exact .inr ⟨hreuse, r₁, s₁, hm, moveContents_cases h⟩

/-! ### Parameters -/

theorem mallopt_cases {option value : ℤ} {r : ℕ} (h : mallopt option value s = .ok (r, s')) :
    (r = 0 ∧ s' = s) ∨
    (r = 1 ∧ option = mTopPad ∧ 0 ≤ value ∧
      256 * 1024 ≤ ceiling value.toNat s.heapMaster.pageSize ∧
      s' = { s with heapMaster := { s.heapMaster with
        sbrkExtend := ceiling value.toNat s.heapMaster.pageSize } }) ∨
    (r = 1 ∧ option = mMmapThreshold ∧ s.heapMaster.pageSize ≤ value.toNat ∧
      value.toNat ≤ bucketSize (noBucketSizes - 1) ∧
      s' = { s with heapMaster := { s.heapMaster with
        mmapStart := value.toNat, maxBucketsUsed := bucketOf value.toNat } }) := by
  unfold mallopt at h
  split at h
  · cases h
    exact .inl ⟨rfl, rfl⟩
  · next hneg =>
    split at h
    · next hoption =>
      dsimp only at h
      split at h
      · next hmin =>
        cases h
        exact .inr (.inl ⟨rfl, hoption, not_lt.mp hneg, hmin, rfl⟩)
      · cases h
    · split at h
      · next hoption =>
        unfold setMmapStart at h
        split at h
        · next hset =>
          split at hset
          · cases (Prod.mk.inj hset).1
          · next hrange =>
            cases h
            obtain ⟨_, rfl⟩ := Prod.mk.inj hset
            exact .inr (.inr ⟨rfl, hoption, by omega, by omega, rfl⟩)
        · cases h
          exact .inl ⟨rfl, rfl⟩
      · cases h
        exact .inl ⟨rfl, rfl⟩

theorem doFree_cases {addr : ℕ} (h : doFree t addr s = .ok s') :
    ((headers s addr).mapped = false ∧ s' = s.push
        (if s.heapManager t = (s.freeHeader (headers s addr).freeHead).homeManager then .freeList
          else .remoteList)
        (headers s addr).freeHead (headers s addr).header) ∨
      ((headers s addr).mapped = true ∧ s.heapMaster.pageSize ∣ (headers s addr).header ∧
        (headers s addr).size ≠ 0 ∧ s' = s.munmap (headers s addr).header (headers s addr).size) := by
  unfold doFree at h
  dsimp only at h
  split at h
  · next hbucket =>
    cases h
    exact .inl ⟨Bool.eq_false_iff.mpr hbucket, rfl⟩
  · next hmapped =>
    rw [unmapBlock_granting] at h
    split at h
    · next hpage =>
      cases h
      exact .inr ⟨not_not.mp hmapped, hpage.1, hpage.2, rfl⟩
    · cases h

end Llheap
