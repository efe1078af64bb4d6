import Llheap.Proof.Mappings

/-!
# What obtaining storage leaves alone

Mapping storage writes only to addresses that were not mapped, and changes the heap master in the fields of the slab only. Taking a block from a bucket changes the bucket, the thread's buffer and nothing that says which heap is whose.
-/

namespace Llheap

variable {cfg : Config} {k : Kernel cfg} {t : Tid} {s s' s'' : State} {r : Option ℕ} {a len : ℕ}

/-- The fields of the heap master that `master_extend` does not touch. -/
structure SameMaster (m m' : HeapMaster) : Prop where
  sbrkExtend : m'.sbrkExtend = m.sbrkExtend
  sbrkThreadBlock : m'.sbrkThreadBlock = m.sbrkThreadBlock
  pageSize : m'.pageSize = m.pageSize
  mmapStart : m'.mmapStart = m.mmapStart
  maxBucketsUsed : m'.maxBucketsUsed = m.maxBucketsUsed
  heapManagersList : m'.heapManagersList = m.heapManagersList
  freeHeapManagersList : m'.freeHeapManagersList = m.freeHeapManagersList
  heapManagersStorage : m'.heapManagersStorage = m.heapManagersStorage
  heapManagersStorageEnd : m'.heapManagersStorageEnd = m.heapManagersStorageEnd

theorem SameMaster.refl (m : HeapMaster) : SameMaster m m :=
  ⟨rfl, rfl, rfl, rfl, rfl, rfl, rfl, rfl, rfl⟩

theorem SameMaster.trans {m m' m'' : HeapMaster} (h : SameMaster m m') (h' : SameMaster m' m'') :
    SameMaster m m'' where
  sbrkExtend := h'.sbrkExtend.trans h.sbrkExtend
  sbrkThreadBlock := h'.sbrkThreadBlock.trans h.sbrkThreadBlock
  pageSize := h'.pageSize.trans h.pageSize
  mmapStart := h'.mmapStart.trans h.mmapStart
  maxBucketsUsed := h'.maxBucketsUsed.trans h.maxBucketsUsed
  heapManagersList := h'.heapManagersList.trans h.heapManagersList
  freeHeapManagersList := h'.freeHeapManagersList.trans h.freeHeapManagersList
  heapManagersStorage := h'.heapManagersStorage.trans h.heapManagersStorage
  heapManagersStorageEnd := h'.heapManagersStorageEnd.trans h.heapManagersStorageEnd

/-- A mapping in the user half of the address space. -/
def InUser (m : Mapping) : Prop := 0 < m.base ∧ m.base + m.len ≤ 2 ^ 63

/-- `s'` is `s` with storage mapped that was not mapped before. -/
structure Grown (s s' : State) : Prop where
  mem : ∀ x, Covered s.mappings x 1 → s'.mem x = s.mem x
  covered : ∀ b n, Covered s.mappings b n → Covered s'.mappings b n
  inUser : (∀ m ∈ s.mappings, InUser m) → ∀ m ∈ s'.mappings, InUser m
  freeHeader : s'.freeHeader = s.freeHeader
  heap : s'.heap = s.heap
  heapManager : s'.heapManager = s.heapManager
  setspecific : s'.setspecific = s.setspecific
  bootFlag : s'.heapMasterBootFlag = s.heapMasterBootFlag
  master : SameMaster s.heapMaster s'.heapMaster

namespace Grown

theorem refl (s : State) : Grown s s :=
  ⟨fun _ _ => rfl, fun _ _ h => h, fun h => h, rfl, rfl, rfl, rfl, rfl, .refl _⟩

theorem trans (h : Grown s s') (h' : Grown s' s'') : Grown s s'' where
  mem x hx := (h'.mem x (h.covered x 1 hx)).trans (h.mem x hx)
  covered b n hb := h'.covered b n (h.covered b n hb)
  inUser hs := h'.inUser (h.inUser hs)
  freeHeader := h'.freeHeader.trans h.freeHeader
  heap := h'.heap.trans h.heap
  heapManager := h'.heapManager.trans h.heapManager
  setspecific := h'.setspecific.trans h.setspecific
  bootFlag := h'.bootFlag.trans h.bootFlag
  master := h.master.trans h'.master

theorem refuse (e : ℕ) : Grown s (s.refuse t e) :=
  ⟨fun _ _ => rfl, fun _ _ h => h, fun h => h, rfl, rfl, rfl, rfl, rfl, .refl _⟩

theorem eqOn (h : Grown s s') {b n : ℕ} (hb : Covered s.mappings b n) :
    Set.EqOn s'.mem s.mem (Set.Ico b (b + n)) := by
  intro x hx
  have := hx.1
  have := hx.2
  exact h.mem x (hb.mono (by omega) (by omega))

end Grown

theorem FreshRegion.not_covered (h : FreshRegion cfg s.mappings a len) {x : ℕ}
    (hx : Covered s.mappings x 1) : x < a ∨ a + len ≤ x := by
  have := h.apart_of_covered hx
  omega

theorem FreshRegion.inUser (h : FreshRegion cfg s.mappings a len) (prot : Prot) :
    InUser ⟨a, len, prot⟩ := ⟨h.pos, h.user⟩

theorem FreshRegion.of_grown (hs : Grown s s') (h : FreshRegion cfg s'.mappings a len) :
    FreshRegion cfg s.mappings a len where
  aligned := h.aligned
  pos := h.pos
  len_pos := h.len_pos
  user := h.user
  apart m hm := by
    have hcov : Covered s.mappings m.base m.len := ⟨m, hm, le_rfl, le_rfl⟩
    exact h.apart_of_covered (hs.covered _ _ hcov)

theorem Grown.grant (h : FreshRegion cfg s.mappings a len) (prot : Prot) :
    Grown s (s.grant a len prot) where
  mem x hx := Memory.fill_apply_of_outside (h.not_covered hx)
  covered b n hb := hb.cons
  inUser hs m hm := by
    rcases List.mem_cons.mp hm with rfl | hm
    · exact h.inUser prot
    · exact hs m hm
  freeHeader := rfl
  heap := rfl
  heapManager := rfl
  setspecific := rfl
  bootFlag := rfl
  master := .refl _

theorem Grown.of_master {m : HeapMaster} (h : SameMaster s.heapMaster m) :
    Grown s { s with heapMaster := m } :=
  ⟨fun _ _ => rfl, fun _ _ h => h, fun h => h, rfl, rfl, rfl, rfl, rfl, h⟩

theorem refused_grown (t : Tid) (s : State) : Grown s (refused t s) :=
  (Grown.refuse ENOMEM).trans (Grown.of_master ⟨rfl, rfl, rfl, rfl, rfl, rfl, rfl, rfl, rfl⟩)

theorem extendBlock_grown {size rem : ℕ} (h : extendBlock k t size rem s = .ok (r, s')) :
    Grown s s' ∧ ∀ a, r = some a →
      FreshRegion cfg s.mappings a (max size s.heapMaster.sbrkThreadBlock) ∧
      Covered s'.mappings a (max size s.heapMaster.sbrkThreadBlock) := by
  obtain ⟨rfl, rfl⟩ | ⟨a, rfl, hfresh, rfl⟩ := extendBlock_cases h
  · exact ⟨refused_grown t s, nofun⟩
  · refine ⟨(Grown.grant hfresh .readWrite).trans (Grown.of_master
      ⟨rfl, rfl, rfl, rfl, rfl, rfl, rfl, rfl, rfl⟩), fun b hb => ?_⟩
    cases hb
    exact ⟨hfresh, covered_head⟩

theorem locked_grown (s : State) : Grown s (locked s) :=
  .of_master ⟨rfl, rfl, rfl, rfl, rfl, rfl, rfl, rfl, rfl⟩

/-- The block `master_extend` returns was not mapped and is mapped now. -/
theorem masterExtend_grown {size : ℕ} (h : masterExtend k t size s = .ok (r, s')) :
    Grown s s' ∧ ∀ a, r = some a →
      FreshRegion cfg s.mappings a (max size s.heapMaster.sbrkThreadBlock) ∧
      Covered s'.mappings a (max size s.heapMaster.sbrkThreadBlock) := by
  rcases masterExtend_cases h with ⟨_, ⟨rfl, rfl⟩ | ⟨b, hslab, hblock⟩⟩ | ⟨_, hblock⟩
  · exact ⟨(locked_grown s).trans (refused_grown t _), nofun⟩
  · have hgrown : Grown s (startSlab b ((locked s).grant b s.heapMaster.sbrkExtend .none)) :=
      ((locked_grown s).trans (.grant (s := locked s) hslab .none)).trans
        (.of_master ⟨rfl, rfl, rfl, rfl, rfl, rfl, rfl, rfl, rfl⟩)
    obtain ⟨hext, hnew⟩ := extendBlock_grown hblock
    refine ⟨hgrown.trans hext, fun a ha => ?_⟩
    obtain ⟨hfresh, hcov⟩ := hnew a ha
    exact ⟨hfresh.of_grown hgrown, hcov⟩
  · obtain ⟨hext, hnew⟩ := extendBlock_grown hblock
    exact ⟨(locked_grown s).trans hext, hnew⟩

/-! ### Who has which heap -/

/-- Everything that says which heaps there are, which are free and which thread uses which is the same, and what is mapped stays mapped. -/
structure SameHeaps (s s' : State) : Prop where
  bootFlag : s'.heapMasterBootFlag = s.heapMasterBootFlag
  heapManager : s'.heapManager = s.heapManager
  setspecific : s'.setspecific = s.setspecific
  heapManagersList : s'.heapMaster.heapManagersList = s.heapMaster.heapManagersList
  freeHeapManagersList : s'.heapMaster.freeHeapManagersList = s.heapMaster.freeHeapManagersList
  heapManagersStorage : s'.heapMaster.heapManagersStorage = s.heapMaster.heapManagersStorage
  heapManagersStorageEnd :
    s'.heapMaster.heapManagersStorageEnd = s.heapMaster.heapManagersStorageEnd
  next : ∀ h, (s'.heap h).nextFreeHeapManager = (s.heap h).nextFreeHeapManager
  covered : ∀ b n, Covered s.mappings b n → Covered s'.mappings b n

theorem SameHeaps.trans (h : SameHeaps s s') (h' : SameHeaps s' s'') : SameHeaps s s'' where
  bootFlag := h'.bootFlag.trans h.bootFlag
  heapManager := h'.heapManager.trans h.heapManager
  setspecific := h'.setspecific.trans h.setspecific
  heapManagersList := h'.heapManagersList.trans h.heapManagersList
  freeHeapManagersList := h'.freeHeapManagersList.trans h.freeHeapManagersList
  heapManagersStorage := h'.heapManagersStorage.trans h.heapManagersStorage
  heapManagersStorageEnd := h'.heapManagersStorageEnd.trans h.heapManagersStorageEnd
  next a := (h'.next a).trans (h.next a)
  covered b n hb := h'.covered b n (h.covered b n hb)

theorem Grown.sameHeaps (h : Grown s s') : SameHeaps s s' where
  bootFlag := h.bootFlag
  heapManager := h.heapManager
  setspecific := h.setspecific
  heapManagersList := h.master.heapManagersList
  freeHeapManagersList := h.master.freeHeapManagersList
  heapManagersStorage := h.master.heapManagersStorage
  heapManagersStorageEnd := h.master.heapManagersStorageEnd
  next a := by rw [h.heap]
  covered := h.covered

theorem SameHeaps.of_storage {mem : Memory} {freeHeader : ℕ → FreeHeader} {heap : ℕ → Heap}
    (hnext : ∀ a, (heap a).nextFreeHeapManager = (s.heap a).nextFreeHeapManager) :
    SameHeaps s { s with mem := mem, freeHeader := freeHeader, heap := heap } :=
  ⟨rfl, rfl, rfl, rfl, rfl, rfl, rfl, hnext, fun _ _ h => h⟩

theorem next_update {heap : ℕ → Heap} {b start rem : ℕ} (a : ℕ) :
    (Function.update heap b { heap b with bufStart := start, bufRemaining := rem }
      a).nextFreeHeapManager = (heap a).nextFreeHeapManager := by
  by_cases hab : a = b
  · subst a
    rw [Function.update_self]
  · rw [Function.update_of_ne hab]

theorem chainRemainder_sameHeaps (heap : ℕ) (s : State) : SameHeaps s (chainRemainder heap s) := by
  unfold chainRemainder
  dsimp only
  split
  · exact .of_storage fun _ => rfl
  · exact (Grown.refl s).sameHeaps

theorem replaceBuffer_sameHeaps (t : Tid) (newblock size rem : ℕ) (s : State) :
    SameHeaps s (replaceBuffer t newblock size rem s) := by
  have hchain : SameHeaps s (if newblock ≠ (s.heap (s.heapManager t)).bufStart +
      (s.heap (s.heapManager t)).bufRemaining then chainRemainder (s.heapManager t) s else s) := by
    split
    · exact chainRemainder_sameHeaps _ s
    · exact (Grown.refl s).sameHeaps
  exact hchain.trans (.of_storage next_update)

theorem replaceBuffer_sameMaster (t : Tid) (newblock size rem : ℕ) (s : State) :
    SameMaster s.heapMaster (replaceBuffer t newblock size rem s).heapMaster := by
  unfold replaceBuffer chainRemainder
  dsimp only
  split
  · split <;> exact .refl _
  · exact .refl _

theorem allocateBlock_sameHeaps {f : ℕ} (h : allocateBlock k t f s = .ok (r, s')) :
    SameHeaps s s' := by
  rcases allocateBlock_cases h with
    ⟨_, _, rfl⟩ | ⟨_, _, _, rfl⟩ | ⟨_, _, _, _, rfl⟩ | ⟨_, _, _, hext⟩
  · exact .of_storage fun _ => rfl
  · exact .of_storage fun _ => rfl
  · exact .of_storage next_update
  · rcases managerExtend_cases hext with ⟨_, hmaster⟩ | ⟨newblock, s₁, _, hmaster, rfl⟩
    · exact (masterExtend_grown hmaster).1.sameHeaps
    · exact (masterExtend_grown hmaster).1.sameHeaps.trans (replaceBuffer_sameHeaps ..)

theorem mapLarge_sameHeaps {size : ℕ} (h : mapLarge k t size s = .ok (r, s')) : SameHeaps s s' := by
  obtain ⟨_, rfl⟩ | ⟨a, _, hfresh, rfl⟩ := mapLarge_cases h
  · exact (Grown.refuse ENOMEM).sameHeaps
  · exact (Grown.grant hfresh .readWrite).sameHeaps.trans (.of_storage fun _ => rfl)

/-- After the thread has its heap, `doMalloc` changes nothing about heaps. -/
theorem doMalloc_sameHeaps {size : ℕ} (h : doMalloc k t size s = .ok (r, s')) :
    ∃ s₁, bootHeapManager k t s = .ok s₁ ∧ SameHeaps s₁ s' := by
  obtain ⟨s₁, hboot, h⟩ := doMalloc_cases h
  refine ⟨s₁, hboot, ?_⟩
  rcases h with ⟨_, _, hblock⟩ | ⟨_, block, s₂, _, hblock, rfl⟩ | ⟨_, hlarge⟩
  · exact allocateBlock_sameHeaps hblock
  · exact (allocateBlock_sameHeaps hblock).trans (.of_storage fun _ => rfl)
  · exact mapLarge_sameHeaps hlarge

end Llheap
