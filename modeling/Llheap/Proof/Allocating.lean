import Llheap.Proof.Buffers

/-!
# Obtaining a block

What `doMalloc` does to the arena: the thread gets its heap, one piece becomes a block that is nobody's, and the headers make it live.
-/

namespace Llheap

variable {cfg : Config} {main : Tid} {k : Kernel cfg} {t : Tid} {s s' : State} {r : Option ℕ}
  {status : Tid → Status} {A A' : Arena Tag} {idle : List ℕ} {a b n m u f h size : ℕ}

/-- The parameters that a request is compared with. -/
structure SameParams (m m' : HeapMaster) : Prop where
  pageSize : m'.pageSize = m.pageSize
  mmapStart : m'.mmapStart = m.mmapStart
  maxBucketsUsed : m'.maxBucketsUsed = m.maxBucketsUsed

theorem SameParams.trans {m m' m'' : HeapMaster} (hm : SameParams m m') (hm' : SameParams m' m'') :
    SameParams m m'' :=
  ⟨hm'.pageSize.trans hm.pageSize, hm'.mmapStart.trans hm.mmapStart,
    hm'.maxBucketsUsed.trans hm.maxBucketsUsed⟩

theorem SameMaster.params {m m' : HeapMaster} (hm : SameMaster m m') : SameParams m m' :=
  ⟨hm.pageSize, hm.mmapStart, hm.maxBucketsUsed⟩

/-- `t` may call the allocator: it has not ended, only the program's thread runs before the boot sequence has, and the heap it takes at its first call is no longer used by a thread that exits. -/
structure MayCall (main : Tid) (s : State) (status : Tid → Status) (t : Tid) : Prop where
  runs : status t ≠ .terminated
  started : s.heapMasterBootFlag = 2 ∨ t = main
  alone : s.heapManager t = 1 → s.heapMaster.freeHeapManagersList ≠ 0 →
    ∀ u, status u = .exiting → s.heapManager u ≠ s.heapMaster.freeHeapManagersList

/-! ### The thread's heap -/

theorem initFreeLists_at {freeHeader : ℕ → FreeHeader} {i : ℕ} (hi : i < noBucketSizes) :
    initFreeLists h freeHeader (freeListsAddr h i) = ⟨0, h, bucketSize i, 0⟩ := by
  have hoffset : freeListsAddr h i - h = sizeofFreeHeader * i := by
    rw [freeListsAddr]
    omega
  have hend : freeListsAddr h i < freeListsAddr h noBucketSizes := by
    rw [freeListsAddr, freeListsAddr, sizeofFreeHeader]
    omega
  rw [initFreeLists, if_pos ⟨Nat.le_add_right _ _, hend, by rw [hoffset]; exact Nat.mul_mod_right _ _⟩,
    hoffset, Nat.mul_div_cancel_left i (by decide)]

theorem carveHeap_freeHeader (hpieces : HeapPieces (Llheap.carveHeap s).2.heapMaster A')
    (hnew : s.heapMaster.heapManagersStorage ∉ s.heapMaster.heapManagersList)
    (hf : IsBucket s.heapMaster h f n) : (Llheap.carveHeap s).2.freeHeader f = s.freeHeader f := by
  refine if_neg fun hin => ?_
  have hin' := hf.inside
  have hpart : f < s.heapMaster.heapManagersStorage + sizeofHeap := by
    have := hin.2.1
    rw [freeListsAddr, sizeofFreeHeader, noBucketSizes] at this
    rw [sizeofHeap]
    omega
  have heq := Arena.eq_of_overlap (x := f) ((hpieces.heap h _).mpr ⟨List.mem_cons_of_mem _ hf.1, rfl⟩)
    ((hpieces.heap s.heapMaster.heapManagersStorage _).mpr ⟨List.mem_cons_self, rfl⟩)
    ⟨hin'.1, by dsimp only; omega⟩ ⟨hin.1, hpart⟩
  exact hnew (heq ▸ hf.1)

theorem Blocks.carveHeap (hb : Blocks cfg s A) (hA : SameStorage A A')
    (hpieces : HeapPieces (carveHeap s).2.heapMaster A')
    (hnew : s.heapMaster.heapManagersStorage ∉ s.heapMaster.heapManagersList) :
    Blocks cfg (carveHeap s).2 A' := by
  have hmaster : ∀ {h f n}, IsBucket s.heapMaster h f n → IsBucket (Llheap.carveHeap s).2.heapMaster h f n :=
    fun hf => ⟨List.mem_cons_of_mem _ hf.1, hf.2⟩
  refine ⟨hb.page, ⟨hb.crossover.lower, hb.crossover.upper, hb.crossover.used⟩, hb.threadBlock, hb.inUser,
    fun h f n hf => ?_, fun b n f hbf => ?_, fun b n h => ?_, fun b n u v hl => ?_⟩
  · rcases List.mem_cons.mp hf.1 with rfl | hold
    · obtain ⟨_, i, hi, rfl, rfl⟩ := hf
      have hfree : (Llheap.carveHeap s).2.freeHeader (freeListsAddr s.heapMaster.heapManagersStorage i) =
          ⟨0, s.heapMaster.heapManagersStorage, bucketSize i, 0⟩ := initFreeLists_at hi
      refine ⟨by rw [hfree], by rw [hfree], [], [], by rw [hfree]; rfl, by rw [hfree]; rfl, List.nodup_nil,
        fun b => ⟨fun hnil => absurd hnil List.not_mem_nil, fun hbf => ?_⟩⟩
      -- a free block of the new bucket would be one of an old heap
      obtain ⟨h, hf⟩ := hb.free b _ _ (hA.free.mp hbf)
      have hnewBucket : IsBucket (Llheap.carveHeap s).2.heapMaster s.heapMaster.heapManagersStorage
          (freeListsAddr s.heapMaster.heapManagersStorage i) (bucketSize i) :=
        ⟨List.mem_cons_self, i, hi, rfl, rfl⟩
      have hsame := (hmaster hf).unique hpieces hnewBucket
      exact absurd (hsame.1 ▸ hf.1) hnew
    · have hf' : IsBucket s.heapMaster h f n := ⟨hold, hf.2⟩
      have hlen := hf.le_len
      exact (hb.bucket h f n hf').congr (by omega) (carveHeap_freeHeader hpieces hnew hf') (fun _ _ => Set.eqOn_refl _ _)
        fun _ => hA.free
  · obtain ⟨h, hf⟩ := hb.free b n f (hA.free.mp hbf)
    exact ⟨h, hmaster hf⟩
  · rw [hA.bump, hb.bump]
    change _ ↔ h ∈ s.heapMaster.heapManagersStorage :: s.heapMaster.heapManagersList ∧
      b = (Function.update s.heap s.heapMaster.heapManagersStorage ⟨0, 0, 0⟩ h).bufStart ∧
      n = (Function.update s.heap s.heapMaster.heapManagersStorage ⟨0, 0, 0⟩ h).bufRemaining ∧ 0 < n
    by_cases hne : h = s.heapMaster.heapManagersStorage
    · subst h
      rw [Function.update_self]
      refine ⟨fun hold => absurd hold.1 hnew, fun hzero => ?_⟩
      dsimp only at hzero
      omega
    · rw [Function.update_of_ne hne, List.mem_cons, or_iff_right hne]
  · exact (hb.live b n u v (hA.live.mp hl)).congr (Set.eqOn_refl _ _)
      fun h hh => List.mem_cons_of_mem _ hh

theorem Blocks.assignHeap (hb : Blocks cfg s A) : Blocks cfg (assignHeap t h s) A := by
  refine hb.of_same (.refl A) ?_ ?_ ?_ (fun b p _ => ?_) ?_ ?_ fun h => ?_
  · rw [assignHeap_heapMaster]
    exact hb.crossover
  · rw [assignHeap_heapMaster]
  · rw [assignHeap_mappings]
    exact hb.inUser
  · rw [assignHeap_mem]
    exact Set.eqOn_refl _ _
  · rw [assignHeap_freeHeader]
  · rw [assignHeap_heapMaster]
  · rw [assignHeap_heap]
    exact ⟨rfl, rfl⟩

theorem Blocks.superblock (hb : Blocks cfg s A) (hlaid : Laid s.mappings A)
    (hfresh : FreshRegion cfg s.mappings a (superblockSize cfg)) : Blocks cfg (superblock cfg a s) A := by
  have hg := Grown.grant hfresh .readWrite
  exact hb.of_same (.refl A) ⟨hb.crossover.lower, hb.crossover.upper, hb.crossover.used⟩ rfl
    (hg.inUser hb.inUser) (fun b p hp => hg.eqOn (hlaid.covered b p hp)) rfl rfl fun _ => ⟨rfl, rfl⟩

theorem Refines.of_boot_same (hbooted : s.heapMasterBootFlag ≠ 0) (hheaps : Heaps main s status A idle)
    (hblocks : Blocks cfg s A) (hmay : MayCall main s status t)
    (hboot : bootHeapManager k t s = .ok s') :
    ∃ A' idle', Refines cfg main s' status A' idle' ∧ SameBlocks A A' ∧
      (∀ c p, A.at? c = some p → Set.EqOn s'.mem s.mem (Set.Ico c (c + p.len))) ∧
      SameParams s.heapMaster s'.heapMaster ∧ s'.heapManager t ∈ s'.heapMaster.heapManagersList := by
  obtain ⟨hhas, A', idle', hheaps', hsame⟩ :=
    hheaps.boot hbooted hmay.runs hmay.started hmay.alone hboot
  have hstorage := hsame.sameStorage
  have hnew : Blocks cfg s' A' ∧ (∀ c p, A.at? c = some p → Set.EqOn s'.mem s.mem (Set.Ico c (c + p.len))) ∧
      SameParams s.heapMaster s'.heapMaster := by
    obtain ⟨_, rfl⟩ | ⟨_, heap, s₁, hget, rfl⟩ := bootHeapManager_cases hbooted hboot
    · exact ⟨hblocks.of_same hstorage hblocks.crossover rfl hblocks.inUser
        (fun _ _ _ => Set.eqOn_refl _ _) rfl rfl fun _ => ⟨rfl, rfl⟩, fun _ _ _ => Set.eqOn_refl _ _,
        ⟨rfl, rfl, rfl⟩⟩
    have hpieces := hheaps'.pieces
    rw [assignHeap_heapMaster] at hpieces
    rw [assignHeap_heapMaster, assignHeap_mem]
    rcases getHeap_cases hget with ⟨_, rfl, rfl⟩ | ⟨_, hne, hroom, rfl, rfl⟩ |
      ⟨_, hspare, a, hfresh, rfl, rfl⟩
    · have hb : Blocks cfg (reusedHeap s) A' := hblocks.of_same hstorage
        ⟨hblocks.crossover.lower, hblocks.crossover.upper, hblocks.crossover.used⟩ rfl
        hblocks.inUser (fun _ _ _ => Set.eqOn_refl _ _) rfl rfl fun _ => ⟨rfl, rfl⟩
      exact ⟨hb.assignHeap, fun _ _ _ => Set.eqOn_refl _ _, ⟨rfl, rfl, rfl⟩⟩
    · have hunused := (carveHeap_pieces hheaps.laid hheaps.pieces hne hroom).1
      exact ⟨(hblocks.carveHeap hstorage hpieces hunused).assignHeap, fun _ _ _ => Set.eqOn_refl _ _,
        ⟨rfl, rfl, rfl⟩⟩
    · obtain ⟨A₁, hlaid₁, hpieces₁, _⟩ := superblock_pieces hheaps.laid hheaps.pieces hspare hfresh
      have hunused := (carveHeap_pieces hlaid₁ hpieces₁ hfresh.pos.ne' (superblock_room hfresh)).1
      have hsuper := hblocks.superblock hheaps.laid hfresh
      exact ⟨(hsuper.carveHeap hstorage hpieces hunused).assignHeap,
        fun c p hc => (Grown.grant hfresh .readWrite).eqOn (hheaps.laid.covered c p hc), ⟨rfl, rfl, rfl⟩⟩
  have hflag := bootHeapManager_bootFlag hbooted hboot
  refine ⟨A', idle', ⟨by rw [hflag]; exact hbooted, fun h1 => ?_, hheaps', hnew.1⟩, hsame, hnew.2.1,
    hnew.2.2, hheaps'.owned.known t hmay.runs hhas⟩
  exact hmay.started.resolve_left (by rw [← hflag, h1]; decide) ▸ hhas

theorem Refines.of_boot (hbooted : s.heapMasterBootFlag ≠ 0) (hheaps : Heaps main s status A idle)
    (hblocks : Blocks cfg s A) (hmay : MayCall main s status t)
    (hboot : bootHeapManager k t s = .ok s') :
    ∃ A' idle', Refines cfg main s' status A' idle' ∧ liveAt A' = liveAt A ∧ Frame (liveAt A) s s' ∧
      SameParams s.heapMaster s'.heapMaster ∧ s'.heapManager t ∈ s'.heapMaster.heapManagersList := by
  obtain ⟨A', idle', hr, hsame, hbytes, hrest⟩ := Refines.of_boot_same hbooted hheaps hblocks hmay hboot
  exact ⟨A', idle', hr, liveAt_congr hsame.sameStorage, fun b l hl => hbytes b _ (liveAt_eq_some.mp hl), hrest⟩

theorem Refines.boot (hr : Refines cfg main s status A idle) (hmay : MayCall main s status t)
    (hboot : bootHeapManager k t s = .ok s') :
    ∃ A' idle', Refines cfg main s' status A' idle' ∧ liveAt A' = liveAt A ∧ Frame (liveAt A) s s' ∧
      SameParams s.heapMaster s'.heapMaster ∧ s'.heapManager t ∈ s'.heapMaster.heapManagersList :=
  Refines.of_boot hr.booted hr.heaps hr.blocks hmay hboot

/-! ### A block from a bucket -/

theorem Refines.managerExtend (hr : Refines cfg main s status A idle)
    (hf : IsBucket s.heapMaster (s.heapManager t) f n) (h : managerExtend k t n s = .ok (some b, s')) :
    ∃ A', Refines cfg main s' status A' idle ∧ A'.at? b = some ⟨n, .held⟩ ∧ A.at? b = none ∧
      Undisturbed s s' A A' ∧ SameMaster s.heapMaster s'.heapMaster := by
  rcases managerExtend_cases h with ⟨hnone, _⟩ | ⟨newblock, s₁, hsome, hmaster, rfl⟩
  · cases hnone
  obtain rfl := Option.some.inj hsome
  obtain ⟨hgrown, hnew⟩ := masterExtend_grown hmaster
  obtain ⟨hfresh, hcov⟩ := hnew b rfl
  obtain ⟨hh, i, hi, _, rfl⟩ := hf
  have hlow := le_bucketSize hi
  have hlast := bucketSize_le_last hi
  have hthread := hr.blocks.threadBlock
  have hinc : bucketSize i ≤ ceiling (max (bucketSize i) cfg.mallocThreadBlock) libAlign := by
    have hbounds := ceiling_bounds (v := max (bucketSize i) cfg.mallocThreadBlock) (a := libAlign)
      ⟨4, rfl⟩ (by rw [libAlign] at *; omega)
    exact (le_max_left _ _).trans hbounds.1
  have hlt : ceiling (max (bucketSize i) cfg.mallocThreadBlock) libAlign < 2 ^ 64 :=
    Nat.mod_lt _ (by decide)
  have hfree := (hr.heaps.laid.free_of_fresh hfresh).mono le_rfl
    (Nat.add_le_add_left (le_max_left _ _) b)
  have hcov' := hcov.mono le_rfl (Nat.add_le_add_left (le_max_left _ _) b)
  have hr₁ := hr.of_grown hgrown
  obtain ⟨A', hr', hheld, hundisturbed⟩ := hr₁.replaceBuffer (t := t)
    (by rw [hgrown.heapManager, hgrown.master.heapManagersList]; exact hh) (by omega)
    (align_dvd_bucketSize hi) hinc hfree hcov' hfresh.align_dvd hfresh.pos
  rw [sub64_of_le hlt hinc]
  refine ⟨A', hr', hheld, hfree.at?_eq_none (by omega), (hr.grown_undisturbed hgrown).trans hundisturbed,
    hgrown.master.trans ?_⟩
  exact replaceBuffer_sameMaster ..

/-- Both lists of a bucket are empty. -/
def FreeHeader.Empty (f : FreeHeader) : Prop := f.freeList = 0 ∧ f.remoteList = 0

instance (f : FreeHeader) : Decidable f.Empty := inferInstanceAs (Decidable (_ ∧ _))

theorem Bucket.none_free (hbucket : Bucket s A h f n) (hempty : (s.freeHeader f).Empty) (c : ℕ) :
    A.at? c ≠ some ⟨n, .free f⟩ := by
  obtain ⟨own, remote, hown, hremote, _, hmem⟩ := hbucket.listed
  rw [hempty.1] at hown
  rw [hempty.2] at hremote
  rw [ne_eq, ← hmem, Chain.of_null hown, Chain.of_null hremote]
  exact List.not_mem_nil

/-- What a bucket supplies a block from: its free blocks and, only if it has none, storage that is no block yet. -/
def Supplies (s : State) (A : Arena Tag) (f b n : ℕ) : Prop :=
  if (s.freeHeader f).Empty then
    (∀ c m, A.at? c ≠ some ⟨m, .free f⟩) ∧ ∀ p, A.at? b = some p → ¬ p.tag.IsBlock
  else A.at? b = some ⟨n, .free f⟩

theorem Supplies.not_live (hsupplies : Supplies s A f b n) {l : Live} : liveAt A b ≠ some l := by
  intro hl
  rw [liveAt_eq_some] at hl
  unfold Supplies at hsupplies
  split at hsupplies
  · exact hsupplies.2 _ hl .live
  · rw [hl] at hsupplies
    cases hsupplies

/-- Every block besides the one at `b` stays what it is, with its bytes. -/
def OthersUndisturbed (b : ℕ) (s s' : State) (A A' : Arena Tag) : Prop :=
  ∀ c p, p.tag.IsBlock → c ≠ b → A.at? c = some p →
    A'.at? c = some p ∧ Set.EqOn s'.mem s.mem (Set.Ico c (c + p.len))

theorem Undisturbed.others (hs : Undisturbed s s' A A') : OthersUndisturbed b s s' A A' :=
  fun c p hp _ hc => ⟨hs.keeps.block c p hp hc, hs.bytes c p hp hc⟩

theorem Refines.allocateBlock_supplied (hr : Refines cfg main s status A idle)
    (hf : IsBucket s.heapMaster (s.heapManager t) f n) (h : allocateBlock k t f s = .ok (some b, s')) :
    ∃ A', Refines cfg main s' status A' idle ∧ A'.at? b = some ⟨n, .held⟩ ∧ Supplies s A f b n ∧
      OthersUndisturbed b s s' A A' ∧ liveAt A' = liveAt A ∧ SameMaster s.heapMaster s'.heapMaster := by
  have hbucket := hr.blocks.bucket _ f n hf
  have hsize := hbucket.blockSize
  have hreused : ∀ {f' : FreeHeader}, A.at? b = some ⟨n, .free f⟩ → ¬ (s.freeHeader f).Empty →
      Refines cfg main (popped f f' s) status (A.retag b .held) idle → ∃ A', Refines cfg main (popped f f' s)
        status A' idle ∧ A'.at? b = some ⟨n, .held⟩ ∧ Supplies s A f b n ∧
        OthersUndisturbed b s (popped f f' s) A A' ∧ liveAt A' = liveAt A ∧ SameMaster s.heapMaster s.heapMaster :=
    fun hpiece hsome hr' => ⟨_, hr', Arena.at?_retag_self hpiece, by rw [Supplies, if_neg hsome]; exact hpiece,
      fun c _ _ hne hc => ⟨(Arena.at?_retag_of_ne hne).trans hc, Set.eqOn_refl _ _⟩,
      liveAt_retag_same hpiece nofun nofun, .refl _⟩
  have hnone : (s.freeHeader f).Empty → ∀ c m, A.at? c ≠ some ⟨m, .free f⟩ := by
    intro hempty c m hc
    obtain ⟨h, hf'⟩ := hr.blocks.free c m f hc
    exact (hr.blocks.bucket h f m hf').none_free hempty c hc
  rcases allocateBlock_cases h with
    ⟨hne, hb, rfl⟩ | ⟨hfree, hne, hb, rfl⟩ | ⟨hfree, hremote, hfits, hb, rfl⟩ | ⟨hfree, hremote, _, hext⟩
  · obtain rfl := Option.some.inj hb
    obtain ⟨hpiece, hr'⟩ := hr.pop hf hne
    exact hreused hpiece (fun hempty => hne hempty.1) hr'
  · obtain rfl := Option.some.inj hb
    obtain ⟨hpiece, hr'⟩ := hr.grab hf hfree hne
    exact hreused hpiece (fun hempty => hne hempty.2) hr'
  · obtain rfl := Option.some.inj hb
    rw [hsize] at hfits ⊢
    have hlt := hr.blocks.bufRemaining_lt hr.heaps.laid hf.1
    obtain ⟨hh, i, hi, _, rfl⟩ := hf
    have hlow := le_bucketSize hi
    have hlast := bucketSize_le_last hi
    have hle : bucketSize i ≤ (s.heap (s.heapManager t)).bufRemaining := by
      by_contra hshort
      refine hfits ?_
      rw [negative, sub64_of_lt (by omega) (by omega)]
      omega
    have hpiece := hr.buffer hh (by omega)
    obtain ⟨A', hr', hheld, hkeeps⟩ := hr.cut hh (by omega) (align_dvd_bucketSize hi) hle
    have hstate : carved t (bucketSize i) s = setBuffer (s.heapManager t)
        ((s.heap (s.heapManager t)).bufStart + bucketSize i)
        ((s.heap (s.heapManager t)).bufRemaining - bucketSize i) s := by
      rw [← sub64_of_le (by omega) hle]
      rfl
    rw [hstate]
    refine ⟨A', hr', hheld, ?_, (Undisturbed.of_mem hkeeps rfl).others, hkeeps.liveAt, .refl _⟩
    rw [Supplies, if_pos ⟨hfree, hremote⟩]
    exact ⟨hnone ⟨hfree, hremote⟩, fun p hp hblock => hblock.ne_of_bump hp hpiece rfl⟩
  · rw [hsize] at hext
    obtain ⟨A', hr', hheld, hfresh, hundisturbed, hmaster⟩ := hr.managerExtend hf hext
    refine ⟨A', hr', hheld, ?_, hundisturbed.others, hundisturbed.keeps.liveAt, hmaster⟩
    rw [Supplies, if_pos ⟨hfree, hremote⟩]
    exact ⟨hnone ⟨hfree, hremote⟩, fun p hp => absurd hp (by simp [hfresh])⟩

theorem Refines.allocateBlock (hr : Refines cfg main s status A idle)
    (hf : IsBucket s.heapMaster (s.heapManager t) f n) (h : allocateBlock k t f s = .ok (some b, s')) :
    ∃ A', Refines cfg main s' status A' idle ∧ A'.at? b = some ⟨n, .held⟩ ∧ liveAt A' = liveAt A ∧
      Frame (liveAt A) s s' ∧ SameMaster s.heapMaster s'.heapMaster := by
  obtain ⟨A', hr', hheld, hsupplies, hothers, hlive, hmaster⟩ := hr.allocateBlock_supplied hf h
  refine ⟨A', hr', hheld, hlive, fun c l hl => ?_, hmaster⟩
  refine (hothers c _ .live ?_ (liveAt_eq_some.mp hl)).2
  rintro rfl
  exact hsupplies.not_live hl

/-! ### The header of a new block -/

/-- The request gets a bucket that holds it and its header, or its mapped length does not wrap around. -/
def Fits (m : HeapMaster) (size : ℕ) : Prop :=
  if size < m.mmapStart then
    size + sizeofStorage ≤ bucketSize (selectBucket m.maxBucketsUsed ((size + sizeofStorage) % 2 ^ 64))
  else size + sizeofStorage + m.pageSize ≤ 2 ^ 64

instance (m : HeapMaster) (size : ℕ) : Decidable (Fits m size) := inferInstanceAs (Decidable (ite _ _ _))

theorem Fits.congr {m m' : HeapMaster} (hm : SameParams m m') (hfits : Fits m size) : Fits m' size := by
  unfold Fits at hfits ⊢
  rw [hm.mmapStart, hm.maxBucketsUsed, hm.pageSize]
  exact hfits

/-- One allocation is new: at `user`, of `size` bytes, in a block that was not live. Mapped storage is zero. -/
def Allocated (L L' : ℕ → Option Live) (mem : Memory) (user size : ℕ) (alignment : Option ℕ) : Prop :=
  ∃ b n origin, L b = none ∧
    L' = Function.update L b (some ⟨n, user, ⟨origin, false, size, alignment⟩⟩) ∧
    (origin = .mapped → ∀ x, user ≤ x → x < b + n → mem x = 0)

theorem Refines.bucket_bounds (hr : Refines cfg main s status A idle) (hf : IsBucket s.heapMaster h f n) :
    8 ∣ f ∧ f < 2 ^ 64 := by
  have hpiece := (hr.heaps.pieces.heap h _).mpr ⟨hf.1, rfl⟩
  have halign := hr.heaps.laid.aligned _ _ hpiece
  have hend := hr.blocks.end_le hr.heaps.laid hpiece
  have hin := hf.inside
  obtain ⟨_, i, _, rfl, _⟩ := hf
  simp only [freeListsAddr, sizeofFreeHeader] at hin ⊢
  dsimp only at hend
  omega

theorem Refines.setHeader (hr : Refines cfg main s status A idle) (hf : IsBucket s.heapMaster h f n)
    (hb : A.at? b = some ⟨n, .held⟩) (hsize : size < 2 ^ 64) (hfits : size + sizeofStorage ≤ n) :
    ∃ A', Refines cfg main (setHeader b f size s) status A' idle ∧
      liveAt A' = Function.update (liveAt A) b
        (some ⟨n, b + sizeofStorage, ⟨.bucket f, false, size, none⟩⟩) ∧
      Frame (liveAt A) s (setHeader b f size s) := by
  rw [sizeofStorage] at hfits
  have hmem : ∀ x, x < b ∨ b + n ≤ x → (Llheap.setHeader b f size s).mem x = s.mem x :=
    fun x hx => setHeader_mem_of_outside (by omega)
  have hbounds := hr.bucket_bounds hf
  have hv : View.Taggable ⟨.bucket f, false, size, none⟩ n :=
    ⟨hbounds.1, hbounds.2, hsize, nofun, nofun⟩
  have hlive : LiveBlock cfg (Llheap.setHeader b f size s) b n (b + sizeofStorage)
      ⟨.bucket f, false, size, none⟩ := by
    refine ⟨setHeader_encodes_bucket hv, hv, by dsimp only; rw [sizeofStorage]; omega, nofun,
      fun g hg => ⟨h, Origin.bucket.inj hg ▸ hf⟩, nofun⟩
  refine ⟨_, hr.setLive hb .held nofun hmem hlive, liveAt_retag_live hb, ?_⟩
  have hframe := Frame.of_outside hb hmem
  rwa [← liveAt_eq_none hb nofun, Function.update_eq_self] at hframe

theorem Refines.insertHeld (hr : Refines cfg main s status A idle) (hfree : A.Free b n)
    (hcov : Covered s.mappings b n) (halign : 16 ∣ b) (hb : 0 < b) (hn : 0 < n) :
    Refines cfg main s status (A.insert b n .held hn hfree) idle where
  booted := hr.booted
  ready := hr.ready
  heaps := ⟨hr.heaps.laid.insert hcov halign hb, hr.heaps.pieces.congr fun c p hp =>
    Arena.at?_insert_of_tag (by rcases hp with hp | hp <;> rw [hp] <;> nofun), hr.heaps.owned⟩
  blocks := hr.blocks.of_same (fun _ _ _ _ hheld => Arena.at?_insert_of_tag hheld) hr.blocks.crossover rfl
    hr.blocks.inUser (fun _ _ _ => Set.eqOn_refl _ _) rfl rfl fun _ => ⟨rfl, rfl⟩

/-- A large request gets a mapping of its own, whose length is recorded in the header. -/
theorem Refines.mapLarge (hr : Refines cfg main s status A idle) (hsize : size < 2 ^ 64)
    (hfits : size + sizeofStorage + s.heapMaster.pageSize ≤ 2 ^ 64)
    (h : mapLarge k t size s = .ok (some u, s')) :
    ∃ A', Refines cfg main s' status A' idle ∧ Frame (liveAt A) s s' ∧
      SameMaster s.heapMaster s'.heapMaster ∧ Allocated (liveAt A) (liveAt A') s'.mem u size none := by
  rcases mapLarge_cases h with ⟨hnone, _⟩ | ⟨a, hu, hfresh, rfl⟩
  · cases hnone
  obtain rfl := Option.some.inj hu
  have hpow : s.heapMaster.pageSize.isPowerOfTwo := hr.blocks.page ▸ cfg.pageSize_pow2
  have hword : (size + sizeofStorage) % 2 ^ 64 = size + sizeofStorage := by
    have := cfg.le_pageSize
    rw [hr.blocks.page] at hfits
    exact Nat.mod_eq_of_lt (by omega)
  rw [hword] at hfresh ⊢
  have hceil := (ceiling_bounds hpow hfits).1
  have hdvd : s.heapMaster.pageSize ∣ ceiling (size + sizeofStorage) s.heapMaster.pageSize :=
    ceiling_dvd (by have := cfg.le_pageSize; rw [← hr.blocks.page] at this; omega) hpow
      (hr.blocks.page ▸ cfg.pageSize_lt)
  generalize ceiling (size + sizeofStorage) s.heapMaster.pageSize = len at *
  rw [sizeofStorage] at hceil
  have hgrown := Grown.grant hfresh .readWrite
  have hr₁ := (hr.of_grown hgrown).insertHeld (hr.heaps.laid.free_of_fresh hfresh) covered_head
    hfresh.align_dvd hfresh.pos hfresh.len_pos
  have hpiece : (A.insert a len .held hfresh.len_pos (hr.heaps.laid.free_of_fresh hfresh)).at? a =
      some ⟨len, .held⟩ := Arena.at?_insert_eq_some.mpr (.inl ⟨rfl, rfl⟩)
  have hmem : ∀ x, x < a ∨ a + len ≤ x →
      (Llheap.setHeader a (markMmappedBit len) size (s.grant a len .readWrite)).mem x =
        (s.grant a len .readWrite).mem x := fun x hx => setHeader_mem_of_outside (by omega)
  have hlen8 : 8 ∣ len :=
    cfg.word_dvd_pageSize.trans (hr.blocks.page ▸ hdvd)
  have hv : View.Taggable ⟨.mapped, false, size, none⟩ len :=
    ⟨hlen8, by have := hfresh.user; change len < _; omega, hsize, nofun, nofun⟩
  have hlive : LiveBlock cfg (Llheap.setHeader a (markMmappedBit len) size (s.grant a len .readWrite))
      a len (a + sizeofStorage) ⟨.mapped, false, size, none⟩ :=
    ⟨setHeader_encodes_mapped hlen8 hv, hv, by dsimp only; rw [sizeofStorage]; omega, nofun, nofun,
      fun _ => ⟨hfresh.aligned, hr.blocks.page ▸ hdvd⟩⟩
  have hsame : liveAt (A.insert a len .held hfresh.len_pos (hr.heaps.laid.free_of_fresh hfresh)) =
      liveAt A := liveAt_congr fun _ _ _ _ hheld => Arena.at?_insert_of_tag hheld
  have hnone := liveAt_eq_none hpiece nofun
  rw [hsame] at hnone
  refine ⟨_, hr₁.setLive hpiece .held nofun hmem hlive, fun c l hc => ?_, ⟨rfl, rfl, rfl, rfl, rfl, rfl, rfl, rfl, rfl⟩,
    a, len, .mapped, hnone, ?_, fun _ x hx hlt => ?_⟩
  · have hframe := Frame.of_outside hpiece hmem
    rw [← liveAt_eq_none hpiece nofun, Function.update_eq_self, hsame] at hframe
    exact (hr.grown_frame hgrown).trans hframe c l hc
  · rw [liveAt_retag_live hpiece, hsame]
  · rw [setHeader_mem_of_outside (by rw [sizeofStorage] at hx; omega)]
    exact Memory.fill_apply_of_inside (by rw [sizeofStorage] at hx; omega)

/-! ### Requests -/

/-- What a request leaves behind: nothing but `errno`, or one new allocation. -/
def Outcome (L L' : ℕ → Option Live) (t : Tid) (s' : State) (size : ℕ) (alignment : Option ℕ) :
    Option ℕ → Prop
  | none => L' = L ∧ s'.errno t = ENOMEM
  | some user => Allocated L L' s'.mem user size alignment

theorem refused_errno (t : Tid) (s : State) : (refused t s).errno t = ENOMEM := Function.update_self ..

theorem masterExtend_none (h : masterExtend k t size s = .ok (none, s')) : s'.errno t = ENOMEM := by
  rcases masterExtend_cases h with ⟨_, ⟨_, rfl⟩ | ⟨_, _, hblock⟩⟩ | ⟨_, hblock⟩
  · exact refused_errno t _
  · rcases extendBlock_cases hblock with ⟨_, rfl⟩ | ⟨_, hsome, _⟩
    · exact refused_errno t _
    · cases hsome
  · rcases extendBlock_cases hblock with ⟨_, rfl⟩ | ⟨_, hsome, _⟩
    · exact refused_errno t _
    · cases hsome

theorem allocateBlock_none (h : allocateBlock k t f s = .ok (none, s')) :
    Grown s s' ∧ s'.errno t = ENOMEM := by
  rcases allocateBlock_cases h with ⟨_, hsome, _⟩ | ⟨_, _, hsome, _⟩ | ⟨_, _, _, hsome, _⟩ | ⟨_, _, _, hext⟩
  · cases hsome
  · cases hsome
  · cases hsome
  · rcases managerExtend_cases hext with ⟨_, hmaster⟩ | ⟨_, _, hsome, _⟩
    · exact ⟨(masterExtend_grown hmaster).1, masterExtend_none hmaster⟩
    · cases hsome

theorem Refines.requestBucket (hr : Refines cfg main s status A idle)
    (hh : s.heapManager t ∈ s.heapMaster.heapManagersList) (hsmall : size < s.heapMaster.mmapStart) :
    IsBucket s.heapMaster (s.heapManager t) (requestBucket t size s)
      (bucketSize (selectBucket s.heapMaster.maxBucketsUsed ((size + sizeofStorage) % 2 ^ 64))) := by
  have hupper := hr.blocks.crossover.upper
  have hlast : bucketSize (noBucketSizes - 1) = 67108880 := by decide
  refine ⟨hh, _, selectBucket_lt hr.blocks.crossover ?_, rfl, rfl⟩
  rw [sizeofStorage]
  omega

theorem Refines.doMalloc (hr : Refines cfg main s status A idle) (hmay : MayCall main s status t)
    (hsize : size < 2 ^ 64) (hfits : r ≠ none → Fits s.heapMaster size)
    (h : doMalloc k t size s = .ok (r, s')) :
    ∃ A' idle', Refines cfg main s' status A' idle' ∧ Frame (liveAt A) s s' ∧
      SameParams s.heapMaster s'.heapMaster ∧ Outcome (liveAt A) (liveAt A') t s' size none r := by
  obtain ⟨s₁, hboot, hcases⟩ := doMalloc_cases h
  obtain ⟨A₁, idle', hr₁, hlive₁, hframe₁, hparams, hh⟩ := hr.boot hmay hboot
  rcases hcases with ⟨_, rfl, hblock⟩ | ⟨hsmall, block, s₂, rfl, hblock, rfl⟩ | ⟨hlarge, hmap⟩
  · obtain ⟨hgrown, herrno⟩ := allocateBlock_none hblock
    have hframe := hr₁.grown_frame hgrown
    rw [hlive₁] at hframe
    exact ⟨A₁, idle', hr₁.of_grown hgrown, hframe₁.trans hframe, hparams.trans hgrown.master.params,
      hlive₁, herrno⟩
  · have hf := hr₁.requestBucket hh hsmall
    have hfit := (hfits (Option.some_ne_none _)).congr hparams
    rw [Fits, if_pos hsmall] at hfit
    obtain ⟨A₂, hr₂, hheld, hlive₂, hframe₂, hmaster⟩ := hr₁.allocateBlock hf hblock
    have hf₂ : IsBucket s₂.heapMaster _ _ _ := ⟨by rw [hmaster.heapManagersList]; exact hf.1, hf.2⟩
    obtain ⟨A₃, hr₃, hlive₃, hframe₃⟩ := hr₂.setHeader hf₂ hheld hsize hfit
    rw [hlive₁] at hlive₂ hframe₂
    rw [hlive₂] at hlive₃ hframe₃
    have hnone := liveAt_eq_none hheld nofun
    rw [hlive₂] at hnone
    exact ⟨A₃, idle', hr₃, (hframe₁.trans hframe₂).trans hframe₃, hparams.trans hmaster.params, block, _, _,
      hnone, hlive₃, nofun⟩
  · cases r with
    | none =>
      rcases mapLarge_cases hmap with ⟨_, rfl⟩ | ⟨_, hsome, _⟩
      · have hgrown := Grown.refuse (s := s₁) (t := t) ENOMEM
        have hframe := hr₁.grown_frame hgrown
        rw [hlive₁] at hframe
        exact ⟨A₁, idle', hr₁.of_grown hgrown, hframe₁.trans hframe, hparams, hlive₁,
          Function.update_self ..⟩
      · cases hsome
    | some user =>
      have hfit := (hfits (Option.some_ne_none _)).congr hparams
      rw [Fits, if_neg (not_lt.mpr hlarge)] at hfit
      obtain ⟨A', hr', hframe, hmaster, hnew⟩ := hr₁.mapLarge hsize hfit hmap
      rw [hlive₁] at hframe hnew
      exact ⟨A', idle', hr', hframe₁.trans hframe, hparams.trans hmaster.params, hnew⟩

/-! ### Aligned requests -/

/-- The size that `memalignNoStats` asks `doMalloc` for, before it wraps around. -/
def memalignRequest (alignment size : ℕ) : ℕ :=
  if alignment ≤ libAlign ∨ size = 0 then size else size + (alignment - libAlign + sizeofStorage)

/-- The alignment that the headers of an aligned request record. -/
def recordedAlignment (alignment size : ℕ) : Option ℕ :=
  if alignment ≤ libAlign ∨ size = 0 then none else some alignment

theorem Fits.lt {m : HeapMaster} (hm : CrossoverOk m) (hpage : 0 < m.pageSize) (hfits : Fits m size) :
    size + sizeofStorage < 2 ^ 64 := by
  have hlast : bucketSize (noBucketSizes - 1) = 67108880 := by decide
  have hupper := hm.upper
  unfold Fits at hfits
  rw [sizeofStorage] at *
  split at hfits <;> omega

theorem Refines.edit {v' : View} {u' : ℕ} {l : Live} (hr : Refines cfg main s status A idle)
    (hb : liveAt A b = some l) {mem : Memory} (hmem : ∀ x, x < b ∨ b + l.len ≤ x → mem x = s.mem x)
    (hlive : LiveBlock cfg { s with mem := mem } b l.len u' v') :
    ∃ A', Refines cfg main { s with mem := mem } status A' idle ∧
      liveAt A' = Function.update (liveAt A) b (some ⟨l.len, u', v'⟩) ∧
      Frame (Function.update (liveAt A) b none) s { s with mem := mem } := by
  have hb := liveAt_eq_some.mp hb
  exact ⟨_, hr.setLive hb .live nofun hmem hlive, liveAt_retag_live hb, .of_outside hb hmem⟩

theorem Refines.liveBlock {l : Live} (hr : Refines cfg main s status A idle) (hb : liveAt A b = some l) :
    LiveBlock cfg s b l.len l.user l.view ∧ 16 ∣ b ∧ b + l.len ≤ 2 ^ 63 := by
  have hb := liveAt_eq_some.mp hb
  exact ⟨hr.blocks.live _ _ _ _ hb, hr.heaps.laid.aligned _ _ hb, hr.blocks.end_le hr.heaps.laid hb⟩

theorem Frame.of_update {L : ℕ → Option Live} {x : Option Live} (hnone : L b = none)
    (hframe : Frame (Function.update (Function.update L b x) b none) s s') : Frame L s s' := by
  rwa [Function.update_idem, ← hnone, Function.update_eq_self] at hframe

/-- `memalignNoStats` makes one new allocation at a multiple of the alignment, or none. -/
theorem Refines.memalignNoStats {alignment : ℕ} (hr : Refines cfg main s status A idle)
    (hmay : MayCall main s status t) (hsize : size < 2 ^ 64) (hpow : alignment.isPowerOfTwo)
    (halign : alignment < 2 ^ 64) (hfits : r ≠ none → Fits s.heapMaster (memalignRequest alignment size))
    (h : memalignNoStats k t alignment size s = .ok (r, s')) :
    ∃ A' idle', Refines cfg main s' status A' idle' ∧ Frame (liveAt A) s s' ∧
      SameParams s.heapMaster s'.heapMaster ∧
      Outcome (liveAt A) (liveAt A') t s' size (recordedAlignment alignment size) r := by
  rcases memalignNoStats_cases h with ⟨hplain, hm⟩ | ⟨hbig, hne, ⟨rfl, hm⟩ | ⟨addr, s₁, hm, rfl, rfl⟩⟩
  · rw [memalignRequest, if_pos hplain] at hfits
    rw [recordedAlignment, if_pos hplain]
    exact hr.doMalloc hmay hsize hfits hm
  · obtain ⟨A', idle', hr', hframe, hparams, hout⟩ := hr.doMalloc hmay (Nat.mod_lt _ (by decide)) nofun hm
    exact ⟨A', idle', hr', hframe, hparams, hout⟩
  · have hfake : ¬ (alignment ≤ libAlign ∨ size = 0) := not_or.mpr ⟨not_le.mpr hbig, hne⟩
    have hfit := hfits (Option.some_ne_none _)
    rw [memalignRequest, if_neg hfake] at hfit
    have hlt := hfit.lt hr.blocks.crossover (by rw [hr.blocks.page]; have := cfg.le_pageSize; omega)
    rw [libAlign] at hbig
    rw [libAlign, sizeofStorage] at hfit hlt
    have hrequest : alignedSize alignment size = size + (alignment - 16 + 16) :=
      Nat.mod_eq_of_lt (by rw [libAlign, sizeofStorage]; omega)
    rw [hrequest] at hm
    obtain ⟨A₁, idle', hr₁, hframe₁, hparams, b, n, origin, hnone, hlive, hzero⟩ :=
      hr.doMalloc hmay (by omega) (fun _ => hfit) hm
    obtain ⟨hblock, hb16, hend⟩ := hr₁.liveBlock (b := b) (by rw [hlive, Function.update_self])
    have haddr := hblock.encodes.plain rfl
    have hroom := hblock.room
    dsimp only at hroom hend haddr
    rw [sizeofStorage] at haddr
    have halign16 : 16 ∣ alignment := align_dvd_of_le hpow hbig.le
    obtain ⟨hle, hceil⟩ := ceiling_bounds (v := addr + sizeofStorage) hpow (by rw [sizeofStorage]; omega)
    have hdvd : alignment ∣ ceiling (addr + sizeofStorage) alignment :=
      ceiling_dvd (by rw [sizeofStorage]; omega) hpow halign
    have hdvd16 := halign16.trans hdvd
    generalize ceiling (addr + sizeofStorage) alignment = user at *
    rw [sizeofStorage] at hle hceil
    have huser : user ≤ addr + alignment := by omega
    have henc : Encodes (setFakeHeader addr user alignment size s₁).mem b n user
        ⟨origin, false, size, some alignment⟩ :=
      setFakeHeader_encodes hblock.encodes rfl hle (by omega) (by omega) halign hsize
    have hv := (hblock.taggable.withSize hsize).withAlignment (a := alignment) (by omega) halign
    have hnew : LiveBlock cfg (setFakeHeader addr user alignment size s₁) b n user
        ⟨origin, false, size, some alignment⟩ :=
      ⟨henc, hv, by dsimp only; omega, fun a ha => Option.some.inj ha ▸ ⟨hpow, hbig.le, hdvd⟩,
        hblock.bucket, hblock.mapped⟩
    obtain ⟨A', hr', hlive', hframe⟩ := hr₁.edit (b := b) (l := ⟨n, addr, ⟨origin, false, _, none⟩⟩)
      (by rw [hlive, Function.update_self])
      (fun x hx => setFakeHeader_mem_of_outside haddr hle (by dsimp only at hx; omega)) hnew
    rw [hlive, Function.update_idem] at hlive'
    rw [hlive] at hframe
    rw [recordedAlignment, if_neg hfake]
    refine ⟨A', idle', hr', hframe₁.trans (hframe.of_update hnone), hparams, b, n, origin, hnone, hlive',
      fun hmapped x hx hlt => ?_⟩
    rw [setFakeHeader_mem_of_outside haddr hle (.inr hx)]
    exact hzero hmapped x (by omega) hlt

end Llheap
