import Llheap.Proof.Aligned

/-!
# When there is no storage

A request returns null exactly if neither a list nor the thread's buffer has a block for it and the kernel answers every attempt to map more with `ENOMEM`. Whether it does can be told from the state before the request. A request that returns an address has been granted a block whose length is a function of the request too, whether or not that block is long enough.
-/

namespace Llheap

variable {cfg : Config} {main : Tid} {k : Kernel cfg} {t : Tid} {s s' : State} {r : Option ℕ}
  {status : Tid → Status} {A : Arena Tag} {idle : List ℕ} {alignment size n f addr : ℕ}

/-! ### Refused requests -/

/-- The kernel has no memory for a mapping of this length. -/
def Kernel.NoMemory (k : Kernel cfg) (ms : List Mapping) (hint len : ℕ) : Prop :=
  k.mmap ms hint len = .error ENOMEM

/-- The kernel has no memory for `master_extend(size)`: for a new slab, or for the block at its end. -/
def NoExtension (k : Kernel cfg) (s : State) (size : ℕ) : Prop :=
  let m := s.heapMaster
  if negative (sub64 m.sbrkRemaining size) then
    k.NoMemory s.mappings 0 m.sbrkExtend ∨ ∃ slab, k.mmap s.mappings 0 m.sbrkExtend = .ok slab ∧
      k.NoMemory (⟨slab, m.sbrkExtend, .none⟩ :: s.mappings) slab (max size m.sbrkThreadBlock)
  else k.NoMemory s.mappings m.sbrkEnd (max size m.sbrkThreadBlock)

/-- A bucket has no block, and there is no memory for another one. -/
def NoBlock (k : Kernel cfg) (t : Tid) (freeHead : ℕ) (s : State) : Prop :=
  let f := s.freeHeader freeHead
  f.freeList = 0 ∧ f.remoteList = 0 ∧ negative (sub64 (s.heap (s.heapManager t)).bufRemaining f.blockSize) ∧
    NoExtension k s (ceiling (max f.blockSize cfg.mallocThreadBlock) libAlign)

/-- Once the thread has a heap, there is no storage for `doMalloc(size)`. -/
def OutOfMemory (k : Kernel cfg) (t : Tid) (size : ℕ) (s : State) : Prop :=
  ∃ s₁, bootHeapManager k t s = .ok s₁ ∧
    if size < s₁.heapMaster.mmapStart then NoBlock k t (requestBucket t size s₁) s₁
    else k.NoMemory s₁.mappings 0 (ceiling ((size + sizeofStorage) % 2 ^ 64) s₁.heapMaster.pageSize)

theorem extendBlock_none_iff {rem : ℕ} : (∃ s', extendBlock k t size rem s = .ok (none, s')) ↔
    k.NoMemory s.mappings s.heapMaster.sbrkEnd (max size s.heapMaster.sbrkThreadBlock) := by
  unfold extendBlock State.mmap Kernel.NoMemory
  cases hmap : k.mmap s.mappings s.heapMaster.sbrkEnd (max size s.heapMaster.sbrkThreadBlock) with
  | error e =>
    dsimp only
    rw [mmapCheck, Except.error.injEq]
    split
    · next he => exact iff_of_true ⟨_, rfl⟩ he
    · next he => exact iff_of_false (fun ⟨_, h⟩ => by cases h) he
  | ok a => exact iff_of_false (fun ⟨_, h⟩ => by cases h) (by simp)

theorem masterExtend_none_iff : (∃ s', masterExtend k t size s = .ok (none, s')) ↔ NoExtension k s size := by
  unfold masterExtend NoExtension
  dsimp only
  split
  · unfold State.mmap Kernel.NoMemory
    dsimp only
    cases hmap : k.mmap s.mappings 0 s.heapMaster.sbrkExtend with
    | error e =>
      simp only [mmapCheck, Except.error.injEq, reduceCtorEq, false_and, exists_false, or_false]
      split
      · next he => exact iff_of_true ⟨_, rfl⟩ he
      · next he => exact iff_of_false (fun ⟨_, h⟩ => by cases h) he
    | ok slab =>
      simp only [reduceCtorEq, false_or, Except.ok.injEq, exists_eq_left']
      exact extendBlock_none_iff
  · exact extendBlock_none_iff

theorem managerExtend_none_iff : (∃ s', managerExtend k t size s = .ok (none, s')) ↔
    NoExtension k s (ceiling (max size cfg.mallocThreadBlock) libAlign) := by
  rw [← masterExtend_none_iff (t := t)]
  constructor
  · rintro ⟨s', h⟩
    rcases managerExtend_cases h with ⟨_, hmaster⟩ | ⟨_, _, hsome, _⟩
    · exact ⟨s', hmaster⟩
    · cases hsome
  · rintro ⟨s', h⟩
    refine ⟨s', ?_⟩
    rw [managerExtend, h]
    rfl

theorem allocateBlock_none_iff : (∃ s', allocateBlock k t f s = .ok (none, s')) ↔ NoBlock k t f s := by
  unfold allocateBlock NoBlock
  dsimp only
  split
  · next hfree => exact iff_of_false (fun ⟨_, h⟩ => by cases h) fun h => hfree h.1
  · next hfree =>
    rw [not_not] at hfree
    split
    · next hremote => exact iff_of_false (fun ⟨_, h⟩ => by cases h) fun h => hremote h.2.1
    · next hremote =>
      rw [not_not] at hremote
      split
      · next hfits => exact iff_of_false (fun ⟨_, h⟩ => by cases h) fun h => hfits h.2.2.1
      · next hshort =>
        rw [not_not] at hshort
        rw [managerExtend_none_iff]
        exact ⟨fun h => ⟨hfree, hremote, hshort, h⟩, fun h => h.2.2.2⟩

theorem mapLarge_none_iff : (∃ s', mapLarge k t size s = .ok (none, s')) ↔
    k.NoMemory s.mappings 0 (ceiling ((size + sizeofStorage) % 2 ^ 64) s.heapMaster.pageSize) := by
  unfold mapLarge State.mmap Kernel.NoMemory
  dsimp only
  cases hmap : k.mmap s.mappings 0
      (ceiling ((size + sizeofStorage) % 2 ^ 64) s.heapMaster.pageSize) with
  | error e =>
    dsimp only
    rw [Except.error.injEq]
    split
    · next he => exact iff_of_true ⟨_, rfl⟩ he
    · next he => exact iff_of_false (fun ⟨_, h⟩ => by cases h) he
  | ok a => exact iff_of_false (fun ⟨_, h⟩ => by cases h) (by simp)

/-- A request returns null exactly if there is no storage for it. -/
theorem doMalloc_none_iff : (∃ s', doMalloc k t size s = .ok (none, s')) ↔ OutOfMemory k t size s := by
  unfold OutOfMemory
  constructor
  · rintro ⟨s', h⟩
    obtain ⟨s₁, hboot, ⟨hsmall, _, hblock⟩ | ⟨_, _, _, hsome, _⟩ | ⟨hlarge, hmap⟩⟩ := doMalloc_cases h
    · refine ⟨s₁, hboot, ?_⟩
      rw [if_pos hsmall]
      exact allocateBlock_none_iff.mp ⟨s', hblock⟩
    · cases hsome
    · refine ⟨s₁, hboot, ?_⟩
      rw [if_neg (not_lt.mpr hlarge)]
      exact mapLarge_none_iff.mp ⟨s', hmap⟩
  · rintro ⟨s₁, hboot, h⟩
    rw [doMalloc, hboot]
    change ∃ s', (if size < s₁.heapMaster.mmapStart then
      allocateBlock k t (requestBucket t size s₁) s₁ >>= _ else mapLarge k t size s₁) = _
    split at h
    · next hsmall =>
      obtain ⟨s', hblock⟩ := allocateBlock_none_iff.mpr h
      rw [if_pos hsmall, hblock]
      exact ⟨s', rfl⟩
    · next hlarge =>
      rw [if_neg hlarge]
      exact mapLarge_none_iff.mpr h

theorem doMalloc_eq_none (h : doMalloc k t size s = .ok (r, s')) : r = none ↔ OutOfMemory k t size s := by
  rw [← doMalloc_none_iff]
  constructor
  · rintro rfl
    exact ⟨s', h⟩
  · rintro ⟨s'', hnone⟩
    cases h.symm.trans hnone
    rfl

theorem memalignRequest_mod (hsize : size < 2 ^ 64) : memalignRequest alignment size % 2 ^ 64 =
    if alignment ≤ libAlign ∨ size = 0 then size else alignedSize alignment size := by
  unfold memalignRequest
  split
  · exact Nat.mod_eq_of_lt hsize
  · rfl

theorem alignedSize_eq (hbig : libAlign < alignment) (hne : size ≠ 0)
    (hfits : memalignRequest alignment size < 2 ^ 64) : alignedSize alignment size = size + alignment := by
  rw [memalignRequest, if_neg (not_or.mpr ⟨not_le.mpr hbig, hne⟩)] at hfits
  rw [alignedSize, Nat.mod_eq_of_lt hfits]
  simp only [libAlign, sizeofStorage] at *
  omega

theorem memalignNoStats_ok {s₁ : State} (hsize : size < 2 ^ 64)
    (h : doMalloc k t (memalignRequest alignment size % 2 ^ 64) s = .ok (r, s₁)) :
    ∃ r' s', memalignNoStats k t alignment size s = .ok (r', s') ∧ (r' = none ↔ r = none) := by
  rw [memalignRequest_mod hsize] at h
  unfold memalignNoStats
  split at h
  · next hplain =>
    rw [if_pos hplain]
    exact ⟨r, s₁, h, Iff.rfl⟩
  · next hfake =>
    rw [if_neg hfake]
    change ∃ r' s', (doMalloc k t (alignedSize alignment size) s >>= _) = .ok (r', s') ∧ _
    rw [h]
    cases r with
    | none => exact ⟨none, s₁, rfl, Iff.rfl⟩
    | some addr => exact ⟨some _, _, rfl, by simp⟩

theorem memalignNoStats_none (hsize : size < 2 ^ 64) (h : memalignNoStats k t alignment size s = .ok (none, s')) :
    doMalloc k t (memalignRequest alignment size % 2 ^ 64) s = .ok (none, s') := by
  rw [memalignRequest_mod hsize]
  rcases memalignNoStats_cases h with ⟨hplain, hm⟩ | ⟨hbig, hne, ⟨_, hm⟩ | ⟨_, _, _, hsome, _⟩⟩
  · rw [if_pos hplain]
    exact hm
  · rw [if_neg (not_or.mpr ⟨not_le.mpr hbig, hne⟩)]
    exact hm
  · cases hsome

theorem memalignNoStats_none_iff (hsize : size < 2 ^ 64) :
    (∃ s', memalignNoStats k t alignment size s = .ok (none, s')) ↔
      OutOfMemory k t (memalignRequest alignment size % 2 ^ 64) s := by
  rw [← doMalloc_none_iff]
  constructor
  · rintro ⟨s', h⟩
    exact ⟨s', memalignNoStats_none hsize h⟩
  · rintro ⟨s', h⟩
    obtain ⟨r', s'', hok, hnone⟩ := memalignNoStats_ok hsize h
    obtain rfl := hnone.mpr rfl
    exact ⟨s'', hok⟩

theorem memalignNoStats_some_iff (hsize : size < 2 ^ 64) :
    (∃ u s', memalignNoStats k t alignment size s = .ok (some u, s')) ↔
      ∃ u s', doMalloc k t (memalignRequest alignment size % 2 ^ 64) s = .ok (some u, s') := by
  constructor
  · rintro ⟨u, s', h⟩
    rw [memalignRequest_mod hsize]
    rcases memalignNoStats_cases h with ⟨hplain, hm⟩ | ⟨hbig, hne, ⟨hnone, _⟩ | ⟨addr, s₁, hm, _⟩⟩
    · rw [if_pos hplain]
      exact ⟨u, s', hm⟩
    · cases hnone
    · rw [if_neg (not_or.mpr ⟨not_le.mpr hbig, hne⟩)]
      exact ⟨addr, s₁, hm⟩
  · rintro ⟨u, s', h⟩
    obtain ⟨r', s'', hok, hnone⟩ := memalignNoStats_ok hsize h
    obtain ⟨user, rfl⟩ := Option.ne_none_iff_exists'.mp fun hr => Option.some_ne_none u (hnone.mp hr)
    exact ⟨user, s'', hok⟩

theorem memalignNoStats_eq_none (hsize : size < 2 ^ 64)
    (h : memalignNoStats k t alignment size s = .ok (r, s')) :
    r = none ↔ OutOfMemory k t (memalignRequest alignment size % 2 ^ 64) s := by
  rw [← memalignNoStats_none_iff hsize]
  constructor
  · rintro rfl
    exact ⟨s', h⟩
  · rintro ⟨s'', hnone⟩
    cases h.symm.trans hnone
    rfl

/-! ### Granted requests -/

/-- The length of the block that a request gets. -/
def requestLength (m : HeapMaster) (size : ℕ) : ℕ :=
  if size < m.mmapStart then bucketSize (selectBucket m.maxBucketsUsed ((size + sizeofStorage) % 2 ^ 64))
  else ceiling ((size + sizeofStorage) % 2 ^ 64) m.pageSize

theorem requestLength_congr {m m' : HeapMaster} (hm : SameParams m m') :
    requestLength m' size = requestLength m size := by
  unfold requestLength
  rw [hm.mmapStart, hm.maxBucketsUsed, hm.pageSize]

theorem fits_iff {m : HeapMaster} (hpow : m.pageSize.isPowerOfTwo) (hlt : m.pageSize < 2 ^ 64)
    (hsize : size < 2 ^ 64) (hpage : sizeofStorage ≤ m.pageSize) :
    Fits m size ↔ size + sizeofStorage ≤ requestLength m size := by
  unfold Fits requestLength
  split
  · exact Iff.rfl
  · rw [sizeofStorage] at *
    constructor
    · intro hfits
      rw [Nat.mod_eq_of_lt (by omega)]
      exact (ceiling_bounds hpow hfits).1
    · intro hle
      by_contra hwrap
      rw [not_le] at hwrap
      rcases Nat.lt_or_ge (size + 16) (2 ^ 64) with hsmall | hbig
      · rw [Nat.mod_eq_of_lt hsmall, ceiling_wraps hpow hlt hsmall (by omega)] at hle
        omega
      · have hmod : (size + 16) % 2 ^ 64 = size + 16 - 2 ^ 64 := by omega
        rcases Nat.lt_or_ge (2 ^ 64) ((size + 16) % 2 ^ 64 + m.pageSize) with hbig' | hroom
        · rw [ceiling_wraps hpow hlt (by omega) hbig'] at hle
          omega
        · have hceil := (ceiling_bounds hpow hroom).2
          omega

/-- A request that returns an address is granted a block of that length, with room for two headers where a page has it. -/
theorem Refines.obtained (hr : Refines cfg main s status A idle) (hmay : MayCall main s status t)
    (h : Llheap.doMalloc k t size s = .ok (some addr, s')) :
    ∃ origin, Granted cfg s' addr 0 (requestLength s.heapMaster size) origin ∧
      (sizeofStorage < cfg.pageSize → 2 * sizeofStorage ≤ requestLength s.heapMaster size) := by
  obtain ⟨s₁, hboot, hcases⟩ := doMalloc_cases h
  obtain ⟨A₁, idle', hr₁, _, _, hparams, hh⟩ := hr.boot hmay hboot
  rw [← requestLength_congr hparams, requestLength]
  rcases hcases with ⟨_, hnone, _⟩ | ⟨hsmall, block, s₂, hsome, hblock, rfl⟩ | ⟨hlarge, hmap⟩
  · cases hnone
  · obtain rfl := Option.some.inj hsome
    have hf := hr₁.requestBucket hh hsmall
    obtain ⟨A₂, hr₂, hheld, _, _, hmaster⟩ := hr₁.allocateBlock hf hblock
    have hf₂ : IsBucket s₂.heapMaster _ _ _ := ⟨by rw [hmaster.heapManagersList]; exact hf.1, hf.2⟩
    have hbounds := hr₂.bucket_bounds hf₂
    have hend := hr₂.blocks.end_le hr₂.heaps.laid hheld
    have halign := hr₂.heaps.laid.aligned _ _ hheld
    have hlen := hf.le_len
    have hheader : headerAddr (block + sizeofStorage) = block := Nat.add_sub_cancel ..
    rw [if_pos hsmall]
    refine ⟨.bucket (Llheap.requestBucket t size s₁),
      ⟨?_, Nat.le_add_left .., ?_, ?_, fun f hf' => ?_, by simp⟩, fun _ => hlen⟩
    · rw [libAlign, sizeofStorage]
      omega
    · rw [hheader]
      exact Nat.add_le_add_left (le_trans (by decide) hlen) block
    · rw [hheader]
      exact hend
    · obtain rfl := Origin.bucket.inj hf'
      rw [hheader]
      refine ⟨hbounds, ?_, (hr₂.blocks.bucket _ _ _ hf₂).blockSize⟩
      exact (Memory.word_setWord_of_disjoint (by rw [sizeField]; omega)).trans
        (Memory.word_setWord_self hbounds.2)
  · rcases mapLarge_cases hmap with ⟨hnone, _⟩ | ⟨a, hsome, hfresh, rfl⟩
    · cases hnone
    obtain rfl := Option.some.inj hsome
    have hpage := hr₁.blocks.page
    have hdvd : cfg.pageSize ∣ ceiling ((size + sizeofStorage) % 2 ^ 64) s₁.heapMaster.pageSize := by
      rw [hpage]
      exact ceiling_dvd (Nat.mod_lt _ (by decide)) cfg.pageSize_pow2 cfg.pageSize_lt
    have hheader : headerAddr (a + sizeofStorage) = a := Nat.add_sub_cancel ..
    have hlen := Nat.le_of_dvd hfresh.len_pos hdvd
    have hend := hfresh.user
    have h16 := hfresh.align_dvd
    have hle := cfg.le_pageSize
    rw [if_neg (not_lt.mpr hlarge)]
    generalize ceiling ((size + sizeofStorage) % 2 ^ 64) s₁.heapMaster.pageSize = len at *
    have hpage16 := cfg.align_dvd_pageSize
    refine ⟨.mapped, ⟨?_, Nat.le_add_left .., ?_, ?_, by simp, fun _ => ?_⟩, fun hbig => ?_⟩
    · rw [libAlign, sizeofStorage]
      omega
    · rw [hheader, sizeofStorage]
      omega
    · rw [hheader]
      exact hend
    · rw [hheader]
      have h8 : 8 ∣ len := cfg.word_dvd_pageSize.trans hdvd
      have hv : View.Taggable ⟨.mapped, false, 0, none⟩ len :=
        ⟨h8, by change len < _; omega, by decide, by simp, by simp⟩
      refine ⟨?_, hpage, hfresh.aligned, hdvd⟩
      have hlt : markMmappedBit len < 2 ^ 64 := markMmappedBit_eq h8 0 ▸ View.word_lt hv
      exact (Memory.word_setWord_of_disjoint (by rw [sizeField]; omega)).trans (Memory.word_setWord_self hlt)
    · rw [sizeofStorage] at hbig ⊢
      omega

/-- The headers of `user` lead to the block `[b, b + len)` and record a request of `size` bytes. -/
def Obtained (s : State) (b user size len : ℕ) : Prop :=
  ∃ v : View, Encodes s.mem b len user v ∧ v.Taggable len ∧ v.size = size ∧
    ∀ f, v.origin = .bucket f → (s.freeHeader f).blockSize = len

section

variable {b user len : ℕ}

theorem Obtained.header (h : Obtained s b user size len) :
    (fakeHeader s.mem (headerAddr user)).1 = b ∧ (headers s user).header = b ∧ b + sizeofStorage ≤ user := by
  obtain ⟨v, henc, hv, _⟩ := h
  rw [henc.fakeHeader hv, henc.headers hv]
  exact ⟨rfl, rfl, henc.user_after.1⟩

theorem Obtained.requestSize (h : Obtained s b user size len) : mallocRequestSize s (some user) = size := by
  obtain ⟨v, henc, hv, hsize, _⟩ := h
  exact (henc.mallocRequestSize hv).trans hsize

theorem Obtained.len_eq (h : Obtained s b user size len) : (headers s user).size = len := by
  obtain ⟨v, henc, hv, _, hbucket⟩ := h
  rw [henc.headers hv]
  dsimp only
  split
  · rfl
  · next hnot =>
    cases hcase : v.origin with
    | bucket f => exact hbucket f hcase
    | mapped => exact absurd hcase hnot

theorem Obtained.zeroFill (h : Obtained s b user size len) (m : ℕ) :
    Obtained (Llheap.zeroFill user b m s) b user size len := by
  obtain ⟨v, henc, hv, hsize, hbucket⟩ := h
  refine ⟨{ v with zeroFill := true }, Encodes.markZeroFilled ?_ hv, hv.withZeroFill true, hsize, hbucket⟩
  split
  · exact henc.of_contents fun x hx => Memory.fill_apply_of_outside (.inl hx)
  · exact henc

end

theorem Refines.doMalloc_obtained (hr : Refines cfg main s status A idle) (hmay : MayCall main s status t)
    (hsize : size < 2 ^ 64) (h : Llheap.doMalloc k t size s = .ok (some addr, s')) :
    Obtained s' (headerAddr addr) addr size (requestLength s.heapMaster size) := by
  obtain ⟨origin, hg, _⟩ := hr.obtained hmay h
  exact ⟨_, hg.encodes hsize (doMalloc_size hsize h), hg.taggable hsize, rfl, fun f hf => (hg.bucket f hf).2.2⟩

/-- An aligned request gets the block of the `doMalloc` call that it makes; its address is behind the fake header. -/
theorem Refines.memalignNoStats_room {user : ℕ} (hr : Refines cfg main s status A idle)
    (hmay : MayCall main s status t) (hsize : size < 2 ^ 64) (hpow : alignment.isPowerOfTwo)
    (halign : alignment < 2 ^ 64)
    (hroom : libAlign < alignment → size ≠ 0 →
      2 * sizeofStorage ≤ requestLength s.heapMaster (alignedSize alignment size))
    (h : Llheap.memalignNoStats k t alignment size s = .ok (some user, s')) :
    ∃ b, Obtained s' b user size
      (requestLength s.heapMaster (memalignRequest alignment size % 2 ^ 64)) := by
  rw [memalignRequest_mod hsize]
  rcases memalignNoStats_cases h with ⟨hplain, hm⟩ | ⟨hbig, hne, ⟨hnone, _⟩ | ⟨addr, s₁, hm, huser, rfl⟩⟩
  · rw [if_pos hplain]
    exact ⟨_, hr.doMalloc_obtained hmay hsize hm⟩
  · cases hnone
  · obtain rfl := Option.some.inj huser
    rw [if_neg (not_or.mpr ⟨not_le.mpr hbig, hne⟩)]
    have hasked : alignedSize alignment size < 2 ^ 64 := Nat.mod_lt _ (by decide)
    obtain ⟨origin, hg, _⟩ := hr.obtained hmay hm
    have henc := hg.encodes hasked (doMalloc_size hasked hm)
    have hv := hg.taggable hasked
    have hdvd16 : libAlign ∣ alignment := align_dvd_of_le hpow hbig.le
    have hhalf : alignment ≤ 2 ^ 63 := Rounding.le_half_of_isPowerOfTwo hpow halign
    have hend := hg.inUser
    have hle := hg.header_le
    have hlen := hroom hbig hne
    have hplus : headerAddr addr + sizeofStorage = addr := Nat.sub_add_cancel hle
    rw [sizeofStorage] at hplus
    have haddr : addr + sizeofStorage ≤ 2 ^ 63 := by
      rw [sizeofStorage] at hlen ⊢
      omega
    rw [libAlign] at hdvd16
    obtain ⟨hlow, hceil⟩ := ceiling_bounds (v := addr + sizeofStorage) hpow (by omega)
    have hfake := setFakeHeader_encodes henc rfl hlow (by omega) (by omega) halign hsize
    exact ⟨_, _, hfake, (hv.withSize hsize).withAlignment (by omega) halign, rfl, fun f hf => (hg.bucket f hf).2.2⟩

theorem Refines.memalignNoStats_obtained {user : ℕ} (hr : Refines cfg main s status A idle)
    (hmay : MayCall main s status t) (hpage : sizeofStorage < cfg.pageSize) (hsize : size < 2 ^ 64)
    (hpow : alignment.isPowerOfTwo) (halign : alignment < 2 ^ 64)
    (h : Llheap.memalignNoStats k t alignment size s = .ok (some user, s')) :
    ∃ b, Obtained s' b user size
      (requestLength s.heapMaster (memalignRequest alignment size % 2 ^ 64)) := by
  refine hr.memalignNoStats_room hmay hsize hpow halign (fun hbig hne => ?_) h
  rcases memalignNoStats_cases h with ⟨hplain, _⟩ | ⟨_, _, ⟨hnone, _⟩ | ⟨addr, s₁, hm, _⟩⟩
  · exact absurd hplain (not_or.mpr ⟨not_le.mpr hbig, hne⟩)
  · cases hnone
  · obtain ⟨_, _, hroom⟩ := hr.obtained hmay hm
    exact hroom hpage

theorem Refines.pageSize (hr : Refines cfg main s status A idle) :
    s.heapMaster.pageSize.isPowerOfTwo ∧ s.heapMaster.pageSize < 2 ^ 64 ∧ sizeofStorage ≤ s.heapMaster.pageSize := by
  rw [hr.blocks.page]
  exact ⟨cfg.pageSize_pow2, cfg.pageSize_lt, cfg.le_pageSize⟩

theorem Fits.word (hr : Refines cfg main s status A idle) (hfits : Fits s.heapMaster n) : n < 2 ^ 64 := by
  obtain ⟨_, _, hpage⟩ := hr.pageSize
  rw [sizeofStorage] at hpage
  have := hfits.lt hr.blocks.crossover (by omega)
  omega

theorem Refines.small_lt (hr : Refines cfg main s status A idle) (hsmall : n < s.heapMaster.mmapStart) :
    n + sizeofStorage < 2 ^ 64 := by
  have hlast : bucketSize (noBucketSizes - 1) = 67108880 := by decide
  have hupper := hr.blocks.crossover.upper
  rw [sizeofStorage]
  omega

theorem Refines.small_length (hr : Refines cfg main s status A idle) (hsmall : n < s.heapMaster.mmapStart) :
    2 * sizeofStorage ≤ requestLength s.heapMaster n := by
  have hlast : bucketSize (noBucketSizes - 1) = 67108880 := by decide
  have hupper := hr.blocks.crossover.upper
  rw [requestLength, if_pos hsmall]
  exact le_bucketSize (selectBucket_lt hr.blocks.crossover (by rw [sizeofStorage]; omega))

theorem Refines.served_length {user : ℕ} (hr : Refines cfg main s status A idle)
    (hmay : MayCall main s status t) (hsize : size < 2 ^ 64) (hpow : alignment.isPowerOfTwo)
    (halign : alignment < 2 ^ 64) (hn : n = memalignRequest alignment size % 2 ^ 64)
    (hlen : n < s.heapMaster.mmapStart ∨ Fits s.heapMaster n)
    (h : Llheap.memalignNoStats k t alignment size s = .ok (some user, s')) :
    (Llheap.headers s' user).size = requestLength s.heapMaster n := by
  have hroom : libAlign < alignment → size ≠ 0 →
      2 * sizeofStorage ≤ requestLength s.heapMaster (alignedSize alignment size) := by
    intro hbig hne
    rw [memalignRequest_mod hsize, if_neg (not_or.mpr ⟨not_le.mpr hbig, hne⟩)] at hn
    rw [← hn]
    rcases hlen with hsmall | hfits
    · exact hr.small_length hsmall
    · by_cases hsmall : n < s.heapMaster.mmapStart
      · exact hr.small_length hsmall
      · obtain ⟨hpage, hlt, hle⟩ := hr.pageSize
        have hword := hfits.word hr
        have hlong := (fits_iff hpage hlt hword hle).mp hfits
        have hlow := hr.blocks.crossover.lower
        rw [sizeofStorage] at *
        omega
  obtain ⟨b, hobtained⟩ := hr.memalignNoStats_room hmay hsize hpow halign hroom h
  rw [← hn] at hobtained
  exact hobtained.len_eq

end Llheap
