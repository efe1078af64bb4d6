import Llheap.Proof.Separation

/-!
# The remainder of a replaced buffer

When `manager_extend` replaces a thread's buffer it puts what is left of the old one on the free list of a bucket. Below the size of the lookup table the bucket comes from that table, which knows nothing of the last bucket in use; above, from a binary search whose key has 32 bits. A new block that happens to follow the old buffer is taken as its continuation, but the bookkeeping starts over behind the new block. The remainder stays available exactly when none of these goes wrong.
-/

namespace Llheap

variable {cfg : Config} {k : Kernel cfg} {t : Tid} {s s' : State} {heap max rem size newblock i : ℕ}

/-- The buckets of a heap as its constructor leaves them, with lists that do not start with a buffer. -/
structure OwnBuckets (s : State) (heap : ℕ) : Prop where
  blockSize : ∀ i < noBucketSizes, (s.freeHeader (freeListsAddr heap i)).blockSize = bucketSize i
  freeList_lt : ∀ i < noBucketSizes, (s.freeHeader (freeListsAddr heap i)).freeList < 2 ^ 64
  apart : 0 < (s.heap heap).bufRemaining → ∀ i < noBucketSizes,
    (s.freeHeader (freeListsAddr heap i)).freeList ≠ (s.heap heap).bufStart

/-- `i` is the bucket with the largest blocks up to `rem`, of the buckets in use. -/
structure LargestFitting (max rem i : ℕ) : Prop where
  used : i ≤ max
  fits : bucketSize i ≤ rem
  largest : ∀ j ≤ max, bucketSize j ≤ rem → j ≤ i

/-- The new block follows the old remainder, which is part of the block that is returned or of the new buffer. -/
def InNewBuffer (s s' : State) (heap newblock size : ℕ) : Prop :=
  newblock = (s.heap heap).bufStart + (s.heap heap).bufRemaining ∧
    ∀ x, (s.heap heap).bufStart ≤ x → x < (s.heap heap).bufStart + (s.heap heap).bufRemaining →
      (newblock ≤ x ∧ x < newblock + size) ∨
      ((s'.heap heap).bufStart ≤ x ∧ x < (s'.heap heap).bufStart + (s'.heap heap).bufRemaining)

/-- The old remainder is on top of the free list of the largest bucket in use that it fills; the lists of the other buckets are the same. The search does not index the lookup table below its start. -/
def OnFreeList (s s' : State) (heap : ℕ) : Prop :=
  ¬ negative (s.heap heap).bufRemaining ∧
    ∃ i, LargestFitting s.heapMaster.maxBucketsUsed (s.heap heap).bufRemaining i ∧
      s'.freeHeader = Function.update s.freeHeader (freeListsAddr heap i)
        ((s.freeHeader (freeListsAddr heap i)).setTop .freeList (s.heap heap).bufStart) ∧
      s'.mem.word (s.heap heap).bufStart = (s.freeHeader (freeListsAddr heap i)).freeList

/-- What the replacement of a buffer owes to the remainder, and to everything else on the heap's lists. -/
structure RemainderKept (s s' : State) (heap newblock size : ℕ) : Prop where
  available : bucketSize 0 ≤ (s.heap heap).bufRemaining →
    (InNewBuffer s s' heap newblock size ∧ s'.freeHeader = s.freeHeader) ∨ OnFreeList s s' heap
  small : (s.heap heap).bufRemaining < bucketSize 0 → s'.freeHeader = s.freeHeader
  others : ∀ x, Covered s.mappings x 1 →
    x < (s.heap heap).bufStart ∨ (s.heap heap).bufStart + 8 ≤ x → s'.mem x = s.mem x

/-- The remainder and the last bucket in use for which the two searches are right. -/
structure Searchable (max rem : ℕ) : Prop where
  positive : ¬ negative rem
  /-- the lookup table ends at the last bucket in use -/
  lookup : rem < lookupSizes → ∀ j < noBucketSizes, max < j → rem < bucketSize j
  /-- the key of the binary search keeps enough of the remainder -/
  key : 2 ^ 32 ≤ rem → bucketSize 0 ≤ rem % 2 ^ 32 ∧ ∀ j < max, bucketSize j < rem % 2 ^ 32

/-! ### The bucket of a remainder -/

/-- The bucket after the step down. -/
def roundedBucket (max rem : ℕ) : ℕ :=
  if rem < bucketSize (remainderBucket max rem) then remainderBucket max rem - 1
  else remainderBucket max rem

theorem OwnBuckets.chainRemainder (hb : OwnBuckets s heap)
    (hmax : s.heapMaster.maxBucketsUsed < noBucketSizes)
    (hrem : bucketSize 0 ≤ (s.heap heap).bufRemaining % 2 ^ 32) :
    chainRemainder heap s = s.push .freeList
      (freeListsAddr heap (roundedBucket s.heapMaster.maxBucketsUsed (s.heap heap).bufRemaining))
      (s.heap heap).bufStart := by
  obtain ⟨hlt, hdown⟩ := remainderBucket_spec hmax hrem
  unfold Llheap.chainRemainder roundedBucket
  dsimp only
  rw [if_pos hrem, hb.blockSize _ hlt]
  split
  · next hshort => rw [freeListsAddr_pred (hdown hshort).1]
  · rfl

theorem roundedBucket_lt (hmax : max < noBucketSizes) (hrem : bucketSize 0 ≤ rem % 2 ^ 32) :
    roundedBucket max rem < noBucketSizes := by
  have hlt := (remainderBucket_spec hmax hrem).1
  unfold roundedBucket
  split <;> omega

/-- Below the table's size: the largest bucket of all that the remainder fills. -/
theorem roundedBucket_lookup (max : ℕ) (hrem : bucketSize 0 ≤ rem) (hsmall : rem < lookupSizes) :
    bucketSize (roundedBucket max rem) ≤ rem ∧
      ∀ j < noBucketSizes, roundedBucket max rem < j → rem < bucketSize j := by
  rw [lookupSizes] at hsmall
  have hbound : rem ≤ 67108880 := by omega
  obtain ⟨hlt, hreach, hbelow⟩ := lookupIdx_spec hbound
  have hbucket : remainderBucket max rem = lookupIdx bucketSize rem := by
    rw [remainderBucket, if_pos (by rw [lookupSizes]; omega), lookup_eq hbound]
  unfold roundedBucket
  rw [hbucket]
  split
  · next hshort =>
    have hpos : 0 < lookupIdx bucketSize rem := by
      by_contra hzero
      rw [Nat.eq_zero_of_not_pos hzero] at hshort
      omega
    refine ⟨(hbelow _ (by omega)).le, fun j hj hlow => ?_⟩
    exact hshort.trans_le (bucketSize_le (by omega) hj)
  · next hfits => exact ⟨not_lt.mp hfits, fun j hj hlow => hreach.trans_lt (bucketSize_lt hlow hj)⟩

/-- Above the table's size, while the key holds the remainder. -/
theorem roundedBucket_bsearchl (hmax : max < noBucketSizes) (hlarge : lookupSizes ≤ rem)
    (hkey : rem < 2 ^ 32) : LargestFitting max rem (roundedBucket max rem) := by
  have hbucket : remainderBucket max rem = bsearchl rem bucketSize max := if_neg (not_lt.mpr hlarge)
  obtain ⟨hle, hbelow, habove⟩ := bsearchl_spec rem max bucketSize hkey
    fun i j hij hj => bucketSize_le hij (hj.trans hmax)
  unfold roundedBucket
  rw [hbucket]
  split
  · next hshort =>
    refine ⟨by omega, ?_, fun j hj hfit => ?_⟩
    · rcases Nat.eq_zero_or_pos (bsearchl rem bucketSize max) with hzero | hpos
      · have hfirst : bucketSize 0 = 32 := by decide
        rw [hzero] at hshort
        rw [lookupSizes] at hlarge
        omega
      · exact (hbelow _ (by omega)).le
    · by_contra hlow
      have := bucketSize_le (show bsearchl rem bucketSize max ≤ j by omega) (hj.trans_lt hmax)
      omega
  · next hfits =>
    refine ⟨hle, not_lt.mp hfits, fun j hj hfit => ?_⟩
    by_contra hlow
    have hreach := habove _ le_rfl (by omega : bsearchl rem bucketSize max < max)
    have := bucketSize_lt (show bsearchl rem bucketSize max < j by omega) (hj.trans_lt hmax)
    omega

/-- Above 32 bits every bucket is smaller than the remainder, and the search uses the low bits. -/
theorem roundedBucket_truncated (hmax : max < noBucketSizes) (hlarge : 2 ^ 32 ≤ rem) :
    LargestFitting max rem (roundedBucket max rem) ↔ ∀ j < max, bucketSize j < rem % 2 ^ 32 := by
  have hall : ∀ j ≤ max, bucketSize j ≤ rem := by
    intro j hj
    have := bucketSize_le_last (hj.trans_lt hmax)
    omega
  have hbucket : remainderBucket max rem = bsearchl (rem % 2 ^ 32) bucketSize max := by
    rw [remainderBucket, if_neg (by rw [lookupSizes]; omega), bsearchl, bsearchl, Nat.mod_mod]
  obtain ⟨hle, hbelow, habove⟩ := bsearchl_spec (rem % 2 ^ 32) max bucketSize (Nat.mod_lt _ (by decide))
    fun i j hij hj => bucketSize_le hij (hj.trans hmax)
  have hrounded : roundedBucket max rem = bsearchl (rem % 2 ^ 32) bucketSize max := by
    rw [roundedBucket, hbucket, if_neg (not_lt.mpr (hall _ hle))]
  rw [hrounded]
  constructor
  · intro hlargest j hj
    have hmaxle := hlargest.largest max le_rfl (hall max le_rfl)
    exact hbelow j (by omega)
  · intro hshort
    refine ⟨hle, hall _ hle, fun j hj _ => ?_⟩
    by_contra hlow
    have hlt : bsearchl (rem % 2 ^ 32) bucketSize max < max := by omega
    have := habove _ le_rfl hlt
    have := hshort _ hlt
    omega

theorem largestFitting_iff (hmax : max < noBucketSizes) (hrem : bucketSize 0 ≤ rem % 2 ^ 32)
    (hpos : ¬ negative rem) : LargestFitting max rem (roundedBucket max rem) ↔ Searchable max rem := by
  have hmod : rem % 2 ^ 32 ≤ rem := Nat.mod_le _ _
  rcases Nat.lt_or_ge rem lookupSizes with hsmall | hlarge
  · obtain ⟨hfits, habove⟩ := roundedBucket_lookup max (hrem.trans hmod) hsmall
    constructor
    · intro hlargest
      refine ⟨hpos, fun _ j hj hlow => habove j hj (hlargest.used.trans_lt hlow), fun hbig => ?_⟩
      rw [lookupSizes] at hsmall
      omega
    · intro hsearch
      have hlt := roundedBucket_lt hmax hrem
      have hused : roundedBucket max rem ≤ max := by
        by_contra hhigh
        have := hsearch.lookup hsmall _ hlt (by omega)
        omega
      refine ⟨hused, hfits, fun j hj hfit => ?_⟩
      by_contra hlow
      have := habove j (hj.trans_lt hmax) (by omega)
      omega
  · rcases Nat.lt_or_ge rem (2 ^ 32) with hword | hbig
    · exact ⟨fun _ => ⟨hpos, fun hsmall => absurd hsmall (not_lt.mpr hlarge),
        fun hbig => absurd hbig (not_le.mpr hword)⟩, fun _ => roundedBucket_bsearchl hmax hlarge hword⟩
    · rw [roundedBucket_truncated hmax hbig]
      exact ⟨fun h => ⟨hpos, fun hsmall => absurd hsmall (not_lt.mpr hlarge), fun _ => ⟨hrem, h⟩⟩,
        fun h => (h.key hbig).2⟩

theorem freeListsAddr_inj {j : ℕ} (h : freeListsAddr heap i = freeListsAddr heap j) : i = j := by
  rw [freeListsAddr, freeListsAddr, sizeofFreeHeader] at h
  omega

theorem LargestFitting.unique {j : ℕ} (hi : LargestFitting max rem i) (hj : LargestFitting max rem j) :
    i = j := le_antisymm (hj.largest i hi.used hi.fits) (hi.largest j hj.used hj.fits)

/-! ### The replacement -/

theorem OnFreeList.listed (h : OnFreeList s s' heap) :
    ∃ i ≤ s.heapMaster.maxBucketsUsed,
      (s'.freeHeader (freeListsAddr heap i)).freeList = (s.heap heap).bufStart := by
  obtain ⟨_, i, hi, htop, _⟩ := h
  refine ⟨i, hi.used, ?_⟩
  rw [htop, Function.update_self]
  rfl

theorem not_onFreeList (hb : OwnBuckets s heap) (hmax : s.heapMaster.maxBucketsUsed < noBucketSizes)
    (hpos : 0 < (s.heap heap).bufRemaining) (hsame : s'.freeHeader = s.freeHeader) :
    ¬ OnFreeList s s' heap := by
  intro hlist
  obtain ⟨i, hused, htop⟩ := hlist.listed
  rw [hsame] at htop
  exact hb.apart hpos i (hused.trans_lt hmax) htop

/-- The remainder is put on one list: it has to be the right one. -/
theorem onFreeList_iff (hb : OwnBuckets s heap) (hmax : s.heapMaster.maxBucketsUsed < noBucketSizes)
    (hrem : bucketSize 0 ≤ (s.heap heap).bufRemaining % 2 ^ 32)
    (htop : s'.freeHeader = Function.update s.freeHeader
      (freeListsAddr heap (roundedBucket s.heapMaster.maxBucketsUsed (s.heap heap).bufRemaining))
      ((s.freeHeader (freeListsAddr heap
        (roundedBucket s.heapMaster.maxBucketsUsed (s.heap heap).bufRemaining))).setTop .freeList
          (s.heap heap).bufStart))
    (hlink : s'.mem.word (s.heap heap).bufStart = (s.freeHeader (freeListsAddr heap
      (roundedBucket s.heapMaster.maxBucketsUsed (s.heap heap).bufRemaining))).freeList) :
    OnFreeList s s' heap ↔ Searchable s.heapMaster.maxBucketsUsed (s.heap heap).bufRemaining := by
  constructor
  · rintro ⟨hpos, i, hi, htop', _⟩
    refine (largestFitting_iff hmax hrem hpos).mp ?_
    have hlarge : 0 < (s.heap heap).bufRemaining := by
      have hfirst : bucketSize 0 = 32 := by decide
      omega
    have hsame : i = roundedBucket s.heapMaster.maxBucketsUsed (s.heap heap).bufRemaining := by
      by_contra hne
      have hcontra := congrFun (htop.symm.trans htop') (freeListsAddr heap i)
      rw [Function.update_self, Function.update_of_ne fun h => hne (freeListsAddr_inj h)] at hcontra
      exact hb.apart hlarge i (hi.used.trans_lt hmax) (congrArg FreeHeader.freeList hcontra)
    exact hsame ▸ hi
  · intro hsearch
    exact ⟨hsearch.positive, _, (largestFitting_iff hmax hrem hsearch.positive).mpr hsearch, htop, hlink⟩

theorem Refines.ownBuckets {main : Tid} {status : Tid → Status} {A : Arena Tag} {idle : List ℕ}
    (hr : Refines cfg main s status A idle) (hh : heap ∈ s.heapMaster.heapManagersList) :
    OwnBuckets s heap := by
  have htop : ∀ i < noBucketSizes, (s.freeHeader (freeListsAddr heap i)).freeList ≠ 0 →
      A.at? (s.freeHeader (freeListsAddr heap i)).freeList =
        some ⟨bucketSize i, .free (freeListsAddr heap i)⟩ := by
    intro i hi hne
    obtain ⟨own, remote, hown, _, _, hiff⟩ := (hr.blocks.bucket heap _ _ ⟨hh, i, hi, rfl, rfl⟩).listed
    obtain ⟨rest, rfl, _⟩ := hown.exists_cons hne
    exact (hiff _).mp (List.mem_append_left _ List.mem_cons_self)
  refine ⟨fun i hi => (hr.blocks.bucket heap _ _ ⟨hh, i, hi, rfl, rfl⟩).blockSize, fun i hi => ?_,
    fun hpos i hi heq => ?_⟩
  · by_cases hne : (s.freeHeader (freeListsAddr heap i)).freeList = 0
    · rw [hne]
      decide
    · have := hr.blocks.end_le hr.heaps.laid (htop i hi hne)
      omega
  · have hbuffer := hr.buffer hh hpos
    have hne : (s.freeHeader (freeListsAddr heap i)).freeList ≠ 0 := by
      rw [heq]
      exact (hr.heaps.laid.pos _ _ hbuffer).ne'
    have hpiece := htop i hi hne
    rw [heq, hbuffer] at hpiece
    cases (Piece.mk.inj (Option.some.inj hpiece)).2

theorem OwnBuckets.congr {s₁ : State} (hb : OwnBuckets s heap) (hfree : s₁.freeHeader = s.freeHeader)
    (hheap : s₁.heap = s.heap) : OwnBuckets s₁ heap :=
  ⟨by rw [hfree]; exact hb.blockSize, by rw [hfree]; exact hb.freeList_lt,
    by rw [hfree, hheap]; exact hb.apart⟩

theorem replaceBuffer_cases (newblock size rem : ℕ) (hb : OwnBuckets s (s.heapManager t))
    (hmax : s.heapMaster.maxBucketsUsed < noBucketSizes) :
    ((newblock = (s.heap (s.heapManager t)).bufStart + (s.heap (s.heapManager t)).bufRemaining ∨
        (s.heap (s.heapManager t)).bufRemaining % 2 ^ 32 < bucketSize 0) ∧
      (replaceBuffer t newblock size rem s).freeHeader = s.freeHeader ∧
      (replaceBuffer t newblock size rem s).mem = s.mem) ∨
    (newblock ≠ (s.heap (s.heapManager t)).bufStart + (s.heap (s.heapManager t)).bufRemaining ∧
      bucketSize 0 ≤ (s.heap (s.heapManager t)).bufRemaining % 2 ^ 32 ∧
      ∃ s₁, s₁ = s.push .freeList (freeListsAddr (s.heapManager t)
          (roundedBucket s.heapMaster.maxBucketsUsed (s.heap (s.heapManager t)).bufRemaining))
          (s.heap (s.heapManager t)).bufStart ∧
        (replaceBuffer t newblock size rem s).freeHeader = s₁.freeHeader ∧
        (replaceBuffer t newblock size rem s).mem = s₁.mem) := by
  unfold replaceBuffer
  dsimp only
  split
  · next hnew =>
    by_cases hrem : bucketSize 0 ≤ (s.heap (s.heapManager t)).bufRemaining % 2 ^ 32
    · rw [hb.chainRemainder hmax hrem]
      exact .inr ⟨hnew, hrem, _, rfl, rfl, rfl⟩
    · have hsame : Llheap.chainRemainder (s.heapManager t) s = s := if_neg hrem
      rw [hsame]
      exact .inl ⟨.inr (not_le.mp hrem), rfl, rfl⟩
  · next hnew => exact .inl ⟨.inl (not_not.mp hnew), rfl, rfl⟩

theorem managerExtend_bufStart (h : managerExtend k t size s = .ok (some newblock, s')) :
    (s'.heap (s.heapManager t)).bufStart = newblock + size := by
  rcases managerExtend_cases h with ⟨hnone, _⟩ | ⟨a, s₁, ha, hmaster, rfl⟩
  · cases hnone
  obtain rfl := Option.some.inj ha
  rw [← (masterExtend_grown hmaster).1.heapManager]
  simp [replaceBuffer]

theorem not_inNewBuffer (hbuf : (s'.heap heap).bufStart = newblock + size)
    (hpos : 0 < (s.heap heap).bufRemaining) : ¬ InNewBuffer s s' heap newblock size := by
  rintro ⟨hnew, hin⟩
  rcases hin (s.heap heap).bufStart le_rfl (by omega) with ⟨hlow, _⟩ | ⟨hlow, _⟩
  · omega
  · omega

/-- For every remainder, last bucket in use and new block: the remainder stays available if and only if it is too small for a bucket, or the new block does not follow it and the searches are right for it. -/
theorem remainder_kept (hb : OwnBuckets s (s.heapManager t))
    (hmax : s.heapMaster.maxBucketsUsed < noBucketSizes)
    (h : managerExtend k t size s = .ok (some newblock, s')) :
    RemainderKept s s' (s.heapManager t) newblock size ↔
      (bucketSize 0 ≤ (s.heap (s.heapManager t)).bufRemaining →
        newblock ≠ (s.heap (s.heapManager t)).bufStart + (s.heap (s.heapManager t)).bufRemaining ∧
        Searchable s.heapMaster.maxBucketsUsed (s.heap (s.heapManager t)).bufRemaining) := by
  have hbuf := managerExtend_bufStart h
  have hfirst : bucketSize 0 = 32 := by decide
  rcases managerExtend_cases h with ⟨hnone, _⟩ | ⟨a, s₁, ha, hmaster, rfl⟩
  · cases hnone
  obtain rfl := Option.some.inj ha
  obtain ⟨hgrown, _⟩ := masterExtend_grown hmaster
  have hcases := replaceBuffer_cases (t := t) (s := s₁) newblock size
    (sub64 (ceiling (max size cfg.mallocThreadBlock) libAlign) size)
    (by rw [hgrown.heapManager]; exact hb.congr hgrown.freeHeader hgrown.heap)
    (by rw [hgrown.master.maxBucketsUsed]; exact hmax)
  rw [hgrown.heapManager, hgrown.heap, hgrown.master.maxBucketsUsed] at hcases
  generalize replaceBuffer t newblock size _ s₁ = s₂ at hbuf hcases ⊢
  have hmod : (s.heap (s.heapManager t)).bufRemaining % 2 ^ 32 ≤ (s.heap (s.heapManager t)).bufRemaining :=
    Nat.mod_le _ _
  rcases hcases with ⟨hskip, hfree, hmem⟩ | ⟨hnew, hrem, s₃, rfl, hfree, hmem⟩
  · rw [hgrown.freeHeader] at hfree
    constructor
    · intro hkept hlarge
      rcases hkept.available hlarge with ⟨hin, _⟩ | hlist
      · exact absurd hin (not_inNewBuffer hbuf (by omega))
      · exact absurd hlist (not_onFreeList hb hmax (by omega) hfree)
    · intro hok
      refine ⟨fun hlarge => ?_, fun _ => hfree, fun x hx _ => by rw [hmem, hgrown.mem x hx]⟩
      obtain ⟨hnew, hsearch⟩ := hok hlarge
      have hshort := hskip.resolve_left hnew
      rcases Nat.lt_or_ge (s.heap (s.heapManager t)).bufRemaining (2 ^ 32) with hword | hbig
      · rw [Nat.mod_eq_of_lt hword] at hshort
        omega
      · have := (hsearch.key hbig).1
        omega
  · have hlink : s₂.mem.word (s.heap (s.heapManager t)).bufStart = (s.freeHeader (freeListsAddr
        (s.heapManager t) (roundedBucket s.heapMaster.maxBucketsUsed
          (s.heap (s.heapManager t)).bufRemaining))).freeList := by
      rw [hmem, State.push, hgrown.freeHeader]
      exact Memory.word_setWord_self (hb.freeList_lt _ (roundedBucket_lt hmax hrem))
    rw [State.push, hgrown.freeHeader] at hfree
    have hiff := onFreeList_iff hb hmax hrem hfree hlink
    constructor
    · intro hkept hlarge
      rcases hkept.available hlarge with ⟨hin, _⟩ | hlist
      · exact absurd hin (not_inNewBuffer hbuf (by omega))
      · exact ⟨hnew, hiff.mp hlist⟩
    · intro hok
      refine ⟨fun hlarge => .inr (hiff.mpr (hok hlarge).2), fun hsmall => by omega, fun x hx hout => ?_⟩
      rw [hmem, State.push]
      exact (Memory.setWord_apply_of_outside hout).trans (hgrown.mem x hx)

private def started : State :=
  ((doMalloc (.above defaultConfig) 0 32 Separation.World.booted.st).getD (none, State.unbooted)).2

private def walled : State :=
  ((doMalloc (.above defaultConfig) 0 67108864 started).getD (none, State.unbooted)).2

private theorem started_ownBuckets : OwnBuckets started (started.heapManager 0) :=
  ⟨by decide +kernel, by decide +kernel, by decide +kernel⟩

private theorem walled_ownBuckets : OwnBuckets walled (walled.heapManager 0) :=
  ⟨by decide +kernel, by decide +kernel, by decide +kernel⟩

/-- Behind the large block the remainder of 2097104 bytes is kept. -/
theorem remainder_kept_walled : ∃ s',
    managerExtend (.above defaultConfig) 0 2097168 walled = .ok (some 203698176, s') ∧
      RemainderKept walled s' (walled.heapManager 0) 203698176 2097168 := by
  have hrun : (managerExtend (.above defaultConfig) 0 2097168 walled).isOk = true := by decide +kernel
  have h := Result.eq_ok_pair hrun (d := (none, State.unbooted)) (a := some 203698176) (by decide +kernel)
  have hmax : walled.heapMaster.maxBucketsUsed < noBucketSizes := by decide +kernel
  have hrem : (walled.heap (walled.heapManager 0)).bufRemaining = 2097104 := by decide +kernel
  have hnew : 203698176 ≠ (walled.heap (walled.heapManager 0)).bufStart +
      (walled.heap (walled.heapManager 0)).bufRemaining := by decide +kernel
  refine ⟨_, h, (remainder_kept walled_ownBuckets hmax h).mpr fun _ => ⟨hnew, ?_⟩⟩
  rw [hrem]
  exact ⟨by decide, fun hsmall => absurd hsmall (by decide), fun hbig => absurd hbig (by decide)⟩

/-- Without it the new block follows the buffer, and the remainder is lost. -/
theorem remainder_lost : ¬ ∀ (k : Kernel defaultConfig) (t size newblock : ℕ) (s s' : State),
    OwnBuckets s (s.heapManager t) →
      (∃ value m₀ m, setMmapStart value m₀ = (true, m) ∧
        m.maxBucketsUsed = s.heapMaster.maxBucketsUsed) →
      managerExtend k t size s = .ok (some newblock, s') →
      RemainderKept s s' (s.heapManager t) newblock size := by
  intro hall
  have hrun : (managerExtend (.above defaultConfig) 0 2097168 started).isOk = true := by decide +kernel
  have hlists : ∀ i < noBucketSizes, (((managerExtend (.above defaultConfig) 0 2097168 started).getD
      (none, State.unbooted)).2.freeHeader (freeListsAddr (started.heapManager 0) i)).freeList ≠
      (started.heap (started.heapManager 0)).bufStart := by decide +kernel
  have h := Result.eq_ok_pair hrun (d := (none, State.unbooted)) (a := some 136585216) (by decide +kernel)
  generalize ((managerExtend (.above defaultConfig) 0 2097168 started).getD (none, State.unbooted)).2 = s'
    at h hlists
  have hrange : ¬ (33554448 < started.heapMaster.pageSize ∨ bucketSize (noBucketSizes - 1) < 33554448) := by
    decide +kernel
  have hmax : ∃ value m₀ m, setMmapStart value m₀ = (true, m) ∧
      m.maxBucketsUsed = started.heapMaster.maxBucketsUsed := by
    refine ⟨33554448, started.heapMaster, _, if_neg hrange, ?_⟩
    decide +kernel
  have hlarge : bucketSize 0 ≤ (started.heap (started.heapManager 0)).bufRemaining := by decide +kernel
  have hkept := hall _ _ _ _ _ _ started_ownBuckets hmax h
  rcases hkept.available hlarge with ⟨hin, _⟩ | hlist
  · exact not_inNewBuffer (managerExtend_bufStart h) (by decide +kernel) hin
  · obtain ⟨i, hused, htop⟩ := hlist.listed
    exact hlists i (hused.trans_lt (by decide +kernel)) htop

end Llheap
