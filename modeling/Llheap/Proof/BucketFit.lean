import Llheap.Proof.Startup

/-!
# Bucket selection

`doMalloc` compares the user size with the crossover point and then searches for size plus header, up to the last bucket in use, which is derived from the crossover point without the header. The selected bucket fits exactly when size plus header is not larger than that last bucket.
-/

namespace Llheap

/-- A crossover point and the last bucket in use, as the code leaves them when it accepts a value. -/
structure CrossoverOk (m : HeapMaster) : Prop where
  lower : m.pageSize ≤ m.mmapStart
  upper : m.mmapStart ≤ bucketSize (noBucketSizes - 1)
  used : m.maxBucketsUsed = bucketOf m.mmapStart

theorem setMmapStart_crossover {value : ℕ} {m m' : HeapMaster}
    (h : setMmapStart value m = (true, m')) : CrossoverOk m' := by
  unfold setMmapStart at h
  split at h
  · simp at h
  · next hrange =>
    obtain rfl := (Prod.mk.injEq _ _ _ _ ▸ h).2
    exact ⟨by simp only; omega, by simp only; omega, rfl⟩

theorem heapMasterCtor_crossover {cfg : Config} {s s' : State}
    (h : heapMasterCtor cfg s = .ok s') : CrossoverOk s'.heapMaster := by
  obtain ⟨_, hasserts, rfl⟩ := heapMasterCtor_ok h
  exact ⟨hasserts.2.2.1.1, hasserts.2.2.1.2, rfl⟩

theorem CrossoverOk.used_lt {m : HeapMaster} (h : CrossoverOk m) : m.maxBucketsUsed < noBucketSizes := by
  rw [h.used]
  exact (bucketOf_spec h.upper).1

/-- The bounded binary search for a size that some bucket in use holds finds the least such bucket. -/
theorem bsearchl_bounded {maxBucketsUsed tsize : ℕ} (hmax : maxBucketsUsed < noBucketSizes)
    (hfit : tsize ≤ bucketSize maxBucketsUsed) :
    let b := bsearchl tsize bucketSize maxBucketsUsed
    b ≤ maxBucketsUsed ∧ tsize ≤ bucketSize b ∧ ∀ i < b, bucketSize i < tsize := by
  have hlast := bucketSize_le_last hmax
  obtain ⟨hle, hbelow, habove⟩ := bsearchl_spec tsize maxBucketsUsed bucketSize
    (by omega) fun i j hij hj => bucketSize_le hij (hj.trans hmax)
  refine ⟨hle, ?_, hbelow⟩
  rcases Nat.lt_or_eq_of_le hle with hlt | heq
  · exact habove _ le_rfl hlt
  · rw [heq]
    exact hfit

private theorem least_unique {tsize b c : ℕ} (hb : tsize ≤ bucketSize b)
    (hbelow : ∀ i < b, bucketSize i < tsize) (hc : tsize ≤ bucketSize c)
    (hcelow : ∀ i < c, bucketSize i < tsize) : b = c := by
  by_contra hne
  rcases Nat.lt_or_gt_of_ne hne with hlt | hgt
  · have := hcelow b hlt
    omega
  · have := hbelow c hgt
    omega

theorem selectBucket_eq_bsearchl {maxBucketsUsed tsize : ℕ} (hmax : maxBucketsUsed < noBucketSizes)
    (hfit : tsize ≤ bucketSize maxBucketsUsed) :
    selectBucket maxBucketsUsed tsize = bsearchl tsize bucketSize maxBucketsUsed := by
  unfold selectBucket
  split
  · have htsize : tsize ≤ 67108880 := hfit.trans (bucketSize_le_last hmax)
    rw [lookup_eq htsize]
    obtain ⟨_, hreach, hleast⟩ := lookupIdx_spec htsize
    obtain ⟨_, hreach', hleast'⟩ := bsearchl_bounded hmax hfit
    exact least_unique hreach hleast hreach' hleast'
  · rfl

theorem selectBucket_lt {m : HeapMaster} (h : CrossoverOk m) {tsize : ℕ} (hkey : tsize < 2 ^ 32) :
    selectBucket m.maxBucketsUsed tsize < noBucketSizes := by
  unfold selectBucket
  split
  · next hsmall =>
    rw [lookupSizes] at hsmall
    have hbound : tsize ≤ 67108880 := by omega
    rw [lookup_eq hbound]
    exact (lookupIdx_spec hbound).1
  · have hle := (bsearchl_spec _ _ bucketSize hkey
      fun i j hij (hj : j < m.maxBucketsUsed) => bucketSize_le hij (hj.trans h.used_lt)).1
    exact hle.trans_lt h.used_lt

/-- What the assertions after the bucket selection ask of a request, that the bucket is the least that holds it, and that both searches would choose it. -/
structure BucketFit (m : HeapMaster) (size : ℕ) : Prop where
  holds : size + sizeofStorage ≤ bucketSize (selectBucket m.maxBucketsUsed ((size + sizeofStorage) % 2 ^ 64))
  inUse : selectBucket m.maxBucketsUsed ((size + sizeofStorage) % 2 ^ 64) ≤ m.maxBucketsUsed
  least : ∀ i < noBucketSizes, size + sizeofStorage ≤ bucketSize i →
    selectBucket m.maxBucketsUsed ((size + sizeofStorage) % 2 ^ 64) ≤ i
  agree : selectBucket m.maxBucketsUsed ((size + sizeofStorage) % 2 ^ 64) =
    bsearchl ((size + sizeofStorage) % 2 ^ 64) bucketSize m.maxBucketsUsed

/-- For every crossover point that start-up or `mallopt` accepts and every size below it, the selected bucket is right exactly when the last bucket in use holds the size and its header. -/
theorem bucketFit_iff {m : HeapMaster}
    (hm : (∃ value m₀, setMmapStart value m₀ = (true, m)) ∨
      ∃ cfg s s', heapMasterCtor cfg s = .ok s' ∧ s'.heapMaster = m)
    {size : ℕ} (hsize : size < m.mmapStart) :
    BucketFit m size ↔ size + sizeofStorage ≤ bucketSize m.maxBucketsUsed := by
  have hok : CrossoverOk m := by
    rcases hm with ⟨_, _, h⟩ | ⟨_, _, _, h, rfl⟩
    · exact setMmapStart_crossover h
    · exact heapMasterCtor_crossover h
  have hmax := hok.used_lt
  constructor
  · intro hfit
    exact hfit.holds.trans (bucketSize_le hfit.inUse hmax)
  · intro hlast
    have hbound := bucketSize_le_last hmax
    have hword : (size + sizeofStorage) % 2 ^ 64 = size + sizeofStorage := Nat.mod_eq_of_lt (by omega)
    have hsel := selectBucket_eq_bsearchl hmax hlast
    obtain ⟨hused, hholds, hbelow⟩ := bsearchl_bounded hmax hlast
    refine ⟨?_, ?_, ?_, ?_⟩ <;> rw [hword, hsel]
    · exact hholds
    · exact hused
    · intro i _ hi
      by_contra hlt
      have := hbelow i (by omega)
      omega

private theorem default_crossover :
    ∃ cfg s s', heapMasterCtor cfg s = .ok s' ∧
      s'.heapMaster = initHeapMaster defaultConfig State.unbooted.heapMaster :=
  ⟨defaultConfig, State.unbooted, _, heapMasterCtor_eq rfl bootAsserts_default, rfl⟩

/-- The default configuration, at the largest size its last bucket holds. -/
theorem bucketFit_iff_default :
    BucketFit (initHeapMaster defaultConfig State.unbooted.heapMaster) 33554432 ↔
      33554432 + sizeofStorage ≤
        bucketSize (initHeapMaster defaultConfig State.unbooted.heapMaster).maxBucketsUsed :=
  bucketFit_iff (.inr default_crossover) (by decide)

/-- The default configuration, one byte above: the size is below the crossover point and the selected block is one byte short. -/
theorem bucketFit_fails_default :
    ¬ ∀ m : HeapMaster, ((∃ value m₀, setMmapStart value m₀ = (true, m)) ∨
        ∃ cfg s s', heapMasterCtor cfg s = .ok s' ∧ s'.heapMaster = m) →
      ∀ size < m.mmapStart, BucketFit m size := by
  intro hall
  have hfit := hall _ (.inr default_crossover) 33554433 (by decide)
  have hshort : ¬ 33554433 + sizeofStorage ≤
      bucketSize (selectBucket (initHeapMaster defaultConfig State.unbooted.heapMaster).maxBucketsUsed
        ((33554433 + sizeofStorage) % 2 ^ 64)) := by decide +kernel
  exact hshort hfit.holds

end Llheap
