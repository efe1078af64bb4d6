import Llheap.Model.Threshold
import Llheap.Proof.BucketFit

/-!
# Selecting a bucket while the crossover point changes

The table of small sizes does not depend on the crossover point. A larger size is searched up to `maxBucketsUsed`, which may belong to another threshold than the one the size was compared with: a lower one that has been stored in between, or the one before a threshold that is being raised. The block is large enough exactly when the last bucket in use at the second load holds the size and its header.
-/

namespace Llheap.Threshold

variable {w w' : World} {l : Label} {t : Tid} {size threshold value : ℕ}

/-- A size that the last bucket in use for its threshold holds, with its header, gets a bucket that holds it. -/
def Selection.Fits (e : Selection) : Prop :=
  e.size + sizeofStorage ≤ bucketSize (bucketOf e.threshold) → e.size + sizeofStorage ≤ bucketSize e.bucket

instance (e : Selection) : Decidable e.Fits := inferInstanceAs (Decidable (_ → _))

/-- The second load finds a last bucket in use that holds the size and its header, or is not needed. -/
def LargeEnough (w : World) : Label → Prop
  | .selectBucket t => ∀ size threshold, w.pc t = .small size threshold →
      size + sizeofStorage < lookupSizes ∨
        size + sizeofStorage ≤ bucketSize w.heapMaster.maxBucketsUsed
  | _ => True

/-- What a thread has loaded or found is in range. -/
def Pc.InRange : Pc → Prop
  | .searched bucket => bucket < noBucketSizes
  | .small size threshold => size < threshold ∧ threshold ≤ bucketSize (noBucketSizes - 1)
  | _ => True

structure Inv (w : World) : Prop where
  mmapStart : w.heapMaster.mmapStart ≤ bucketSize (noBucketSizes - 1)
  maxBucketsUsed : w.heapMaster.maxBucketsUsed < noBucketSizes
  pc : ∀ t, (w.pc t).InRange

theorem inRange_update {pc : Tid → Pc} {p : Pc} (hpc : ∀ t, (pc t).InRange) (hp : p.InRange) (u : Tid) :
    (Function.update pc t p u).InRange := by
  by_cases h : u = t
  · subst u
    rw [Function.update_self]
    exact hp
  · rw [Function.update_of_ne h]
    exact hpc u

theorem init_inv (h : system.init w) : Inv w := by
  obtain ⟨⟨cfg, s, s', hctor, hmaster⟩, hpc, _⟩ := h
  have hcross := heapMasterCtor_crossover hctor
  rw [← hmaster] at hcross
  refine ⟨hcross.upper, hcross.used_lt, fun t => ?_⟩
  rw [hpc]
  trivial

theorem step_inv (hw : Inv w) (h : Step w l w') : Inv w' := by
  cases l with
  | storeMmapStart t value =>
    obtain ⟨_, hrange, rfl⟩ := h
    exact ⟨by dsimp only; omega, hw.maxBucketsUsed, inRange_update hw.pc trivial⟩
  | searchBucket t =>
    obtain ⟨_, rfl⟩ := h
    exact ⟨hw.mmapStart, hw.maxBucketsUsed, inRange_update hw.pc (bucketOf_spec hw.mmapStart).1⟩
  | storeMaxBucketsUsed t =>
    obtain ⟨bucket, hpc, rfl⟩ := h
    have hbucket := hw.pc t
    rw [hpc] at hbucket
    exact ⟨hw.mmapStart, hbucket, inRange_update hw.pc trivial⟩
  | compareSize t size =>
    obtain ⟨_, hsmall, rfl⟩ := h
    exact ⟨hw.mmapStart, hw.maxBucketsUsed, inRange_update hw.pc ⟨hsmall, hw.mmapStart⟩⟩
  | selectBucket t =>
    obtain ⟨size, threshold, _, rfl⟩ := h
    exact ⟨hw.mmapStart, hw.maxBucketsUsed, inRange_update hw.pc trivial⟩

theorem reachable_inv (h : system.Reachable w) : Inv w :=
  h.invariant (fun _ hw => init_inv hw) fun _ _ _ hw hs => step_inv hw hs

/-! ### One selection -/

/-- The search returns a bucket in use, so it finds one that holds the size only if the last one does. -/
theorem selectBucket_holds_iff {maxBucketsUsed tsize : ℕ} (hmax : maxBucketsUsed < noBucketSizes)
    (hsize : tsize < 2 ^ 32) :
    tsize ≤ bucketSize (Llheap.selectBucket maxBucketsUsed tsize) ↔
      tsize < lookupSizes ∨ tsize ≤ bucketSize maxBucketsUsed := by
  unfold Llheap.selectBucket
  split
  · next hsmall =>
    rw [lookupSizes] at hsmall
    have hbound : tsize ≤ 67108880 := by omega
    rw [lookup_eq hbound]
    exact ⟨fun _ => .inl hsmall, fun _ => (lookupIdx_spec hbound).2.1⟩
  · next hlarge =>
    rw [or_iff_right hlarge]
    constructor
    · intro hfit
      have hused := (bsearchl_spec tsize maxBucketsUsed bucketSize hsize
        fun i j hij hj => bucketSize_le hij (hj.trans hmax)).1
      exact hfit.trans (bucketSize_le hused hmax)
    · exact fun hfit => (bsearchl_bounded hmax hfit).2.1

theorem select_fits_iff (hw : Inv w) (hpc : w.pc t = .small size threshold)
    (hfit : size + sizeofStorage ≤ bucketSize (bucketOf threshold)) :
    Selection.Fits ⟨size, threshold,
        Llheap.selectBucket w.heapMaster.maxBucketsUsed ((size + sizeofStorage) % 2 ^ 64)⟩ ↔
      size + sizeofStorage < lookupSizes ∨
        size + sizeofStorage ≤ bucketSize w.heapMaster.maxBucketsUsed := by
  have hrange := hw.pc t
  rw [hpc] at hrange
  have hlast := bucketSize_le_last (bucketOf_spec hrange.2).1
  have hword : (size + sizeofStorage) % 2 ^ 64 = size + sizeofStorage := Nat.mod_eq_of_lt (by omega)
  rw [Selection.Fits]
  dsimp only
  rw [hword]
  exact ⟨fun h => (selectBucket_holds_iff hw.maxBucketsUsed (by omega)).mp (h hfit),
    fun h _ => (selectBucket_holds_iff hw.maxBucketsUsed (by omega)).mpr h⟩

/-! ### Threads that are not disturbed -/

theorem run_setMmapStart {m : HeapMaster} (hidle : w.pc t = .idle)
    (hset : setMmapStart value w.heapMaster = (true, m)) :
    ∃ w₁ w₂, Step w (.storeMmapStart t value) w₁ ∧ Step w₁ (.searchBucket t) w₂ ∧
      Step w₂ (.storeMaxBucketsUsed t) { w with heapMaster := m } := by
  unfold setMmapStart at hset
  split at hset
  · simp at hset
  · next hrange =>
    obtain ⟨_, rfl⟩ := Prod.mk.inj hset
    refine ⟨_, _, ⟨hidle, hrange, rfl⟩, ⟨Function.update_self .., rfl⟩, _, Function.update_self .., ?_⟩
    simp [← hidle]

/-- The two steps of a thread that allocates select the bucket of `doMalloc`. -/
theorem run_selectBucket (hidle : w.pc t = .idle) (hsmall : size < w.heapMaster.mmapStart) :
    ∃ w₁, Step w (.compareSize t size) w₁ ∧
      Step w₁ (.selectBucket t) { w with selections := ⟨size, w.heapMaster.mmapStart,
        Llheap.selectBucket w.heapMaster.maxBucketsUsed ((size + sizeofStorage) % 2 ^ 64)⟩ :: w.selections } := by
  refine ⟨_, ⟨hidle, hsmall, rfl⟩, size, w.heapMaster.mmapStart, Function.update_self .., ?_⟩
  simp [← hidle]

/-! ### Runs -/

theorem step_fits (hw : Inv w) (hall : ∀ e ∈ w.selections, e.Fits) (hok : LargeEnough w l)
    (h : Step w l w') : ∀ e ∈ w'.selections, e.Fits := by
  cases l with
  | selectBucket t =>
    obtain ⟨size, threshold, hpc, rfl⟩ := h
    intro e he
    rcases List.mem_cons.mp he with rfl | he
    · intro hfit
      exact (select_fits_iff hw hpc hfit).mpr (hok size threshold hpc) hfit
    · exact hall e he
  | storeMmapStart t value =>
    obtain ⟨_, _, rfl⟩ := h
    exact hall
  | searchBucket t =>
    obtain ⟨_, rfl⟩ := h
    exact hall
  | storeMaxBucketsUsed t =>
    obtain ⟨_, _, rfl⟩ := h
    exact hall
  | compareSize t size =>
    obtain ⟨_, _, rfl⟩ := h
    exact hall

/-- In every run whose selections all find a last bucket in use that is large enough, every bucket that is selected holds its size and header. -/
theorem selections_fit (h : (system.restrict LargeEnough).Reachable w) :
    ∀ e ∈ w.selections, e.Fits := by
  induction h with
  | start hw =>
    rw [hw.2.2]
    simp
  | next hreach hs ih => exact step_fits (reachable_inv hreach.of_restrict) ih hs.1 hs.2

private def booted : World := ⟨(bootState defaultConfig).heapMaster, fun _ => .idle, []⟩

private theorem booted_init : system.init booted :=
  ⟨⟨defaultConfig, State.unbooted, bootState defaultConfig, heapMasterCtor_eq rfl bootAsserts_default, rfl⟩,
    rfl, rfl⟩

private def compared : World :=
  { booted with pc := Function.update booted.pc 0 (.small 20000000 booted.heapMaster.mmapStart) }

private theorem compared_step : Step booted (.compareSize 0 20000000) compared :=
  ⟨rfl, by decide, rfl⟩

private def World.select (w : World) : World :=
  { w with
    pc := Function.update w.pc 0 .idle
    selections := ⟨20000000, 33554448, Llheap.selectBucket w.heapMaster.maxBucketsUsed
      ((20000000 + sizeofStorage) % 2 ^ 64)⟩ :: w.selections }

/-- While the threshold stays as it is, 20000000 bytes get a bucket that holds them. -/
theorem selections_fit_booted : ∃ w, system.Reachable w ∧ w.selections ≠ [] ∧
    ∀ e ∈ w.selections, e.Fits := by
  have hselect : Step compared (.selectBucket 0) compared.select := ⟨20000000, 33554448, rfl, rfl⟩
  have hlarge : LargeEnough compared (.selectBucket 0) := by
    intro size threshold hpc
    cases hpc
    right
    decide +kernel
  have hreach : (system.restrict LargeEnough).Reachable compared.select :=
    .next (l := .selectBucket 0) (.next (l := .compareSize 0 20000000) (.start booted_init)
      ⟨trivial, compared_step⟩) ⟨hlarge, hselect⟩
  exact ⟨_, hreach.of_restrict, by simp [World.select], selections_fit hreach⟩

/-- Thread 1 lowers the threshold to 1 MiB between the two loads of thread 0, which then searches up to a bucket of 1048592 bytes for a block of 20000016. -/
theorem threshold_lowered : ¬ ∀ w, system.Reachable w → ∀ e ∈ w.selections, e.Fits := by
  intro hall
  obtain ⟨m, hm⟩ : ∃ m, m = (setMmapStart 1048576 compared.heapMaster).2 := ⟨_, rfl⟩
  have haccept : ¬ (1048576 < compared.heapMaster.pageSize ∨ bucketSize (noBucketSizes - 1) < 1048576) := by
    decide
  have hset : setMmapStart 1048576 compared.heapMaster = (true, m) := by
    rw [hm, setMmapStart, if_neg haccept]
  obtain ⟨w₁, w₂, hstore, hsearch, hused⟩ := run_setMmapStart (t := 1) (by rfl) hset
  have hselect : Step { compared with heapMaster := m } (.selectBucket 0)
      (World.select { compared with heapMaster := m }) := ⟨20000000, 33554448, rfl, rfl⟩
  have hstart : system.Reachable compared :=
    .next (l := .compareSize 0 20000000) (.start booted_init) compared_step
  have hreach : system.Reachable (World.select { compared with heapMaster := m }) :=
    .next (l := .selectBucket 0) (.next (l := .storeMaxBucketsUsed 1) (.next (l := .searchBucket 1)
      (.next (l := .storeMmapStart 1 1048576) hstart hstore) hsearch) hused) hselect
  have hfits := hall _ hreach _ List.mem_cons_self
  rw [hm] at hfits
  revert hfits
  decide +kernel

end Llheap.Threshold
