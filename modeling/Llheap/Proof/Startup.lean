import Llheap.Model.Heaps

/-!
# Start-up

What the boot code leaves behind when its assertions hold, and for which configurations they do.
-/

namespace Llheap

theorem bucketOf_spec {v : ℕ} (hv : v ≤ bucketSize (noBucketSizes - 1)) :
    bucketOf v < noBucketSizes ∧ v ≤ bucketSize (bucketOf v) ∧ ∀ i < bucketOf v, bucketSize i < v := by
  have hlast : bucketSize (noBucketSizes - 1) = 67108880 := by decide
  obtain ⟨hle, hbelow, habove⟩ := bsearchl_spec v noBucketSizes bucketSize
    (by omega) fun i j hij hj => bucketSize_le hij hj
  have hlt : bucketOf v < noBucketSizes := by
    by_contra hge
    have := hbelow (noBucketSizes - 1) (by change _ < bucketOf v; simp only [noBucketSizes] at *; omega)
    omega
  exact ⟨hlt, habove _ le_rfl hlt, hbelow⟩

theorem heapMasterCtor_ok {cfg : Config} {s s' : State} (h : heapMasterCtor cfg s = .ok s') :
    s.heapMasterBootFlag = 0 ∧ bootAsserts s'.heapMaster ∧
      s' = { s with
        heapMaster := initHeapMaster cfg s.heapMaster
        heapMasterBootFlag := 1 } := by
  unfold heapMasterCtor at h
  split at h
  · cases h
  · next hflag =>
    split at h
    · next hasserts =>
      cases h
      exact ⟨not_not.mp hflag, hasserts, rfl⟩
    · cases h

theorem bootAsserts_iff {cfg : Config} {m : HeapMaster} :
    bootAsserts (initHeapMaster cfg m) ↔
      256 * 1024 ≤ ceiling cfg.mallocHeapExtend cfg.pageSize ∧
      cfg.mallocThreadBlock ≤ ceiling cfg.mallocHeapExtend cfg.pageSize ∧
      cfg.pageSize ≤ cfg.mallocMmapStart ∧ cfg.mallocMmapStart ≤ bucketSize (noBucketSizes - 1) := by
  constructor
  · rintro ⟨hmin, hblock, hrange, _⟩
    exact ⟨hmin, hblock, hrange⟩
  · rintro ⟨hmin, hblock, hlow, hhigh⟩
    obtain ⟨hlt, hle, _⟩ := bucketOf_spec hhigh
    exact ⟨hmin, hblock, ⟨hlow, hhigh⟩, hlt, hle, fun i hi => lookupAssert_bucketSize hi⟩

theorem heapMasterCtor_eq {cfg : Config} {s : State} (hflag : s.heapMasterBootFlag = 0)
    (hasserts : bootAsserts (initHeapMaster cfg s.heapMaster)) :
    heapMasterCtor cfg s =
      .ok { s with heapMaster := initHeapMaster cfg s.heapMaster, heapMasterBootFlag := 1 } := by
  rw [heapMasterCtor, if_neg (not_not.mpr hflag), if_pos hasserts]

theorem bootAsserts_default : bootAsserts (initHeapMaster defaultConfig State.unbooted.heapMaster) :=
  bootAsserts_iff.mpr (by decide)

/-- The state after `heapMasterCtor`. -/
def bootState (cfg : Config) : State :=
  { State.unbooted with
    heapMaster := initHeapMaster cfg State.unbooted.heapMaster
    heapMasterBootFlag := 1 }

/-- The state after thread 0's first call, before the program's constructor. -/
def firstHeap (cfg : Config) (k : Kernel cfg) : State :=
  let (heap, s) := (getHeap k 0 (bootState cfg)).getD (0, State.unbooted)
  { s with heapManager := Function.update s.heapManager 0 heap }

/-- The state after the program's constructor: thread 0 has the first heap. -/
def startState (cfg : Config) (k : Kernel cfg) : State :=
  let (heap, s) := (getHeap k 0 (bootState cfg)).getD (0, State.unbooted)
  { registerDtor 0 { s with heapManager := Function.update s.heapManager 0 heap } with
    heapMasterBootFlag := 2 }

theorem startup_eq {cfg : Config} {k : Kernel cfg}
    (hasserts : bootAsserts (initHeapMaster cfg State.unbooted.heapMaster)) {heap : ℕ} {s : State}
    (hget : getHeap k 0 (bootState cfg) = .ok (heap, s)) (hflag : s.heapMasterBootFlag = 1) :
    startup k 0 State.unbooted = .ok (startState cfg k) := by
  have hctor : heapMasterCtor cfg State.unbooted = .ok (bootState cfg) :=
    heapMasterCtor_eq rfl hasserts
  have hzero : State.unbooted.heapMasterBootFlag = 0 := rfl
  simp [startup_granting, heapManagerCtor, hzero, hctor, hget, hflag, startState, Result.getD, bind,
    Except.bind]

theorem startup_default : startup (.above defaultConfig) 0 State.unbooted =
    .ok (startState defaultConfig (.above defaultConfig)) := by
  refine startup_eq bootAsserts_default (Result.eq_ok ?_ (0, State.unbooted)) ?_
  · decide
  · decide

theorem heapManagerCtor_default [Os] : heapManagerCtor (.above defaultConfig) 0 State.unbooted =
    .ok (firstHeap defaultConfig (.above defaultConfig)) := by
  have hctor : heapMasterCtor defaultConfig State.unbooted = .ok (bootState defaultConfig) :=
    heapMasterCtor_eq rfl bootAsserts_default
  have hzero : State.unbooted.heapMasterBootFlag = 0 := rfl
  have hget : getHeap (.above defaultConfig) 0 (bootState defaultConfig) =
      .ok ((getHeap (.above defaultConfig) 0 (bootState defaultConfig)).getD (0, State.unbooted)) :=
    Result.eq_ok (by decide) _
  have hflag : ((getHeap (.above defaultConfig) 0 (bootState defaultConfig)).getD
      (0, State.unbooted)).2.heapMasterBootFlag = 1 := by decide
  rw [heapManagerCtor, if_pos hzero, hctor]
  dsimp only [bind, Except.bind]
  rw [hget]
  dsimp only
  rw [if_neg (by rw [hflag]; decide)]
  rfl

end Llheap
