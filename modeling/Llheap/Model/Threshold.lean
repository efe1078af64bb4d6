import Llheap.Base.Transition
import Llheap.Model.Heaps

/-!
# Changing the crossover point

`setMmapStart` stores two words one after the other, and `doMalloc` loads them one after the other, without a lock. Here each load and each store is a step of its own, and any number of threads take them in any order.
-/

namespace Llheap.Threshold

/-- How far a thread is in `setMmapStart` or in `doMalloc`. -/
inductive Pc
  | idle
  /-- `mmapStart` is stored -/
  | stored
  /-- the last bucket in use has been found for the `mmapStart` that was loaded -/
  | searched (bucket : ℕ)
  /-- the size is below the threshold that was loaded -/
  | small (size threshold : ℕ)
deriving DecidableEq

/-- A bucket that `doMalloc` has selected, and the threshold it compared the size with. -/
structure Selection where
  size : ℕ
  threshold : ℕ
  bucket : ℕ
deriving DecidableEq

structure World where
  heapMaster : HeapMaster
  pc : Tid → Pc
  selections : List Selection

inductive Label
  | storeMmapStart (t : Tid) (value : ℕ)
  | searchBucket (t : Tid)
  | storeMaxBucketsUsed (t : Tid)
  | compareSize (t : Tid) (size : ℕ)
  | selectBucket (t : Tid)

def Step (w : World) : Label → World → Prop
  | .storeMmapStart t value, w' => w.pc t = .idle ∧
      ¬ (value < w.heapMaster.pageSize ∨ bucketSize (noBucketSizes - 1) < value) ∧
      w' = { w with
        heapMaster := { w.heapMaster with mmapStart := value }, pc := Function.update w.pc t .stored }
  | .searchBucket t, w' => w.pc t = .stored ∧
      w' = { w with pc := Function.update w.pc t (.searched (bucketOf w.heapMaster.mmapStart)) }
  | .storeMaxBucketsUsed t, w' => ∃ bucket, w.pc t = .searched bucket ∧
      w' = { w with
        heapMaster := { w.heapMaster with maxBucketsUsed := bucket }, pc := Function.update w.pc t .idle }
  | .compareSize t size, w' => w.pc t = .idle ∧ size < w.heapMaster.mmapStart ∧
      w' = { w with pc := Function.update w.pc t (.small size w.heapMaster.mmapStart) }
  | .selectBucket t, w' => ∃ size threshold, w.pc t = .small size threshold ∧
      w' = { w with
        pc := Function.update w.pc t .idle
        selections := ⟨size, threshold, Llheap.selectBucket w.heapMaster.maxBucketsUsed
          ((size + sizeofStorage) % 2 ^ 64)⟩ :: w.selections }

/-- Runs start when the heap master has been booted. -/
def system : TransitionSystem World Label where
  init w := (∃ cfg s s', heapMasterCtor cfg s = .ok s' ∧ w.heapMaster = s'.heapMaster) ∧
    w.pc = (fun _ => .idle) ∧ w.selections = []
  step := Step

end Llheap.Threshold
