import Llheap.Proof.Balance

/-!
# Statistics

The statistics build counts the storage of every allocation and every free in the tables of the heaps, and merges a heap's table into the master's when its thread exits. This file says when what `collectStats` adds up is the storage of the live allocations.
-/

namespace Llheap.Balance

variable {cfg : Config} {main : Tid} {w : World HeapStatistics}

/-- The counters of `HeapStatistics` that allocations add their storage to, in its order. -/
def counters : List Counter :=
  [.malloc, .aalloc, .calloc, .resize, .realloc, .memalign, .amemalign, .cmemalign, .alignedAlloc,
    .posixMemalign, .valloc, .alignedResize, .alignedRealloc]

theorem counters_nodup : counters.Nodup := by decide

theorem mem_counters (name : Counter) : name ∈ counters := by cases name <;> decide

/-- The storage that has been allocated, less the storage that has been freed. -/
def allocLessFree (stats : HeapStatistics) : BitVec 64 := (counters.map stats.alloc).sum - stats.freeAlloc

/-- The statistics build counts an allocation by its block or mapped length. -/
def lengthWeight (_size len : ℕ) : BitVec 64 := BitVec.ofNat 64 len

theorem allocLessFree_zero : allocLessFree .zero = 0 := by decide

theorem allocLessFree_add (x y : HeapStatistics) :
    allocLessFree (x.add y) = allocLessFree x + allocLessFree y := by
  have hsum : (counters.map (x.add y).alloc).sum = (counters.map x.alloc).sum + (counters.map y.alloc).sum :=
    List.sum_map_add
  rw [allocLessFree, hsum]
  exact add_sub_add_comm _ _ _ _

theorem allocLessFree_allocating (name : Counter) (tsize : ℕ) (stats : HeapStatistics) :
    allocLessFree (statHooks.allocating name tsize stats) = allocLessFree stats + BitVec.ofNat 64 tsize := by
  have hsum := Ledger.sum_update stats.alloc counters_nodup (mem_counters name)
    (stats.alloc name + BitVec.ofNat 64 tsize)
  change (counters.map (Function.update stats.alloc name (stats.alloc name + BitVec.ofNat 64 tsize))).sum -
    stats.freeAlloc = _
  rw [hsum, allocLessFree]
  abel

theorem statHooks_books : statHooks.Books allocLessFree lengthWeight where
  requested hdebug := Bool.noConfusion hdebug
  served name _ len held := allocLessFree_allocating name len held
  offset _ _ _ _ := (sub_add_cancel _ _).symm
  freed _ len held := by
    change (counters.map held.alloc).sum - (held.freeAlloc + BitVec.ofNat 64 len) =
      (counters.map held.alloc).sum - held.freeAlloc - BitVec.ofNat 64 len
    abel
  resized _ _ _ _ := (sub_add_cancel _ _).symm
  opened _ := allocLessFree_zero
  left master held := by
    change allocLessFree (master.add held) + allocLessFree .zero = _
    rw [allocLessFree_add, allocLessFree_zero, add_zero]
  zero := allocLessFree_zero
  started _ := rfl
  flat hdebug := Bool.noConfusion hdebug

/-- A run of the statistics build keeps its tables if no request is counted and then refused, and if no heap is taken over with storage on its table. Then `collectStats` finds the storage of what is live. -/
theorem statistics_balance
    (h : ((system cfg statHooks lengthWeight main).restrict
      (Keeps statHooks allocLessFree lengthWeight)).Reachable w) :
    (counters.map (collectStats w.data).alloc).sum - (collectStats w.data).freeAlloc =
      ∑ u ∈ w.entries.live, BitVec.ofNat 64 (headers w.data.st u).size := by
  obtain ⟨hbalanced, hplain⟩ := records_balance statHooks_books h
  obtain ⟨hold, hgone⟩ := hplain rfl
  have hfold : allocLessFree (collectStats w.data) =
      allocLessFree (HeapStatistics.zero.add w.data.master) + (w.data.st.heapMaster.heapManagersList.map
        fun heap => allocLessFree (w.data.heap heap)).sum := Ledger.foldl_merge allocLessFree_add _
  rw [allocLessFree_add, allocLessFree_zero, zero_add] at hfold
  have hsum : w.data.total allocLessFree =
      ∑ u ∈ w.entries.live, worth lengthWeight w.data.st u := by
    rw [hbalanced, hold, hgone, Finset.sdiff_empty, sub_zero]
  exact hfold.trans hsum

/-! ### A run of the statistics build -/

private theorem statHooks_init : (system defaultConfig statHooks lengthWeight 0).init (.first statHooks) :=
  World.first_init rfl

private def small : World HeapStatistics :=
  (World.first statHooks).call statHooks lengthWeight (.above defaultConfig) 0 .malloc (.malloc 8)

private theorem small_reachable : ((system defaultConfig statHooks lengthWeight 0).restrict
    (Keeps statHooks allocLessFree lengthWeight)).Reachable small := by
  have hvalid : (Call.malloc 8).Valid := (by decide : 8 < 2 ^ 64)
  have hheap : (World.first statHooks).data.st.heapManager 0 ≠ 1 := by decide +kernel
  have hfits : Fits (World.first statHooks).data.st.heapMaster 8 := by decide +kernel
  have hserved : statHooks.run (.above defaultConfig) 0 .malloc (.malloc 8) (World.first statHooks).data =
      .ok (some 134488080, small.data) := World.call_run (by decide +kernel) (by decide +kernel)
  have hstep : (system defaultConfig statHooks lengthWeight 0).step (.first statHooks)
      (.call (.above defaultConfig) 0 .malloc (.malloc 8)) small :=
    World.call_step World.first_runs hvalid (by simp [Call.oaddr]) (by decide +kernel)
  exact .next (.start statHooks_init) ⟨.malloc (by decide) hheap hserved hfits, hstep⟩

/-- The block of eight bytes is counted with its 32 bytes. -/
theorem statistics_balance_small : 134488080 ∈ small.entries.live ∧
    (counters.map (collectStats small.data).alloc).sum - (collectStats small.data).freeAlloc =
      ∑ u ∈ small.entries.live, BitVec.ofNat 64 (headers small.data.st u).size := by
  exact ⟨by decide +kernel, statistics_balance small_reachable⟩

private def refused : World HeapStatistics :=
  (World.first statHooks).call statHooks lengthWeight (.exhausted defaultConfig) 0 .malloc (.malloc (2 ^ 26))

/-- A mapping is counted before the kernel refuses it. -/
theorem statistics_not_balanced : ¬ ∀ w, (system defaultConfig statHooks lengthWeight 0).Reachable w →
    (counters.map (collectStats w.data).alloc).sum - (collectStats w.data).freeAlloc =
      ∑ u ∈ w.entries.live, BitVec.ofNat 64 (headers w.data.st u).size := by
  intro hall
  have hvalid : (Call.malloc (2 ^ 26)).Valid := (by decide : 2 ^ 26 < 2 ^ 64)
  have hstep : (system defaultConfig statHooks lengthWeight 0).step (.first statHooks)
      (.call (.exhausted defaultConfig) 0 .malloc (.malloc (2 ^ 26))) refused :=
    World.call_step World.first_runs hvalid (by simp [Call.oaddr]) (by decide)
  have hsum : ∑ u ∈ refused.entries.live, BitVec.ofNat 64 (headers refused.data.st u).size = 0 := by
    decide
  have hcounted : (counters.map (collectStats refused.data).alloc).sum -
      (collectStats refused.data).freeAlloc = 67112960 := by decide
  have hbalanced := hall refused (.next (.start statHooks_init) hstep)
  rw [hsum, hcounted] at hbalanced
  exact absurd hbalanced (by decide)

end Llheap.Balance
