import Llheap.Proof.Balance

/-!
# Unfreed storage

The debug build counts the bytes of every request and every free, and `shutdown` warns of what is left. This file says when the sum that it computes is what the program has not freed.
-/

namespace Llheap.Balance

variable {cfg : Config} {main : Tid} {w : World (BitVec 64)}

/-- The debug build counts an allocation by its request size. -/
def requestWeight (size _len : ℕ) : BitVec 64 := BitVec.ofNat 64 size

theorem debugHooks_books : debugHooks.Books id requestWeight where
  requested _ _ _ _ _ := rfl
  served _ _ _ _ := rfl
  offset size offset len unfreed := by
    have hword : BitVec.ofNat 64 ((size + offset) % 2 ^ 64) = BitVec.ofNat 64 size + BitVec.ofNat 64 offset := by
      rw [← BitVec.ofNat_add]
      exact BitVec.eq_of_toNat_eq (by simp)
    change unfreed - BitVec.ofNat 64 offset =
      unfreed - BitVec.ofNat 64 ((size + offset) % 2 ^ 64) + BitVec.ofNat 64 size
    rw [hword]
    abel
  freed _ _ _ := rfl
  resized nsize osize len unfreed := by
    change unfreed + (BitVec.ofNat 64 nsize - BitVec.ofNat 64 osize) =
      unfreed - BitVec.ofNat 64 osize + BitVec.ofNat 64 nsize
    abel
  opened _ := rfl
  left _ _ := rfl
  zero := rfl
  started _ := rfl
  flat _ _ _ _ := rfl

/-- A run of the debug build keeps its books if no request is counted and then refused, if the usable size is only asked for where it is the recorded one, and if an allocation from before `startup` does not change its size in place. Then `shutdown` finds the request sizes of what has been allocated since `startup` and is live, less those of what is from before and was freed since. -/
theorem unfreed_exact
    (h : ((system cfg debugHooks requestWeight main).restrict (Keeps debugHooks id requestWeight)).Reachable w) :
    w.data.unfreed = ∑ u ∈ w.entries.live \ w.entries.old,
      BitVec.ofNat 64 (mallocRequestSize w.data.st (some u)) - w.entries.gone := by
  have hfold : id w.data.unfreed = w.data.total id := Ledger.foldl_merge (fun _ _ => rfl) w.data.master
  exact hfold.trans (records_balance debugHooks_books h).1

/-! ### A run of the debug build -/

private theorem debugHooks_init : (system defaultConfig debugHooks requestWeight 0).init (.first debugHooks) :=
  World.first_init rfl

private def started : World (BitVec 64) :=
  ⟨(debugHooks.startup (.above defaultConfig) 0 (firstData debugHooks)).getD (firstData debugHooks),
    fun _ => .alive, ⟨∅, ∅, 0⟩⟩

private def eight : World (BitVec 64) :=
  started.call debugHooks requestWeight (.above defaultConfig) 0 .malloc (.malloc 8)

private theorem eight_reachable : ((system defaultConfig debugHooks requestWeight 0).restrict
    (Keeps debugHooks id requestWeight)).Reachable eight := by
  have hok : (debugHooks.startup (.above defaultConfig) 0 (firstData debugHooks)).isOk = true := by
    decide
  have hfirst : (system defaultConfig debugHooks requestWeight 0).step (.first debugHooks)
      (.startup (.above defaultConfig)) started := ⟨Result.eq_ok hok (firstData debugHooks), rfl, rfl⟩
  have hplain : Keeps debugHooks id requestWeight (.first debugHooks) (.startup (.above defaultConfig)) :=
    trivial
  have hvalid : (Call.malloc 8).Valid := (by decide : 8 < 2 ^ 64)
  have hheap : started.data.st.heapManager 0 ≠ 1 := by decide +kernel
  have hfits : Fits started.data.st.heapMaster 8 := by decide +kernel
  have hserved : debugHooks.run (.above defaultConfig) 0 .malloc (.malloc 8) started.data =
      .ok (some 134488080, eight.data) := World.call_run (by decide +kernel) (by decide +kernel)
  have hsecond : (system defaultConfig debugHooks requestWeight 0).step started
      (.call (.above defaultConfig) 0 .malloc (.malloc 8)) eight :=
    World.call_step ⟨by simp [started], .inl (by decide +kernel)⟩ hvalid (by simp [Call.oaddr]) (by decide +kernel)
  have hstart : ((system defaultConfig debugHooks requestWeight 0).restrict
      (Keeps debugHooks id requestWeight)).Reachable (.first debugHooks) := .start debugHooks_init
  have hstarted := hstart.next ⟨hplain, hfirst⟩
  exact hstarted.next ⟨.malloc (by decide) hheap hserved hfits, hsecond⟩

private theorem eight_live : eight.entries.live = {134488080} ∧ eight.entries.old = ∅ := by decide +kernel

/-- Eight bytes are live, and eight are counted. -/
theorem unfreed_exact_eight : 134488080 ∈ eight.entries.live \ eight.entries.old ∧
    eight.data.unfreed = ∑ u ∈ eight.entries.live \ eight.entries.old,
      BitVec.ofNat 64 (mallocRequestSize eight.data.st (some u)) - eight.entries.gone := by
  refine ⟨?_, unfreed_exact eight_reachable⟩
  rw [eight_live.1, eight_live.2]
  decide

private def queried : World (BitVec 64) :=
  ⟨eight.data.edit fun s => (mallocUsableSize (some 134488080) s).2, eight.status, eight.entries⟩

private theorem queried_step : (system defaultConfig debugHooks requestWeight 0).step eight
    (.usableSize (some 134488080)) queried := by
  refine ⟨fun u hu => ?_, rfl, rfl, by rw [queried]⟩
  rw [eight_live.1, Finset.mem_singleton]
  exact (Option.some.inj hu).symm

/-- `malloc_usable_size` raises the recorded size from 8 to 16, and `allocUnfreed` stays 8. -/
theorem unfreed_not_exact : ¬ ∀ w, (system defaultConfig debugHooks requestWeight 0).Reachable w →
    w.data.st.heapMasterBootFlag = 2 →
    w.data.unfreed = ∑ u ∈ w.entries.live \ w.entries.old,
      BitVec.ofNat 64 (mallocRequestSize w.data.st (some u)) - w.entries.gone := by
  intro hall
  have hreach := eight_reachable.of_restrict.next queried_step
  have hsum : ∑ u ∈ queried.entries.live \ queried.entries.old,
      BitVec.ofNat 64 (mallocRequestSize queried.data.st (some u)) - queried.entries.gone = 16 := by
    decide +kernel
  have hcounted : queried.data.unfreed = 8 := by decide +kernel
  have hexact := hall queried hreach (by decide +kernel)
  rw [hsum, hcounted] at hexact
  exact absurd hexact (by decide)

end Llheap.Balance
