import Llheap.Base.Simulation
import Llheap.Proof.Accounts
import Llheap.Proof.Reuse
import Mathlib.Data.Set.Card

/-!
# How many heaps there are

A thread makes a heap only when no heap is free, and no heap is ever given up. So a run has as many heaps as it had threads with a heap at one time, however many threads have come and gone.
-/

namespace Llheap.Reuse

open TransitionSystem

variable {cfg : Config} {main : Tid} {k : Kernel cfg} {t : Tid} {s s' : State} {w w' : World}
  {counted : Tid → Status} {A : Arena Tag} {idle : List ℕ} {L : ℕ → Option Live} {r : Option ℕ} {size : ℕ}

/-- The threads that have a heap and do not exit yet. -/
def owners (w : World) : Set Tid := { t | w.status t = .alive ∧ w.st.heapManager t ≠ 1 }

def IsFree (s : State) (idle : List ℕ) : Prop :=
  Chain (fun h => (s.heap h).nextFreeHeapManager) s.heapMaster.freeHeapManagersList idle

/-- Every heap is free, or one thread has it. -/
theorem Behind.heaps_eq (h : Behind cfg main w A idle counted L) (hnodup : w.st.heapMaster.heapManagersList.Nodup) :
    w.st.heapMaster.heapManagersList.length = idle.length + (owners w).ncard := by
  have howned := h.refines.heaps.owned
  have hone := h.refines.heaps.pieces.one_not_mem h.refines.heaps.laid
  have halive : ∀ t, w.status t = .alive ↔ counted t = .alive := by
    intro t
    rcases h.threads.counted t with heq | ⟨hexiting, hterminated⟩
    · rw [heq]
    · simp [hexiting, hterminated]
  have hsub : idle.toFinset ⊆ w.st.heapMaster.heapManagersList.toFinset := by
    intro x hx
    rw [List.mem_toFinset] at hx ⊢
    exact howned.idle_mem x hx
  have hcard : (owners w).ncard =
      ((w.st.heapMaster.heapManagersList.toFinset \ idle.toFinset : Finset ℕ) : Set ℕ).ncard := by
    refine Set.ncard_congr (fun t _ => w.st.heapManager t) (fun t ⟨ht, hne⟩ => ?_) (fun t u ⟨ht, hne⟩ ⟨hu, _⟩ heq => ?_)
      fun x hx => ?_
    · rw [halive] at ht
      simp only [Finset.coe_sdiff, List.coe_toFinset]
      exact ⟨howned.known t (by simp [ht]) hne, howned.alive t ht hne⟩
    · rw [halive] at ht hu
      exact howned.unique t u (by simp [ht]) (by simp [hu]) hne heq
    · simp only [Finset.coe_sdiff, List.coe_toFinset] at hx
      obtain ⟨hlisted, hused⟩ := hx
      obtain ⟨t, ht, rfl⟩ := (howned.none_lost x hlisted).resolve_left hused
      refine ⟨t, ⟨(halive t).mpr ht, ?_⟩, rfl⟩
      intro hnone
      rw [hnone] at hlisted
      exact hone hlisted
  rw [hcard, Set.ncard_coe_finset, Finset.card_sdiff_of_subset hsub, List.toFinset_card_of_nodup hnodup,
    List.toFinset_card_of_nodup howned.chain.nodup]
  have hle := Finset.card_le_card hsub
  rw [List.toFinset_card_of_nodup hnodup, List.toFinset_card_of_nodup howned.chain.nodup] at hle
  omega

theorem boot_heaps (hr : Refines cfg main s counted A idle) (hboot : bootHeapManager k t s = .ok s') :
    s'.heapMaster.heapManagersList = s.heapMaster.heapManagersList ∨
      ∃ heap, heap ∉ s.heapMaster.heapManagersList ∧
        s'.heapMaster.heapManagersList = heap :: s.heapMaster.heapManagersList ∧
        s'.heapMaster.freeHeapManagersList = 0 := by
  obtain ⟨_, rfl⟩ | ⟨_, heap, s₁, hget, rfl⟩ := bootHeapManager_cases hr.booted hboot
  · exact .inl rfl
  rw [assignHeap_heapMaster]
  rcases hr.heaps.getHeap_list hget with ⟨_, _, _, hlist⟩ | ⟨hfree, hnew, hlist⟩
  · exact .inl hlist
  · refine .inr ⟨heap, hnew, hlist, ?_⟩
    rcases getHeap_cases hget with ⟨hsome, _, _⟩ | ⟨_, _, _, _, rfl⟩ | ⟨_, _, _, _, _, rfl⟩
    · exact absurd hfree hsome
    · exact hfree
    · exact hfree

theorem step_heaps {lab : Label cfg} (h : Behind cfg main w A idle counted L) (hs : Step main w lab w') :
    w'.st.heapMaster.heapManagersList = w.st.heapMaster.heapManagersList ∨
      ∃ heap, heap ∉ w.st.heapMaster.heapManagersList ∧
        w'.st.heapMaster.heapManagersList = heap :: w.st.heapMaster.heapManagersList ∧
        w'.st.heapMaster.freeHeapManagersList = 0 := by
  cases lab with
  | doMalloc k t size =>
    obtain ⟨_, _, _, r, st, hok, rfl⟩ := hs
    obtain ⟨s₁, hboot, hsame⟩ := doMalloc_sameHeaps hok
    have hheaps := boot_heaps h.refines hboot
    rw [← hsame.heapManagersList, ← hsame.freeHeapManagersList] at hheaps
    exact hheaps
  | doFree t addr =>
    obtain ⟨_, st, hok, rfl⟩ := hs
    rcases doFree_cases hok with ⟨_, rfl⟩ | ⟨_, _, _, rfl⟩ <;> exact .inl rfl
  | edit addr e =>
    obtain ⟨_, _, rfl⟩ := hs
    have hmaster : (e.run addr w.st).heapMaster = w.st.heapMaster := Edit.sameControl.heapMaster
    exact .inl (congrArg HeapMaster.heapManagersList hmaster)
  | mallopt option value =>
    obtain ⟨code, st, hopt, rfl⟩ := hs
    exact .inl (mallopt_sameHeaps hopt).heapManagersList
  | startup k =>
    obtain ⟨st, hstart, rfl⟩ := hs
    obtain ⟨s₁, ⟨hzero, _⟩ | ⟨_, rfl⟩, _, rfl⟩ := startup_cases hstart
    · exact absurd hzero h.refines.booted
    · exact .inl rfl
  | align addr alignment size =>
    obtain ⟨_, _, _, _, _, _, _, _, rfl⟩ := hs
    exact .inl rfl
  | setErrno t e =>
    obtain rfl := hs
    exact .inl rfl
  | dtor t =>
    obtain ⟨_, _, _, rfl⟩ := hs
    exact .inl rfl
  | terminate t =>
    obtain ⟨_, _, rfl⟩ := hs
    exact .inl rfl

structure Listed (cfg : Config) (main : Tid) (w : World) : Prop where
  inv : Inv cfg main w
  nodup : w.st.heapMaster.heapManagersList.Nodup

/-- A heap is made only if every heap has an owner. -/
theorem step_count {lab : Label cfg} (h : Listed cfg main w) (hs : (system cfg main).step w lab w') :
    Listed cfg main w' ∧ w'.st.heapMaster.heapManagersList.length =
      max w.st.heapMaster.heapManagersList.length (owners w').ncard := by
  obtain ⟨hinv, hnodup⟩ := h
  have hinv' := step_inv hinv hs
  obtain ⟨A, idle, counted, L, h⟩ := hinv
  obtain ⟨A', idle', counted', L', h'⟩ := id hinv'
  rcases step_heaps h hs with hlist | ⟨heap, hnew, hlist, hfree⟩
  · have hnodup' := hlist.symm ▸ hnodup
    have hcount := h'.heaps_eq hnodup'
    refine ⟨⟨hinv', hnodup'⟩, ?_⟩
    rw [← hlist]
    omega
  · have hnodup' : w'.st.heapMaster.heapManagersList.Nodup := hlist ▸ List.nodup_cons.mpr ⟨hnew, hnodup⟩
    have hcount := h'.heaps_eq hnodup'
    rw [h'.refines.heaps.owned.idle_eq_nil hfree, List.length_nil, zero_add] at hcount
    have hlength : w'.st.heapMaster.heapManagersList.length = w.st.heapMaster.heapManagersList.length + 1 := by
      rw [hlist, List.length_cons]
    refine ⟨⟨hinv', hnodup'⟩, ?_⟩
    omega

/-- There are as many heaps as there were threads with a heap at one time, and those that no thread has are on the stack of free heaps. -/
theorem heaps_eq_peak {ns : List ℕ} (h0 : (system cfg main).init w)
    (hrun : (system cfg main).Run (fun _ _ w' => [(owners w').ncard]) w ns w') :
    w'.st.heapMaster.heapManagersList.length = ns.foldl max 1 ∧ ∃ idle, IsFree w'.st idle ∧
      w'.st.heapMaster.heapManagersList.length = idle.length + (owners w').ncard := by
  obtain ⟨⟨k, hctor⟩, _⟩ := id h0
  obtain ⟨s₁, _, hnil, hst⟩ := unbooted_heap hctor
  have hlist : w.st.heapMaster.heapManagersList = [s₁.heapMaster.heapManagersStorage] := by
    rw [hst, assignHeap_heapMaster, carveHeap]
    dsimp only
    rw [hnil]
  have hlisted : Listed cfg main w := ⟨init_inv h0, by rw [hlist]; exact List.nodup_singleton _⟩
  have hpeak := Run.peak (fun _ _ _ hI hs => step_count hI hs) hrun hlisted
  have hlisted' := Run.invariant hrun hlisted fun _ _ _ hI hs => (step_count hI hs).1
  obtain ⟨A, idle, counted, L, h⟩ := hlisted'.inv
  refine ⟨?_, idle, h.refines.heaps.owned.chain, h.heaps_eq hlisted'.nodup⟩
  rw [hpeak, hlist]
  rfl

private def started : World :=
  let st := (startup (.above defaultConfig) 0 World.first.st).getD State.unbooted
  World.first.next st World.first.status World.first.live World.first.carved

private def joined : World := started.malloc (.above defaultConfig) 1 8

theorem heaps_eq_peak_joined : [(owners started).ncard, (owners joined).ncard].foldl max 1 = 2 := by
  have hstart : (startup (.above defaultConfig) 0 World.first.st).isOk = true := by decide +kernel
  have hfirst : (system defaultConfig 0).step World.first (.startup (.above defaultConfig)) started :=
    ⟨_, Result.eq_ok hstart State.unbooted, rfl⟩
  have hsecond : (system defaultConfig 0).step started (.doMalloc (.above defaultConfig) 1 8) joined :=
    World.malloc_step (by simp [started, World.next, World.first]) (.inl (by decide +kernel)) (by decide)
      (by decide +kernel)
  have hrun := (Run.single (fun _ _ w' => [(owners w').ncard]) hfirst).append (.single _ hsecond)
  obtain ⟨hpeak, _⟩ := heaps_eq_peak ⟨⟨_, heapManagerCtor_default⟩, rfl, rfl, rfl, rfl⟩ hrun
  have htwo : joined.st.heapMaster.heapManagersList.length = 2 := by decide +kernel
  exact hpeak.symm.trans htwo

end Llheap.Reuse
