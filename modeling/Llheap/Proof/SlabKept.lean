import Llheap.Proof.SlabBlocks
import Llheap.Proof.Tenants

/-!
# The slab in whole runs

What every step keeps of the slab, whatever the program does: the current slab stays reserved, because a mapped block that is freed is a mapping of its own, and the lock is released when a call returns.
-/

namespace Llheap.Slab

variable {cfg : Config} {k : Kernel cfg} {t : Tid} {s s' : State} {L L' : ℕ → Option Live}
  {a len size b n f : ℕ} {r : Option ℕ}

/-- No slab has been started or the current one is reserved, and each mapped block of a tenant is a mapping apart from all others. -/
structure Kept (s : State) (L : ℕ → Option Live) : Prop where
  slab : s.heapMaster.sbrkStart = 0 ∨ SlabReserved s
  blocks : ∃ blocks, Apart s.mappings blocks ∧
    ∀ b l, L b = some l → l.view.origin = .mapped → ⟨b, l.len, .readWrite⟩ ∈ blocks

theorem Kept.congr (h : Kept s L) (hstart : s'.heapMaster.sbrkStart = s.heapMaster.sbrkStart)
    (hmappings : s'.mappings = s.mappings) : Kept s' L := by
  refine ⟨?_, by rw [hmappings]; exact h.blocks⟩
  rw [hstart]
  exact h.slab.imp_right fun hslab => hslab.of_mappings hstart fun m hm _ => hmappings ▸ hm

theorem Kept.tenants (h : Kept s L)
    (hmapped : ∀ b l', L' b = some l' → l'.view.origin = .mapped →
      ∃ l, L b = some l ∧ l.len = l'.len ∧ l.view.origin = .mapped) : Kept s L' := by
  obtain ⟨blocks, happ, hblocks⟩ := h.blocks
  refine ⟨h.slab, blocks, happ, fun b l' hb horigin => ?_⟩
  obtain ⟨l, hl, hlen, hmap⟩ := hmapped b l' hb horigin
  exact hlen ▸ hblocks b l hl hmap

theorem Kept.forget (h : Kept s L) : Kept s (Function.update L b none) := by
  refine h.tenants fun c l' hc horigin => ⟨l', ?_, rfl, horigin⟩
  by_cases hcb : c = b
  · subst c
    rw [Function.update_self] at hc
    cases hc
  · rwa [Function.update_of_ne hcb] at hc

theorem Kept.grant (h : Kept s L) (hfresh : FreshRegion cfg s.mappings a len) (prot : Prot) :
    Kept (s.grant a len prot) L := by
  obtain ⟨blocks, happ, hblocks⟩ := h.blocks
  refine ⟨h.slab.imp_right fun hslab => ?_, blocks, happ.grant hfresh prot, hblocks⟩
  exact hslab.of_mappings rfl fun m hm _ => List.mem_cons_of_mem _ hm

theorem Kept.newSlab (h : Kept s L) (hfresh : FreshRegion cfg s.mappings a len) :
    Kept (startSlab a (s.grant a len .none)) L := by
  obtain ⟨blocks, happ, hblocks⟩ := h.blocks
  exact ⟨.inr ⟨⟨a, len, .none⟩, List.mem_cons_self, rfl, rfl⟩, blocks, happ.grant hfresh .none, hblocks⟩

theorem Kept.grantBlock {l : Live} (h : Kept s L) (hfresh : FreshRegion cfg s.mappings a l.len) :
    Kept (s.grant a l.len .readWrite) (Function.update L a (some l)) := by
  obtain ⟨blocks, happ, hblocks⟩ := h.blocks
  refine ⟨h.slab.imp_right fun hslab => hslab.of_mappings rfl fun m hm _ => List.mem_cons_of_mem _ hm,
    _, happ.grantBlock hfresh, fun b l' hb horigin => ?_⟩
  by_cases hba : b = a
  · subst b
    rw [Function.update_self] at hb
    cases hb
    exact List.mem_cons_self
  · rw [Function.update_of_ne hba] at hb
    exact List.mem_cons_of_mem _ (hblocks b l' hb horigin)

/-- The mapping of a block that is freed is not the slab's. -/
theorem Kept.munmap {l : Live} (h : Kept s L) (hb : L b = some l) (horigin : l.view.origin = .mapped) :
    Kept (s.munmap b l.len) (Function.update L b none) := by
  obtain ⟨blocks, happ, hblocks⟩ := h.blocks
  have hmem := hblocks b l hb horigin
  have hkept : ∀ m ∈ s.mappings, m.prot = .none → m ∈ (s.munmap b l.len).mappings := fun m hm hprot =>
    mem_munmap hm (happ.user m hm).2.1 (happ.slabs _ hmem m hm hprot)
  refine ⟨h.slab.imp_right fun hslab => hslab.of_mappings rfl hkept, _, happ.unmap hmem, fun c l' hc horigin' => ?_⟩
  have hcb : c ≠ b := by
    rintro rfl
    rw [Function.update_self] at hc
    cases hc
  rw [Function.update_of_ne hcb] at hc
  refine (List.mem_erase_of_ne fun heq => hcb ?_).mpr (hblocks c l' hc horigin')
  exact congrArg Mapping.base heq

/-! ### What maps storage -/

theorem extendBlock_kept {rem : ℕ} (h : Kept s L) (hext : extendBlock k t size rem s = .ok (r, s')) :
    Kept s' L ∧ s'.heapMaster.extLock = false := by
  obtain ⟨_, rfl⟩ | ⟨a, _, hfresh, rfl⟩ := extendBlock_cases hext
  · exact ⟨h.congr rfl rfl, rfl⟩
  · exact ⟨(h.grant hfresh .readWrite).congr rfl rfl, rfl⟩

theorem masterExtend_kept (h : Kept s L) (hext : masterExtend k t size s = .ok (r, s')) :
    Kept s' L ∧ s'.heapMaster.extLock = false := by
  have hlocked : Kept (locked s) L := h.congr rfl rfl
  rcases masterExtend_cases hext with ⟨_, ⟨_, rfl⟩ | ⟨a, hfresh, hblock⟩⟩ | ⟨_, hblock⟩
  · exact ⟨h.congr rfl rfl, rfl⟩
  · exact extendBlock_kept (hlocked.newSlab hfresh) hblock
  · exact extendBlock_kept hlocked hblock

theorem chainRemainder_mappings (heap : ℕ) (s : State) : (chainRemainder heap s).mappings = s.mappings ∧
    (chainRemainder heap s).heapMaster = s.heapMaster := by
  unfold chainRemainder
  dsimp only
  split
  · exact ⟨rfl, rfl⟩
  · exact ⟨rfl, rfl⟩

theorem replaceBuffer_mappings (t : Tid) (newblock size rem : ℕ) (s : State) :
    (replaceBuffer t newblock size rem s).mappings = s.mappings ∧
      (replaceBuffer t newblock size rem s).heapMaster = s.heapMaster := by
  unfold replaceBuffer
  dsimp only
  split
  · exact chainRemainder_mappings _ s
  · exact ⟨rfl, rfl⟩

theorem allocateBlock_kept (h : Kept s L) (hlock : s.heapMaster.extLock = false)
    (hblock : allocateBlock k t f s = .ok (r, s')) : Kept s' L ∧ s'.heapMaster.extLock = false := by
  rcases allocateBlock_cases hblock with
    ⟨_, _, rfl⟩ | ⟨_, _, _, rfl⟩ | ⟨_, _, _, _, rfl⟩ | ⟨_, _, _, hext⟩
  · exact ⟨h.congr rfl rfl, hlock⟩
  · exact ⟨h.congr rfl rfl, hlock⟩
  · exact ⟨h.congr rfl rfl, hlock⟩
  · rcases managerExtend_cases hext with ⟨_, hmaster⟩ | ⟨newblock, s₁, _, hmaster, rfl⟩
    · exact masterExtend_kept h hmaster
    · obtain ⟨h₁, hlock₁⟩ := masterExtend_kept h hmaster
      obtain ⟨hmappings, hheapMaster⟩ := replaceBuffer_mappings t newblock (s.freeHeader f).blockSize
        (sub64 (ceiling (max (s.freeHeader f).blockSize cfg.mallocThreadBlock) libAlign)
          (s.freeHeader f).blockSize) s₁
      refine ⟨h₁.congr (by rw [hheapMaster]) hmappings, ?_⟩
      rw [hheapMaster]
      exact hlock₁

/-- Booting a thread changes nothing of the slab's bookkeeping, and at most maps a superblock. -/
theorem bootHeapManager_kept (hbooted : s.heapMasterBootFlag ≠ 0) (h : Kept s L)
    (hboot : bootHeapManager k t s = .ok s') : Kept s' L ∧
      s'.heapMaster.extLock = s.heapMaster.extLock ∧ s'.heapMaster.sbrkStart = s.heapMaster.sbrkStart ∧
      s'.heapMaster.sbrkEnd = s.heapMaster.sbrkEnd ∧
      s'.heapMaster.sbrkRemaining = s.heapMaster.sbrkRemaining := by
  obtain ⟨_, rfl⟩ | ⟨_, heap, s₁, hget, rfl⟩ := bootHeapManager_cases hbooted hboot
  · exact ⟨h, rfl, rfl, rfl, rfl⟩
  rw [assignHeap_heapMaster]
  have hassign : ∀ {s₁}, Kept s₁ L → Kept (assignHeap t heap s₁) L := fun {s₁} h₁ =>
    h₁.congr (by rw [assignHeap_heapMaster]) (assignHeap_mappings ..)
  rcases getHeap_cases hget with ⟨_, _, rfl⟩ | ⟨_, _, _, _, rfl⟩ | ⟨_, _, a, hfresh, _, rfl⟩
  · exact ⟨hassign (h.congr rfl rfl), rfl, rfl, rfl, rfl⟩
  · exact ⟨hassign (h.congr rfl rfl), rfl, rfl, rfl, rfl⟩
  · exact ⟨hassign ((h.grant hfresh .readWrite).congr rfl rfl), rfl, rfl, rfl, rfl⟩

theorem unbooted_kept (hctor : heapManagerCtor k t State.unbooted = .ok s) :
    Kept s (fun _ => none) ∧ s.heapMaster.extLock = false := by
  have hnew : State.unbooted.heapManager t = 1 := rfl
  have hboot : bootHeapManager k t State.unbooted = .ok s := by
    rw [bootHeapManager, if_pos hnew]
    exact hctor
  obtain ⟨s₀, hmaster, hboot⟩ := boot_unbooted rfl hnew hboot
  obtain ⟨_, _, rfl⟩ := heapMasterCtor_ok hmaster
  have hkept : Kept { State.unbooted with
      heapMaster := initHeapMaster cfg State.unbooted.heapMaster, heapMasterBootFlag := 1 } (fun _ => none) :=
    ⟨.inl rfl, [], ⟨by simp [State.unbooted], by simp, List.Pairwise.nil, by simp⟩, by simp⟩
  obtain ⟨h, hlock, _⟩ := bootHeapManager_kept Nat.one_ne_zero hkept hboot
  exact ⟨h, hlock⟩

theorem doMalloc_kept (hbooted : s.heapMasterBootFlag ≠ 0) (h : Kept s L) (hlock : s.heapMaster.extLock = false)
    (hok : doMalloc k t size s = .ok (r, s')) : Kept s' L ∧ s'.heapMaster.extLock = false := by
  obtain ⟨s₁, hboot, hcases⟩ := doMalloc_cases hok
  obtain ⟨h₁, hlock₁, _⟩ := bootHeapManager_kept hbooted h hboot
  rw [hlock] at hlock₁
  rcases hcases with ⟨_, _, hblock⟩ | ⟨_, block, s₂, _, hblock, rfl⟩ | ⟨_, hmap⟩
  · exact allocateBlock_kept h₁ hlock₁ hblock
  · obtain ⟨h₂, hlock₂⟩ := allocateBlock_kept h₁ hlock₁ hblock
    exact ⟨h₂.congr rfl rfl, hlock₂⟩
  · rcases mapLarge_cases hmap with ⟨_, rfl⟩ | ⟨a, _, hfresh, rfl⟩
    · exact ⟨h₁.congr rfl rfl, hlock₁⟩
    · exact ⟨(h₁.grant hfresh .readWrite).congr rfl rfl, hlock₁⟩

theorem doMalloc_kept_tenant {l : Live} (hbooted : s.heapMasterBootFlag ≠ 0) (h : Kept s L)
    (hlock : s.heapMaster.extLock = false) (hok : doMalloc k t size s = .ok (r, s')) (hfree : L b = none)
    (hmaps : l.view.origin = .mapped → ∃ s₁, bootHeapManager k t s = .ok s₁ ∧ MapsBlock cfg s₁ s' b l.len) :
    Kept s' (Function.update L b (some l)) := by
  by_cases horigin : l.view.origin = .mapped
  · obtain ⟨s₁, hboot, hmap⟩ := hmaps horigin
    obtain ⟨h₁, _⟩ := bootHeapManager_kept hbooted h hboot
    exact (h₁.grantBlock hmap.fresh).congr (by rw [hmap.heapMaster]; rfl) hmap.mappings
  · refine (doMalloc_kept hbooted h hlock hok).1.tenants fun c l' hc horigin' => ?_
    have hcb : c ≠ b := by
      rintro rfl
      rw [Function.update_self] at hc
      cases hc
      exact horigin horigin'
    rw [Function.update_of_ne hcb] at hc
    exact ⟨l', hc, rfl, horigin'⟩

/-- A block that is freed goes to a list of its bucket, or is unmapped. -/
theorem doFree_kept {l : Live} (h : Kept s L) (hb : L b = some l) (hheaders : (headers s l.user).mapped →
      (headers s l.user).header = b ∧ (headers s l.user).size = l.len ∧ l.view.origin = .mapped)
    (hok : doFree t l.user s = .ok s') : Kept s' (Function.update L b none) ∧
      s'.heapMaster.extLock = s.heapMaster.extLock := by
  unfold doFree at hok
  dsimp only at hok
  split at hok
  · cases hok
    exact ⟨h.forget.congr rfl rfl, rfl⟩
  · next hmapped =>
    rw [not_not] at hmapped
    obtain ⟨hheader, hsize, horigin⟩ := hheaders hmapped
    rw [hheader, hsize, unmapBlock_granting] at hok
    split at hok
    · cases hok
      exact ⟨h.munmap hb horigin, rfl⟩
    · cases hok

end Llheap.Slab
