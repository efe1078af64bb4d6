import Llheap.Proof.Exhaustion
import Llheap.Proof.Refusal
import Llheap.Proof.Reuse

/-!
# Failed requests

A request that returns null should leave the lists, the buffers and the slab as they were. It does, unless it reserves a slab and the kernel then refuses the block: `master_extend` has set `sbrkStart` and `sbrkEnd` by then, and returns with `sbrkRemaining` still that of the slab before.
-/

namespace Llheap

variable {cfg : Config} {main : Tid} {k : Kernel cfg} {t : Tid} {s s' : State} {status : Tid → Status}
  {A : Arena Tag} {idle : List ℕ} {r : Option ℕ} {b n f h h' size alignment : ℕ}

/-- The lists of all heaps, their buffers and the slab are what they were, and the lock is free. -/
structure RolledBack (s s' : State) : Prop where
  freeHeader : ∀ h f n, IsBucket s.heapMaster h f n → s'.freeHeader f = s.freeHeader f
  lists : ∀ h f n, IsBucket s.heapMaster h f n → ∀ l blocks,
    Separation.IsList s' f l blocks ↔ Separation.IsList s f l blocks
  buffers : ∀ h ∈ s.heapMaster.heapManagersList, (s'.heap h).bufStart = (s.heap h).bufStart ∧
    (s'.heap h).bufRemaining = (s.heap h).bufRemaining
  sbrkStart : s'.heapMaster.sbrkStart = s.heapMaster.sbrkStart
  sbrkEnd : s'.heapMaster.sbrkEnd = s.heapMaster.sbrkEnd
  sbrkRemaining : s'.heapMaster.sbrkRemaining = s.heapMaster.sbrkRemaining
  unlocked : s'.heapMaster.extLock = false

/-- `master_extend(size)` reserves a slab first. -/
def NewSlab (k : Kernel cfg) (size : ℕ) (s : State) : Prop :=
  negative (sub64 s.heapMaster.sbrkRemaining size) ∧
    ∃ slab, k.mmap s.mappings 0 s.heapMaster.sbrkExtend = .ok slab

/-- Once the thread has a heap, `doMalloc(size)` finds no block and reserves a slab for one. -/
def ReservesSlab (k : Kernel cfg) (t : Tid) (size : ℕ) (s : State) : Prop :=
  ∃ s₁, bootHeapManager k t s = .ok s₁ ∧ size < s₁.heapMaster.mmapStart ∧
    let f := s₁.freeHeader (requestBucket t size s₁)
    f.Empty ∧ negative (sub64 (s₁.heap (s₁.heapManager t)).bufRemaining f.blockSize) ∧
      NewSlab k (ceiling (max f.blockSize cfg.mallocThreadBlock) libAlign) s₁

/-! ### Extending the heap -/

/-- A refusal changes the slab exactly if one has been reserved. -/
theorem masterExtend_none_cases (h : masterExtend k t size s = .ok (none, s')) :
    (NewSlab k size s ∧ ∃ slab, FreshRegion cfg s.mappings slab s.heapMaster.sbrkExtend ∧
      s' = refused t (startSlab slab ((locked s).grant slab s.heapMaster.sbrkExtend .none))) ∨
    (¬ NewSlab k size s ∧ s' = refused t (locked s)) := by
  have hlocked : { s with heapMaster := { s.heapMaster with extLock := true } } = locked s := rfl
  unfold masterExtend at h
  dsimp only at h
  split at h
  · next hneg =>
    rw [hlocked] at h
    unfold State.mmap at h
    cases hmap : k.mmap (locked s).mappings 0 s.heapMaster.sbrkExtend with
    | error e =>
      rw [hmap] at h
      refine .inr ⟨?_, (mmapCheck_cases h).2⟩
      rintro ⟨_, slab, hslab⟩
      cases hmap.symm.trans hslab
    | ok slab =>
      rw [hmap] at h
      obtain ⟨hpos, hlen, huser⟩ := k.bounds hmap
      obtain ⟨_, rfl⟩ | ⟨_, hsome, _⟩ := extendBlock_cases h
      · exact .inl ⟨⟨hneg, slab, hmap⟩, slab, ⟨k.aligned hmap, hpos, hlen, huser, k.fresh hmap⟩, rfl⟩
      · cases hsome
  · next hneg =>
    obtain ⟨_, rfl⟩ | ⟨_, hsome, _⟩ := extendBlock_cases h
    · exact .inr ⟨fun hnew => hneg hnew.1, rfl⟩
    · cases hsome

/-! ### Booting -/

theorem Refines.isList_free {l : ListField} {blocks : List ℕ} (hr : Refines cfg main s status A idle)
    (hf : IsBucket s.heapMaster h f n) (hlist : Separation.IsList s f l blocks) :
    ∀ c ∈ blocks, A.at? c = some ⟨n, .free f⟩ := by
  obtain ⟨own, remote, hown, hremote, _, hiff⟩ := (hr.blocks.bucket h f n hf).listed
  intro c hc
  refine (hiff c).mp ?_
  cases l with
  | freeList => exact List.mem_append_left _ (hlist.unique hown ▸ hc)
  | remoteList => exact List.mem_append_right _ (hlist.unique hremote ▸ hc)

theorem Refines.isList_exists (hr : Refines cfg main s status A idle) (hf : IsBucket s.heapMaster h f n)
    (l : ListField) : ∃ blocks, Separation.IsList s f l blocks := by
  obtain ⟨own, remote, hown, hremote, _⟩ := (hr.blocks.bucket h f n hf).listed
  cases l with
  | freeList => exact ⟨own, hown⟩
  | remoteList => exact ⟨remote, hremote⟩

theorem Refines.isList_iff (hr : Refines cfg main s status A idle) (hf : IsBucket s.heapMaster h f n)
    (hfree : s'.freeHeader f = s.freeHeader f)
    (hbytes : ∀ c m, A.at? c = some ⟨m, .free f⟩ → Set.EqOn s'.mem s.mem (Set.Ico c (c + m)))
    (l : ListField) (blocks : List ℕ) : Separation.IsList s' f l blocks ↔ Separation.IsList s f l blocks := by
  obtain ⟨list, hlist⟩ := hr.isList_exists hf l
  have hlen := hf.le_len
  have hlist' : Separation.IsList s' f l list := by
    rw [Separation.IsList, hfree]
    exact hlist.congr fun c hc => Memory.word_congr
      ((hbytes c n (hr.isList_free hf hlist c hc)).mono (Set.Ico_subset_Ico le_rfl (by omega)))
  exact ⟨fun h' => hlist'.unique h' ▸ hlist, fun h' => hlist.unique h' ▸ hlist'⟩

/-- A heap that is new, or taken off the stack, changes none of the others. -/
theorem Refines.boot_keeps (hr : Refines cfg main s status A idle) (hboot : bootHeapManager k t s = .ok s') :
    (∀ h f n, IsBucket s.heapMaster h f n → s'.freeHeader f = s.freeHeader f) ∧
    (∀ h ∈ s.heapMaster.heapManagersList, s'.heap h = s.heap h) ∧
    ∀ c p, A.at? c = some p → Set.EqOn s'.mem s.mem (Set.Ico c (c + p.len)) := by
  obtain ⟨_, rfl⟩ | ⟨_, heap, s₁, hget, rfl⟩ := bootHeapManager_cases hr.booted hboot
  · exact ⟨fun _ _ _ _ => rfl, fun _ _ => rfl, fun _ _ _ => Set.eqOn_refl _ _⟩
  have hlaid := hr.heaps.laid
  rw [assignHeap_freeHeader, assignHeap_heap, assignHeap_mem]
  have hcarve : ∀ {s : State} {A' : Arena Tag}, HeapPieces (carveHeap s).2.heapMaster A' →
      s.heapMaster.heapManagersStorage ∉ s.heapMaster.heapManagersList →
      (∀ h f n, IsBucket s.heapMaster h f n → (carveHeap s).2.freeHeader f = s.freeHeader f) ∧
      ∀ h ∈ s.heapMaster.heapManagersList, (carveHeap s).2.heap h = s.heap h := by
    intro s A' hpieces hnew
    refine ⟨fun h f n hf => carveHeap_freeHeader hpieces hnew hf, fun h hh => Function.update_of_ne ?_ ..⟩
    rintro rfl
    exact hnew hh
  rcases getHeap_cases hget with ⟨_, _, rfl⟩ | ⟨_, hne, hroom, _, rfl⟩ | ⟨_, hspare, a, hfresh, _, rfl⟩
  · exact ⟨fun _ _ _ _ => rfl, fun _ _ => rfl, fun _ _ _ => Set.eqOn_refl _ _⟩
  · obtain ⟨hnew, A', _, hpieces, _⟩ := carveHeap_pieces hlaid hr.heaps.pieces hne hroom
    obtain ⟨hfree, hheap⟩ := hcarve hpieces hnew
    exact ⟨hfree, hheap, fun _ _ _ => Set.eqOn_refl _ _⟩
  · obtain ⟨A₁, hlaid₁, hpieces₁, _⟩ := superblock_pieces hlaid hr.heaps.pieces hspare hfresh
    obtain ⟨hnew, A', _, hpieces, _⟩ := carveHeap_pieces hlaid₁ hpieces₁ hfresh.pos.ne' (superblock_room hfresh)
    obtain ⟨hfree, hheap⟩ := hcarve hpieces hnew
    exact ⟨hfree, hheap, fun c p hc => (Grown.grant hfresh .readWrite).eqOn (hlaid.covered c p hc)⟩

/-- A refused request does nothing else than booting the thread. -/
theorem Refines.rolledBack {s₁ : State} (hr : Refines cfg main s status A idle)
    (hboot : bootHeapManager k t s = .ok s₁) (hfree : s'.freeHeader = s₁.freeHeader) (hheap : s'.heap = s₁.heap)
    (hmem : s'.mem = s₁.mem) (hstart : s'.heapMaster.sbrkStart = s.heapMaster.sbrkStart)
    (hend : s'.heapMaster.sbrkEnd = s.heapMaster.sbrkEnd)
    (hrem : s'.heapMaster.sbrkRemaining = s.heapMaster.sbrkRemaining) (hlock : s'.heapMaster.extLock = false) :
    RolledBack s s' := by
  obtain ⟨hfree₁, hheap₁, hbytes₁⟩ := hr.boot_keeps hboot
  rw [← hfree] at hfree₁
  rw [← hheap] at hheap₁
  rw [← hmem] at hbytes₁
  refine ⟨hfree₁, fun h f n hf l blocks => ?_, fun h hh => ?_, hstart, hend, hrem, hlock⟩
  · exact hr.isList_iff hf (hfree₁ h f n hf) (fun c m hc => hbytes₁ c _ hc) l blocks
  · rw [hheap₁ h hh]
    exact ⟨rfl, rfl⟩

/-! ### Requests -/

theorem Slab.Kept.start_ne {L : ℕ → Option Live} {slab len : ℕ} (h : Slab.Kept s L)
    (hfresh : FreshRegion cfg s.mappings slab len) : slab ≠ s.heapMaster.sbrkStart := by
  have hpos := hfresh.pos
  have hlen := hfresh.len_pos
  rcases h.slab with hzero | ⟨m, hm, _, hbase⟩
  · omega
  · obtain ⟨blocks, happ, _⟩ := h.blocks
    have hm' := (happ.user m hm).2.1
    have hapart := hfresh.apart m hm
    omega

theorem Refines.doMalloc_none_keeps (hr : Refines cfg main s status A idle)
    (h : Llheap.doMalloc k t size s = .ok (none, s')) (hf : IsBucket s.heapMaster h' f n) :
    s'.freeHeader f = s.freeHeader f := by
  obtain ⟨s₁, hboot, hcases⟩ := doMalloc_cases h
  refine Eq.trans ?_ ((hr.boot_keeps hboot).1 h' f n hf)
  rcases hcases with ⟨_, _, hblock⟩ | ⟨_, _, _, hsome, _⟩ | ⟨_, hmap⟩
  · rw [(allocateBlock_none hblock).1.freeHeader]
  · cases hsome
  · rcases mapLarge_cases hmap with ⟨_, rfl⟩ | ⟨_, hsome, _⟩
    · rfl
    · cases hsome

theorem doMalloc_rolledBack_iff {L : ℕ → Option Live} (hr : Refines cfg main s status A idle)
    (hkept : Slab.Kept s L) (hlock : s.heapMaster.extLock = false)
    (h : doMalloc k t size s = .ok (none, s')) : RolledBack s s' ↔ ¬ ReservesSlab k t size s := by
  obtain ⟨s₁, hboot, hcases⟩ := doMalloc_cases h
  obtain ⟨hkept₁, hlock₁, hstart, hend, hrem⟩ := Slab.bootHeapManager_kept hr.booted hkept hboot
  have hunique : ∀ {s₂}, bootHeapManager k t s = .ok s₂ → s₂ = s₁ := fun h₂ =>
    Except.ok.inj (h₂.symm.trans hboot)
  rcases hcases with ⟨hsmall, _, hblock⟩ | ⟨_, _, _, hsome, _⟩ | ⟨hlarge, hmap⟩
  · rcases allocateBlock_cases hblock with ⟨_, hsome, _⟩ | ⟨_, _, hsome, _⟩ | ⟨_, _, _, hsome, _⟩ |
      ⟨hfree, hremote, hshort, hext⟩
    · cases hsome
    · cases hsome
    · cases hsome
    rcases managerExtend_cases hext with ⟨_, hmaster⟩ | ⟨_, _, hsome, _⟩
    · rcases masterExtend_none_cases hmaster with ⟨hnew, slab, hfresh, rfl⟩ | ⟨hold, rfl⟩
      · refine iff_of_false (fun hback => ?_) fun hnone => hnone ⟨s₁, hboot, hsmall, ⟨hfree, hremote⟩, hshort, hnew⟩
        exact hkept₁.start_ne hfresh (hback.sbrkStart.trans hstart.symm)
      · refine iff_of_true (hr.rolledBack hboot rfl rfl rfl hstart hend hrem rfl) ?_
        rintro ⟨s₂, hboot₂, _, _, _, hnew⟩
        obtain rfl := hunique hboot₂
        exact hold hnew
    · cases hsome
  · cases hsome
  · rcases mapLarge_cases hmap with ⟨_, rfl⟩ | ⟨_, hsome, _⟩
    · refine iff_of_true (hr.rolledBack hboot rfl rfl rfl hstart hend hrem (hlock₁.trans hlock)) ?_
      rintro ⟨s₂, hboot₂, hsmall, _⟩
      obtain rfl := hunique hboot₂
      omega
    · cases hsome

/-- A request of the program that returns null, and what it asks `doMalloc` for. -/
inductive Refused (k : Kernel cfg) (t : Tid) (s s' : State) : ℕ → Prop
  | doMalloc {size : ℕ} : size < 2 ^ 64 → Llheap.doMalloc k t size s = .ok (none, s') → Refused k t s s' size
  | memalign {alignment size : ℕ} : size < 2 ^ 64 → memalignNoStats k t alignment size s = .ok (none, s') →
      Refused k t s s' (memalignRequest alignment size % 2 ^ 64)

/-- In every reachable state a request that returns null leaves everything as it was, exactly if it has not reserved a slab. -/
theorem refused_rolledBack_iff {w : Reuse.World} (hw : (Reuse.system cfg main).Reachable w)
    (h : Refused k t w.st s' size) : RolledBack w.st s' ↔ ¬ ReservesSlab k t size w.st := by
  obtain ⟨A, idle, counted, L, hbehind⟩ := Reuse.reachable_inv hw
  have hrun : doMalloc k t size w.st = .ok (none, s') := by
    cases h with
    | doMalloc _ h => exact h
    | memalign hsize h => exact memalignNoStats_none hsize h
  exact doMalloc_rolledBack_iff hbehind.refines hbehind.slab hbehind.unlocked hrun

/-- The kernel that has address space, but no memory at the end of a slab. -/
def Kernel.noBlocks (cfg : Config) : Kernel cfg where
  mmap ms hint len := if hint = 0 then (Kernel.above cfg).mmap ms hint len else .error ENOMEM
  aligned h := by
    split at h
    · exact (Kernel.above cfg).aligned h
    · cases h
  bounds h := by
    split at h
    · exact (Kernel.above cfg).bounds h
    · cases h
  fresh h := by
    split at h
    · exact (Kernel.above cfg).fresh h
    · cases h

private theorem noBlocks_refuses : ∃ w s', (Reuse.system defaultConfig 0).Reachable w ∧
    doMalloc (.noBlocks defaultConfig) 0 8 w.st = .ok (none, s') ∧
    w.st.heapMaster.sbrkStart = 0 ∧ s'.heapMaster.sbrkStart ≠ 0 := by
  have hok : (doMalloc (.noBlocks defaultConfig) 0 8 Reuse.World.first.st).isOk = true := by decide +kernel
  have hrun := Result.eq_ok_pair hok (d := (none, State.unbooted)) (a := none) (by decide +kernel)
  exact ⟨_, _, Reuse.World.first_reachable, hrun, by decide +kernel, by decide +kernel⟩

/-- The slab is another one afterwards. -/
theorem refused_not_rolledBack : ∃ w s', (Reuse.system defaultConfig 0).Reachable w ∧
    Refused (.noBlocks defaultConfig) 0 w.st s' 8 ∧ ¬ RolledBack w.st s' := by
  obtain ⟨w, s', hreach, hrun, hbefore, hafter⟩ := noBlocks_refuses
  exact ⟨w, s', hreach, .doMalloc (by decide) hrun, fun hback =>
    hafter (hback.sbrkStart.trans hbefore)⟩

/-- With no memory at all, nothing is reserved. -/
theorem refused_rolledBack_iff_exhausted : ∃ w s', (Reuse.system defaultConfig 0).Reachable w ∧
    Refused (.exhausted defaultConfig) 0 w.st s' 8 ∧ RolledBack w.st s' := by
  have hok : (doMalloc (.exhausted defaultConfig) 0 8 Reuse.World.first.st).isOk = true := by decide +kernel
  have hrun := Result.eq_ok_pair hok (d := (none, State.unbooted)) (a := none) (by decide +kernel)
  have hrefused : Refused (.exhausted defaultConfig) 0 Reuse.World.first.st _ 8 := .doMalloc (by decide) hrun
  refine ⟨_, _, Reuse.World.first_reachable, hrefused,
    (refused_rolledBack_iff Reuse.World.first_reachable hrefused).mpr ?_⟩
  rintro ⟨s₁, _, _, _, _, _, slab, hslab⟩
  simp [Kernel.exhausted, Kernel.ofPlacement, mayGrant] at hslab

end Llheap
