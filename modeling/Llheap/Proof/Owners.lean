import Llheap.Base.Chain
import Llheap.Proof.Growth
import Llheap.Proof.HeapPieces
import Llheap.Proof.Startup

/-!
# Which thread has which heap

A thread gets a heap at its first call and its exit destructor puts the heap on the stack of free heaps, but the destructor does not take the heap away from the thread: until the thread has terminated it goes on using it.
-/

namespace Llheap

variable {cfg : Config}

inductive Status
  | alive
  /-- the destructor has run, other destructors may still call the allocator -/
  | exiting
  | terminated
deriving DecidableEq

/-- Which thread has which heap, with the stack of free heaps as a list. -/
structure Owned (main : Tid) (s : State) (status : Tid → Status) (idle : List ℕ) : Prop where
  chain : Chain (fun h => (s.heap h).nextFreeHeapManager) s.heapMaster.freeHeapManagersList idle
  idle_mem : ∀ h ∈ idle, h ∈ s.heapMaster.heapManagersList
  known : ∀ t, status t ≠ .terminated → s.heapManager t ≠ 1 →
    s.heapManager t ∈ s.heapMaster.heapManagersList
  unique : ∀ t u, status t ≠ .terminated → status u ≠ .terminated → s.heapManager t ≠ 1 →
    s.heapManager t = s.heapManager u → t = u
  alive : ∀ t, status t = .alive → s.heapManager t ≠ 1 → s.heapManager t ∉ idle
  exiting : ∀ t, status t = .exiting → s.heapManager t ∈ idle
  none_lost : ∀ h ∈ s.heapMaster.heapManagersList,
    h ∈ idle ∨ ∃ t, status t = .alive ∧ s.heapManager t = h
  booting : s.heapMasterBootFlag ≠ 2 → ∀ t,
    status t = .alive ∧ s.setspecific t = false ∧ (t ≠ main → s.heapManager t = 1)
  registered : s.heapMasterBootFlag = 2 → ∀ t, s.setspecific t = true ↔ s.heapManager t ≠ 1

variable {main : Tid} {k : Kernel cfg} {t : Tid} {s s' : State} {status : Tid → Status}
  {idle idle' : List ℕ} {A : Arena Tag} {heap : ℕ}

theorem Owned.of_same (h : Owned main s status idle) (hs : SameHeaps s s') :
    Owned main s' status idle where
  chain := by
    rw [hs.freeHeapManagersList]
    exact h.chain.congr fun c _ => hs.next c
  idle_mem := by rw [hs.heapManagersList]; exact h.idle_mem
  known := by rw [hs.heapManager, hs.heapManagersList]; exact h.known
  unique := by rw [hs.heapManager]; exact h.unique
  alive := by rw [hs.heapManager]; exact h.alive
  exiting := by rw [hs.heapManager]; exact h.exiting
  none_lost := by rw [hs.heapManager, hs.heapManagersList]; exact h.none_lost
  booting := by rw [hs.bootFlag, hs.heapManager, hs.setspecific]; exact h.booting
  registered := by rw [hs.bootFlag, hs.heapManager, hs.setspecific]; exact h.registered

theorem Owned.assign (h : Owned main s status idle) (hold : s.heapManager t = 1)
    (hrun : status t ≠ .terminated) (hmay : s.heapMasterBootFlag = 2 ∨ t = main)
    (hflag : s'.heapMasterBootFlag = s.heapMasterBootFlag)
    (hmanager : s'.heapManager = s.heapManager) (hset : s'.setspecific = s.setspecific)
    (hheaps : ∀ x, x ∈ s'.heapMaster.heapManagersList ↔ x = heap ∨ x ∈ s.heapMaster.heapManagersList)
    (hchain : Chain (fun h => (s'.heap h).nextFreeHeapManager) s'.heapMaster.freeHeapManagersList
      idle')
    (hidle : ∀ x, x ∈ idle' ↔ x ∈ idle ∧ x ≠ heap)
    (hfree : ∀ u, status u ≠ .terminated → s.heapManager u ≠ heap) (hne : heap ≠ 1)
    (hone : 1 ∉ s.heapMaster.heapManagersList) : Owned main (assignHeap t heap s') status idle' := by
  have halive : status t = .alive := by
    cases hst : status t with
    | alive => rfl
    | exiting => exact absurd (h.idle_mem _ (hold ▸ h.exiting t hst)) hone
    | terminated => exact absurd hst hrun
  refine ⟨?_, ?_, ?_, ?_, ?_, ?_, ?_, ?_, ?_⟩
  · simpa using hchain
  · intro x hx
    rw [assignHeap_heapMaster, hheaps]
    exact .inr (h.idle_mem x ((hidle x).mp hx).1)
  · intro u hu hu1
    rw [assignHeap_heapManager, hmanager] at hu1 ⊢
    rw [assignHeap_heapMaster, hheaps]
    by_cases hut : u = t
    · subst u
      exact .inl (Function.update_self ..)
    · rw [Function.update_of_ne hut] at hu1 ⊢
      exact .inr (h.known u hu hu1)
  · intro u v hu hv hu1 huv
    rw [assignHeap_heapManager, hmanager] at hu1 huv
    by_cases hut : u = t <;> by_cases hvt : v = t
    · rw [hut, hvt]
    · subst u
      rw [Function.update_self, Function.update_of_ne hvt] at huv
      exact absurd huv.symm (hfree v hv)
    · subst v
      rw [Function.update_self, Function.update_of_ne hut] at huv
      exact absurd huv (hfree u hu)
    · rw [Function.update_of_ne hut] at hu1 huv
      rw [Function.update_of_ne hvt] at huv
      exact h.unique u v hu hv hu1 huv
  · intro u hu hu1 hmem
    rw [assignHeap_heapManager, hmanager] at hu1 hmem
    by_cases hut : u = t
    · subst u
      rw [Function.update_self] at hmem
      exact ((hidle _).mp hmem).2 rfl
    · rw [Function.update_of_ne hut] at hu1 hmem
      exact h.alive u hu hu1 ((hidle _).mp hmem).1
  · intro u hu
    have hut : u ≠ t := by
      rintro rfl
      rw [halive] at hu
      cases hu
    rw [assignHeap_heapManager, hmanager, Function.update_of_ne hut]
    exact (hidle _).mpr ⟨h.exiting u hu, hfree u (by rw [hu]; decide)⟩
  · intro x hx
    rw [assignHeap_heapMaster, hheaps] at hx
    rw [assignHeap_heapManager, hmanager]
    by_cases hxh : x = heap
    · exact .inr ⟨t, halive, by rw [Function.update_self, hxh]⟩
    · rcases h.none_lost x (hx.resolve_left hxh) with hmem | ⟨u, hu, hux⟩
      · exact .inl ((hidle x).mpr ⟨hmem, hxh⟩)
      · refine .inr ⟨u, hu, ?_⟩
        have hut : u ≠ t := by
          rintro rfl
          exact hone (hold ▸ hux ▸ hx.resolve_left hxh)
        rw [Function.update_of_ne hut, hux]
  · intro hnot u
    rw [assignHeap_bootFlag, hflag] at hnot
    obtain ⟨hu, hunset, huold⟩ := h.booting hnot u
    rw [assignHeap_setspecific, assignHeap_heapManager, hflag, if_neg hnot, hset, hmanager]
    refine ⟨hu, hunset, fun humain => ?_⟩
    rw [Function.update_of_ne (by rintro rfl; exact humain (hmay.resolve_left hnot))]
    exact huold humain
  · intro hflag2 u
    rw [assignHeap_bootFlag] at hflag2
    rw [assignHeap_setspecific, assignHeap_heapManager, if_pos hflag2, hset, hmanager]
    by_cases hut : u = t
    · subst u
      rw [Function.update_self, Function.update_self]
      exact ⟨fun _ => hne, fun _ => rfl⟩
    · rw [Function.update_of_ne hut, Function.update_of_ne hut]
      exact h.registered (hflag ▸ hflag2) u

theorem Owned.idle_eq_nil (h : Owned main s status idle)
    (hfree : s.heapMaster.freeHeapManagersList = 0) : idle = [] :=
  Chain.of_null (hfree ▸ h.chain)

theorem Owned.assignNew (h : Owned main s status idle) (hold : s.heapManager t = 1)
    (hrun : status t ≠ .terminated) (hmay : s.heapMasterBootFlag = 2 ∨ t = main)
    (hfree : s.heapMaster.freeHeapManagersList = 0)
    (hnew : s.heapMaster.heapManagersStorage ∉ s.heapMaster.heapManagersList)
    (hne : s.heapMaster.heapManagersStorage ≠ 1) (hone : 1 ∉ s.heapMaster.heapManagersList) :
    Owned main (assignHeap t s.heapMaster.heapManagersStorage (carveHeap s).2) status [] := by
  obtain rfl := h.idle_eq_nil hfree
  refine h.assign hold hrun hmay rfl rfl rfl (fun x => List.mem_cons) hfree (by simp) (fun u hu => ?_)
    hne hone
  by_cases hu1 : s.heapManager u = 1
  · rw [hu1]
    exact hne.symm
  · rintro hu2
    exact hnew (hu2 ▸ h.known u hu hu1)

/-- A heap on the stack goes to the thread that needs one, unless an exiting thread still has it. -/
theorem Owned.assignFree (h : Owned main s status idle) (hold : s.heapManager t = 1)
    (hrun : status t ≠ .terminated) (hmay : s.heapMasterBootFlag = 2 ∨ t = main)
    (hfree : s.heapMaster.freeHeapManagersList ≠ 0)
    (htake : ∀ u, status u = .exiting → s.heapManager u ≠ s.heapMaster.freeHeapManagersList)
    (hone : 1 ∉ s.heapMaster.heapManagersList) :
    s.heapMaster.freeHeapManagersList ≠ 1 ∧ ∃ idle',
      Owned main (assignHeap t s.heapMaster.freeHeapManagersList (reusedHeap s)) status idle' := by
  obtain ⟨idle', rfl, hchain⟩ := h.chain.exists_cons hfree
  have htop := h.idle_mem _ List.mem_cons_self
  have hnodup := h.chain.nodup
  have hne : s.heapMaster.freeHeapManagersList ≠ 1 := fun h1 => hone (h1 ▸ htop)
  refine ⟨hne, idle', h.assign hold hrun hmay rfl rfl rfl (fun x => ?_) hchain (fun x => ?_)
    (fun u hu => ?_) hne hone⟩
  · exact ⟨.inr, fun hx => hx.elim (· ▸ htop) id⟩
  · have hnot : s.heapMaster.freeHeapManagersList ∉ idle' := (List.nodup_cons.mp hnodup).1
    constructor
    · exact fun hx => ⟨List.mem_cons_of_mem _ hx, fun hxt => hnot (hxt ▸ hx)⟩
    · exact fun ⟨hx, hxt⟩ => (List.mem_cons.mp hx).resolve_left hxt
  · cases hst : status u with
    | alive =>
      intro hutop
      have hu1 : s.heapManager u ≠ 1 := hutop ▸ hne
      exact h.alive u hst hu1 (hutop ▸ List.mem_cons_self)
    | exiting => exact htake u hst
    | terminated => exact absurd hst hu

/-- The heaps of a state with the pieces they are and the threads that have them. -/
structure Heaps (main : Tid) (s : State) (status : Tid → Status) (A : Arena Tag) (idle : List ℕ) :
    Prop where
  laid : Laid s.mappings A
  pieces : HeapPieces s.heapMaster A
  owned : Owned main s status idle

/-- A heap is carved from the superblock for a thread that has none. -/
theorem Heaps.carve (h : Heaps main s status A idle) (hold : s.heapManager t = 1)
    (hrun : status t ≠ .terminated) (hmay : s.heapMasterBootFlag = 2 ∨ t = main)
    (hfree : s.heapMaster.freeHeapManagersList = 0)
    (hstorage : s.heapMaster.heapManagersStorage ≠ 0)
    (hroom : (s.heapMaster.heapManagersStorageEnd - s.heapMaster.heapManagersStorage) / sizeofHeap ≠ 0) :
    s.heapMaster.heapManagersStorage ≠ 1 ∧ ∃ A' idle',
      Heaps main (assignHeap t s.heapMaster.heapManagersStorage (carveHeap s).2) status A' idle' ∧
        SameBlocks A A' := by
  have hone := h.pieces.one_not_mem h.laid
  obtain ⟨hnew, A', hlaid, hpieces, hsame⟩ := carveHeap_pieces h.laid h.pieces hstorage hroom
  have hne : s.heapMaster.heapManagersStorage ≠ 1 := by
    intro h1
    exact hpieces.one_not_mem hlaid (h1 ▸ List.mem_cons_self)
  refine ⟨hne, A', [], ⟨?_, ?_, h.owned.assignNew hold hrun hmay hfree hnew hne hone⟩, hsame⟩
  · rw [assignHeap_mappings]
    exact hlaid
  · rw [assignHeap_heapMaster]
    exact hpieces

theorem superblock_room {a : ℕ} (hfresh : FreshRegion cfg s.mappings a (superblockSize cfg)) :
    ((superblock cfg a s).heapMaster.heapManagersStorageEnd -
      (superblock cfg a s).heapMaster.heapManagersStorage) / sizeofHeap ≠ 0 := by
  obtain ⟨d, hsize, hend⟩ := superblock_dimension hfresh.len_pos hfresh.user
  have hlen := hfresh.len_pos
  change ((a + superblockDimension cfg * sizeofHeap).toNat - a) / sizeofHeap ≠ 0
  rw [hend, Nat.add_sub_cancel_left, Nat.mul_div_cancel d (by decide)]
  rintro rfl
  omega

/-- A thread at its first call gets a heap: from the stack, or a new one. -/
theorem Heaps.boot (h : Heaps main s status A idle) (hbooted : s.heapMasterBootFlag ≠ 0)
    (hrun : status t ≠ .terminated) (hmay : s.heapMasterBootFlag = 2 ∨ t = main)
    (htake : s.heapManager t = 1 → s.heapMaster.freeHeapManagersList ≠ 0 →
      ∀ u, status u = .exiting → s.heapManager u ≠ s.heapMaster.freeHeapManagersList)
    (hboot : bootHeapManager k t s = .ok s') :
    s'.heapManager t ≠ 1 ∧ ∃ A' idle', Heaps main s' status A' idle' ∧ SameBlocks A A' := by
  have hone := h.pieces.one_not_mem h.laid
  obtain ⟨hold, rfl⟩ | ⟨hold, heap, s₁, hget, rfl⟩ := bootHeapManager_cases hbooted hboot
  · exact ⟨hold, A, idle, h, fun _ _ _ _ => Iff.rfl⟩
  rw [assignHeap_heapManager, Function.update_self]
  rcases getHeap_cases hget with ⟨hfree, rfl, rfl⟩ | ⟨hfree, hstorage, hroom, rfl, rfl⟩ |
    ⟨hfree, hspare, a, hfresh, rfl, rfl⟩
  · obtain ⟨hne, idle', howned⟩ := h.owned.assignFree hold hrun hmay hfree (htake hold hfree) hone
    refine ⟨hne, A, idle', ⟨?_, ?_, howned⟩, fun _ _ _ _ => Iff.rfl⟩
    · rw [assignHeap_mappings]
      exact h.laid
    · rw [assignHeap_heapMaster]
      exact ⟨h.pieces.heap, h.pieces.spare, h.pieces.whole⟩
  · exact h.carve hold hrun hmay hfree hstorage hroom
  · have hstorage : (superblock cfg heap s).heapMaster.heapManagersStorage ≠ 0 := hfresh.pos.ne'
    obtain ⟨A₁, hlaid, hpieces, hsame⟩ := superblock_pieces h.laid h.pieces hspare hfresh
    have hblock : Heaps main (superblock cfg heap s) status A₁ idle :=
      ⟨hlaid, hpieces, h.owned.chain, h.owned.idle_mem, h.owned.known, h.owned.unique, h.owned.alive,
        h.owned.exiting, h.owned.none_lost, h.owned.booting, h.owned.registered⟩
    obtain ⟨hne, A', idle', h', hsame'⟩ :=
      hblock.carve hold hrun hmay hfree hstorage (superblock_room hfresh)
    exact ⟨hne, A', idle', h', hsame.trans hsame'⟩

/-! ### The end of a thread -/

/-- The destructor puts the thread's heap on the stack; the thread keeps it. -/
theorem Owned.dtor (h : Owned main s status idle) (hflag : s.heapMasterBootFlag = 2)
    (halive : status t = .alive) (hset : s.setspecific t = true)
    (hone : 0 ∉ s.heapMaster.heapManagersList) :
    Owned main (heapManagerDtor t s) (Function.update status t .exiting) (s.heapManager t :: idle) := by
  have hheap : s.heapManager t ≠ 1 := (h.registered hflag t).mp hset
  have hrun : status t ≠ .terminated := by rw [halive]; decide
  have hmem := h.known t hrun hheap
  have hnot := h.alive t halive hheap
  have hstatus : ∀ u, Function.update status t .exiting u ≠ .terminated ↔ status u ≠ .terminated := by
    intro u
    by_cases hut : u = t
    · subst u
      simp [hrun]
    · rw [Function.update_of_ne hut]
  refine ⟨?_, ?_, ?_, ?_, ?_, ?_, ?_, ?_, ?_⟩
  · refine Chain.push h.chain (fun h0 => hone (h0 ▸ hmem)) ?_ fun c hc => ?_
    · simp [heapManagerDtor]
    · have hne : c ≠ s.heapManager t := by
        rintro rfl
        exact hnot hc
      simp [heapManagerDtor, hne]
  · intro x hx
    rcases List.mem_cons.mp hx with rfl | hx
    · exact hmem
    · exact h.idle_mem x hx
  · exact fun u hu => h.known u ((hstatus u).mp hu)
  · exact fun u v hu hv => h.unique u v ((hstatus u).mp hu) ((hstatus v).mp hv)
  · intro u hu hu1 hx
    have hut : u ≠ t := by
      rintro rfl
      rw [Function.update_self] at hu
      cases hu
    rw [Function.update_of_ne hut] at hu
    rcases List.mem_cons.mp hx with heq | hx
    · exact hut (h.unique u t (by rw [hu]; decide) hrun hu1 heq)
    · exact h.alive u hu hu1 hx
  · intro u hu
    by_cases hut : u = t
    · subst u
      exact List.mem_cons_self
    · rw [Function.update_of_ne hut] at hu
      exact List.mem_cons_of_mem _ (h.exiting u hu)
  · intro x hx
    rcases h.none_lost x hx with hidle | ⟨u, hu, hux⟩
    · exact .inl (List.mem_cons_of_mem _ hidle)
    · by_cases hut : u = t
      · subst u
        exact .inl (hux ▸ List.mem_cons_self)
      · exact .inr ⟨u, by rw [Function.update_of_ne hut]; exact hu, hux⟩
  · exact fun hnot => absurd hflag hnot
  · exact h.registered

theorem Owned.terminate (h : Owned main s status idle) (hflag : s.heapMasterBootFlag = 2)
    (hdone : status t = .exiting ∨ status t = .alive ∧ s.setspecific t = false)
    (hone : 1 ∉ s.heapMaster.heapManagersList) :
    Owned main s (Function.update status t .terminated) idle := by
  have hold : ∀ u, Function.update status t .terminated u ≠ .terminated →
      status u ≠ .terminated := by
    intro u hu
    by_cases hut : u = t
    · subst u
      rw [Function.update_self] at hu
      exact absurd rfl hu
    · rwa [Function.update_of_ne hut] at hu
  have hother : ∀ u x, Function.update status t .terminated u = x → x ≠ .terminated →
      status u = x := by
    intro u x hu hx
    by_cases hut : u = t
    · subst u
      rw [Function.update_self] at hu
      exact absurd hu.symm hx
    · rwa [Function.update_of_ne hut] at hu
  refine ⟨h.chain, h.idle_mem, fun u hu => h.known u (hold u hu),
    fun u v hu hv => h.unique u v (hold u hu) (hold v hv),
    fun u hu => h.alive u (hother u _ hu (by decide)),
    fun u hu => h.exiting u (hother u _ hu (by decide)), fun x hx => ?_,
    fun hnot => absurd hflag hnot, h.registered⟩
  rcases h.none_lost x hx with hidle | ⟨u, hu, hux⟩
  · exact .inl hidle
  · by_cases hut : u = t
    · subst u
      rcases hdone with hexit | ⟨_, hunset⟩
      · rw [hexit] at hu
        cases hu
      · have ht1 : s.heapManager t = 1 := by
          by_contra hne
          rw [(h.registered hflag t).mpr hne] at hunset
          cases hunset
        exact absurd (ht1 ▸ hux ▸ hx) hone
    · exact .inr ⟨u, by rw [Function.update_of_ne hut]; exact hu, hux⟩

theorem Owned.start (h : Owned main s status idle) (hflag : s.heapMasterBootFlag = 1)
    (hready : s.heapManager main ≠ 1) :
    Owned main { registerDtor main s with heapMasterBootFlag := 2 } status idle := by
  refine ⟨h.chain, h.idle_mem, h.known, h.unique, h.alive, h.exiting, h.none_lost,
    fun h2 => absurd rfl h2, fun _ t => ?_⟩
  change Function.update s.setspecific main true t = true ↔ s.heapManager t ≠ 1
  by_cases ht : t = main
  · subst t
    rw [Function.update_self]
    exact ⟨fun _ => hready, fun _ => rfl⟩
  · obtain ⟨_, hunset, hnew⟩ := h.booting (by rw [hflag]; decide) t
    rw [Function.update_of_ne ht, hunset, hnew ht]
    decide

theorem Owned.munmap (h : Owned main s status idle) (b n : ℕ) : Owned main (s.munmap b n) status idle :=
  ⟨h.chain, h.idle_mem, h.known, h.unique, h.alive, h.exiting, h.none_lost, h.booting, h.registered⟩

theorem Heaps.none (hheaps : s.heapMaster.heapManagersList = [])
    (hfree : s.heapMaster.freeHeapManagersList = 0) (hstorage : s.heapMaster.heapManagersStorage = 0)
    (hflag : s.heapMasterBootFlag = 1) (hmanager : ∀ t, s.heapManager t = 1)
    (hset : ∀ t, s.setspecific t = false) (hstatus : ∀ t, status t = .alive) :
    Heaps main s status (Arena.empty Tag) [] := by
  refine ⟨⟨nofun, nofun, nofun⟩, ⟨fun b n => ?_, fun b n => ?_, fun hne => absurd hstorage hne⟩, hfree, nofun,
    fun t _ ht => absurd (hmanager t) ht, fun t _ _ _ ht => absurd (hmanager t) ht,
    fun t _ ht => absurd (hmanager t) ht, fun t ht => ?_, ?_,
    fun _ t => ⟨hstatus t, hset t, fun _ => hmanager t⟩, fun h2 => ?_⟩
  · simp [hheaps]
  · simp [hstorage]
    omega
  · rw [hstatus t] at ht
    cases ht
  · rw [hheaps]
    nofun
  · rw [hflag] at h2
    cases h2

theorem mallopt_sameHeaps {option value : ℤ} {r : ℕ} (h : mallopt option value s = .ok (r, s')) :
    SameHeaps s s' := by
  rcases mallopt_cases h with ⟨_, rfl⟩ | ⟨_, _, _, _, rfl⟩ | ⟨_, _, _, _, rfl⟩
  · exact (Grown.refl s').sameHeaps
  · exact ⟨rfl, rfl, rfl, rfl, rfl, rfl, rfl, fun _ => rfl, fun _ _ h => h⟩
  · exact ⟨rfl, rfl, rfl, rfl, rfl, rfl, rfl, fun _ => rfl, fun _ _ h => h⟩

/-- The first call of the program's thread boots the heap master first. -/
theorem boot_unbooted (hflag : s.heapMasterBootFlag = 0) (hnew : s.heapManager t = 1)
    (h : bootHeapManager k t s = .ok s') :
    ∃ s₀, heapMasterCtor cfg s = .ok s₀ ∧ bootHeapManager k t s₀ = .ok s' := by
  rw [bootHeapManager, if_pos hnew, heapManagerCtor, if_pos hflag] at h
  obtain ⟨s₀, hctor, h⟩ := Result.bind_eq_ok.mp h
  refine ⟨s₀, hctor, ?_⟩
  obtain ⟨_, _, rfl⟩ := heapMasterCtor_ok hctor
  rw [bootHeapManager, if_pos hnew, heapManagerCtor, if_neg Nat.one_ne_zero]
  exact h

theorem unbooted_heap (h : heapManagerCtor k t State.unbooted = .ok s) :
    ∃ s₁, s₁.freeHeader = State.unbooted.freeHeader ∧ s₁.heapMaster.heapManagersList = [] ∧
      s = assignHeap t s₁.heapMaster.heapManagersStorage (carveHeap s₁).2 := by
  have hnew : State.unbooted.heapManager t = 1 := rfl
  have hboot : bootHeapManager k t State.unbooted = .ok s := by
    rw [bootHeapManager, if_pos hnew]
    exact h
  obtain ⟨s₀, hmaster, hboot⟩ := boot_unbooted rfl hnew hboot
  obtain ⟨_, _, hs₀⟩ := heapMasterCtor_ok hmaster
  have hinit : s₀.freeHeader = State.unbooted.freeHeader ∧ s₀.heapMaster.heapManagersList = [] ∧
      s₀.heapMaster.freeHeapManagersList = 0 ∧ s₀.heapMasterBootFlag ≠ 0 ∧ s₀.heapManager t = 1 := by
    rw [hs₀]
    exact ⟨rfl, rfl, rfl, Nat.one_ne_zero, rfl⟩
  obtain ⟨hfree, hlist, hnone, hflag, hold⟩ := hinit
  obtain ⟨hhas, _⟩ | ⟨_, heap, s₁, hget, rfl⟩ := bootHeapManager_cases hflag hboot
  · exact absurd hold hhas
  rcases getHeap_cases hget with ⟨hsome, _, _⟩ | ⟨_, _, _, rfl, rfl⟩ | ⟨_, _, _, _, rfl, rfl⟩
  · exact absurd hnone hsome
  · exact ⟨s₀, hfree, hlist, rfl⟩
  · exact ⟨superblock cfg heap s₀, hfree, hlist, rfl⟩

theorem Heaps.of_same (h : Heaps main s status A idle) (hs : SameHeaps s s') :
    Heaps main s' status A idle where
  laid := h.laid.mono hs.covered
  pieces := ⟨by rw [hs.heapManagersList]; exact h.pieces.heap,
    by rw [hs.heapManagersStorage, hs.heapManagersStorageEnd]; exact h.pieces.spare,
    by rw [hs.heapManagersStorage, hs.heapManagersStorageEnd]; exact h.pieces.whole⟩
  owned := h.owned.of_same hs

end Llheap
