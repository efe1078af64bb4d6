import Llheap.Proof.Aligned

/-!
# The first call of a program

The allocator boots itself inside `doMalloc`, and `valloc`, `pvalloc` and `mallopt` read the global configuration before that. A run starts with nothing booted; any call may be the first. Before boot the page size is still zero, so `valloc` does not align, `pvalloc` rounds every size to zero, and a setting of `mallopt` is checked against nothing and overwritten by boot.
-/

namespace Llheap.FirstCall

open Separation (World Preboot Inv)

variable {cfg : Config} {main : Tid} {k : Kernel cfg} {t : Tid} {s s' s₁ : State} {r : Option ℕ}
  {w w' : World} {c : Call} {n size user : ℕ} {option value : ℤ}

/-- The heap master once the heap is booted: `heapManagerCtor` boots it first if it has to. -/
def bootMaster (cfg : Config) (s : State) : HeapMaster :=
  if s.heapMasterBootFlag = 0 then initHeapMaster cfg s.heapMaster else s.heapMaster

inductive Label (cfg : Config)
  /-- a step after boot, or one that does not boot the heap -/
  | later (l : Separation.Label cfg)
  | first (k : Kernel cfg) (c : Call)

def Step (main : Tid) (w : World) : Label cfg → World → Prop
  | .later l, w' => (∀ k t c, l = .call k t c → w.st.heapMasterBootFlag ≠ 0) ∧ Separation.Step main w l w'
  | .first k c, w' => w.st.heapMasterBootFlag = 0 ∧ c.Valid ∧ c.oaddr = none ∧
      (∀ n ∈ c.request w.st, Fits (bootMaster cfg w.st) n) ∧
      ∃ r, c.run k main w.st = .ok (r, w'.st) ∧ w'.live = liveAfter none false r w.live ∧
        w'.status = w.status

def system (cfg : Config) (main : Tid) : TransitionSystem World (Label cfg) where
  init w := w = ⟨State.unbooted, fun _ => .alive, ∅⟩
  step := Step main

/-! ### What the routines owe -/

/-- `n` is the least multiple of `page` from `size` on. -/
def LeastMultiple (page size n : ℕ) : Prop :=
  page ∣ n ∧ size ≤ n ∧ ∀ m, page ∣ m → size ≤ m → n ≤ m

/-- The address is at the start of a page and has `size` usable bytes. -/
structure PageAligned (cfg : Config) (s : State) (user size : ℕ) : Prop where
  page_dvd : cfg.pageSize ∣ user
  usable : size ≤ (mallocUsableSize (some user) s).1

/-- In addition, whole pages are recorded. -/
structure PageRounded (cfg : Config) (s : State) (user size : ℕ) : Prop extends
    PageAligned cfg s user size where
  recorded : LeastMultiple cfg.pageSize size (mallocRequestSize s (some user))

/-- A setting that `mallopt` accepts once the heap is booted. -/
def Acceptable (cfg : Config) (option value : ℤ) : Prop :=
  0 ≤ value ∧ value < 2 ^ 31 ∧
    (option = mTopPad ∧ 256 * 1024 ≤ ceiling value.toNat cfg.pageSize ∨
      option = mMmapThreshold ∧ cfg.pageSize ≤ value.toNat ∧ value.toNat ≤ bucketSize (noBucketSizes - 1))

/-- The setting is what the heap master has. -/
def InForce (cfg : Config) (option value : ℤ) (m : HeapMaster) : Prop :=
  (option = mTopPad → m.sbrkExtend = ceiling value.toNat cfg.pageSize) ∧
    (option = mMmapThreshold → m.mmapStart = value.toNat ∧ m.maxBucketsUsed = bucketOf value.toNat)

/-! ### Booting first -/

section

variable (hidem : ∀ s₁, bootHeapManager k t s = .ok s₁ → bootHeapManager k t s₁ = .ok s₁)

include hidem

theorem doMalloc_boot :
    doMalloc k t n s = (do let s₁ ← bootHeapManager k t s; doMalloc k t n s₁ : Result (Option ℕ × State)) := by
  cases hboot : bootHeapManager k t s with
  | error e =>
    rw [doMalloc, hboot]
    rfl
  | ok s₁ =>
    change _ = doMalloc k t n s₁
    rw [doMalloc, doMalloc, hboot, hidem s₁ hboot]

/-- `valloc` before boot does not see a page size yet. -/
theorem valloc_boot {s₁ : State} (hpage : s.heapMaster.pageSize = 0) (hboot : bootHeapManager k t s = .ok s₁) :
    valloc k t n s = doMalloc k t n s₁ := by
  rw [valloc, hpage, memalignNoStats, if_pos (.inl (Nat.zero_le _)), doMalloc_boot hidem, hboot]
  rfl

theorem memalignNoStats_boot {alignment : ℕ} : memalignNoStats k t alignment n s =
    (do let s₁ ← bootHeapManager k t s; memalignNoStats k t alignment n s₁ : Result (Option ℕ × State)) := by
  rw [memalignNoStats]
  dsimp only
  rw [doMalloc_boot hidem, doMalloc_boot hidem]
  cases hboot : bootHeapManager k t s with
  | error e => split <;> rfl
  | ok s₁ => rfl

/-- A call without an old address boots the heap before it does anything else. -/
theorem run_boot (hnone : c.oaddr = none) : c.run k t s =
    (do let s₁ ← bootHeapManager k t s; c.run k t s₁ : Result (Option ℕ × State)) := by
  cases c with
  | malloc size => exact doMalloc_boot hidem
  | calloc dimension elemSize =>
    rw [Call.run, calloc, doMalloc_boot hidem]
    cases hboot : bootHeapManager k t s <;> rfl
  | memalign alignment size => exact memalignNoStats_boot hidem
  | cmemalign alignment dimension elemSize =>
    rw [Call.run, cmemalign, memalignNoStats_boot hidem]
    cases hboot : bootHeapManager k t s <;> rfl
  | resize oaddr size =>
    obtain rfl : oaddr = none := hnone
    exact doMalloc_boot hidem
  | realloc oaddr size =>
    obtain rfl : oaddr = none := hnone
    exact doMalloc_boot hidem
  | alignedResize oaddr nalignment size =>
    obtain rfl : oaddr = none := hnone
    exact memalignNoStats_boot hidem
  | alignedRealloc oaddr nalignment size =>
    obtain rfl : oaddr = none := hnone
    exact memalignNoStats_boot hidem

end

/-- The thread's heap is new: its lists and its buffer are empty. -/
structure NewHeap (s : State) (t : Tid) : Prop where
  booted : s.heapMasterBootFlag = 1
  heapManager : s.heapManager t ≠ 1
  lists : ∀ i < noBucketSizes, s.freeHeader (freeListsAddr (s.heapManager t) i) =
    ⟨0, s.heapManager t, bucketSize i, 0⟩
  buffer : (s.heap (s.heapManager t)).bufRemaining = 0

theorem preboot_newHeap (hp : Preboot s) (hboot : bootHeapManager k t s = .ok s₁) :
    NewHeap s₁ t ∧ SameParams (initHeapMaster cfg s.heapMaster) s₁.heapMaster := by
  obtain ⟨s₀, hmaster, hboot⟩ := boot_unbooted hp.bootFlag (hp.heapManager t) hboot
  obtain ⟨_, _, rfl⟩ := heapMasterCtor_ok hmaster
  rcases bootHeapManager_cases Nat.one_ne_zero hboot with ⟨hne, _⟩ | ⟨_, heap, s₂, hget, rfl⟩
  · exact absurd (hp.heapManager t) hne
  rcases getHeap_cases hget with ⟨hne, _⟩ | ⟨_, hne, _⟩ | ⟨_, _, a, hfresh, rfl, rfl⟩
  · exact absurd rfl hne
  · exact absurd rfl hne
  · have halign := hfresh.align_dvd
    refine ⟨⟨?_, ?_, fun i hi => ?_, ?_⟩, ?_⟩
    · rw [assignHeap_bootFlag]
      rfl
    · rw [assignHeap_heapManager, Function.update_self]
      omega
    · rw [assignHeap_heapManager, Function.update_self, assignHeap_freeHeader]
      exact initFreeLists_at hi
    · rw [assignHeap_heapManager, Function.update_self, assignHeap_heap]
      have hheap : ((carveHeap (superblock cfg heap { s with
          heapMaster := initHeapMaster cfg s.heapMaster, heapMasterBootFlag := 1 })).2).heap heap = ⟨0, 0, 0⟩ :=
        Function.update_self ..
      rw [hheap]
    · rw [assignHeap_heapMaster]
      exact ⟨rfl, rfl, rfl⟩

theorem boot_idem (hne : s.heapManager t ≠ 1) : bootHeapManager k t s = .ok s := if_neg hne

/-- The first call boots the heap and is then made on the booted heap. -/
theorem first_run (hp : Preboot s) (hnone : c.oaddr = none) (h : c.run k t s = .ok (r, s')) :
    ∃ s₁, bootHeapManager k t s = .ok s₁ ∧ c.run k t s₁ = .ok (r, s') := by
  rw [run_boot (fun s₁ hboot => boot_idem (preboot_newHeap hp hboot).1.heapManager) hnone] at h
  exact Result.bind_eq_ok.mp h

/-! ### Runs -/

/-- Nothing is booted and nothing is live. -/
structure Fresh (w : World) : Prop where
  preboot : Preboot w.st
  pageSize : w.st.heapMaster.pageSize = 0
  alive : w.status = fun _ => .alive
  live : w.live = ∅

theorem bootMaster_booted (h : s.heapMasterBootFlag ≠ 0) : bootMaster cfg s = s.heapMaster := if_neg h

theorem Preboot.bootMaster (hp : Preboot s) : bootMaster cfg s = initHeapMaster cfg s.heapMaster :=
  if_pos hp.bootFlag

theorem fresh_behind (hw : Fresh w) (hboot : bootHeapManager k main w.st = .ok s₁) :
    Inv cfg main ⟨s₁, w.status, w.live⟩ := by
  rw [bootHeapManager, if_pos (hw.preboot.heapManager main)] at hboot
  rw [hw.alive, hw.live]
  exact hw.preboot.behind hboot

/-- A call without an old address is a new request: it asks the same in every state and keeps no block. -/
theorem new_request (hnone : c.oaddr = none) (s s' : State) (r : Option Nat) :
    c.request s = c.request s' ∧ c.gives r = false := by
  cases c with
  | malloc size => exact ⟨rfl, rfl⟩
  | calloc dimension elemSize => exact ⟨rfl, rfl⟩
  | memalign alignment size => exact ⟨rfl, rfl⟩
  | cmemalign alignment dimension elemSize => exact ⟨rfl, rfl⟩
  | resize oaddr size =>
    obtain rfl : oaddr = none := hnone
    exact ⟨rfl, rfl⟩
  | realloc oaddr size =>
    obtain rfl : oaddr = none := hnone
    exact ⟨rfl, rfl⟩
  | alignedResize oaddr nalignment size =>
    obtain rfl : oaddr = none := hnone
    exact ⟨rfl, rfl⟩
  | alignedRealloc oaddr nalignment size =>
    obtain rfl : oaddr = none := hnone
    exact ⟨rfl, rfl⟩

theorem first_inv (hw : Fresh w) (hs : Step main w (.first k c) w') : Inv cfg main w' := by
  obtain ⟨st', status', live'⟩ := w'
  obtain ⟨hflag, hvalid, hnone, hfits, r, hrun, hlive, hstatus⟩ := hs
  dsimp only at hrun hlive hstatus
  subst hlive hstatus
  obtain ⟨s₁, hboot, hrun⟩ := first_run hw.preboot hnone hrun
  obtain ⟨A, idle, hbehind⟩ := fresh_behind hw hboot
  obtain ⟨hnew, hparams⟩ := preboot_newHeap hw.preboot hboot
  have hok : Separation.CallOk main ⟨s₁, w.status, w.live⟩ main c := by
    refine ⟨Separation.mayCall_main ?_ hnew.heapManager, hvalid, ?_, fun n hn => ?_⟩
    · rw [hw.alive]
      simp
    · rw [hnone]
      simp
    · rw [(new_request hnone _ w.st none).1] at hn
      have hfit := hfits n hn
      rw [Preboot.bootMaster hw.preboot] at hfit
      exact hfit.congr hparams
  obtain ⟨A', idle', hbehind', _⟩ := Separation.call_behind hbehind hok hrun
  rw [hnone, (new_request hnone w.st w.st r).2] at hbehind'
  exact ⟨A', idle', hbehind'⟩

theorem startup_inv (hw : Fresh w) (h : startup k main w.st = .ok s') :
    Inv cfg main ⟨s', w.status, w.live⟩ := by
  obtain ⟨s₁, ⟨_, hctor⟩ | ⟨hne, _⟩, hflag, rfl⟩ := startup_cases h
  · have hboot : bootHeapManager k main w.st = .ok s₁ := by
      rw [bootHeapManager, if_pos (hw.preboot.heapManager main)]
      exact hctor
    obtain ⟨A, idle, hbehind⟩ := fresh_behind hw hboot
    have hstart : startup k main s₁ = .ok { registerDtor main s₁ with heapMasterBootFlag := 2 } := by
      rw [startup_granting, hflag]
      simp [bind, Except.bind, hflag]
    exact ⟨A, idle, (Separation.startup_behind hbehind hstart).1⟩
  · exact absurd hw.preboot.bootFlag hne

theorem later_fresh {l : Separation.Label cfg} (hw : Fresh w)
    (hcall : ∀ k t c, l = .call k t c → w.st.heapMasterBootFlag ≠ 0) (hs : Separation.Step main w l w') :
    Fresh w' ∨ Inv cfg main w' := by
  obtain ⟨⟨hflag, hmanager, hset, hmap⟩, hpage, halive, hlive⟩ := hw
  have hnone : ∀ {addr : Option ℕ}, (∀ u ∈ addr, u ∈ w.live) → addr = none := by
    intro addr hold
    cases addr with
    | none => rfl
    | some u =>
      have hmem := hold u rfl
      rw [hlive] at hmem
      exact absurd hmem (Set.notMem_empty u)
  obtain ⟨st', status', live'⟩ := w'
  cases l with
  | call k t c => exact absurd hflag (hcall k t c rfl)
  | usableSize addr =>
    obtain ⟨hold, rfl, rfl, rfl⟩ := hs
    rw [hnone hold]
    exact .inl ⟨⟨hflag, hmanager, hset, hmap⟩, hpage, halive, hlive⟩
  | free t addr =>
    obtain ⟨hold, hfree, rfl, rfl⟩ := hs
    rw [hnone hold] at hfree ⊢
    cases hfree
    refine .inl ⟨⟨hflag, hmanager, hset, hmap⟩, hpage, halive, ?_⟩
    simp [liveAfter, hlive]
  | write addr offset byte =>
    obtain ⟨hmem, _⟩ := hs
    rw [hlive] at hmem
    exact absurd hmem (Set.notMem_empty addr)
  | setErrno t e =>
    obtain ⟨rfl, rfl, rfl⟩ := hs
    exact .inl ⟨⟨hflag, hmanager, hset, hmap⟩, hpage, halive, hlive⟩
  | mallopt option value =>
    obtain ⟨⟨code, hopt⟩, rfl, rfl⟩ := hs
    rcases mallopt_cases hopt with ⟨_, rfl⟩ | ⟨_, _, _, _, rfl⟩ | ⟨_, _, _, _, rfl⟩ <;>
      exact .inl ⟨⟨hflag, hmanager, hset, hmap⟩, hpage, halive, hlive⟩
  | startup k =>
    obtain ⟨hstart, rfl, rfl⟩ := hs
    exact .inr (startup_inv ⟨⟨hflag, hmanager, hset, hmap⟩, hpage, halive, hlive⟩ hstart)
  | dtor t =>
    obtain ⟨hstarted, _⟩ := hs
    rw [hflag] at hstarted
    cases hstarted
  | terminate t =>
    obtain ⟨hstarted, _⟩ := hs
    rw [hflag] at hstarted
    cases hstarted

theorem inv_booted (h : Inv cfg main w) : w.st.heapMasterBootFlag ≠ 0 := by
  obtain ⟨A, idle, hr, _⟩ := h
  exact hr.booted

/-- Every run is before boot, with nothing allocated, or after it, with an arena behind the state. -/
theorem reachable_fresh_or_inv (h : (system cfg main).Reachable w) : Fresh w ∨ Inv cfg main w := by
  refine h.invariant (I := fun w => Fresh w ∨ Inv cfg main w) (fun w hw => ?_) fun w l w' hw hs => ?_
  · rw [show w = ⟨State.unbooted, fun _ => .alive, ∅⟩ from hw]
    exact .inl ⟨Separation.preboot_unbooted, rfl, rfl, rfl⟩
  · cases l with
    | later l =>
      rcases hw with hfresh | hinv
      · exact later_fresh hfresh hs.1 hs.2
      · exact .inr (Separation.step_inv hinv hs.2)
    | first k c =>
      rcases hw with hfresh | hinv
      · exact .inr (first_inv hfresh hs)
      · exact absurd hs.1 (inv_booted hinv)

/-! ### `valloc` and `pvalloc` -/

theorem mallocUsableSize_eq (s : State) (user : ℕ) :
    (mallocUsableSize (some user) s).1 = dataSize (headers s user).size user (headers s user).header := rfl

variable {A A' : Arena Tag} {idle : List ℕ} {status : Tid → Status} {b : ℕ} {al : Option ℕ} {l : Live}

theorem live_facts (hr : Refines cfg main s status A idle) (hb : liveAt A b = some l) :
    l.view.size ≤ (mallocUsableSize (some l.user) s).1 ∧
      mallocRequestSize s (some l.user) = l.view.size ∧
      (∀ a ∈ l.view.alignment, a ∣ l.user) ∧ (l.view.alignment = none → l.user = b + sizeofStorage) ∧ 16 ∣ b := by
  obtain ⟨hblock, hb16, _⟩ := hr.liveBlock hb
  obtain ⟨hdata, _, hhigh, _⟩ := hr.dataSize hb
  refine ⟨?_, hblock.encodes.mallocRequestSize hblock.taggable, fun a ha => (hblock.aligned a ha).2.2,
    hblock.encodes.plain, hb16⟩
  rw [mallocUsableSize_eq, hdata]
  omega

theorem valloc_booted (hr : Refines cfg main s status A idle) (hmay : MayCall main s status t)
    (hsize : size < 2 ^ 64) (hfits : Fits s.heapMaster (memalignRequest s.heapMaster.pageSize size))
    (h : valloc k t size s = .ok (some user, s')) :
    (0 < size → PageAligned cfg s' user size) ∧ mallocRequestSize s' (some user) = size := by
  have hpage := hr.blocks.page
  rw [valloc, hpage] at h
  rw [hpage] at hfits
  obtain ⟨A', idle', hr', _, _, b, n, origin, _, hlive, _⟩ :=
    hr.memalignNoStats hmay hsize cfg.pageSize_pow2 cfg.pageSize_lt (fun _ => hfits) h
  obtain ⟨huse, hrequest, halign, hplain, hb16⟩ := live_facts hr' (b := b) (by rw [hlive, Function.update_self])
  refine ⟨fun hpos => ⟨?_, huse⟩, hrequest⟩
  by_cases hsmall : cfg.pageSize ≤ libAlign ∨ size = 0
  · have hle := cfg.le_pageSize
    have h16 : cfg.pageSize = 16 := by
      rw [libAlign] at hsmall
      omega
    have huser : user = b + sizeofStorage := hplain (by dsimp only; rw [recordedAlignment, if_pos hsmall])
    rw [h16, huser, sizeofStorage]
    omega
  · refine halign cfg.pageSize ?_
    dsimp only
    rw [recordedAlignment, if_neg hsmall]
    rfl

/-- The first block of a new heap is at the start of a page. -/
theorem newHeap_block (hn : NewHeap s t) (hr : Refines cfg main s status A idle)
    (h : doMalloc k t size s = .ok (some user, s')) : ∃ a, cfg.pageSize ∣ a ∧ user = a + sizeofStorage := by
  obtain ⟨s₁, hboot, hcases⟩ := doMalloc_cases h
  obtain rfl : s₁ = s := Except.ok.inj (hboot.symm.trans (boot_idem hn.heapManager))
  rcases hcases with ⟨_, hnone, _⟩ | ⟨hsmall, block, s₂, huser, hblock, _⟩ | ⟨_, hmap⟩
  · cases hnone
  · refine ⟨block, ?_, Option.some.inj huser⟩
    have hupper := hr.blocks.crossover.upper
    have hlast : bucketSize (noBucketSizes - 1) = 67108880 := by decide
    have hi : selectBucket s₁.heapMaster.maxBucketsUsed ((size + sizeofStorage) % 2 ^ 64) < noBucketSizes :=
      selectBucket_lt hr.blocks.crossover (by rw [sizeofStorage]; omega)
    have hfree := hn.lists _ hi
    have hlow := le_bucketSize hi
    have hhigh := bucketSize_le_last hi
    rw [requestBucket] at hblock
    rcases allocateBlock_cases hblock with ⟨hne, _⟩ | ⟨_, hne, _⟩ | ⟨_, _, hfits, _⟩ | ⟨_, _, _, hext⟩
    · rw [hfree] at hne
      exact absurd rfl hne
    · rw [hfree] at hne
      exact absurd rfl hne
    · rw [hfree, hn.buffer, sub64_of_lt (by dsimp only; omega) (by dsimp only; omega), negative] at hfits
      dsimp only at hfits
      omega
    · rcases managerExtend_cases hext with ⟨hnone, _⟩ | ⟨a, s₃, ha, hmaster, _⟩
      · cases hnone
      · obtain rfl := Option.some.inj ha
        exact ((masterExtend_grown hmaster).2 block rfl).1.aligned
  · rcases mapLarge_cases hmap with ⟨hnone, _⟩ | ⟨a, huser, hfresh, _⟩
    · cases hnone
    · exact ⟨a, hfresh.aligned, Option.some.inj huser⟩

/-- Before boot `valloc` is `malloc`: behind a header at the start of a page. -/
theorem valloc_fresh (hw : Fresh w) (hsize : size < 2 ^ 64)
    (hfits : Fits (bootMaster cfg w.st) size) (h : valloc k main size w.st = .ok (some user, s')) :
    (PageAligned cfg s' user size ↔ cfg.pageSize = 16) ∧ mallocRequestSize s' (some user) = size := by
  have hplain : (0 : ℕ) ≤ libAlign ∨ size = 0 := .inl (Nat.zero_le _)
  rw [valloc, hw.pageSize, memalignNoStats, if_pos hplain] at h
  obtain ⟨s₁, hboot, hrun⟩ := first_run (c := .malloc size) hw.preboot rfl h
  obtain ⟨A, idle, hr, _⟩ := fresh_behind hw hboot
  obtain ⟨hnew, hparams⟩ := preboot_newHeap hw.preboot hboot
  rw [Preboot.bootMaster hw.preboot] at hfits
  have hmay : MayCall main s₁ w.status main := by
    refine Separation.mayCall_main ?_ hnew.heapManager
    rw [hw.alive]
    simp
  obtain ⟨A', idle', hr', _, _, b, n, origin, _, hlive, _⟩ :=
    hr.doMalloc hmay hsize (fun _ => hfits.congr hparams) hrun
  obtain ⟨huse, hrequest, _⟩ := live_facts hr' (b := b) (by rw [hlive, Function.update_self])
  obtain ⟨a, ha, rfl⟩ := newHeap_block hnew hr hrun
  refine ⟨⟨fun hpage => ?_, fun h16 => ⟨?_, huse⟩⟩, hrequest⟩
  · have hdvd := (Nat.dvd_add_right ha).mp hpage.page_dvd
    exact le_antisymm (Nat.le_of_dvd (by decide) hdvd) cfg.le_pageSize
  · rw [h16] at ha ⊢
    exact ha.add (dvd_refl 16)

theorem leastMultiple_ceiling (hroom : size + cfg.pageSize ≤ 2 ^ 64) :
    LeastMultiple cfg.pageSize size (ceiling size cfg.pageSize) := by
  have hpos := cfg.le_pageSize
  obtain ⟨hle, hlt⟩ := ceiling_bounds cfg.pageSize_pow2 hroom
  have hdvd : cfg.pageSize ∣ ceiling size cfg.pageSize :=
    ceiling_dvd (by omega) cfg.pageSize_pow2 cfg.pageSize_lt
  refine ⟨hdvd, hle, fun m hm hsize => ?_⟩
  by_contra hless
  have hgap := Nat.le_of_dvd (by omega) (Nat.dvd_sub hdvd hm)
  omega

theorem ceiling_zero (v : ℕ) : ceiling v 0 = 0 := by simp [ceiling, floor]

theorem mayCall_fresh (hw : Fresh w) (hmay : MayCall main w.st w.status t) : t = main := by
  refine hmay.started.resolve_left fun hflag => ?_
  rw [hw.preboot.bootFlag] at hflag
  cases hflag

theorem valloc_exact (hw : Fresh w ∨ Inv cfg main w) (hmay : MayCall main w.st w.status t)
    (hpos : 0 < size) (hsize : size < 2 ^ 64)
    (hfits : Fits (bootMaster cfg w.st) (memalignRequest w.st.heapMaster.pageSize size))
    (h : valloc k t size w.st = .ok (some user, s')) :
    PageAligned cfg s' user size ↔ w.st.heapMasterBootFlag ≠ 0 ∨ cfg.pageSize = 16 := by
  rcases hw with hfresh | hinv
  · obtain rfl := mayCall_fresh hfresh hmay
    rw [hfresh.pageSize, memalignRequest, if_pos (.inl (Nat.zero_le _))] at hfits
    rw [(valloc_fresh hfresh hsize hfits h).1, or_iff_right]
    exact fun hne => hne hfresh.preboot.bootFlag
  · have hbooted := inv_booted hinv
    rw [bootMaster_booted hbooted] at hfits
    obtain ⟨A, idle, hr, _⟩ := hinv
    exact iff_of_true ((valloc_booted hr hmay hsize hfits h).1 hpos) (.inl hbooted)

theorem pvalloc_exact (hw : Fresh w ∨ Inv cfg main w) (hmay : MayCall main w.st w.status t)
    (hpos : 0 < size) (hsize : size < 2 ^ 64)
    (hfits : Fits (bootMaster cfg w.st)
      (memalignRequest w.st.heapMaster.pageSize (ceiling size w.st.heapMaster.pageSize)))
    (h : pvalloc k t size w.st = .ok (some user, s')) :
    PageRounded cfg s' user size ↔ w.st.heapMasterBootFlag ≠ 0 ∧ size + cfg.pageSize ≤ 2 ^ 64 := by
  have hzero : mallocRequestSize s' (some user) = 0 → ¬ PageRounded cfg s' user size := by
    intro hrecord hrounded
    have hle := hrounded.recorded.2.1
    rw [hrecord] at hle
    omega
  have hlt : ceiling size w.st.heapMaster.pageSize < 2 ^ 64 := Nat.mod_lt _ (by decide)
  rw [pvalloc] at h
  rcases hw with hfresh | hinv
  · obtain rfl := mayCall_fresh hfresh hmay
    rw [hfresh.pageSize, memalignRequest, if_pos (.inl (Nat.zero_le _))] at hfits
    rw [hfresh.pageSize] at h hlt
    have hrecord := (valloc_fresh hfresh hlt hfits h).2
    rw [ceiling_zero] at hrecord
    exact iff_of_false (hzero hrecord) fun hbooted => hbooted.1 hfresh.preboot.bootFlag
  · have hbooted := inv_booted hinv
    rw [bootMaster_booted hbooted] at hfits
    obtain ⟨A, idle, hr, _⟩ := hinv
    obtain ⟨haligned, hrecord⟩ := valloc_booted hr hmay hlt hfits h
    rw [hr.blocks.page] at haligned hrecord
    rcases Nat.lt_or_ge (2 ^ 64) (size + cfg.pageSize) with hwrap | hroom
    · rw [ceiling_wraps cfg.pageSize_pow2 cfg.pageSize_lt hsize hwrap] at hrecord
      exact iff_of_false (hzero hrecord) fun hok => by have := hok.2; omega
    · have hleast := leastMultiple_ceiling hroom
      obtain ⟨hdvd, huse⟩ := haligned (hpos.trans_le hleast.2.1)
      refine iff_of_true ⟨⟨hdvd, hleast.2.1.trans huse⟩, ?_⟩ ⟨hbooted, hroom⟩
      rw [hrecord]
      exact hleast

/-! ### `mallopt` -/

theorem mallopt_booted (hpage : s.heapMaster.pageSize = cfg.pageSize)
    (hbooted : s.heapMasterBootFlag ≠ 0) (hok : Acceptable cfg option value) :
    ∃ s', mallopt option value s = .ok (1, s') ∧ InForce cfg option value (bootMaster cfg s') := by
  obtain ⟨hpos, _, ⟨rfl, hmin⟩ | ⟨rfl, hlow, hhigh⟩⟩ := hok
  · rw [mallopt, if_neg (not_lt.mpr hpos), if_pos rfl]
    dsimp only
    rw [hpage, if_pos hmin]
    refine ⟨_, rfl, ?_⟩
    rw [bootMaster, if_neg hbooted]
    exact ⟨fun _ => rfl, fun h => absurd h (by decide)⟩
  · have hrange : ¬ (value.toNat < s.heapMaster.pageSize ∨ bucketSize (noBucketSizes - 1) < value.toNat) := by
      rw [hpage]
      omega
    rw [mallopt, if_neg (not_lt.mpr hpos), if_neg (by simp), if_pos rfl, setMmapStart, if_neg hrange]
    refine ⟨_, rfl, ?_⟩
    rw [bootMaster, if_neg hbooted]
    exact ⟨fun h => absurd h (by decide), fun _ => ⟨rfl, rfl⟩⟩

theorem mallopt_fresh (hw : Fresh w) (hok : Acceptable cfg option value) :
    (∃ s', mallopt option value w.st = .ok (1, s') ∧ InForce cfg option value (bootMaster cfg s')) ↔
      option = mMmapThreshold ∧ value.toNat = cfg.mallocMmapStart := by
  obtain ⟨hpos, _, hok⟩ := hok
  constructor
  · rintro ⟨s', hopt, hforce⟩
    rcases mallopt_cases hopt with ⟨hcode, _⟩ | ⟨_, _, _, hmin, _⟩ | ⟨_, hoption, _, _, rfl⟩
    · cases hcode
    · rw [hw.pageSize, ceiling_zero] at hmin
      omega
    · refine ⟨hoption, ?_⟩
      have hstart := (hforce.2 hoption).1
      rw [bootMaster, if_pos hw.preboot.bootFlag] at hstart
      exact hstart.symm
  · rintro ⟨rfl, hvalue⟩
    have hhigh : value.toNat ≤ bucketSize (noBucketSizes - 1) := by
      rcases hok with ⟨h, _⟩ | ⟨_, _, hhigh⟩
      · cases h
      · exact hhigh
    have hrange : ¬ (value.toNat < w.st.heapMaster.pageSize ∨
        bucketSize (noBucketSizes - 1) < value.toNat) := by
      rw [hw.pageSize]
      omega
    rw [mallopt, if_neg (not_lt.mpr hpos), if_neg (by simp), if_pos rfl, setMmapStart, if_neg hrange]
    refine ⟨_, rfl, ⟨fun h => absurd h (by decide), fun _ => ?_⟩⟩
    rw [bootMaster, if_pos hw.preboot.bootFlag, hvalue]
    exact ⟨rfl, rfl⟩

/-- In every reachable state, before boot or after it: the calls that read the configuration do what they should if and only if the heap is booted, or the configuration before boot happens to be right for them. -/
theorem first_call_exact (h : (system cfg main).Reachable w) :
    (∀ (k : Kernel cfg) t size user s', MayCall main w.st w.status t → 0 < size → size < 2 ^ 64 →
      Fits (bootMaster cfg w.st) (memalignRequest w.st.heapMaster.pageSize size) →
      valloc k t size w.st = .ok (some user, s') →
      (PageAligned cfg s' user size ↔ w.st.heapMasterBootFlag ≠ 0 ∨ cfg.pageSize = 16)) ∧
    (∀ (k : Kernel cfg) t size user s', MayCall main w.st w.status t → 0 < size → size < 2 ^ 64 →
      Fits (bootMaster cfg w.st)
        (memalignRequest w.st.heapMaster.pageSize (ceiling size w.st.heapMaster.pageSize)) →
      pvalloc k t size w.st = .ok (some user, s') →
      (PageRounded cfg s' user size ↔ w.st.heapMasterBootFlag ≠ 0 ∧ size + cfg.pageSize ≤ 2 ^ 64)) ∧
    ∀ option value, Acceptable cfg option value →
      ((∃ s', mallopt option value w.st = .ok (1, s') ∧ InForce cfg option value (bootMaster cfg s')) ↔
        w.st.heapMasterBootFlag ≠ 0 ∨ option = mMmapThreshold ∧ value.toNat = cfg.mallocMmapStart) := by
  have hw := reachable_fresh_or_inv h
  refine ⟨fun k t size user s' hmay hpos hsize hfits hrun => valloc_exact hw hmay hpos hsize hfits hrun,
    fun k t size user s' hmay hpos hsize hfits hrun => pvalloc_exact hw hmay hpos hsize hfits hrun,
    fun option value hok => ?_⟩
  rcases hw with hfresh | hinv
  · rw [mallopt_fresh hfresh hok, or_iff_right]
    exact fun hne => hne hfresh.preboot.bootFlag
  · have hbooted := inv_booted hinv
    obtain ⟨A, idle, hr, _⟩ := hinv
    exact iff_of_true (mallopt_booted hr.blocks.page hbooted hok) (.inl hbooted)

private def unbooted : World := ⟨State.unbooted, fun _ => .alive, ∅⟩

private theorem unbooted_reachable : (system defaultConfig 0).Reachable unbooted := .start rfl

private def started : World := ⟨startState defaultConfig (.above defaultConfig), fun _ => .alive, ∅⟩

/-- After start-up a threshold of 1 MiB is in force once it is accepted. -/
theorem first_call_exact_started : ∃ s', mallopt mMmapThreshold 1048576 started.st = .ok (1, s') ∧
    InForce defaultConfig mMmapThreshold 1048576 (bootMaster defaultConfig s') := by
  have hstep : (system defaultConfig 0).step unbooted (.later (.startup (.above defaultConfig))) started := by
    refine ⟨?_, startup_default, rfl, rfl⟩
    intro k t c hcall
    cases hcall
  have hok : Acceptable defaultConfig mMmapThreshold 1048576 :=
    ⟨by decide, by decide, .inr ⟨rfl, by decide, by decide⟩⟩
  have hflag : started.st.heapMasterBootFlag ≠ 0 := by decide
  exact ((first_call_exact (.next unbooted_reachable hstep)).2.2 _ _ hok).mpr (.inl hflag)

/-- `valloc(100)` as the first call returns an address 16 bytes into a page, and a threshold of 1 MiB that is accepted before boot is gone after it. -/
theorem first_call_unaligned :
    (¬ ∀ w, (system defaultConfig 0).Reachable w → ∀ (k : Kernel defaultConfig) t size user s',
      MayCall 0 w.st w.status t → 0 < size → valloc k t size w.st = .ok (some user, s') →
      PageAligned defaultConfig s' user size) ∧
    ¬ ∀ w, (system defaultConfig 0).Reachable w → ∀ option value, Acceptable defaultConfig option value →
      ∃ s', mallopt option value w.st = .ok (1, s') ∧
        InForce defaultConfig option value (bootMaster defaultConfig s') := by
  constructor
  · intro hall
    have hidem : ∀ s₁, bootHeapManager (.above defaultConfig) 0 State.unbooted = .ok s₁ →
        bootHeapManager (.above defaultConfig) 0 s₁ = .ok s₁ :=
      fun s₁ hboot => boot_idem (preboot_newHeap Separation.preboot_unbooted hboot).1.heapManager
    have hboot : bootHeapManager (.above defaultConfig) 0 State.unbooted =
        .ok (firstHeap defaultConfig (.above defaultConfig)) := heapManagerCtor_default
    have hrun : (doMalloc (.above defaultConfig) 0 100
        (firstHeap defaultConfig (.above defaultConfig))).isOk = true := by decide +kernel
    have hvalloc : valloc (.above defaultConfig) 0 100 State.unbooted =
        doMalloc (.above defaultConfig) 0 100 (firstHeap defaultConfig (.above defaultConfig)) :=
      valloc_boot hidem rfl hboot
    have hmay : MayCall 0 unbooted.st unbooted.status 0 :=
      ⟨by simp [unbooted], .inr rfl, by simp [unbooted, State.unbooted]⟩
    have h := hvalloc.trans (Result.eq_ok_pair hrun (d := (none, State.unbooted)) (a := some 134488080)
      (by decide +kernel))
    have hdvd := (hall unbooted unbooted_reachable _ 0 100 _ _ hmay (by decide) h).page_dvd
    revert hdvd
    decide
  · intro hall
    obtain ⟨s', hopt, hforce⟩ := hall unbooted unbooted_reachable mMmapThreshold 1048576
      ⟨by decide, by decide, .inr ⟨rfl, by decide, by decide⟩⟩
    rcases mallopt_cases hopt with ⟨hcode, _⟩ | ⟨_, hoption, _⟩ | ⟨_, _, _, _, rfl⟩
    · cases hcode
    · cases hoption
    · have hstart : defaultConfig.mallocMmapStart = 1048576 := (hforce.2 rfl).1
      revert hstart
      decide

end Llheap.FirstCall
