import Llheap.Proof.Granted

/-!
# Aborts

Where a program that keeps to the rules can be aborted. A live address is always looked up and copied without an abort, and freed unless the system refuses to unmap its block; what is left are the refusals of the kernel and the system that the source does not report to its caller, and two assertions on the program's parameters.
-/

namespace Llheap

open Separation

variable {cfg : Config} {main : Tid} {k : Kernel cfg} {t : Tid} {s s' s₁ : State} {r : Option ℕ}
  {status : Tid → Status} {A A₁ : Arena Tag} {idle idle₁ : List ℕ} {b b' size alignment hint len e u : ℕ}
  {l l' : Live} {w : World} {noHeap : Prop}

/-- The kernel refuses to map storage with `errno` set to `e`. -/
def KernelRefuses (k : Kernel cfg) (e : ℕ) : Prop := ∃ ms hint len, k.mmap ms hint len = .error e

/-- The thread's next call has to create a heap for it. -/
def NeedsHeap (t : Tid) (s : State) : Prop :=
  s.heapManager t = 1 ∧ s.heapMaster.freeHeapManagersList = 0

/-- The refusals that abort: of a new superblock always, of other storage unless memory is all that lacks. -/
inductive Unreported (k : Kernel cfg) (needsHeap : Prop) : Abort → Prop
  | noMemory : needsHeap → KernelRefuses k ENOMEM → Unreported k needsHeap (.noMemory (superblockSize cfg))
  | heapBlock {e : ℕ} : needsHeap → KernelRefuses k e → e ≠ ENOMEM →
      Unreported k needsHeap (.heapBlock (superblockSize cfg) e)
  | largeObject {size e : ℕ} : KernelRefuses k e → e ≠ ENOMEM → Unreported k needsHeap (.largeObject size e)

theorem mmap_refuses {prot : Prot} (h : s.mmap k t hint len prot = (.error e, s')) : KernelRefuses k e := by
  unfold State.mmap at h
  split at h
  · next e' hk =>
    cases h
    exact ⟨_, _, _, hk⟩
  · cases h

/-! ### Storage -/

theorem mmapCheck_fails (he : KernelRefuses k e) : (mmapCheck size e s).FailsWith (Unreported k noHeap) := by
  unfold mmapCheck
  split
  · exact Except.failsWith_ok _
  · next hne => exact Except.failsWith_error (.largeObject he hne)

theorem extendBlock_fails {rem : ℕ} : (extendBlock k t size rem s).FailsWith (Unreported k noHeap) := by
  unfold extendBlock
  split
  · next e s₁ h => exact mmapCheck_fails (mmap_refuses h)
  · exact Except.failsWith_ok _

theorem masterExtend_fails : (masterExtend k t size s).FailsWith (Unreported k noHeap) := by
  unfold masterExtend
  dsimp only
  split
  · split
    · next e s₁ h => exact mmapCheck_fails (mmap_refuses h)
    · exact extendBlock_fails
  · exact extendBlock_fails

theorem managerExtend_fails : (managerExtend k t size s).FailsWith (Unreported k noHeap) := by
  apply Except.FailsWith.bind masterExtend_fails
  intro ⟨r, s₁⟩ _
  cases r <;> exact Except.failsWith_ok _

theorem allocateBlock_fails {f : ℕ} : (allocateBlock k t f s).FailsWith (Unreported k noHeap) := by
  unfold allocateBlock
  dsimp only
  split
  · exact Except.failsWith_ok _
  split
  · exact Except.failsWith_ok _
  split
  · exact Except.failsWith_ok _
  · exact managerExtend_fails

theorem mapLarge_fails : (mapLarge k t size s).FailsWith (Unreported k noHeap) := by
  unfold mapLarge
  dsimp only
  split
  · next e s₁ h =>
    split
    · exact Except.failsWith_ok _
    · next hne => exact Except.failsWith_error (.largeObject (mmap_refuses h) hne)
  · exact Except.failsWith_ok _

/-! ### Heaps -/

theorem getHeap_fails (hheap : s.heapManager t = 1) :
    (getHeap k t s).FailsWith (Unreported k (NeedsHeap t s)) := by
  unfold getHeap
  split
  · exact Except.failsWith_ok _
  · next hnone =>
    have hneeds : NeedsHeap t s := ⟨hheap, not_not.mp hnone⟩
    apply Except.FailsWith.bind
    · unfold extendHeaps
      split
      · split
        · next e s₁ h =>
          have he := mmap_refuses h
          split
          · next hmem => exact Except.failsWith_error (.noMemory hneeds (hmem ▸ he))
          · next hmem => exact Except.failsWith_error (.heapBlock hneeds he hmem)
        · exact Except.failsWith_ok _
      · exact Except.failsWith_ok _
    · intro s₁ _
      exact Except.failsWith_ok _

theorem bootHeapManager_fails (hbooted : s.heapMasterBootFlag ≠ 0) :
    (bootHeapManager k t s).FailsWith (Unreported k (NeedsHeap t s)) := by
  unfold bootHeapManager
  split
  · next hheap =>
    rw [heapManagerCtor_granting, if_neg hbooted]
    apply Except.FailsWith.bind_of_ok rfl
    apply Except.FailsWith.bind (getHeap_fails hheap)
    intro x _
    exact Except.failsWith_ok _
  · exact Except.failsWith_ok _

theorem doMalloc_fails (hbooted : s.heapMasterBootFlag ≠ 0) :
    (doMalloc k t size s).FailsWith (Unreported k (NeedsHeap t s)) := by
  apply Except.FailsWith.bind (bootHeapManager_fails hbooted)
  intro s₁ _
  dsimp only
  split
  · apply Except.FailsWith.bind allocateBlock_fails
    intro ⟨r, s₂⟩ _
    cases r <;> exact Except.failsWith_ok _
  · exact mapLarge_fails

theorem memalignNoStats_fails (hbooted : s.heapMasterBootFlag ≠ 0) :
    (memalignNoStats k t alignment size s).FailsWith (Unreported k (NeedsHeap t s)) := by
  unfold memalignNoStats
  split
  · exact doMalloc_fails hbooted
  · apply Except.FailsWith.bind (doMalloc_fails hbooted)
    intro ⟨r, s₁⟩ _
    cases r <;> exact Except.failsWith_ok _

/-! ### Old addresses -/

/-- Freeing the old address is not where a routine fails. -/
theorem Refines.freeThen_fails {f : State → Result (Option ℕ × State)} (hr : Refines cfg main s status A idle)
    (hu : u ∈ users (liveAt A))
    (hf : ∀ s₁ A₁, Refines cfg main s₁ status A₁ idle → NeedsHeap t s₁ = NeedsHeap t s →
      (f s₁).FailsWith (Unreported k (NeedsHeap t s))) :
    (Llheap.doFree t u s >>= f).FailsWith (Unreported k (NeedsHeap t s)) := by
  obtain ⟨b, l, hb, rfl⟩ := hu
  obtain ⟨s₁, A₁, hfree, hr₁, _, _, hcontrol, _⟩ := hr.doFree hb t
  apply Except.FailsWith.bind_of_ok hfree
  apply hf s₁ A₁ hr₁
  rw [NeedsHeap, NeedsHeap, hcontrol.heapManager, hcontrol.heapMaster]

theorem Refines.moveContents_ok {z : Bool} (hr : Refines cfg main s status A idle) (hb : liveAt A b = some l)
    (hb' : liveAt A b' = some l') :
    ∃ s', Llheap.moveContents t l.user l'.user l.view.size l'.view.size z s = .ok s' := by
  obtain ⟨_, hafter, hroom, _⟩ := hr.dataSize hb'
  have hcopy : ∀ x, x < l'.user ∨ b' + l'.len ≤ x →
      (s.mem.copy l'.user l.user (min l.view.size l'.view.size)) x = s.mem x :=
    fun x hx => Memory.copy_apply_of_outside (by omega)
  obtain ⟨A₁, hr₁, hlive₁, _⟩ := hr.writeContents hb' hcopy
  obtain ⟨s₂, _, hfree, _⟩ := hr₁.doFree (hlive₁ ▸ hb) t
  unfold Llheap.moveContents
  dsimp only
  rw [hfree]
  cases z <;> exact ⟨_, rfl⟩

theorem Refines.memalignThenMove_fails (hr : Refines cfg main s status A idle) (hmay : MayCall main s status t)
    (hb : liveAt A b = some l) (hsize : size < 2 ^ 64) (hpow : alignment.isPowerOfTwo) (halign : alignment < 2 ^ 64)
    (hfits : Fits s.heapMaster (memalignRequest alignment size)) :
    (Llheap.memalignNoStats k t alignment size s >>= fun x =>
      match x with
      | (none, s) => .ok (none, s)
      | (some naddr, s) => do
        let s ← Llheap.moveContents t l.user naddr l.view.size size l.view.zeroFill s
        .ok (some naddr, s) : Result (Option ℕ × State)).FailsWith (Unreported k (NeedsHeap t s)) := by
  apply Except.FailsWith.bind (memalignNoStats_fails hr.booted)
  intro ⟨r, s₁⟩ hm
  obtain ⟨A₁, idle₁, hr₁, _, _, hout⟩ := hr.memalignNoStats hmay hsize hpow halign (fun _ => hfits) hm
  cases r with
  | none => exact Except.failsWith_ok _
  | some naddr =>
    obtain ⟨b', n, origin, hnone, hlive₁, _⟩ := hout
    have hne : b' ≠ b := by
      intro heq
      rw [heq, hb] at hnone
      cases hnone
    have hb₁ : liveAt A₁ b = some l := by rw [hlive₁, Function.update_of_ne hne.symm, hb]
    have hb' := (congrFun hlive₁ b').trans (Function.update_self ..)
    obtain ⟨s₂, hmove⟩ := hr₁.moveContents_ok (t := t) (z := l.view.zeroFill) hb₁ hb'
    apply Except.FailsWith.bind_of_ok hmove
    exact Except.failsWith_ok _

theorem Refines.realloc_fails (hr : Refines cfg main s status A idle) (hmay : MayCall main s status t)
    (hu : u ∈ users (liveAt A)) (hsize : size < 2 ^ 64)
    (hfits : ∀ n ∈ reallocRequest s u size, Fits s.heapMaster n) :
    (Llheap.realloc k t (some u) size s).FailsWith (Unreported k (NeedsHeap t s)) := by
  obtain ⟨b, l, hb, rfl⟩ := hu
  obtain ⟨hblock, _⟩ := hr.liveBlock hb
  obtain ⟨hpow, _, halign, _⟩ := hr.alignment_bounds hb
  unfold reallocRequest at hfits
  unfold Llheap.realloc
  dsimp only at hfits ⊢
  split
  · apply hr.freeThen_fails ⟨b, l, hb, rfl⟩
    intro s₁ _ _ _
    exact Except.failsWith_ok _
  · next hne =>
    split
    · exact Except.failsWith_ok _
    · next hreuse =>
      rw [if_neg (not_or.mpr ⟨hne, hreuse⟩)] at hfits
      have hfit := hfits _ rfl
      rw [hr.headers hb] at hfit ⊢
      dsimp only at hfit ⊢
      rw [hblock.encodes.size, hblock.zeroFillBit]
      have hmove := hr.memalignThenMove_fails (k := k) hmay hb hsize hpow halign hfit
      split
      · next hsmall =>
        rw [Llheap.memalignNoStats, if_pos (.inl hsmall)] at hmove
        exact hmove
      · exact hmove

theorem Refines.alignedReallocMove_fails (hr : Refines cfg main s status A idle) (hmay : MayCall main s status t)
    (hu : u ∈ users (liveAt A)) (hsize : size < 2 ^ 64) (hpow : alignment.isPowerOfTwo) (halign : alignment < 2 ^ 64)
    (hfits : Fits s.heapMaster (memalignRequest alignment size)) :
    (Llheap.alignedReallocMove k t u alignment size s).FailsWith (Unreported k (NeedsHeap t s)) := by
  obtain ⟨b, l, hb, rfl⟩ := hu
  obtain ⟨hblock, _⟩ := hr.liveBlock hb
  unfold Llheap.alignedReallocMove
  dsimp only
  rw [hr.headers hb]
  dsimp only
  rw [hblock.encodes.size, hblock.zeroFillBit]
  exact hr.memalignThenMove_fails hmay hb hsize hpow halign hfits

theorem Refines.alignedRealloc_fails (hr : Refines cfg main s status A idle) (hmay : MayCall main s status t)
    (hu : u ∈ users (liveAt A)) (hsize : size < 2 ^ 64) (hpow : alignment.isPowerOfTwo) (halign : alignment < 2 ^ 64)
    (hfits : ∀ n ∈ alignedReallocRequest s u alignment size, Fits s.heapMaster n) :
    (Llheap.alignedRealloc k t (some u) alignment size s).FailsWith (Unreported k (NeedsHeap t s)) := by
  obtain ⟨b, l, hb, rfl⟩ := hu
  obtain ⟨hblock, _⟩ := hr.liveBlock hb
  obtain ⟨hbit, hclear⟩ := hblock.encodes.fakeWord hblock.taggable
  have hmaxpow := max_libAlign_pow hpow
  have hmaxlt : max alignment libAlign < 2 ^ 64 := max_lt halign (by decide)
  unfold alignedReallocRequest at hfits
  unfold Llheap.alignedRealloc
  dsimp only at hfits ⊢
  split
  · apply hr.freeThen_fails ⟨b, l, hb, rfl⟩
    intro s₁ _ _ _
    exact Except.failsWith_ok _
  · next hne =>
    rw [if_neg hne] at hfits
    cases hal : l.view.alignment with
    | none =>
      have hplain := not_not.mpr (hbit.mpr hal)
      rw [if_neg hplain] at hfits ⊢
      split
      · next hsame =>
        rw [if_pos hsame] at hfits
        exact hr.realloc_fails hmay ⟨b, l, hb, rfl⟩ hsize hfits
      · next hdiff =>
        rw [if_neg hdiff] at hfits
        exact hr.alignedReallocMove_fails hmay ⟨b, l, hb, rfl⟩ hsize hpow halign (hfits _ rfl)
    | some a =>
      have hfake : alignmentBit (s.mem.word (headerAddr l.user)) ≠ 0 := by
        rw [ne_eq, hbit, hal]
        simp
      rw [if_pos hfake, hclear a hal] at hfits ⊢
      split
      · next hlucky =>
        rw [if_pos hlucky] at hfits
        obtain ⟨A₁, hr₁, hlive₁, _⟩ := hr.updateAlignment hb hal hmaxpow (le_max_right _ _) hmaxlt
          (Nat.dvd_of_mod_eq_zero hlucky.1)
        have hb₁ := (congrFun hlive₁ b).trans (Function.update_self ..)
        exact hr₁.realloc_fails (hmay.congr ⟨rfl, rfl, rfl, rfl⟩) ⟨b, _, hb₁, rfl⟩ hsize hfits
      · next hmiss =>
        rw [if_neg hmiss] at hfits
        exact hr.alignedReallocMove_fails hmay ⟨b, l, hb, rfl⟩ hsize hmaxpow hmaxlt (hfits _ rfl)

theorem Refines.alignedResizeMove_fails (hr : Refines cfg main s status A idle) (hu : u ∈ users (liveAt A)) :
    (Llheap.alignedResizeMove k t u alignment size s).FailsWith (Unreported k (NeedsHeap t s)) := by
  apply hr.freeThen_fails hu
  intro s₁ A₁ hr₁ hsame
  exact hsame ▸ memalignNoStats_fails hr₁.booted

theorem Refines.resize_fails (hr : Refines cfg main s status A idle) (hu : u ∈ users (liveAt A)) :
    (Llheap.resize k t (some u) size s).FailsWith (Unreported k (NeedsHeap t s)) := by
  unfold Llheap.resize
  dsimp only
  split
  · apply hr.freeThen_fails hu
    intro s₁ _ _ _
    exact Except.failsWith_ok _
  split
  · exact Except.failsWith_ok _
  · apply hr.freeThen_fails hu
    intro s₁ A₁ hr₁ hsame
    exact hsame ▸ doMalloc_fails hr₁.booted

theorem Refines.alignedResize_fails (hr : Refines cfg main s status A idle) (hu : u ∈ users (liveAt A))
    (hpow : alignment.isPowerOfTwo) (halign : alignment < 2 ^ 64) :
    (Llheap.alignedResize k t (some u) alignment size s).FailsWith (Unreported k (NeedsHeap t s)) := by
  obtain ⟨b, l, hb, rfl⟩ := hu
  obtain ⟨hblock, _⟩ := hr.liveBlock hb
  obtain ⟨hbit, hclear⟩ := hblock.encodes.fakeWord hblock.taggable
  have hmaxpow := max_libAlign_pow hpow
  have hmaxlt : max alignment libAlign < 2 ^ 64 := max_lt halign (by decide)
  unfold Llheap.alignedResize
  dsimp only
  split
  · apply hr.freeThen_fails ⟨b, l, hb, rfl⟩
    intro s₁ _ _ _
    exact Except.failsWith_ok _
  cases hal : l.view.alignment with
  | none =>
    rw [if_neg (not_not.mpr (hbit.mpr hal))]
    split
    · exact hr.resize_fails ⟨b, l, hb, rfl⟩
    · exact hr.alignedResizeMove_fails ⟨b, l, hb, rfl⟩
  | some a =>
    have hfake : alignmentBit (s.mem.word (headerAddr l.user)) ≠ 0 := by
      rw [ne_eq, hbit, hal]
      simp
    rw [if_pos hfake, hclear a hal]
    split
    · next hlucky =>
      obtain ⟨A₁, hr₁, hlive₁, _⟩ := hr.updateAlignment hb hal hmaxpow (le_max_right _ _) hmaxlt
        (Nat.dvd_of_mod_eq_zero hlucky.1)
      have hb₁ := (congrFun hlive₁ b).trans (Function.update_self ..)
      split
      · exact Except.failsWith_ok _
      · exact hr₁.alignedResizeMove_fails ⟨b, _, hb₁, rfl⟩
    · exact hr.alignedResizeMove_fails ⟨b, l, hb, rfl⟩

/-- No call fails for any other reason than what the kernel has refused. -/
theorem Refines.call_fails {c : Call} (hr : Refines cfg main s status A idle) (hmay : MayCall main s status t)
    (hvalid : c.Valid) (hold : ∀ u ∈ c.oaddr, u ∈ users (liveAt A)) (hfits : ∀ n ∈ c.request s, Fits s.heapMaster n) :
    (c.run k t s).FailsWith (Unreported k (NeedsHeap t s)) := by
  have hmalloc : ∀ {size}, (Llheap.doMalloc k t size s).FailsWith (Unreported k (NeedsHeap t s)) :=
    doMalloc_fails hr.booted
  have hmemalign : ∀ {alignment size},
      (Llheap.memalignNoStats k t alignment size s).FailsWith (Unreported k (NeedsHeap t s)) :=
    memalignNoStats_fails hr.booted
  cases c with
  | malloc size => exact hmalloc
  | calloc dimension elemSize =>
    apply Except.FailsWith.bind hmalloc
    intro ⟨r, s₁⟩ _
    cases r <;> exact Except.failsWith_ok _
  | memalign alignment size => exact hmemalign
  | cmemalign alignment dimension elemSize =>
    apply Except.FailsWith.bind hmemalign
    intro ⟨r, s₁⟩ _
    cases r <;> exact Except.failsWith_ok _
  | resize oaddr size =>
    cases oaddr with
    | none => exact hmalloc
    | some u =>
      exact hr.resize_fails (hold u rfl)
  | realloc oaddr size =>
    cases oaddr with
    | none => exact hmalloc
    | some u =>
      exact hr.realloc_fails hmay (hold u rfl) hvalid hfits
  | alignedResize oaddr alignment size =>
    obtain ⟨_, hpow, halign⟩ := hvalid
    cases oaddr with
    | none => exact hmemalign
    | some u =>
      exact hr.alignedResize_fails (hold u rfl) hpow halign
  | alignedRealloc oaddr alignment size =>
    obtain ⟨hsize, hpow, halign⟩ := hvalid
    cases oaddr with
    | none => exact hmemalign
    | some u =>
      exact hr.alignedRealloc_fails hmay (hold u rfl) hsize hpow halign hfits

/-! ### Steps -/

/-- The state that a step computes. -/
def Separation.Label.outcome [Os] (main : Tid) (s : State) : Label cfg → Result State
  | .call k t c => (c.run k t s).map Prod.snd
  | .free t addr => Llheap.free t addr s
  | .mallopt option value => (Llheap.mallopt option value s).map Prod.snd
  | .startup k => Llheap.startup k main s
  | _ => .ok s

/-- A program calls and frees with live addresses. -/
def Separation.Label.Allowed (main : Tid) (w : World) : Label cfg → Prop
  | .call _ t c => CallOk main w t c
  | .free _ addr => ∀ u ∈ addr, u ∈ w.live
  | _ => True

/-- What a step is aborted for. -/
inductive AbortCause [Os] (main : Tid) (w : World) : Label cfg → Abort → Prop
  | unreported {k : Kernel cfg} {t : Tid} {c : Call} {a : Abort} : Unreported k (NeedsHeap t w.st) a →
      AbortCause main w (.call k t c) a
  | ungranted {k : Kernel cfg} {t : Tid} {c : Call} {a : Abort} : Ungranted t (Registers t w.st) c.oaddr a →
      AbortCause main w (.call k t c) a
  | deallocate {t : Tid} {u e : ℕ} : (headers w.st u).mapped = true →
      Os.munmap w.st.mappings (headers w.st u).header (headers w.st u).size = some e →
      AbortCause main w (.free t (some u)) (.deallocate u e)
  | topPad {value : ℤ} : 0 ≤ value → ceiling value.toNat w.st.heapMaster.pageSize < 256 * 1024 →
      AbortCause main w (.mallopt mTopPad value) .alwaysAssert
  | started {k : Kernel cfg} : w.st.heapMasterBootFlag ≠ 1 → AbortCause main w (.startup k) .alwaysAssert
  | startUngranted {k : Kernel cfg} {a : Abort} : StartUngranted main a → AbortCause main w (.startup k) a

theorem map_failsWith {α β : Type} {x : Result α} {f : α → β} {P : Abort → Prop} (h : x.FailsWith P) :
    Except.FailsWith (x.map f) P := by
  cases x with
  | error a => exact Except.failsWith_error (h.post a rfl)
  | ok a => exact Except.failsWith_ok _

theorem mallopt_fails [Os] {option value : ℤ} :
    (Llheap.mallopt option value w.st).FailsWith (AbortCause main w (.mallopt option value : Label cfg)) := by
  unfold Llheap.mallopt
  split
  · exact Except.failsWith_ok _
  split
  · next hneg hoption =>
    subst hoption
    dsimp only
    split
    · exact Except.failsWith_ok _
    · next hmin => exact Except.failsWith_error (.topPad (not_lt.mp hneg) (not_le.mp hmin))
  split
  · split <;> exact Except.failsWith_ok _
  · exact Except.failsWith_ok _

theorem startup_fails [Os] (hbooted : w.st.heapMasterBootFlag ≠ 0) :
    (@Llheap.startup cfg .granting k main w.st).FailsWith (AbortCause main w (.startup k)) := by
  rw [startup_granting, if_neg hbooted]
  apply Except.FailsWith.bind_of_ok rfl
  dsimp only
  split
  · next hstarted => exact Except.failsWith_error (.started hstarted)
  · exact Except.failsWith_ok _

/-- Nothing aborts a program that keeps to the rules but a refusal of the kernel or the system that no routine reports, a top pad that is too small, and starting twice. -/
theorem aborts_caused [Os] {lab : Label cfg} (hw : (system cfg main).Reachable w) (hok : lab.Allowed main w) :
    (lab.outcome main w.st).FailsWith (AbortCause main w lab) := by
  obtain ⟨A, idle, hr, hlive⟩ := reachable_inv (reachable_granted hw)
  cases lab with
  | call k t c =>
    obtain ⟨hmay, hvalid, hold, hfits⟩ := hok
    have hfails := hr.call_fails (k := k) hmay hvalid (hlive ▸ hold) hfits
    have hcut : (@Call.run cfg .granting k t c w.st).CutShort (AbortCause main w (.call k t c)) (c.run k t w.st) :=
      (call_cut c).imp fun _ => .ungranted
    exact map_failsWith (hcut.failsWith (hfails.imp fun _ => .unreported))
  | free t addr =>
    have hcut : (@Llheap.free .granting t addr w.st).CutShort (AbortCause main w (.free t addr : Label cfg))
        (Llheap.free t addr w.st) := by
      apply free_cut
      intro u e hu hmapped he
      subst hu
      exact .deallocate hmapped he
    apply hcut.failsWith
    cases addr with
    | none => exact Except.failsWith_ok _
    | some u =>
      obtain ⟨b, l, hb, rfl⟩ : u ∈ users (liveAt A) := hlive ▸ hok u rfl
      obtain ⟨s₁, _, hfree, _⟩ := hr.doFree hb t
      exact .of_eq_ok hfree
  | mallopt option value => exact map_failsWith mallopt_fails
  | startup k => exact (startup_cut.imp fun _ => .startUngranted).failsWith (startup_fails hr.booted)
  | usableSize addr | write addr offset byte | setErrno t e | dtor t | terminate t => exact Except.failsWith_ok _

/-- A system at its limit of mappings, where it takes memory to unmap storage. -/
@[reducible] def Os.exhausted : Os where
  munmap _ _ _ := some ENOMEM
  keyCreate := none
  refusesSetspecific _ := false

private def mappedWorld : World :=
  @World.call defaultConfig .exhausted World.booted (.above defaultConfig) 0 (.malloc 33554448)

theorem aborts_caused_free : ∃ w u, (@system .exhausted defaultConfig 0).Reachable w ∧ u ∈ w.live ∧
    @Label.outcome defaultConfig .exhausted 0 w.st (.free 0 (some u)) = .error (.deallocate u ENOMEM) ∧
    @AbortCause defaultConfig .exhausted 0 w (.free 0 (some u)) (.deallocate u ENOMEM) := by
  let _ : Os := .exhausted
  have hvalid : (Call.malloc 33554448).Valid := (by decide : 33554448 < 2 ^ 64)
  have hw : (system defaultConfig 0).Reachable mappedWorld :=
    .next World.booted_reachable (World.booted_call hvalid rfl (by decide +kernel) (by decide +kernel))
  have hlive : 270352 ∈ mappedWorld.live := by
    refine .inl ?_
    decide +kernel
  have hok : (Label.free 0 (some 270352) : Label defaultConfig).Allowed 0 mappedWorld := by
    intro u hu
    cases hu
    exact hlive
  have herror : (Label.free 0 (some 270352) : Label defaultConfig).outcome 0 mappedWorld.st =
      .error (.deallocate 270352 ENOMEM) := Result.eq_error (by decide +kernel)
  exact ⟨mappedWorld, 270352, hw, hlive, herror, (aborts_caused hw hok).post _ herror⟩

end Llheap
