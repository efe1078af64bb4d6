import Llheap.Base.Failure
import Llheap.Proof.Separation

/-!
# What the system refuses

A refusal of `munmap`, `pthread_key_create` or `pthread_setspecific` is not reported to the program, it ends it. So a call does what it does on a system that refuses none of these, or it is aborted, and a run on any system is a run on that one.
-/

namespace Llheap

open Separation

variable [Os] {cfg : Config} {main : Tid} {k : Kernel cfg} {t : Tid} {s : State} {oaddr : Option ℕ}
  {u size alignment : ℕ} {registers : Prop}

/-- The system refuses to unmap storage with `errno` set to `e`. -/
def UnmapUngranted (e : ℕ) : Prop := ∃ ms base len, Os.munmap ms base len = some e

/-- The thread's next call registers its exit destructor. -/
def Registers (t : Tid) (s : State) : Prop := s.heapManager t = 1 ∧ s.heapMasterBootFlag = 2

/-- The refusals that end a call: for the block of an old address, and for a thread that gets its heap. -/
inductive Ungranted (t : Tid) (registers : Prop) (oaddr : Option ℕ) : Abort → Prop
  | munmap {u e : ℕ} : u ∈ oaddr → UnmapUngranted e → Ungranted t registers oaddr (.deallocate u e)
  | setspecific {e : ℕ} : registers → Os.refusesSetspecific t = true →
      Ungranted t registers oaddr (.setspecific e)

/-- The refusals that end `startup`. -/
inductive StartUngranted (t : Tid) : Abort → Prop
  | keyCreate {rc : ℕ} : Os.keyCreate = some rc → StartUngranted t (.keyCreate rc)
  | setspecific {e : ℕ} : Os.refusesSetspecific t = true → StartUngranted t (.setspecific e)

/-! ### Heaps -/

theorem setspecific_cut {P : Abort → Prop} (hP : Os.refusesSetspecific t = true → P (.setspecific (s.errno t))) :
    (@setspecific .granting t s).CutShort P (setspecific t s) := by
  rw [setspecific_granting, setspecific]
  split
  · next hrefused => exact .cut (hP hrefused)
  · exact .same

/-- The boot flag is the one of the call's start: only `heapMasterCtor` changes it, and to `1`. -/
theorem heapManagerCtor_cut (oaddr : Option ℕ) :
    (@heapManagerCtor cfg .granting k t s).CutShort (Ungranted t (s.heapMasterBootFlag = 2) oaddr)
      (heapManagerCtor k t s) := by
  have hrest : ∀ s₁ : State, (s₁.heapMasterBootFlag = 2 → s.heapMasterBootFlag = 2) →
      Except.CutShort (Ungranted t (s.heapMasterBootFlag = 2) oaddr)
        (getHeap k t s₁ >>= fun x =>
          if x.2.heapMasterBootFlag = 2 then
            @setspecific .granting t { x.2 with heapManager := Function.update x.2.heapManager t x.1 }
          else .ok { x.2 with heapManager := Function.update x.2.heapManager t x.1 })
        (getHeap k t s₁ >>= fun x =>
          if x.2.heapMasterBootFlag = 2 then
            setspecific t { x.2 with heapManager := Function.update x.2.heapManager t x.1 }
          else .ok { x.2 with heapManager := Function.update x.2.heapManager t x.1 }) := by
    intro s₁ hflag
    apply Except.CutShort.bind .same
    intro ⟨heap, s₂⟩ hget
    have hkept : s₂.heapMasterBootFlag = s₁.heapMasterBootFlag := by
      rcases getHeap_cases hget with ⟨_, _, rfl⟩ | ⟨_, _, _, _, rfl⟩ | ⟨_, _, _, _, _, rfl⟩ <;> rfl
    apply Except.CutShort.ite
    · intro htwo
      exact setspecific_cut (.setspecific (hflag (hkept ▸ htwo)))
    · intro _
      exact .same
  unfold heapManagerCtor
  apply Except.CutShort.ite
  · intro hzero
    apply Except.CutShort.bind .same
    intro s₁ hctor
    obtain ⟨_, _, rfl⟩ := heapMasterCtor_ok hctor
    exact hrest _ fun htwo => absurd (show 1 = 2 from htwo) (by decide)
  · intro _
    exact hrest s id

/-- Boot if nothing has been booted yet, then the key and its value for the program's thread. -/
theorem startup_bind : startup k t s =
    (if s.heapMasterBootFlag = 0 then heapManagerCtor k t s else .ok s) >>= fun s =>
      if s.heapMasterBootFlag ≠ 1 then .error .alwaysAssert
      else Os.keyCreate.elim (setspecific t s >>= fun s => .ok { s with heapMasterBootFlag := 2 })
        fun rc => .error (.keyCreate rc) := by
  unfold startup
  cases Os.keyCreate with
  | some rc =>
    by_cases hzero : s.heapMasterBootFlag = 0
    · rw [if_pos hzero, if_pos hzero]
      rfl
    · rw [if_neg hzero, if_neg hzero]
      rfl
  | none =>
    by_cases hzero : s.heapMasterBootFlag = 0
    · rw [if_pos hzero, if_pos hzero]
      rfl
    · rw [if_neg hzero, if_neg hzero]
      rfl

theorem startup_cut :
    (@startup cfg .granting k t s).CutShort (StartUngranted t) (startup k t s) := by
  rw [startup_granting, startup_bind]
  apply Except.CutShort.bind
  · apply Except.CutShort.ite
    · intro _
      apply (heapManagerCtor_cut none).imp
      intro e he
      cases he with
      | munmap hu _ => exact absurd hu (Option.not_mem_none _)
      | setspecific _ hrefused => exact .setspecific hrefused
    · intro _
      exact .same
  · intro s₁ _
    apply Except.CutShort.ite
    · intro _
      exact .same
    · intro _
      cases hcreate : Os.keyCreate with
      | some rc => exact .cut (.keyCreate hcreate)
      | none =>
        rw [Option.elim_none, setspecific]
        split
        · next hrefused => exact .cut (.setspecific hrefused)
        · exact .same

theorem bootHeapManager_cut :
    (@bootHeapManager cfg .granting k t s).CutShort (Ungranted t (Registers t s) oaddr) (bootHeapManager k t s) := by
  apply Except.CutShort.ite
  · intro hnew
    apply (heapManagerCtor_cut oaddr).imp
    intro e he
    cases he with
    | munmap hu he => exact .munmap hu he
    | setspecific htwo hrefused => exact .setspecific ⟨hnew, htwo⟩ hrefused
  · intro _
    exact .same

theorem doMalloc_cut :
    (@doMalloc cfg .granting k t size s).CutShort (Ungranted t (Registers t s) oaddr) (doMalloc k t size s) := by
  apply Except.CutShort.bind bootHeapManager_cut
  intro s₁ _
  exact .same

theorem memalignNoStats_cut :
    (@memalignNoStats cfg .granting k t alignment size s).CutShort (Ungranted t (Registers t s) oaddr)
      (memalignNoStats k t alignment size s) := by
  apply Except.CutShort.ite
  · intro _
    exact doMalloc_cut
  · intro _
    apply Except.CutShort.bind doMalloc_cut
    intro x _
    exact .same

/-! ### Old addresses -/

theorem doFree_cut {P : Abort → Prop}
    (hP : ∀ e, (headers s u).mapped = true →
      Os.munmap s.mappings (headers s u).header (headers s u).size = some e → P (.deallocate u e)) :
    (@doFree .granting t u s).CutShort P (doFree t u s) := by
  apply Except.CutShort.ite
  · intro _
    exact .same
  intro hmapped
  rw [unmapBlock_granting, unmapBlock]
  apply Except.CutShort.ite
  · intro _
    split
    · next e he => exact .cut (hP e (not_not.mp hmapped) he)
    · exact .same
  · intro _
    exact .same

theorem doFree_ungranted (hu : u ∈ oaddr) :
    (@doFree .granting t u s).CutShort (Ungranted t registers oaddr) (doFree t u s) :=
  doFree_cut fun _ _ he => .munmap hu ⟨_, _, _, he⟩

/-- Freeing the old address does not give the thread a heap. -/
theorem freeThen_cut {f g : State → Result (Option ℕ × State)} (hu : u ∈ oaddr)
    (hfg : ∀ s₁, Registers t s₁ = Registers t s → (g s₁).CutShort (Ungranted t (Registers t s) oaddr) (f s₁)) :
    (@doFree .granting t u s >>= g).CutShort (Ungranted t (Registers t s) oaddr) (doFree t u s >>= f) := by
  apply Except.CutShort.bind (doFree_ungranted hu)
  intro s₁ hfree
  apply hfg
  rcases doFree_cases hfree with ⟨_, rfl⟩ | ⟨_, _, _, rfl⟩ <;> rfl

theorem moveContents_cut {naddr osize nsize : ℕ} {ozfill : Bool} (hu : u ∈ oaddr) :
    (@moveContents .granting t u naddr osize nsize ozfill s).CutShort (Ungranted t registers oaddr)
      (moveContents t u naddr osize nsize ozfill s) := by
  apply Except.CutShort.bind (doFree_ungranted hu)
  intro s₁ _
  exact .same

theorem thenMove_cut {x y : Result (Option ℕ × State)} {osize nsize : ℕ} {ozfill : Bool}
    (hxy : y.CutShort (Ungranted t registers oaddr) x) (hu : u ∈ oaddr) :
    (y >>= fun r =>
      match r with
      | (none, s) => .ok (none, s)
      | (some naddr, s) => do
        let s ← @moveContents .granting t u naddr osize nsize ozfill s
        .ok (some naddr, s) : Result (Option ℕ × State)).CutShort (Ungranted t registers oaddr)
      (x >>= fun r =>
      match r with
      | (none, s) => .ok (none, s)
      | (some naddr, s) => do
        let s ← moveContents t u naddr osize nsize ozfill s
        .ok (some naddr, s) : Result (Option ℕ × State)) := by
  apply hxy.bind
  intro ⟨r, s₁⟩ _
  cases r with
  | none => exact .same
  | some naddr =>
    apply Except.CutShort.bind (moveContents_cut hu)
    intro s₂ _
    exact .same

theorem resize_cut :
    (@resize cfg .granting k t oaddr size s).CutShort (Ungranted t (Registers t s) oaddr) (resize k t oaddr size s) := by
  cases oaddr with
  | none => exact doMalloc_cut
  | some u =>
    apply Except.CutShort.ite
    · intro _
      apply freeThen_cut rfl
      intro s₁ _
      exact .same
    intro _
    apply Except.CutShort.ite
    · intro _
      exact .same
    · intro _
      apply freeThen_cut rfl
      intro s₁ hsame
      exact hsame ▸ doMalloc_cut

theorem realloc_cut :
    (@realloc cfg .granting k t oaddr size s).CutShort (Ungranted t (Registers t s) oaddr) (realloc k t oaddr size s) := by
  cases oaddr with
  | none => exact doMalloc_cut
  | some u =>
    apply Except.CutShort.ite
    · intro _
      apply freeThen_cut rfl
      intro s₁ _
      exact .same
    intro _
    apply Except.CutShort.ite
    · intro _
      exact .same
    intro _
    apply Except.CutShort.ite
    · intro _
      exact thenMove_cut doMalloc_cut rfl
    · intro _
      exact thenMove_cut memalignNoStats_cut rfl

theorem alignedResizeMove_cut (hu : u ∈ oaddr) :
    (@alignedResizeMove cfg .granting k t u alignment size s).CutShort (Ungranted t (Registers t s) oaddr)
      (alignedResizeMove k t u alignment size s) := by
  apply freeThen_cut hu
  intro s₁ hsame
  exact hsame ▸ memalignNoStats_cut

theorem alignedResize_cut :
    (@alignedResize cfg .granting k t oaddr alignment size s).CutShort (Ungranted t (Registers t s) oaddr)
      (alignedResize k t oaddr alignment size s) := by
  cases oaddr with
  | none => exact memalignNoStats_cut
  | some u =>
    have hsame : Registers t (updateAlignment u (max alignment libAlign) s) = Registers t s := rfl
    unfold alignedResize
    dsimp only
    apply Except.CutShort.ite
    · intro _
      apply freeThen_cut rfl
      intro s₁ _
      exact .same
    intro _
    apply Except.CutShort.ite
    · intro _
      apply Except.CutShort.ite
      · intro _
        apply Except.CutShort.ite
        · intro _
          exact .same
        · intro _
          rw [← hsame]
          exact alignedResizeMove_cut rfl
      · intro _
        exact alignedResizeMove_cut rfl
    intro _
    apply Except.CutShort.ite
    · intro _
      exact resize_cut
    · intro _
      exact alignedResizeMove_cut rfl

theorem alignedReallocMove_cut (hu : u ∈ oaddr) :
    (@alignedReallocMove cfg .granting k t u alignment size s).CutShort (Ungranted t (Registers t s) oaddr)
      (alignedReallocMove k t u alignment size s) :=
  thenMove_cut memalignNoStats_cut hu

theorem alignedRealloc_cut :
    (@alignedRealloc cfg .granting k t oaddr alignment size s).CutShort (Ungranted t (Registers t s) oaddr)
      (alignedRealloc k t oaddr alignment size s) := by
  cases oaddr with
  | none => exact memalignNoStats_cut
  | some u =>
    have hsame : Registers t (updateAlignment u (max alignment libAlign) s) = Registers t s := rfl
    unfold alignedRealloc
    dsimp only
    apply Except.CutShort.ite
    · intro _
      apply freeThen_cut rfl
      intro s₁ _
      exact .same
    intro _
    apply Except.CutShort.ite
    · intro _
      apply Except.CutShort.ite
      · intro _
        rw [← hsame]
        exact realloc_cut
      · intro _
        exact alignedReallocMove_cut rfl
    intro _
    apply Except.CutShort.ite
    · intro _
      exact realloc_cut
    · intro _
      exact alignedReallocMove_cut rfl

theorem call_cut (c : Call) :
    (@Call.run cfg .granting k t c s).CutShort (Ungranted t (Registers t s) c.oaddr) (c.run k t s) := by
  cases c with
  | malloc size => exact doMalloc_cut
  | calloc dimension elemSize =>
    apply Except.CutShort.bind doMalloc_cut
    intro x _
    exact .same
  | memalign alignment size => exact memalignNoStats_cut
  | cmemalign alignment dimension elemSize =>
    apply Except.CutShort.bind memalignNoStats_cut
    intro x _
    exact .same
  | resize oaddr size => exact resize_cut
  | realloc oaddr size => exact realloc_cut
  | alignedResize oaddr alignment size => exact alignedResize_cut
  | alignedRealloc oaddr alignment size => exact alignedRealloc_cut

theorem free_cut {P : Abort → Prop} (oaddr : Option ℕ)
    (hP : ∀ u e, oaddr = some u → (headers s u).mapped = true →
      Os.munmap s.mappings (headers s u).header (headers s u).size = some e → P (.deallocate u e)) :
    (@Llheap.free .granting t oaddr s).CutShort P (Llheap.free t oaddr s) := by
  cases oaddr with
  | none => exact .same
  | some u => exact doFree_cut fun e => hP u e rfl

/-! ### Runs -/

variable {w w' : World}

/-- What a step does on some system, it does on the one that refuses nothing. -/
theorem Separation.Step.granted {lab : Label cfg} (h : Step main w lab w') : @Step cfg .granting main w lab w' := by
  cases lab with
  | call k t c =>
    obtain ⟨hok, r, hrun, hlive, hstatus⟩ := h
    exact ⟨hok, r, (call_cut c).eq_ok hrun, hlive, hstatus⟩
  | free t addr =>
    obtain ⟨hold, hfree, hrest⟩ := h
    have hcut : (@Llheap.free .granting t addr w.st).CutShort (fun _ => True) (Llheap.free t addr w.st) :=
      free_cut addr fun _ _ _ _ _ => trivial
    exact ⟨hold, hcut.eq_ok hfree, hrest⟩
  | startup k =>
    obtain ⟨hstart, hrest⟩ := h
    exact ⟨startup_cut.eq_ok hstart, hrest⟩
  | usableSize addr | write addr offset byte | setErrno t e | mallopt option value | dtor t | terminate t => exact h

theorem Separation.reachable_granted (h : (system cfg main).Reachable w) :
    (@system .granting cfg main).Reachable w := by
  induction h with
  | start hinit =>
    obtain ⟨⟨k, hctor⟩, hrest⟩ := hinit
    exact .start ⟨⟨k, (heapManagerCtor_cut none).eq_ok hctor⟩, hrest⟩
  | next _ hs ih => exact .next ih hs.granted

end Llheap
