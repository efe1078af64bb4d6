import Llheap.Proof.Programs
import Llheap.Proof.StoreRefines

/-!
# What the allocator leaves in `errno`

A routine that is refused storage says so in the calling thread's `errno`. No routine writes to it otherwise, and none writes to another thread's, on whatever path it comes to its result.
-/

namespace Llheap

open Separation TransitionSystem

variable {cfg : Config} {main : Tid} {k : Kernel cfg} {t : Tid} {s s' : State} {r : Option ℕ} {w w' : World}
  {size alignment oaddr f : ℕ}

/-- A request that returned `r`. -/
def SetsErrno (t : Tid) (s s' : State) : Option ℕ → Prop
  | none => s'.errno = Function.update s.errno t ENOMEM
  | some _ => s'.errno = s.errno

/-- No storage was found for a call that returned `r`: null is also what a call returns that frees. -/
def Call.Refused (r : Option ℕ) (c : Call) : Prop := r = none ∧ (c.size = 0 → c.oaddr = none)

instance (r : Option ℕ) (c : Call) : Decidable (c.Refused r) := inferInstanceAs (Decidable (_ ∧ _))

/-- What a step writes to `errno`. -/
def errnoWrites (w : World) : Label cfg → World → List (Tid × ℕ)
  | .call k t c, _ => if c.Refused ((c.run k t w.st).getD (none, w.st)).1 then [(t, ENOMEM)] else []
  | .setErrno t e, _ => [(t, e)]
  | _, _ => []

theorem SetsErrno.after {s₁ : State} (h : SetsErrno t s₁ s' r) (hsame : s₁.errno = s.errno) : SetsErrno t s s' r := by
  cases r with
  | none => rwa [SetsErrno, ← hsame]
  | some u => exact Eq.trans h hsame

theorem SetsErrno.before {s₂ : State} (h : SetsErrno t s s' r) (hsame : s₂.errno = s'.errno) :
    SetsErrno t s s₂ r := by
  cases r with
  | none => exact hsame.trans h
  | some u => exact hsame.trans h

/-! ### Requests -/

theorem getHeap_errno {heap : ℕ} (h : getHeap k t s = .ok (heap, s')) : s'.errno = s.errno := by
  rcases getHeap_cases h with ⟨_, _, rfl⟩ | ⟨_, _, _, _, rfl⟩ | ⟨_, _, a, _, _, rfl⟩ <;> rfl

theorem heapManagerCtor_errno (h : heapManagerCtor k t s = .ok s') : s'.errno = s.errno := by
  have hrest : ∀ s₁ : State, (getHeap k t s₁ >>= fun p => .ok (assignHeap t p.1 p.2)) = .ok s' →
      s'.errno = s₁.errno := by
    intro s₁ hassign
    obtain ⟨⟨heap, s₂⟩, hget, hs'⟩ := Result.bind_eq_ok.mp hassign
    cases hs'
    rw [← getHeap_errno hget]
    unfold assignHeap
    dsimp only
    split <;> rfl
  rw [heapManagerCtor_granting] at h
  obtain ⟨s₁, hmaster, h⟩ := Result.bind_eq_ok.mp h
  have hsame := hrest s₁ h
  split at hmaster
  · obtain ⟨_, _, rfl⟩ := heapMasterCtor_ok hmaster
    exact hsame
  · cases hmaster
    exact hsame

theorem bootHeapManager_errno (h : bootHeapManager k t s = .ok s') : s'.errno = s.errno := by
  unfold bootHeapManager at h
  split at h
  · exact heapManagerCtor_errno h
  · cases h
    rfl

theorem masterExtend_errno (h : masterExtend k t size s = .ok (r, s')) : SetsErrno t s s' r := by
  have hblock : ∀ {s₁ : State} {rem : ℕ}, extendBlock k t size rem s₁ = .ok (r, s') → SetsErrno t s₁ s' r := by
    intro s₁ rem hext
    rcases extendBlock_cases hext with ⟨rfl, rfl⟩ | ⟨a, rfl, _, rfl⟩ <;> rfl
  rcases masterExtend_cases h with ⟨_, ⟨rfl, rfl⟩ | ⟨a, _, hext⟩⟩ | ⟨_, hext⟩
  · rfl
  · exact (hblock hext).after rfl
  · exact (hblock hext).after rfl

theorem chainRemainder_errno {heap : ℕ} : (chainRemainder heap s).errno = s.errno := by
  unfold chainRemainder
  dsimp only
  split <;> rfl

theorem managerExtend_errno (h : managerExtend k t size s = .ok (r, s')) : SetsErrno t s s' r := by
  rcases managerExtend_cases h with ⟨rfl, hext⟩ | ⟨newblock, s₁, rfl, hext, rfl⟩
  · exact masterExtend_errno hext
  · apply (masterExtend_errno hext).before
    unfold replaceBuffer
    dsimp only
    split
    · exact chainRemainder_errno
    · rfl

theorem allocateBlock_errno (h : allocateBlock k t f s = .ok (r, s')) : SetsErrno t s s' r := by
  rcases allocateBlock_cases h with ⟨_, rfl, rfl⟩ | ⟨_, _, rfl, rfl⟩ | ⟨_, _, _, rfl, rfl⟩ | ⟨_, _, _, hext⟩
  · rfl
  · rfl
  · rfl
  · exact managerExtend_errno hext

theorem doMalloc_sets (h : doMalloc k t size s = .ok (r, s')) : SetsErrno t s s' r := by
  obtain ⟨s₁, hboot, ⟨_, rfl, hblock⟩ | ⟨_, block, s₂, rfl, hblock, rfl⟩ | ⟨_, hmap⟩⟩ := doMalloc_cases h
  · exact (allocateBlock_errno hblock).after (bootHeapManager_errno hboot)
  · have hsame : s₂.errno = s₁.errno := allocateBlock_errno hblock
    exact hsame.trans (bootHeapManager_errno hboot)
  · have hsets : SetsErrno t s₁ s' r := by
      rcases mapLarge_cases hmap with ⟨rfl, rfl⟩ | ⟨a, rfl, _, rfl⟩ <;> rfl
    exact hsets.after (bootHeapManager_errno hboot)

theorem memalignNoStats_sets (h : memalignNoStats k t alignment size s = .ok (r, s')) : SetsErrno t s s' r := by
  rcases memalignNoStats_cases h with ⟨_, hm⟩ | ⟨_, _, ⟨rfl, hm⟩ | ⟨addr, s₁, hm, rfl, rfl⟩⟩
  · exact doMalloc_sets hm
  · exact doMalloc_sets hm
  · exact (doMalloc_sets hm).before rfl

/-! ### Freeing -/

theorem doFree_errno (h : doFree t oaddr s = .ok s') : s'.errno = s.errno := by
  rcases doFree_cases h with ⟨_, rfl⟩ | ⟨_, _, _, rfl⟩ <;> rfl

theorem free_errno {addr : Option ℕ} (h : Llheap.free t addr s = .ok s') : s'.errno = s.errno := by
  cases addr with
  | none =>
    cases h
    rfl
  | some u => exact doFree_errno h

theorem moveContents_errno {naddr osize : ℕ} {z : Bool} (h : moveContents t oaddr naddr osize size z s = .ok s') :
    s'.errno = s.errno := by
  unfold moveContents at h
  dsimp only at h
  obtain ⟨s₁, hfree, h⟩ := Result.bind_eq_ok.mp h
  have hsame := doFree_errno hfree
  split at h
  · cases h
    exact hsame
  · cases h
    exact hsame

theorem freeOnly_errno (h : (do
      let s ← doFree t oaddr s
      .ok (none, s) : Result (Option ℕ × State)) = .ok (r, s')) : r = none ∧ s'.errno = s.errno := by
  obtain ⟨s₁, hfree, h⟩ := Result.bind_eq_ok.mp h
  cases h
  exact ⟨rfl, doFree_errno hfree⟩

/-! ### Routines -/

theorem calloc_sets {dimension elemSize : ℕ} (h : Llheap.calloc k t dimension elemSize s = .ok (r, s')) :
    SetsErrno t s s' r := by
  obtain ⟨⟨r₁, s₁⟩, hm, h⟩ := Result.bind_eq_ok.mp h
  cases r₁ with
  | none =>
    cases h
    exact doMalloc_sets hm
  | some u =>
    cases h
    exact (doMalloc_sets hm).before rfl

theorem cmemalign_sets {dimension elemSize : ℕ}
    (h : Llheap.cmemalign k t alignment dimension elemSize s = .ok (r, s')) : SetsErrno t s s' r := by
  obtain ⟨⟨r₁, s₁⟩, hm, h⟩ := Result.bind_eq_ok.mp h
  cases r₁ with
  | none =>
    cases h
    exact memalignNoStats_sets hm
  | some u =>
    cases h
    exact (memalignNoStats_sets hm).before rfl

theorem reallocInPlace_errno {header : ℕ} : (reallocInPlace oaddr header size s).errno = s.errno := by
  rw [reallocInPlace_eq]

theorem realloc_sets (hne : size ≠ 0) (h : Llheap.realloc k t (some oaddr) size s = .ok (r, s')) :
    SetsErrno t s s' r := by
  rcases realloc_cases hne h with ⟨_, rfl, rfl⟩ | ⟨_, r₁, s₁, hm, ⟨rfl, rfl, rfl⟩ | ⟨naddr, rfl, rfl, hmove⟩⟩
  · exact reallocInPlace_errno
  · exact memalignNoStats_sets hm
  · exact (memalignNoStats_sets hm).before (moveContents_errno hmove)

theorem alignedReallocMove_sets (h : alignedReallocMove k t oaddr alignment size s = .ok (r, s')) :
    SetsErrno t s s' r := by
  obtain ⟨⟨r₁, s₁⟩, hm, h⟩ := Result.bind_eq_ok.mp h
  rcases moveContents_cases h with ⟨hnone, rfl, rfl⟩ | ⟨naddr, hsome, rfl, hmove⟩
  · obtain rfl : r₁ = none := hnone
    exact memalignNoStats_sets hm
  · obtain rfl : r₁ = some naddr := hsome
    exact (memalignNoStats_sets hm).before (moveContents_errno hmove)

theorem alignedRealloc_sets (hne : size ≠ 0)
    (h : Llheap.alignedRealloc k t (some oaddr) alignment size s = .ok (r, s')) : SetsErrno t s s' r := by
  unfold Llheap.alignedRealloc at h
  dsimp only at h
  rw [if_neg hne] at h
  split at h
  · split at h
    · exact (realloc_sets hne h).after rfl
    · exact alignedReallocMove_sets h
  · split at h
    · exact realloc_sets hne h
    · exact alignedReallocMove_sets h

/-- Both ways in which a resizing comes to its result: the block is used again, or freed before storage is asked for. -/
theorem Resizing.run_sets {c : Resizing} (hpos : 0 < c.size) (h : c.run k t oaddr s = .ok (r, s')) :
    SetsErrno t s s' r := by
  have hedited : (c.edited oaddr s).errno = s.errno := by
    rcases edited_cases c oaddr s with heq | ⟨_, _, heq⟩
    · rw [heq]
    · rw [heq]
      rfl
  rcases run_cases k t oaddr s hpos with ⟨_, _, hplace⟩ | hmove
  · cases hplace.symm.trans h
    exact hedited
  · obtain ⟨s₁, hfree, hm⟩ := Result.bind_eq_ok.mp (hmove.symm.trans h)
    exact (memalignNoStats_sets hm).after ((doFree_errno hfree).trans hedited)

theorem Call.old_sets {c : Call} (hold : c.oaddr = some oaddr) (h : c.run k t s = .ok (r, s')) :
    c.size ≠ 0 ∧ SetsErrno t s s' r ∨ c.size = 0 ∧ r = none ∧ s'.errno = s.errno := by
  have hfrees : ∀ x : Result (Option ℕ × State), c.size = 0 → (if c.size = 0 then (do
      let s ← doFree t oaddr s
      .ok (none, s)) else x) = .ok (r, s') → r = none ∧ s'.errno = s.errno := by
    intro x hzero hrun
    rw [if_pos hzero] at hrun
    exact freeOnly_errno hrun
  by_cases hzero : c.size = 0
  · refine .inr ⟨hzero, ?_⟩
    cases c with
    | resize addr size | realloc addr size | alignedResize addr nalignment size
    | alignedRealloc addr nalignment size =>
      cases hold
      exact hfrees _ hzero h
    | _ => cases hold
  · refine .inl ⟨hzero, ?_⟩
    have hpos := Nat.pos_of_ne_zero hzero
    cases c with
    | resize addr size =>
      cases hold
      exact Resizing.run_sets (c := .resize size) hpos h
    | alignedResize addr nalignment size =>
      cases hold
      exact Resizing.run_sets (c := .alignedResize nalignment size) hpos h
    | realloc addr size =>
      cases hold
      exact realloc_sets hzero h
    | alignedRealloc addr nalignment size =>
      cases hold
      exact alignedRealloc_sets hzero h
    | _ => cases hold

theorem Call.new_sets {c : Call} (hold : c.oaddr = none) (h : c.run k t s = .ok (r, s')) : SetsErrno t s s' r := by
  cases c with
  | malloc size => exact doMalloc_sets h
  | calloc dimension elemSize => exact calloc_sets h
  | memalign alignment size => exact memalignNoStats_sets h
  | cmemalign alignment dimension elemSize => exact cmemalign_sets h
  | resize addr size | realloc addr size =>
    cases hold
    exact doMalloc_sets h
  | alignedResize addr nalignment size | alignedRealloc addr nalignment size =>
    cases hold
    exact memalignNoStats_sets h

theorem Call.run_errno {c : Call} (h : c.run k t s = .ok (r, s')) :
    s'.errno = if c.Refused r then Function.update s.errno t ENOMEM else s.errno := by
  have hrequest : SetsErrno t s s' r → (c.size = 0 → c.oaddr = none) →
      s'.errno = if c.Refused r then Function.update s.errno t ENOMEM else s.errno := by
    intro hsets hasks
    cases r with
    | none =>
      rw [if_pos ⟨rfl, hasks⟩]
      exact hsets
    | some u =>
      rw [if_neg fun hrefused => Option.some_ne_none u hrefused.1]
      exact hsets
  cases hold : c.oaddr with
  | none => exact hrequest (Call.new_sets hold h) fun _ => hold
  | some oaddr =>
    rcases Call.old_sets hold h with ⟨hne, hsets⟩ | ⟨hzero, _, hsame⟩
    · exact hrequest hsets fun hzero => absurd hzero hne
    · rw [if_neg, hsame]
      intro hrefused
      cases hold.symm.trans (hrefused.2 hzero)

/-! ### Runs -/

theorem mallopt_errno {option value : ℤ} {code : ℕ} (h : Llheap.mallopt option value s = .ok (code, s')) :
    s'.errno = s.errno := by
  rcases mallopt_cases h with ⟨_, rfl⟩ | ⟨_, _, _, _, rfl⟩ | ⟨_, _, _, _, rfl⟩ <;> rfl

theorem startup_errno (h : Llheap.startup k t s = .ok s') : s'.errno = s.errno := by
  obtain ⟨s₁, ⟨hzero, hctor⟩ | ⟨_, rfl⟩, _, rfl⟩ := startup_cases h
  · have hsame : s₁.errno = s.errno := heapManagerCtor_errno hctor
    exact hsame
  · rfl

theorem errno_step {lab : Label cfg} (hs : (programs cfg main).step w lab w') :
    w'.st.errno = (errnoWrites w lab w').foldl (fun errno write => Function.update errno write.1 write.2) w.st.errno := by
  cases lab with
  | call k t c =>
    obtain ⟨_, r, hrun, _⟩ := hs
    rw [errnoWrites, hrun, Call.run_errno hrun]
    change _ = List.foldl _ _ (if c.Refused r then _ else _)
    split <;> rfl
  | usableSize addr =>
    obtain ⟨_, hst, _⟩ := hs
    rw [hst]
    cases addr <;> rfl
  | free t addr => exact free_errno hs.2.1
  | mallopt option value =>
    obtain ⟨⟨code, hopt⟩, _⟩ := hs
    exact mallopt_errno hopt
  | startup k => exact startup_errno hs.1
  | write addr offset byte =>
    obtain ⟨_, _, hst, _⟩ := hs
    rw [hst]
    rfl
  | setErrno t e =>
    obtain ⟨hst, _⟩ := hs
    rw [hst]
    rfl
  | dtor t =>
    obtain ⟨_, _, _, hst, _⟩ := hs
    rw [hst]
    rfl
  | terminate t =>
    obtain ⟨_, _, hst, _⟩ := hs
    rw [hst]
    rfl

/-- However long a run is, `errno` is what the program and the refused calls have written to it, each thread's by its own calls. -/
theorem errno_run {writes : List (Tid × ℕ)} (h : (programs cfg main).Run errnoWrites w writes w') :
    w'.st.errno = writes.foldl (fun errno write => Function.update errno write.1 write.2) w.st.errno := by
  induction h with
  | refl w => rfl
  | step hs _ ih => rw [ih, errno_step hs, List.foldl_append]

private def served : World := World.booted.call (.above defaultConfig) 0 (.malloc 8)

private theorem served_run : (Call.malloc 8).run (.above defaultConfig) 0 World.booted.st =
    .ok (some 134488080, served.st) := World.call_run (by decide +kernel) (by decide +kernel)

private theorem served_step : (programs defaultConfig 0).step World.booted
    (.call (.above defaultConfig) 0 (.malloc 8)) served := by
  have hvalid : (Call.malloc 8).Valid := (by decide : 8 < 2 ^ 64)
  exact World.call_made ⟨by simp [World.booted], .inr rfl, hvalid, by simp [Call.oaddr]⟩ (by rw [served_run]; rfl)

private def thenRefused : World := served.call (.exhausted defaultConfig) 0 (.malloc (2 ^ 26))

private theorem thenRefused_run : (Call.malloc (2 ^ 26)).run (.exhausted defaultConfig) 0 served.st =
    .ok (none, thenRefused.st) := World.call_run (by decide +kernel) (by decide +kernel)

private theorem thenRefused_step : (programs defaultConfig 0).step served
    (.call (.exhausted defaultConfig) 0 (.malloc (2 ^ 26))) thenRefused := by
  have hvalid : (Call.malloc (2 ^ 26)).Valid := (by decide : 2 ^ 26 < 2 ^ 64)
  exact World.call_made ⟨nofun, .inr rfl, hvalid, by simp [Call.oaddr]⟩ (by decide +kernel)

theorem errno_run_refused : (programs defaultConfig 0).Run errnoWrites World.booted [(0, ENOMEM)] thenRefused ∧
    thenRefused.st.errno = Function.update World.booted.st.errno 0 ENOMEM := by
  have hrun := (Run.single errnoWrites served_step).append (Run.single errnoWrites thenRefused_step)
  rw [errnoWrites, errnoWrites, served_run, thenRefused_run] at hrun
  exact ⟨hrun, errno_run hrun⟩

/-! ### `posix_memalign` -/

theorem posixMemalign_cases {memptr ptr : Option ℕ} {code : ℕ}
    (h : posixMemalign k t memptr alignment size s = .ok (code, ptr, s')) :
    (∃ user, Llheap.memalignNoStats k t alignment size s = .ok (some user, s') ∧ code = 0 ∧ ptr = some user) ∨
      Llheap.memalignNoStats k t alignment size s = .ok (none, s') ∧ code = ENOMEM ∧ ptr = memptr := by
  obtain ⟨⟨r, s₁⟩, hm, h⟩ := Result.bind_eq_ok.mp h
  cases r with
  | none =>
    cases h
    exact .inr ⟨hm, rfl, rfl⟩
  | some user =>
    cases h
    exact .inl ⟨user, hm, rfl, rfl⟩

/-- The return code of `posix_memalign` says whether there is a new object at the address that it has stored. If there is none, the caller's pointer is as it was, and so are all objects. -/
theorem posixMemalign_exact {memptr ptr : Option ℕ} {code : ℕ} (hw : (system cfg main).Reachable w)
    (hok : CallOk main w t (.memalign alignment size))
    (h : posixMemalign k t memptr alignment size w.st = .ok (code, ptr, s')) :
    ∃ w', (system cfg main).step w (.call k t (.memalign alignment size)) w' ∧ w'.st = s' ∧
      (code = 0 ∧ s'.errno = w.st.errno ∧ (∃ user, ptr = some user ∧ user ∉ w.live ∧
          (objectAt s' user).IsNew size (alignedTo alignment size) false ∧
          objects w' = Function.update (objects w) user (some (objectAt s' user))) ∨
        code = ENOMEM ∧ s'.errno = Function.update w.st.errno t ENOMEM ∧ ptr = memptr ∧ objects w' = objects w) := by
  obtain ⟨A, idle, hbehind⟩ := reachable_inv hw
  obtain ⟨S, hS⟩ := hbehind.exists_shows
  have hstep : ∀ r, Llheap.memalignNoStats k t alignment size w.st = .ok (r, s') →
      ∃ w', (system cfg main).step w (.call k t (.memalign alignment size)) w' ∧ w'.st = s' ∧
        w'.live = liveAfter none false r w.live ∧ ∃ S', Shows w' S' ∧ S.Step (.call (.memalign alignment size) r) S' := by
    intro r hm
    let w' : World := ⟨s', w.status, liveAfter none false r w.live⟩
    have hrun : (Call.memalign alignment size).run k t w.st = .ok (r, w'.st) := hm
    have hs : Step main w (.call k t (.memalign alignment size)) w' := ⟨hok, r, hrun, rfl, rfl⟩
    obtain ⟨A', idle', h'⟩ := step_inv ⟨A, idle, hbehind⟩ hs
    obtain ⟨S', hS'⟩ := h'.exists_shows
    exact ⟨w', hs, rfl, rfl, S', hS', hbehind.call_store hok hrun rfl rfl hS hS'⟩
  rcases posixMemalign_cases h with ⟨user, hm, rfl, rfl⟩ | ⟨hm, rfl, rfl⟩
  · obtain ⟨w', hs, rfl, hlive, S', hS', hfresh, o, hnew, hat⟩ := hstep _ hm
    have hnone : objects w user = none := hS ▸ hfresh
    have hobjects : objects w' = Function.update (objects w) user (some o) := by
      rw [← hS', ← hS]
      exact hat
    have ho : objectAt w'.st user = o := by
      have hself := congrFun hobjects user
      rw [Function.update_self, objects_of_live (hlive ▸ .inl rfl)] at hself
      exact Option.some.inj hself
    refine ⟨w', hs, rfl, .inl ⟨rfl, memalignNoStats_sets hm, user, rfl, ?_, ?_, ?_⟩⟩
    · intro hold
      rw [objects_of_live hold] at hnone
      cases hnone
    · rw [ho]
      exact hnew
    · rw [ho]
      exact hobjects
  · obtain ⟨w', hs, rfl, _, S', hS', hat⟩ := hstep _ hm
    refine ⟨w', hs, rfl, .inr ⟨rfl, memalignNoStats_sets hm, rfl, ?_⟩⟩
    rw [← hS', ← hS]
    exact hat

private def stored : World := World.booted.call (.above defaultConfig) 0 (.memalign 64 100)

private theorem stored_run : posixMemalign (.above defaultConfig) 0 none 64 100 World.booted.st =
    .ok (0, some 134488128, stored.st) := by
  have hrun : Llheap.memalignNoStats (.above defaultConfig) 0 64 100 World.booted.st =
      .ok (some 134488128, stored.st) :=
    World.call_run (c := .memalign 64 100) (by decide +kernel) (by decide +kernel)
  unfold posixMemalign
  rw [hrun]
  rfl

/-- A pointer that was null names the new allocation. -/
theorem posixMemalign_exact_stored : ∃ w', (system defaultConfig 0).step World.booted
      (.call (.above defaultConfig) 0 (.memalign 64 100)) w' ∧ w'.st = stored.st ∧
    objects w' = Function.update (objects World.booted) 134488128 (some (objectAt stored.st 134488128)) ∧
    (objectAt stored.st 134488128).IsNew 100 64 false := by
  have hvalid : (Call.memalign 64 100).Valid := ⟨by decide, ⟨6, rfl⟩, by decide⟩
  have hok : CallOk 0 World.booted 0 (.memalign 64 100) :=
    ⟨World.booted_may, hvalid, by simp [Call.oaddr], by decide +kernel⟩
  obtain ⟨w', hs, hst, ⟨_, _, user, hptr, _, hnew, hobjects⟩ | ⟨hcode, _⟩⟩ :=
    posixMemalign_exact World.booted_reachable hok stored_run
  · obtain rfl := Option.some.inj hptr
    exact ⟨w', hs, hst, hobjects, hnew⟩
  · cases hcode

end Llheap
