import Llheap.Base.Transition
import Llheap.Proof.Owners
import Llheap.Proof.Startup

/-!
# Heap ownership

Free lists and buffers are not synchronized, so everything rests on one thread using a heap at a time. The system below has one step for each call that reaches `doMalloc` or `doFree`, for what the program and the other routines write to memory, and for the start, the destructor and the end of a thread.
-/

namespace Llheap.Ownership

variable {cfg : Config}

structure World where
  st : State
  status : Tid → Status

inductive Label (cfg : Config)
  | malloc (k : Kernel cfg) (t : Tid) (size : ℕ)
  | free (t : Tid) (addr : ℕ)
  | write (mem : Memory) (errno : Tid → ℕ)
  | mallopt (option value : ℤ)
  | startup (k : Kernel cfg)
  | dtor (t : Tid)
  | terminate (t : Tid)

/-- Only the program's thread runs before `startup` has ended the boot sequence. -/
def MayRun (main : Tid) (w : World) (t : Tid) : Prop :=
  w.status t ≠ .terminated ∧ (w.st.heapMasterBootFlag = 2 ∨ t = main)

/-- `[b, b + n)` is no storage of heap objects. -/
def ClearOfHeaps (m : HeapMaster) (b n : ℕ) : Prop :=
  (∀ h ∈ m.heapManagersList, b + n ≤ h ∨ h + sizeofHeap ≤ b) ∧
    (b + n ≤ m.heapManagersStorage ∨ m.heapManagersStorageEnd ≤ b)

def Step (main : Tid) (w : World) : Label cfg → World → Prop
  | .malloc k t size, w' => MayRun main w t ∧
      (∃ r, doMalloc k t size w.st = .ok (r, w'.st)) ∧ w'.status = w.status
  | .free t addr, w' => MayRun main w t ∧
      ((headers w.st addr).mapped → ClearOfHeaps w.st.heapMaster (headers w.st addr).header
        (headers w.st addr).size) ∧
      doFree t addr w.st = .ok w'.st ∧ w'.status = w.status
  | .write mem errno, w' => w'.st = { w.st with mem := mem, errno := errno } ∧ w'.status = w.status
  | .mallopt option value, w' =>
      (∃ r, Llheap.mallopt option value w.st = .ok (r, w'.st)) ∧ w'.status = w.status
  | .startup k, w' => Llheap.startup k main w.st = .ok w'.st ∧ w'.status = w.status
  | .dtor t, w' => w.st.heapMasterBootFlag = 2 ∧ w.status t = .alive ∧ w.st.setspecific t = true ∧
      w'.st = heapManagerDtor t w.st ∧ w'.status = Function.update w.status t .exiting
  | .terminate t, w' => w.st.heapMasterBootFlag = 2 ∧
      (w.status t = .exiting ∨ w.status t = .alive ∧ w.st.setspecific t = false) ∧
      w'.st = w.st ∧ w'.status = Function.update w.status t .terminated

def system (cfg : Config) (main : Tid) : TransitionSystem World (Label cfg) where
  init w := w = ⟨State.unbooted, fun _ => .alive⟩
  step := Step main

/-- A thread that needs a heap does not take one off the stack that an exiting thread still has. -/
def NoTakeover (w : World) : Label cfg → Prop
  | .malloc _ t _ => w.st.heapManager t = 1 → w.st.heapMaster.freeHeapManagersList ≠ 0 →
      ∀ u, w.status u = .exiting → w.st.heapManager u ≠ w.st.heapMaster.freeHeapManagersList
  | _ => True

/-- `heap` is the heap that exactly one thread would use. -/
def Used (w : World) (heap : ℕ) : Prop :=
  ∃! t, w.status t ≠ .terminated ∧ w.st.heapManager t = heap

/-- `heap` is on the stack of free heaps once, and no thread would use it. -/
def Idle (w : World) (heap : ℕ) : Prop :=
  (∃ L, Chain (fun h => (w.st.heap h).nextFreeHeapManager) w.st.heapMaster.freeHeapManagersList L ∧
    L.count heap = 1) ∧ ∀ t, w.status t ≠ .terminated → w.st.heapManager t ≠ heap

variable {main : Tid} {k : Kernel cfg} {t : Tid} {s s' : State} {status : Tid → Status} {idle : List ℕ}
  {A : Arena Tag}

/-! ### Steps -/

/-- Before the first call of the program's thread. -/
structure Unbooted (w : World) : Prop where
  bootFlag : w.st.heapMasterBootFlag = 0
  heapManager : ∀ t, w.st.heapManager t = 1
  setspecific : ∀ t, w.st.setspecific t = false
  status : ∀ t, w.status t = .alive
  none_made : w.st.heapMaster.heapManagersList = []

def OnlyHeaps (A : Arena Tag) : Prop := ∀ b p, A.at? b = some p → p.tag = .heap ∨ p.tag = .spare

structure Booted (main : Tid) (w : World) : Prop where
  bootFlag : w.st.heapMasterBootFlag ≠ 0
  ready : w.st.heapMasterBootFlag = 1 → w.st.heapManager main ≠ 1
  heaps : ∃ A idle, OnlyHeaps A ∧ Heaps main w.st w.status A idle

def Inv (main : Tid) (w : World) : Prop := Unbooted w ∨ Booted main w

variable {w w' : World}

theorem OnlyHeaps.of_same {A' : Arena Tag} (h : OnlyHeaps A) (hsame : SameBlocks A A') :
    OnlyHeaps A' := by
  intro b p hb
  by_contra hnot
  rw [not_or] at hnot
  exact not_or.mpr hnot (h b p ((hsame b p hnot.1 hnot.2).mp hb))

theorem Booted.of_same (h : Booted main w) (hs : SameHeaps w.st w'.st) (hst : w'.status = w.status) :
    Booted main w' := by
  obtain ⟨A, idle, honly, hheaps⟩ := h.heaps
  exact ⟨by rw [hs.bootFlag]; exact h.bootFlag,
    by rw [hs.bootFlag, hs.heapManager]; exact h.ready,
    A, idle, honly, hst ▸ hheaps.of_same hs⟩

theorem Unbooted.ctor (h : Unbooted w) (main : Tid) (hctor : heapMasterCtor cfg w.st = .ok s) :
    s.heapMasterBootFlag = 1 ∧ s.heapManager main = 1 ∧
      Heaps main s w.status (Arena.empty Tag) [] := by
  obtain ⟨_, _, rfl⟩ := heapMasterCtor_ok hctor
  exact ⟨rfl, h.heapManager main, .none rfl rfl rfl rfl h.heapManager h.setspecific h.status⟩

theorem booted_of_heaps {status : Tid → Status} (honly : OnlyHeaps A)
    (hheaps : Heaps main s status A idle) (hbooted : s.heapMasterBootFlag ≠ 0)
    (hrun : status t ≠ .terminated) (hmay : s.heapMasterBootFlag = 2 ∨ t = main)
    (htake : s.heapManager t = 1 → s.heapMaster.freeHeapManagersList ≠ 0 →
      ∀ u, status u = .exiting → s.heapManager u ≠ s.heapMaster.freeHeapManagersList)
    (hboot : bootHeapManager k t s = .ok s') : Booted main ⟨s', status⟩ := by
  obtain ⟨hne, A', idle', hheaps', hsame⟩ := hheaps.boot hbooted hrun hmay htake hboot
  have hflag := bootHeapManager_bootFlag hbooted hboot
  refine ⟨by rw [hflag]; exact hbooted, fun h1 => ?_, A', idle', honly.of_same hsame, hheaps'⟩
  have htmain : t = main := hmay.resolve_left (by rw [← hflag, h1]; decide)
  exact htmain ▸ hne

theorem Inv.boot (h : Inv main w) (hmay : MayRun main w t)
    (htake : w.st.heapManager t = 1 → w.st.heapMaster.freeHeapManagersList ≠ 0 →
      ∀ u, w.status u = .exiting → w.st.heapManager u ≠ w.st.heapMaster.freeHeapManagersList)
    (hboot : bootHeapManager k t w.st = .ok s') : Booted main ⟨s', w.status⟩ := by
  rcases h with hun | hbooted
  · obtain ⟨s₀, hctor, hboot⟩ := boot_unbooted hun.bootFlag (hun.heapManager t) hboot
    obtain ⟨hflag, _, hheaps⟩ := hun.ctor main hctor
    have htmain : t = main :=
      hmay.2.resolve_left (by rw [hun.bootFlag]; decide)
    refine booted_of_heaps (fun b p hb => by cases hb) hheaps (by rw [hflag]; decide) hmay.1 (.inr htmain) ?_ hboot
    intro _ _ u hu
    rw [hun.status u] at hu
    cases hu
  · obtain ⟨A, idle, honly, hheaps⟩ := hbooted.heaps
    exact booted_of_heaps honly hheaps hbooted.bootFlag hmay.1 hmay.2 htake hboot

theorem Inv.of_same (h : Inv main w) (hs : SameHeaps w.st w'.st) (hst : w'.status = w.status) :
    Inv main w' := by
  rcases h with hun | hbooted
  · refine .inl ⟨hs.bootFlag.trans hun.bootFlag, ?_, ?_, ?_, hs.heapManagersList.trans hun.none_made⟩
    · rw [hs.heapManager]
      exact hun.heapManager
    · rw [hs.setspecific]
      exact hun.setspecific
    · rw [hst]
      exact hun.status
  · exact .inr (hbooted.of_same hs hst)

theorem malloc_inv {size : ℕ} {r : Option ℕ} (h : Inv main w) (hmay : MayRun main w t)
    (htake : NoTakeover w (.malloc k t size)) (hm : doMalloc k t size w.st = .ok (r, s')) :
    Inv main ⟨s', w.status⟩ := by
  obtain ⟨s₁, hboot, hsame⟩ := doMalloc_sameHeaps hm
  exact .inr ((h.boot hmay htake hboot).of_same hsame rfl)

theorem Heaps.munmap {b n : ℕ} (h : Heaps main s status A idle) (honly : OnlyHeaps A)
    (hclear : ClearOfHeaps s.heapMaster b n) : Heaps main (s.munmap b n) status A idle where
  laid := by
    refine ⟨fun c p hc => (h.laid.covered c p hc).munmap (A.pos c p hc) ?_, h.laid.aligned, h.laid.pos⟩
    obtain ⟨len, tag⟩ := p
    rcases honly c _ hc with rfl | rfl
    · obtain ⟨hmem, rfl⟩ := (h.pieces.heap c len).mp hc
      exact hclear.1 c hmem
    · obtain ⟨rfl, hend, _⟩ := (h.pieces.spare c len).mp hc
      have := hclear.2
      dsimp only
      omega
  pieces := h.pieces
  owned := h.owned.munmap b n

theorem free_inv {addr : ℕ} (h : Inv main w)
    (hclear : (headers w.st addr).mapped → ClearOfHeaps w.st.heapMaster (headers w.st addr).header
      (headers w.st addr).size)
    (hfree : doFree t addr w.st = .ok s') : Inv main ⟨s', w.status⟩ := by
  rcases doFree_cases hfree with ⟨_, rfl⟩ | ⟨hmapped, _, _, rfl⟩
  · exact h.of_same (.of_storage fun _ => rfl) rfl
  · rcases h with hun | hbooted
    · exact .inl ⟨hun.bootFlag, hun.heapManager, hun.setspecific, hun.status, hun.none_made⟩
    · obtain ⟨A, idle, honly, hheaps⟩ := hbooted.heaps
      exact .inr ⟨hbooted.bootFlag, hbooted.ready, A, idle, honly,
        Heaps.munmap hheaps honly (hclear hmapped)⟩

theorem Booted.finish (h : Booted main w) (hflag : w.st.heapMasterBootFlag = 1) :
    Booted main ⟨{ registerDtor main w.st with heapMasterBootFlag := 2 }, w.status⟩ := by
  obtain ⟨A, idle, honly, hheaps⟩ := h.heaps
  exact ⟨two_ne_zero, fun h1 => absurd (show 2 = 1 from h1) (Nat.succ_ne_self 1), A, idle, honly, hheaps.laid,
    hheaps.pieces, hheaps.owned.start hflag (h.ready hflag)⟩

theorem startup_inv (h : Inv main w) (hs : startup k main w.st = .ok s') :
    Inv main ⟨s', w.status⟩ := by
  obtain ⟨s₁, hctor, hflag, rfl⟩ := startup_cases hs
  rcases h with hun | hbooted
  · obtain ⟨_, hctor⟩ | ⟨hne, _⟩ := hctor
    · have hboot : bootHeapManager k main w.st = .ok s₁ := by
        rw [bootHeapManager, if_pos (hun.heapManager main)]
        exact hctor
      have hmay : MayRun main w main := ⟨by rw [hun.status]; decide, .inr rfl⟩
      refine .inr ((Inv.boot (.inl hun) hmay ?_ hboot).finish hflag)
      intro _ _ u hu
      rw [hun.status u] at hu
      cases hu
    · exact absurd hun.bootFlag hne
  · obtain ⟨hzero, _⟩ | ⟨_, rfl⟩ := hctor
    · exact absurd hzero hbooted.bootFlag
    · exact .inr (hbooted.finish hflag)

theorem Inv.booted (h : Inv main w) (hflag : w.st.heapMasterBootFlag = 2) : Booted main w := by
  refine h.resolve_left fun hun => ?_
  rw [hun.bootFlag] at hflag
  cases hflag

theorem dtor_inv (h : Inv main w) (hflag : w.st.heapMasterBootFlag = 2) (halive : w.status t = .alive)
    (hset : w.st.setspecific t = true) :
    Inv main ⟨heapManagerDtor t w.st, Function.update w.status t .exiting⟩ := by
  obtain ⟨A, idle, honly, hheaps⟩ := (h.booted hflag).heaps
  have hzero := hheaps.pieces.zero_not_mem hheaps.laid
  refine .inr ⟨(h.booted hflag).bootFlag, (h.booted hflag).ready, A, _, honly, hheaps.laid,
    ⟨hheaps.pieces.heap, hheaps.pieces.spare, hheaps.pieces.whole⟩,
    hheaps.owned.dtor hflag halive hset hzero⟩

theorem terminate_inv (h : Inv main w) (hflag : w.st.heapMasterBootFlag = 2)
    (hdone : w.status t = .exiting ∨ w.status t = .alive ∧ w.st.setspecific t = false) :
    Inv main ⟨w.st, Function.update w.status t .terminated⟩ := by
  obtain ⟨A, idle, honly, hheaps⟩ := (h.booted hflag).heaps
  exact .inr ⟨(h.booted hflag).bootFlag, (h.booted hflag).ready, A, idle, honly, hheaps.laid,
    hheaps.pieces, hheaps.owned.terminate hflag hdone (hheaps.pieces.one_not_mem hheaps.laid)⟩

/-! ### Runs -/

theorem step_inv {l : Label cfg} (h : Inv main w) (hok : NoTakeover w l) (hs : Step main w l w') :
    Inv main w' := by
  obtain ⟨st', status'⟩ := w'
  cases l with
  | malloc k t size =>
    obtain ⟨hmay, ⟨r, hm⟩, rfl⟩ := hs
    exact malloc_inv h hmay hok hm
  | free t addr =>
    obtain ⟨_, hclear, hfree, rfl⟩ := hs
    exact free_inv h hclear hfree
  | write mem errno =>
    obtain ⟨rfl, rfl⟩ := hs
    exact h.of_same ⟨rfl, rfl, rfl, rfl, rfl, rfl, rfl, fun _ => rfl, fun _ _ h => h⟩ rfl
  | mallopt option value =>
    obtain ⟨⟨r, hopt⟩, rfl⟩ := hs
    exact h.of_same (mallopt_sameHeaps hopt) rfl
  | startup k =>
    obtain ⟨hstart, rfl⟩ := hs
    exact startup_inv h hstart
  | dtor t =>
    obtain ⟨hflag, halive, hset, rfl, rfl⟩ := hs
    exact dtor_inv h hflag halive hset
  | terminate t =>
    obtain ⟨hflag, hdone, rfl, rfl⟩ := hs
    exact terminate_inv h hflag hdone

theorem reachable_inv (h : ((system cfg main).restrict NoTakeover).Reachable w) : Inv main w := by
  refine h.invariant ?_ fun w l w' hw hs => step_inv hw hs.1 hs.2
  rintro w rfl
  exact .inl ⟨rfl, fun _ => rfl, fun _ => rfl, fun _ => rfl, rfl⟩

theorem Heaps.used_or_idle (h : Heaps main w.st w.status A idle) {heap : ℕ}
    (hmem : heap ∈ w.st.heapMaster.heapManagersList) : Xor (Used w heap) (Idle w heap) := by
  have hone : heap ≠ 1 := fun h1 => h.pieces.one_not_mem h.laid (h1 ▸ hmem)
  by_cases hused : ∃ t, w.status t ≠ .terminated ∧ w.st.heapManager t = heap
  · obtain ⟨t, hrun, rfl⟩ := hused
    refine .inl ⟨⟨t, ⟨hrun, rfl⟩, fun u hu => ?_⟩, fun hidle => hidle.2 t hrun rfl⟩
    exact (h.owned.unique t u hrun hu.1 hone hu.2.symm).symm
  · refine .inr ⟨⟨⟨idle, h.owned.chain, ?_⟩, fun t hrun ht => hused ⟨t, hrun, ht⟩⟩, fun hu => ?_⟩
    · rcases h.owned.none_lost heap hmem with hidle | ⟨t, halive, ht⟩
      · exact List.count_eq_one_of_mem h.owned.chain.nodup hidle
      · exact absurd ⟨t, by rw [halive]; decide, ht⟩ hused
    · obtain ⟨t, ht, _⟩ := hu
      exact hused ⟨t, ht⟩

/-- Every heap that was ever made is used by exactly one thread, or free and used by none. -/
def OneOwner (w : World) : Prop :=
  ∀ heap ∈ w.st.heapMaster.heapManagersList, Xor (Used w heap) (Idle w heap)

/-- In every state of a run in which no thread takes over the heap of an exiting one, each heap has one owner, and no thread has its heap on the stack before its destructor has run. -/
theorem heap_one_owner (h : ((system cfg main).restrict NoTakeover).Reachable w) :
    OneOwner w ∧ ∀ t, w.status t = .alive → w.st.heapManager t ≠ 1 → ∀ L,
      Chain (fun h => (w.st.heap h).nextFreeHeapManager) w.st.heapMaster.freeHeapManagersList L →
        w.st.heapManager t ∉ L := by
  rcases reachable_inv h with hun | hbooted
  · refine ⟨fun heap hmem => ?_, fun t _ ht => absurd (hun.heapManager t) ht⟩
    rw [hun.none_made] at hmem
    cases hmem
  · obtain ⟨A, idle, _, hheaps⟩ := hbooted.heaps
    refine ⟨fun heap hmem => Heaps.used_or_idle hheaps hmem, fun t ht hne L hL => ?_⟩
    rw [hL.unique hheaps.owned.chain]
    exact hheaps.owned.alive t ht hne

private def mallocEight (t : Tid) (w : World) : World :=
  ⟨((doMalloc (.above defaultConfig) t 8 w.st).getD (none, State.unbooted)).2, w.status⟩

private def runDtor (t : Tid) (w : World) : World :=
  ⟨heapManagerDtor t w.st, Function.update w.status t .exiting⟩

private def started : World := ⟨startState defaultConfig (.above defaultConfig), fun _ => .alive⟩

private def leaving : World := runDtor 1 (mallocEight 1 started)

private def left : World :=
  ⟨leaving.st, Function.update leaving.status 1 .terminated⟩

private theorem mallocEight_step {t : Tid} {w : World} (hrun : w.status t ≠ .terminated)
    (hflag : w.st.heapMasterBootFlag = 2)
    (hok : (doMalloc (.above defaultConfig) t 8 w.st).isOk = true) :
    (system defaultConfig 0).step w (.malloc (.above defaultConfig) t 8) (mallocEight t w) :=
  ⟨⟨hrun, .inl hflag⟩, ⟨_, Result.eq_ok hok (none, State.unbooted)⟩, rfl⟩

private theorem started_mallocEight :
    (system defaultConfig 0).step started (.malloc (.above defaultConfig) 1 8) (mallocEight 1 started) :=
  mallocEight_step nofun rfl (by decide +kernel)

private theorem leaving_step : (system defaultConfig 0).step (mallocEight 1 started) (.dtor 1) leaving := by
  refine ⟨?_, rfl, ?_, rfl, rfl⟩
  · decide +kernel
  · decide +kernel

private theorem left_step : (system defaultConfig 0).step leaving (.terminate 1) left := by
  refine ⟨?_, .inl ?_, rfl, rfl⟩
  · decide +kernel
  · decide

private theorem left_reachable :
    ((system defaultConfig 0).restrict NoTakeover).Reachable (mallocEight 2 left) := by
  have hfree : started.st.heapMaster.freeHeapManagersList = 0 := by decide
  have hstart : ((system defaultConfig 0).restrict NoTakeover).step
      ⟨State.unbooted, fun _ => .alive⟩ (.startup (.above defaultConfig)) started :=
    ⟨trivial, startup_default, rfl⟩
  have hone : ((system defaultConfig 0).restrict NoTakeover).step started
      (.malloc (.above defaultConfig) 1 8) (mallocEight 1 started) :=
    ⟨fun _ hne => absurd hfree hne, started_mallocEight⟩
  have hleave : ((system defaultConfig 0).restrict NoTakeover).step (mallocEight 1 started)
      (.dtor 1) leaving := ⟨trivial, leaving_step⟩
  have hleft : ((system defaultConfig 0).restrict NoTakeover).step leaving (.terminate 1) left :=
    ⟨trivial, left_step⟩
  have htwo : ((system defaultConfig 0).restrict NoTakeover).step left
      (.malloc (.above defaultConfig) 2 8) (mallocEight 2 left) := by
    refine ⟨fun _ _ u hu => ?_, mallocEight_step ?_ ?_ ?_⟩
    · by_cases h1 : u = 1
      · subst u
        cases hu
      · change Function.update (Function.update (fun _ => Status.alive) 1 Status.exiting) 1
          Status.terminated u = _ at hu
        rw [Function.update_of_ne h1, Function.update_of_ne h1] at hu
        cases hu
    · decide +kernel
    · decide +kernel
    · decide +kernel
  exact .next (.next (.next (.next (.next (.start rfl) hstart) hone) hleave) hleft) htwo

/-- Thread 1 allocates and ends, then thread 2 allocates. -/
theorem heap_one_owner_left : OneOwner (mallocEight 2 left) ∧
    ∀ t, (mallocEight 2 left).status t = .alive → (mallocEight 2 left).st.heapManager t ≠ 1 →
      ∀ L, Chain (fun h => ((mallocEight 2 left).st.heap h).nextFreeHeapManager)
        (mallocEight 2 left).st.heapMaster.freeHeapManagersList L →
          (mallocEight 2 left).st.heapManager t ∉ L :=
  heap_one_owner left_reachable

/-- Thread 1 allocates and its destructor runs, then thread 2 allocates before thread 1 has ended: both would use one heap. -/
theorem heap_shared : ∃ w, (system defaultConfig 0).Reachable w ∧ ¬ OneOwner w ∧
    w.status 1 ≠ .terminated ∧ w.status 2 ≠ .terminated ∧
      w.st.heapManager 1 = w.st.heapManager 2 := by
  have hstart : (system defaultConfig 0).step ⟨State.unbooted, fun _ => .alive⟩
      (.startup (.above defaultConfig)) started := ⟨startup_default, rfl⟩
  have htwo : (system defaultConfig 0).step leaving (.malloc (.above defaultConfig) 2 8)
      (mallocEight 2 leaving) := by
    refine mallocEight_step ?_ ?_ ?_ <;> decide +kernel
  have hshare : (mallocEight 2 leaving).st.heapManager 1 = (mallocEight 2 leaving).st.heapManager 2 := by
    decide +kernel
  refine ⟨mallocEight 2 leaving, .next (.next (.next (.next (.start rfl) hstart) started_mallocEight)
    leaving_step) htwo, fun hall => ?_, by decide, by decide, hshare⟩
  have hmem : (mallocEight 2 leaving).st.heapManager 1 ∈
      (mallocEight 2 leaving).st.heapMaster.heapManagersList := by decide +kernel
  rcases hall _ hmem with ⟨⟨t, _, huniq⟩, _⟩ | ⟨hidle, _⟩
  · have h1 := huniq 1 ⟨by decide, rfl⟩
    have h2 := huniq 2 ⟨by decide, hshare.symm⟩
    exact absurd (h1.trans h2.symm) (by decide)
  · exact hidle.2 1 (by decide) rfl

end Llheap.Ownership
