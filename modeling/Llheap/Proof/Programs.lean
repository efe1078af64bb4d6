import Llheap.Proof.Separation

/-!
# Runs of any program

The runs of `system` are those of a program that keeps to the rules, and in which two things have gone well besides: every request has got a block that holds it, and no thread has taken over a heap that an exiting thread still uses. Here a program keeps to the rules and nothing more is said.
-/

namespace Llheap.Separation

variable {cfg : Config} {main : Tid} {w w' : World}

/-- A call is made by a thread that runs, with live addresses. -/
structure CallMade (main : Tid) (w : World) (t : Tid) (c : Call) : Prop where
  runs : w.status t ≠ .terminated
  started : w.st.heapMasterBootFlag = 2 ∨ t = main
  valid : c.Valid
  old : ∀ u ∈ c.oaddr, u ∈ w.live

/-- Only of calls does a step of `system` ask more. -/
def Made [Os] (main : Tid) (w : World) : Label cfg → World → Prop
  | .call k t c, w' => CallMade main w t c ∧ ∃ r, c.run k t w.st = .ok (r, w'.st) ∧
      w'.live = liveAfter c.oaddr (c.gives r) r w.live ∧ w'.status = w.status
  | lab, w' => Step main w lab w'

def programs [Os] (cfg : Config) (main : Tid) : TransitionSystem World (Label cfg) where
  init := (system cfg main).init
  step := Made main

/-- A call gets a block that holds its request, and a heap that no exiting thread uses. -/
def Served (w : World) : Label cfg → Prop
  | .call _ t c => (w.st.heapManager t = 1 → w.st.heapMaster.freeHeapManagersList ≠ 0 →
      ∀ u, w.status u = .exiting → w.st.heapManager u ≠ w.st.heapMaster.freeHeapManagersList) ∧
      ∀ n ∈ c.request w.st, Fits w.st.heapMaster n
  | _ => True

theorem step_iff [Os] {lab : Label cfg} : Step main w lab w' ↔ Served w lab ∧ Made main w lab w' := by
  cases lab with
  | call k t c =>
    constructor
    · intro h
      obtain ⟨⟨⟨hruns, hstarted, halone⟩, hvalid, hold, hfits⟩, hrest⟩ := h
      exact ⟨⟨halone, hfits⟩, ⟨hruns, hstarted, hvalid, hold⟩, hrest⟩
    · intro h
      obtain ⟨⟨halone, hfits⟩, ⟨hruns, hstarted, hvalid, hold⟩, hrest⟩ := h
      exact ⟨⟨⟨hruns, hstarted, halone⟩, hvalid, hold, hfits⟩, hrest⟩
  | usableSize addr | free t addr | write addr offset byte | setErrno t e | mallopt option value | startup k
  | dtor t | terminate t => exact (and_iff_right trivial).symm

/-- The runs of `system` are the runs of programs in which every call is served. -/
theorem system_eq [Os] : system cfg main = (programs cfg main).restrict Served := by
  unfold system TransitionSystem.restrict programs
  congr 1
  funext w lab w'
  exact propext step_iff

theorem reachable_program [Os] (h : (system cfg main).Reachable w) : (programs cfg main).Reachable w := by
  rw [system_eq] at h
  exact h.of_restrict

theorem World.call_made [Os] {k : Kernel cfg} {t : Tid} {c : Call} (hmade : CallMade main w t c)
    (hrun : (c.run k t w.st).isOk = true) : (programs cfg main).step w (.call k t c) (w.call k t c) :=
  ⟨hmade, _, Result.eq_ok hrun (none, State.unbooted), rfl, rfl⟩

end Llheap.Separation
