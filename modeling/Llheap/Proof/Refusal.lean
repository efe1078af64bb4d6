import Llheap.Proof.Sticky

/-!
# Reallocation without storage

When no storage is found, the old block is left as it was, unless `aligned_realloc` has recorded a new alignment in its fake header before it looked.
-/

namespace Llheap

open Separation

/-- The posix variant: the return code, and the caller's pointer afterwards. -/
def Reallocation.posix {cfg : Config} (k : Kernel cfg) (t : Tid) (oaddrp : Option ℕ) :
    Reallocation → State → Result (ℕ × Option ℕ × State)
  | .realloc size => posixRealloc k t oaddrp size
  | .alignedRealloc nalignment size => posixAlignedRealloc k t oaddrp nalignment size

/-- `aligned_realloc` records another alignment for an aligned address before it looks for storage. -/
def Reallocation.EditsFirst (s : State) (oaddr : ℕ) : Reallocation → Prop
  | .realloc _ => False
  | .alignedRealloc nalignment _ =>
    let word := s.mem.word (headerAddr oaddr)
    let nalignment := max nalignment libAlign
    alignmentBit word ≠ 0 ∧ luckyMatch oaddr (clearAlignmentBit word) nalignment ∧
      clearAlignmentBit word ≠ nalignment

/-- The allocation at `oaddr` is the same in both states. -/
structure Untouched (s s' : State) (oaddr : ℕ) : Prop where
  kept : ¬ Freed s s' oaddr
  contents : ∀ x, oaddr ≤ x → x < oaddr + dataSpace s oaddr → s'.mem x = s.mem x
  size : mallocRequestSize s' (some oaddr) = mallocRequestSize s (some oaddr)
  alignment : mallocAlignment s' (some oaddr) = mallocAlignment s (some oaddr)
  zeroFill : mallocZeroFill s' (some oaddr) = mallocZeroFill s (some oaddr)
  space : dataSpace s' oaddr = dataSpace s oaddr
  headers : headers s' oaddr = headers s oaddr

/-- A kernel that has no memory. -/
def Kernel.exhausted (cfg : Config) : Kernel cfg := .ofPlacement cfg fun _ _ => 0

variable {cfg : Config} {main : Tid} {k : Kernel cfg} {t : Tid} {s s' : State} {w : World}
  {status : Tid → Status} {A A' : Arena Tag} {idle idle' : List ℕ} {b oaddr : ℕ} {l : Live}
  {c : Reallocation} {r : Option ℕ}

theorem Reallocation.posix_eq {oaddrp : Option ℕ} : c.posix k t oaddrp s = (do
    let (ret, s) ← (c.call oaddrp).run k t s
    if ret = none ∧ s.errno t = ENOMEM then .ok (ENOMEM, oaddrp, s) else .ok (0, ret, s)) := by
  cases c <;> rfl

theorem Reallocation.posix_refused {oaddrp : Option ℕ} (hrun : (c.call oaddrp).run k t s = .ok (none, s'))
    (herrno : s'.errno t = ENOMEM) : c.posix k t oaddrp s = .ok (ENOMEM, oaddrp, s') := by
  rw [posix_eq, hrun]
  exact if_pos ⟨rfl, herrno⟩

theorem Reallocation.posix_returned {oaddrp : Option ℕ} (hrun : (c.call oaddrp).run k t s = .ok (r, s'))
    (hne : ¬ (r = none ∧ s'.errno t = ENOMEM)) : c.posix k t oaddrp s = .ok (0, r, s') := by
  rw [posix_eq, hrun]
  exact if_neg hne

/-- The recorded alignment is another one after a refusal exactly when it was edited first. -/
theorem Refines.editsFirst_iff (hr : Refines cfg main s status A idle) (hb : liveAt A b = some l) :
    c.EditsFirst s l.user ↔
      (refusedAlignment l (c.alignment s l.user)).getD libAlign ≠ l.view.alignment.getD libAlign := by
  obtain ⟨hblock, _⟩ := hr.liveBlock hb
  obtain ⟨hbit, hclear⟩ := hblock.encodes.fakeWord hblock.taggable
  cases c with
  | realloc size =>
    rw [Reallocation.alignment, (hr.queries hb).2.2, refusedAlignment_self]
    exact ⟨False.elim, fun h => h rfl⟩
  | alignedRealloc nalignment size =>
    rw [Reallocation.EditsFirst, Reallocation.alignment, refusedAlignment, ne_eq, hbit]
    cases hal : l.view.alignment with
    | none => simp
    | some a =>
      rw [hclear a hal, Option.map_some, Option.getD_some, Option.getD_some]
      split
      · next hlucky => exact ⟨fun h => h.2.2.symm, fun hne => ⟨Option.some_ne_none a, hlucky, hne.symm⟩⟩
      · next hmiss => exact ⟨fun h => absurd h.2.1 hmiss, fun hne => absurd rfl hne⟩

theorem Refines.untouched_iff {al : Option ℕ} (hr : Refines cfg main s status A idle)
    (hr' : Refines cfg main s' status A' idle') (hb : liveAt A b = some l)
    (hb' : liveAt A' b = some { l with view := { l.view with alignment := al } })
    (hcontents : ∀ x, l.user ≤ x → x < b + l.len → s'.mem x = s.mem x) :
    Untouched s s' l.user ↔ al.getD libAlign = l.view.alignment.getD libAlign := by
  obtain ⟨hsize, hfill, halign⟩ := hr.queries hb
  obtain ⟨hsize', hfill', halign'⟩ := hr'.queries hb'
  dsimp only at hsize' hfill' halign'
  have hspace := hr.dataSpace_eq hb
  have hspace' := hr'.dataSpace_eq hb'
  have hheaders := hr.headers hb
  have hheaders' := hr'.headers hb'
  have hroom := (hr.dataSize hb).2.2.1
  dsimp only at hspace' hheaders'
  constructor
  · intro h
    rw [← halign', h.alignment, halign]
  · intro hal
    refine ⟨?_, fun x hx hlt => hcontents x hx (by omega), hsize'.trans hsize.symm, ?_,
      hfill'.trans hfill.symm, hspace'.trans hspace.symm, ?_⟩
    · rw [hr.freed_iff hb]
      exact fun hreturned => hr'.not_returned hb' hreturned
    · rw [halign', halign, hal]
    · rw [hheaders', hheaders, hal]

/-- In every reachable state, a reallocation that finds no storage leaves the same addresses live and reports `ENOMEM`; the old allocation is as it was exactly if its alignment was not edited first. -/
theorem refused_untouched (h : (system cfg main).Reachable w) (hmay : MayCall main w.st w.status t)
    (hlive : oaddr ∈ w.live) (hvalid : (c.call (some oaddr)).Valid) (hpos : 0 < c.size)
    (hrun : (c.call (some oaddr)).run k t w.st = .ok (none, s')) :
    Inv cfg main ⟨s', w.status, w.live⟩ ∧ s'.errno t = ENOMEM ∧
      c.posix k t (some oaddr) w.st = .ok (ENOMEM, some oaddr, s') ∧
      (Untouched w.st s' oaddr ↔ ¬ c.EditsFirst w.st oaddr) := by
  obtain ⟨A, idle, hr, hall⟩ := reachable_inv h
  obtain ⟨b, l, hb, rfl⟩ : oaddr ∈ users (liveAt A) := hall ▸ hlive
  obtain ⟨A', idle', hr', hlive', hcontents, herrno⟩ :=
    hr.reallocation hmay hb hvalid hpos (fun hne => absurd rfl hne) hrun
  have hb' := congrFun hlive' b
  rw [Function.update_self] at hb'
  refine ⟨⟨A', idle', hr', ?_⟩, herrno, Reallocation.posix_refused hrun herrno, ?_⟩
  · rw [hall, hlive']
    exact (users_edited hb (by rfl) hr.injective).symm
  · rw [hr.editsFirst_iff hb, not_not]
    exact hr.untouched_iff hr' hb hb' hcontents

private def alignedWorld : World := World.booted.call (.above defaultConfig) 0 (.memalign 256 100)

private theorem alignedWorld_reachable : (system defaultConfig 0).Reachable alignedWorld := by
  have hvalid : (Call.memalign 256 100).Valid := ⟨by decide, ⟨8, rfl⟩, by decide⟩
  exact .next World.booted_reachable (World.booted_call hvalid rfl (by decide +kernel) (by decide +kernel))

private theorem alignedWorld_live : 134488320 ∈ alignedWorld.live := by
  refine .inl ?_
  decide +kernel

/-- The kernel has no memory for 64 MiB, and `realloc` leaves the allocation as it was. -/
theorem refused_untouched_realloc : ∃ w s', (system defaultConfig 0).Reachable w ∧
    Untouched w.st s' 134488320 := by
  have hheap : alignedWorld.st.heapManager 0 ≠ 1 := by decide +kernel
  have hrun : (Call.realloc (some 134488320) (2 ^ 26)).run (.exhausted defaultConfig) 0 alignedWorld.st =
      .ok (none, (alignedWorld.call (.exhausted defaultConfig) 0
        (.realloc (some 134488320) (2 ^ 26))).st) := World.call_run (by decide +kernel) (by decide +kernel)
  have hvalid : (Call.realloc (some 134488320) (2 ^ 26)).Valid := (by decide : 2 ^ 26 < 2 ^ 64)
  obtain ⟨_, _, _, huntouched⟩ := refused_untouched (c := .realloc (2 ^ 26)) alignedWorld_reachable
    (mayCall_main nofun hheap) alignedWorld_live hvalid (by decide) hrun
  exact ⟨_, _, alignedWorld_reachable, huntouched.mpr id⟩

/-- The same request with the least alignment: it is refused too, and afterwards the allocation at a multiple of 256 is recorded as one at a multiple of 16. -/
theorem refused_edited : ∃ w s', (system defaultConfig 0).Reachable w ∧ 134488320 ∈ w.live ∧
    alignedRealloc (.exhausted defaultConfig) 0 (some 134488320) 16 (2 ^ 26) w.st = .ok (none, s') ∧
    s'.errno 0 = ENOMEM ∧ mallocAlignment w.st (some 134488320) = 256 ∧
    mallocAlignment s' (some 134488320) = 16 ∧ ¬ Untouched w.st s' 134488320 := by
  have hrun : (Call.alignedRealloc (some 134488320) 16 (2 ^ 26)).run (.exhausted defaultConfig) 0
      alignedWorld.st = .ok (none, (alignedWorld.call (.exhausted defaultConfig) 0
        (.alignedRealloc (some 134488320) 16 (2 ^ 26))).st) :=
    World.call_run (by decide +kernel) (by decide +kernel)
  have hbefore : mallocAlignment alignedWorld.st (some 134488320) = 256 := by decide +kernel
  have hafter : mallocAlignment (alignedWorld.call (.exhausted defaultConfig) 0
      (.alignedRealloc (some 134488320) 16 (2 ^ 26))).st (some 134488320) = 16 := by decide +kernel
  refine ⟨_, _, alignedWorld_reachable, alignedWorld_live, hrun, ?_, hbefore, hafter, fun h => ?_⟩
  · decide +kernel
  · have hsame := h.alignment
    rw [hbefore, hafter] at hsame
    cases hsame

end Llheap
