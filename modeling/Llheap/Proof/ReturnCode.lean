import Llheap.Proof.Refusal

/-!
# The return code of the posix variants

`posix_realloc` and `posix_aligned_realloc` report through their return code whether the caller's pointer still names the old allocation. They tell a refusal from a null result by `errno`, which nobody resets.
-/

namespace Llheap

open Separation

namespace Reallocation

/-- A routine that returned `r` has found no storage: null is also what it returns when it frees. -/
def Refused (oaddrp r : Option ℕ) (c : Reallocation) : Prop := r = none ∧ (c.size = 0 → oaddrp = none)

/-- The call frees, and `errno` is left over from an earlier refusal. -/
def Stale (s : State) (t : Tid) (oaddrp : Option ℕ) (c : Reallocation) : Prop :=
  c.size = 0 ∧ oaddrp ≠ none ∧ s.errno t = ENOMEM

end Reallocation

/-- The return code and the pointer say what the routine, which returned `r`, has done. -/
structure Reports (c : Reallocation) (w' : World) (oaddrp r : Option ℕ) (code : ℕ) (ptr : Option ℕ) : Prop where
  refused_iff : code = ENOMEM ↔ c.Refused oaddrp r
  unchanged : c.Refused oaddrp r → ptr = oaddrp
  returned : ¬ c.Refused oaddrp r → code = 0 ∧ ptr = r
  size : ¬ c.Refused oaddrp r → ∀ u ∈ ptr, mallocRequestSize w'.st (some u) = c.size
  owned : ∀ u ∈ ptr, u ∈ w'.live

/-- A program's world, and the pointer it passes to the posix variants. -/
structure Held where
  world : World
  oaddrp : Option ℕ

inductive HeldLabel (cfg : Config)
  | posix (k : Kernel cfg) (t : Tid) (c : Reallocation)
  /-- the pointer gets another value -/
  | assign
  /-- anything else that the program does, besides freeing what the pointer names -/
  | other (lab : Label cfg)

def posixSystem (cfg : Config) (main : Tid) : TransitionSystem Held (HeldLabel cfg) where
  init p := (system cfg main).init p.world ∧ p.oaddrp = none
  step p lab p' := match lab with
    | .posix k t c => (system cfg main).step p.world (.call k t (c.call p.oaddrp)) p'.world ∧
        ∃ code, c.posix k t p.oaddrp p.world.st = .ok (code, p'.oaddrp, p'.world.st)
    | .assign => p'.world = p.world ∧ ∀ u ∈ p'.oaddrp, u ∈ p.world.live
    | .other lab => (system cfg main).step p.world lab p'.world ∧ p'.oaddrp = p.oaddrp ∧
        ∀ u ∈ p.oaddrp, u ∈ p'.world.live

/-- No posix call frees while `errno` is left over. -/
def NotStale {cfg : Config} (p : Held) : HeldLabel cfg → Prop
  | .posix _ t c => ¬ c.Stale p.world.st t p.oaddrp
  | _ => True

variable {cfg : Config} {main : Tid} {k : Kernel cfg} {t : Tid} {s s' : State} {w w' : World}
  {status : Tid → Status} {A A' : Arena Tag} {idle idle' : List ℕ} {b code : ℕ} {l : Live}
  {c : Reallocation} {oaddrp ptr r : Option ℕ} {p : Held}

/-! ### What the routines leave in `errno` -/

theorem Refines.outcome_size {al : Option ℕ} {size : ℕ} {L : ℕ → Option Live}
    (hr' : Refines cfg main s' status A' idle') (hout : Outcome L (liveAt A') t s' size al r) :
    (r = none → s'.errno t = ENOMEM) ∧ ∀ u ∈ r, mallocRequestSize s' (some u) = size := by
  cases r with
  | none => exact ⟨fun _ => hout.2, by simp⟩
  | some user =>
    obtain ⟨b, n, origin, _, hlive, _⟩ := hout
    have hb : liveAt A' b = some ⟨n, user, ⟨origin, false, size, al⟩⟩ := by rw [hlive, Function.update_self]
    refine ⟨fun hnone => absurd hnone (Option.some_ne_none _), fun u hu => ?_⟩
    obtain rfl := Option.some.inj hu
    exact (hr'.queries hb).1

theorem Refines.reallocation_errno (hr : Refines cfg main s status A idle)
    (hmay : MayCall main s status t) (hold : ∀ u ∈ oaddrp, u ∈ users (liveAt A))
    (hvalid : (c.call oaddrp).Valid) (hfits : ∀ n ∈ (c.call oaddrp).request s, Fits s.heapMaster n)
    (h : (c.call oaddrp).run k t s = .ok (r, s')) :
    (c.Refused oaddrp r → s'.errno t = ENOMEM) ∧
      (c.size = 0 → oaddrp ≠ none → r = none ∧ s'.errno t = s.errno t) ∧
      ∀ u ∈ r, mallocRequestSize s' (some u) = c.size := by
  cases oaddrp with
  | none =>
    have hout : (r = none → s'.errno t = ENOMEM) ∧ ∀ u ∈ r, mallocRequestSize s' (some u) = c.size := by
      cases c with
      | realloc size =>
        obtain ⟨A', idle', hr', _, _, hout⟩ := hr.doMalloc hmay hvalid (fun _ => hfits _ rfl) h
        exact hr'.outcome_size hout
      | alignedRealloc nalignment size =>
        obtain ⟨hsize, hpow, halign⟩ := hvalid
        obtain ⟨A', idle', hr', _, _, hout⟩ :=
          hr.memalignNoStats hmay hsize hpow halign (fun _ => hfits _ rfl) h
        exact hr'.outcome_size hout
    exact ⟨fun href => hout.1 href.1, fun _ hne => absurd rfl hne, hout.2⟩
  | some u =>
    obtain ⟨b, l, hb, rfl⟩ := hold u rfl
    by_cases hzero : c.size = 0
    · obtain ⟨s₁, A', hfree, _, _, _, hcontrol, _⟩ := hr.doFree hb t
      have hfreed : r = none ∧ s' = s₁ := by
        cases c with
        | realloc size =>
          obtain rfl : size = 0 := hzero
          rw [Reallocation.call, Call.run, Llheap.realloc] at h
          dsimp only at h
          rw [if_pos rfl, hfree] at h
          cases h
          exact ⟨rfl, rfl⟩
        | alignedRealloc nalignment size =>
          obtain rfl : size = 0 := hzero
          rw [Reallocation.call, Call.run, Llheap.alignedRealloc] at h
          dsimp only at h
          rw [if_pos rfl, hfree] at h
          cases h
          exact ⟨rfl, rfl⟩
      obtain ⟨rfl, rfl⟩ := hfreed
      refine ⟨fun href => absurd (href.2 hzero) (Option.some_ne_none _),
        fun _ _ => ⟨rfl, congrFun hcontrol.errno t⟩, by simp⟩
    · obtain ⟨A', idle', hr', hout⟩ :=
        hr.reallocation hmay hb hvalid (Nat.pos_of_ne_zero hzero) (fun _ => hfits) h
      cases r with
      | none =>
        exact ⟨fun _ => hout.2.2, fun hz => absurd hz hzero, by simp⟩
      | some naddr =>
        obtain ⟨b', l', rfl, hlive, _, _, _, hsize, _⟩ := hout
        have hb' : liveAt A' b' = some l' := by rw [hlive, Function.update_self]
        refine ⟨fun href => absurd href.1 (Option.some_ne_none _), fun hz => absurd hz hzero,
          fun u hu => ?_⟩
        obtain rfl := Option.some.inj hu
        exact (hr'.queries hb').1.trans hsize

/-! ### The return code -/

private theorem reports_iff (h : (system cfg main).Reachable w)
    (hstep : (system cfg main).step w (.call k t (c.call oaddrp)) w')
    (hrun : (c.call oaddrp).run k t w.st = .ok (r, w'.st))
    (hposix : c.posix k t oaddrp w.st = .ok (code, ptr, w'.st)) :
    Reports c w' oaddrp r code ptr ↔ ¬ c.Stale w.st t oaddrp := by
  obtain ⟨⟨hmay, hvalid, hold, hfits⟩, r', hrun', hlive', _⟩ := hstep
  cases hrun.symm.trans hrun'
  obtain ⟨A, idle, hr, hall⟩ := reachable_inv h
  have hcall : (c.call oaddrp).oaddr = oaddrp ∧
      (c.call oaddrp).gives r = (oaddrp.isSome && (r.isSome || c.size == 0)) := by
    cases c <;> exact ⟨rfl, rfl⟩
  rw [hcall.1] at hold hlive'
  rw [hcall.2] at hlive'
  obtain ⟨hrefused, hfreed, hsize⟩ :=
    hr.reallocation_errno hmay (fun u hu => hall ▸ hold u hu) hvalid hfits hrun
  have hreturned : ∀ u ∈ r, u ∈ w'.live := fun u hu => hlive' ▸ .inl hu
  by_cases href : c.Refused oaddrp r
  · have hcode : ENOMEM = code ∧ oaddrp = ptr := by
      obtain rfl := href.1
      cases (Reallocation.posix_refused hrun (hrefused href)).symm.trans hposix
      exact ⟨rfl, rfl⟩
    obtain ⟨rfl, rfl⟩ := hcode
    have hkept : ∀ u ∈ oaddrp, u ∈ w'.live := by
      intro u hu
      have hne : c.size ≠ 0 := fun hz => by rw [href.2 hz] at hu; cases hu
      rw [hlive', href.1]
      refine .inr ⟨hold u hu, fun hgone => ?_⟩
      rw [Option.isSome_none, beq_false_of_ne hne, Bool.or_false, Bool.and_false] at hgone
      cases hgone.1
    constructor
    · rintro _ ⟨hzero, hsome, _⟩
      exact hsome (href.2 hzero)
    · exact fun _ => ⟨⟨fun _ => href, fun _ => rfl⟩, fun _ => rfl, fun hnot => absurd href hnot,
        fun hnot => absurd href hnot, hkept⟩
  · by_cases hstale : r = none ∧ w'.st.errno t = ENOMEM
    · obtain ⟨hzero, hsome⟩ : c.size = 0 ∧ oaddrp ≠ none :=
        Classical.not_imp.mp fun himp => href ⟨hstale.1, himp⟩
      obtain ⟨_, herrno⟩ := hfreed hzero hsome
      obtain ⟨rfl, hleft⟩ := hstale
      constructor
      · intro hreports
        cases (Reallocation.posix_refused hrun hleft).symm.trans hposix
        exact absurd (hreports.refused_iff.mp rfl) href
      · exact fun hnot => absurd ⟨hzero, hsome, herrno.symm.trans hleft⟩ hnot
    · have hcode : 0 = code ∧ r = ptr := by
        cases (Reallocation.posix_returned hrun hstale).symm.trans hposix
        exact ⟨rfl, rfl⟩
      obtain ⟨rfl, rfl⟩ := hcode
      constructor
      · rintro _ ⟨hzero, hsome, herrno⟩
        obtain ⟨hnone, hsame⟩ := hfreed hzero hsome
        exact hstale ⟨hnone, hsame.trans herrno⟩
      · exact fun _ => ⟨⟨fun hcode => absurd hcode (by decide), fun hyes => absurd hyes href⟩,
          fun hyes => absurd hyes href, fun _ => ⟨rfl, rfl⟩, fun _ => hsize, hreturned⟩

/-- While no posix call frees with a stale `errno`, the pointer names no freed storage. -/
theorem held_inv (h : ((posixSystem cfg main).restrict NotStale).Reachable p) :
    (system cfg main).Reachable p.world ∧ ∀ u ∈ p.oaddrp, u ∈ p.world.live := by
  refine h.invariant (I := fun p => (system cfg main).Reachable p.world ∧ ∀ u ∈ p.oaddrp, u ∈ p.world.live)
    ?_ ?_
  · rintro p ⟨hinit, hnone⟩
    exact ⟨.start hinit, fun u hu => by rw [hnone] at hu; cases hu⟩
  · rintro p lab p' ⟨hreach, hlive⟩ ⟨hok, hstep⟩
    cases lab with
    | posix k t c =>
      obtain ⟨hcall, code, hposix⟩ := hstep
      obtain ⟨_, r, hrun, _⟩ := id hcall
      exact ⟨.next hreach hcall, ((reports_iff hreach hcall hrun hposix).mpr hok).owned⟩
    | assign =>
      obtain ⟨hsame, hheld⟩ := hstep
      rw [hsame]
      exact ⟨hreach, hheld⟩
    | other lab =>
      obtain ⟨hother, hsame, hheld⟩ := hstep
      rw [hsame]
      exact ⟨.next hreach hother, hheld⟩

/-- In every reachable state and for every pointer that is null or live, a posix variant reports truly exactly if it does not free while `errno` is left over from an earlier refusal. In a run without such calls the pointer never names freed storage. -/
theorem return_code_exact :
    (∀ (w w' : World) (k : Kernel cfg) (t : Tid) (c : Reallocation) (oaddrp r ptr : Option ℕ) (code : ℕ),
      (system cfg main).Reachable w → (system cfg main).step w (.call k t (c.call oaddrp)) w' →
      (c.call oaddrp).run k t w.st = .ok (r, w'.st) →
      c.posix k t oaddrp w.st = .ok (code, ptr, w'.st) →
      (Reports c w' oaddrp r code ptr ↔ ¬ c.Stale w.st t oaddrp)) ∧
    ∀ p, ((posixSystem cfg main).restrict NotStale).Reachable p → ∀ u ∈ p.oaddrp, u ∈ p.world.live :=
  ⟨fun _ _ _ _ _ _ _ _ _ h hstep hrun hposix => reports_iff h hstep hrun hposix,
    fun _ h => (held_inv h).2⟩

private def eight : World := World.booted.call (.above defaultConfig) 0 (.malloc 8)

private theorem eight_step : (system defaultConfig 0).step World.booted
    (.call (.above defaultConfig) 0 (.malloc 8)) eight ∧ 134488080 ∈ eight.live := by
  have hvalid : (Call.malloc 8).Valid := (by decide : 8 < 2 ^ 64)
  refine ⟨World.booted_call hvalid rfl (by decide +kernel) (by decide +kernel), .inl ?_⟩
  decide +kernel

private def grown : World := eight.call (.above defaultConfig) 0 (.realloc (some 134488080) 300)

/-- An allocation of eight bytes grows: the pointer gets the new address, which is live. -/
theorem return_code_exact_grown : Reports (.realloc 300) grown (some 134488080) (some 134488112) 0
    (some 134488112) ∧ ∃ p, ((posixSystem defaultConfig 0).restrict NotStale).Reachable p ∧
      p.oaddrp = some 134488112 ∧ 134488112 ∈ p.world.live := by
  obtain ⟨height, hlive⟩ := eight_step
  have hheap : eight.st.heapManager 0 ≠ 1 := by decide +kernel
  have hok : CallOk 0 eight 0 (.realloc (some 134488080) 300) := by
    refine ⟨mayCall_main nofun hheap, ?_, fun u hu => Option.some.inj hu ▸ hlive, ?_⟩
    · exact (by decide : 300 < 2 ^ 64)
    · decide +kernel
  have hgrow : (system defaultConfig 0).step eight
      (.call (.above defaultConfig) 0 (.realloc (some 134488080) 300)) grown :=
    World.call_step hok (by decide +kernel)
  have hrun : (Call.realloc (some 134488080) 300).run (.above defaultConfig) 0 eight.st =
      .ok (some 134488112, grown.st) := World.call_run (by decide +kernel) (by decide +kernel)
  have hposix : (Reallocation.realloc 300).posix (.above defaultConfig) 0 (some 134488080) eight.st =
      .ok (0, some 134488112, grown.st) :=
    Reallocation.posix_returned hrun fun h => Option.some_ne_none _ h.1
  have hfresh : ¬ (Reallocation.realloc 300).Stale eight.st 0 (some 134488080) := fun h => nomatch h.1
  have hreach : (system defaultConfig 0).Reachable eight := .next World.booted_reachable height
  have hstart : ((posixSystem defaultConfig 0).restrict NotStale).Reachable ⟨World.booted, none⟩ :=
    .start ⟨⟨⟨_, heapManagerCtor_default⟩, rfl, rfl⟩, rfl⟩
  have hother : ((posixSystem defaultConfig 0).restrict NotStale).Reachable ⟨eight, none⟩ :=
    hstart.next (l := .other (.call (.above defaultConfig) 0 (.malloc 8))) ⟨trivial, height, rfl, nofun⟩
  have hassign : ((posixSystem defaultConfig 0).restrict NotStale).Reachable ⟨eight, some 134488080⟩ :=
    hother.next (l := .assign) ⟨trivial, rfl, fun u hu => Option.some.inj hu ▸ hlive⟩
  have hgrown : ((posixSystem defaultConfig 0).restrict NotStale).Reachable ⟨grown, some 134488112⟩ :=
    hassign.next (l := .posix (.above defaultConfig) 0 (.realloc 300)) ⟨hfresh, hgrow, 0, hposix⟩
  exact ⟨(return_code_exact.1 eight grown _ 0 (.realloc 300) _ _ _ _ hreach hgrow hrun hposix).mpr hfresh,
    _, hgrown, rfl, return_code_exact.2 _ hgrown _ rfl⟩

private def leftOver : World := eight.call (.exhausted defaultConfig) 0 (.malloc (2 ^ 26))

private def freedAfter : World := leftOver.call (.above defaultConfig) 0 (.realloc (some 134488080) 0)

private theorem leftOver_step : (system defaultConfig 0).step eight
    (.call (.exhausted defaultConfig) 0 (.malloc (2 ^ 26))) leftOver := by
  have hheap : eight.st.heapManager 0 ≠ 1 := by decide +kernel
  have hok : CallOk 0 eight 0 (.malloc (2 ^ 26)) := by
    refine ⟨mayCall_main nofun hheap, ?_, nofun, ?_⟩
    · exact (by decide : 2 ^ 26 < 2 ^ 64)
    · decide +kernel
  exact World.call_step hok (by decide +kernel)

/-- After a refused request, `posix_realloc` to size 0 frees the allocation and reports that it could not: the caller's pointer still names it. -/
theorem stale_errno_reported : ∃ w w', (system defaultConfig 0).Reachable w ∧ 134488080 ∈ w.live ∧
    (system defaultConfig 0).step w (.call (.above defaultConfig) 0 (.realloc (some 134488080) 0)) w' ∧
    posixRealloc (.above defaultConfig) 0 (some 134488080) 0 w.st =
      .ok (ENOMEM, some 134488080, w'.st) ∧
    134488080 ∉ w'.live ∧ Freed w.st w'.st 134488080 := by
  have hreach : (system defaultConfig 0).Reachable leftOver :=
    .next (.next World.booted_reachable eight_step.1) leftOver_step
  have hlive : 134488080 ∈ leftOver.live := .inr ⟨eight_step.2, fun h => nomatch h.2⟩
  have hheap : leftOver.st.heapManager 0 ≠ 1 := by decide +kernel
  have hok : CallOk 0 leftOver 0 (.realloc (some 134488080) 0) := by
    refine ⟨mayCall_main nofun hheap, ?_, fun u hu => Option.some.inj hu ▸ hlive, ?_⟩
    · exact (by decide : 0 < 2 ^ 64)
    · decide
  have hrun : (Call.realloc (some 134488080) 0).run (.above defaultConfig) 0 leftOver.st =
      .ok (none, freedAfter.st) := World.call_run (by decide +kernel) (by decide +kernel)
  have hstep : (system defaultConfig 0).step leftOver
      (.call (.above defaultConfig) 0 (.realloc (some 134488080) 0)) freedAfter :=
    World.call_step hok (by decide +kernel)
  have herrno : freedAfter.st.errno 0 = ENOMEM := by decide +kernel
  have hfreed : ¬ (headers leftOver.st 134488080).mapped ∧
      (freedAfter.st.freeHeader (headers leftOver.st 134488080).freeHead).freeList =
        (headers leftOver.st 134488080).header := by decide +kernel
  refine ⟨leftOver, freedAfter, hreach, hlive, hstep,
    Reallocation.posix_refused (c := .realloc 0) hrun herrno, ?_, ?_⟩
  · rw [freedAfter, World.call_live hrun]
    rintro (hu | ⟨_, hu⟩)
    · cases hu
    · exact hu ⟨rfl, rfl⟩
  · rw [Freed, if_neg hfreed.1]
    exact ⟨.freeList, hfreed.2⟩

end Llheap
