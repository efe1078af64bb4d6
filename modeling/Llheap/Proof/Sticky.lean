import Llheap.Proof.Programs

/-!
# Reallocation keeps contents and sticky properties

A program sees a reallocation through the queries and through the bytes. Whichever path the routine takes, in place, a copy to a plain block or a copy to an aligned one, the queries and the bytes at the address it returns are the same function of what they were at the old one. That rests on the blocks of earlier requests: where one was too short, the header of the next allocation is inside it, and what the program writes there is taken for a size.
-/

namespace Llheap

open Separation

/-- The two routines that reallocate, with their arguments besides the old address. -/
inductive Reallocation
  | realloc (size : ℕ)
  | alignedRealloc (nalignment size : ℕ)
deriving DecidableEq

namespace Reallocation

def size : Reallocation → ℕ
  | .realloc size | .alignedRealloc _ size => size

def call (oaddr : Option ℕ) : Reallocation → Call
  | .realloc size => .realloc oaddr size
  | .alignedRealloc nalignment size => .alignedRealloc oaddr nalignment size

/-- The alignment that the new address has: the old one, or the one asked for. -/
def alignment (s : State) (oaddr : ℕ) : Reallocation → ℕ
  | .realloc _ => mallocAlignment s (some oaddr)
  | .alignedRealloc nalignment _ => max nalignment libAlign

end Reallocation

variable {cfg : Config} {main : Tid} {k : Kernel cfg} {t : Tid} {s s' : State} {w w' : World}
  {status : Tid → Status} {A A' : Arena Tag} {idle : List ℕ} {b oaddr naddr nsize alignment : ℕ}
  {l : Live} {c : Reallocation} {r : Option ℕ}

/-- The data space of the block of an address. -/
def dataSpace (s : State) (addr : ℕ) : ℕ :=
  let hd := headers s addr
  dataSize hd.size addr hd.header

/-- The block that `addr` had in `s` is back: on top of a list of its bucket, or unmapped. -/
def Freed (s s' : State) (addr : ℕ) : Prop :=
  let hd := headers s addr
  if hd.mapped then ¬ Covered s'.mappings hd.header hd.size
  else ∃ list, (s'.freeHeader hd.freeHead).top list = hd.header

/-- What a reallocation of `oaddr` that returns `naddr` has done. -/
structure Kept (w w' : World) (oaddr naddr nsize alignment : ℕ) : Prop where
  live : naddr ∈ w'.live
  gone : oaddr ∈ w'.live ↔ naddr = oaddr
  freed : Freed w.st w'.st oaddr ↔ naddr ≠ oaddr
  size : mallocRequestSize w'.st (some naddr) = nsize
  room : nsize ≤ dataSpace w'.st naddr
  contents : ∀ i < min (mallocRequestSize w.st (some oaddr)) nsize,
    w'.st.mem (naddr + i) = w.st.mem (oaddr + i)
  zeroFill : mallocZeroFill w'.st (some naddr) = mallocZeroFill w.st (some oaddr)
  zeroed : mallocZeroFill w.st (some oaddr) → ∀ i, mallocRequestSize w.st (some oaddr) ≤ i → i < nsize →
    w'.st.mem (naddr + i) = 0
  recorded : mallocAlignment w'.st (some naddr) = alignment
  aligned : alignment ∣ naddr

/-! ### Queries -/

theorem Refines.queries (hr : Refines cfg main s status A idle) (hb : liveAt A b = some l) :
    mallocRequestSize s (some l.user) = l.view.size ∧ mallocZeroFill s (some l.user) = l.view.zeroFill ∧
      mallocAlignment s (some l.user) = l.view.alignment.getD libAlign := by
  obtain ⟨hblock, _⟩ := hr.liveBlock hb
  exact ⟨hblock.encodes.mallocRequestSize hblock.taggable, hblock.encodes.mallocZeroFill hblock.taggable,
    hblock.encodes.mallocAlignment hblock.taggable⟩

theorem Refines.dataSpace_eq (hr : Refines cfg main s status A idle) (hb : liveAt A b = some l) :
    dataSpace s l.user = b + l.len - l.user :=
  (hr.dataSize hb).1

theorem Refines.freed_iff (hr : Refines cfg main s status A idle) (hb : liveAt A b = some l) :
    Freed s s' l.user ↔ Returned s' b l := by
  unfold Freed Returned
  rw [hr.headers hb]
  cases l.view.origin with
  | bucket f => rfl
  | mapped => rfl

theorem Refines.not_returned (hr : Refines cfg main s status A idle) (hb : liveAt A b = some l) :
    ¬ Returned s b l := by
  have hpiece := liveAt_eq_some.mp hb
  obtain ⟨hblock, _⟩ := hr.liveBlock hb
  unfold Returned
  cases horigin : l.view.origin with
  | bucket f =>
    rintro ⟨list, htop⟩
    obtain ⟨h, hf⟩ := hblock.bucket f horigin
    obtain ⟨own, remote, hown, hremote, _, hiff⟩ := (hr.blocks.bucket h f _ hf).listed
    have hpos := hr.heaps.laid.pos _ _ hpiece
    have hlisted : b ∈ own ++ remote := by
      cases list with
      | freeList =>
        obtain ⟨rest, rfl, _⟩ := hown.exists_cons (by rw [FreeHeader.top] at htop; omega)
        rw [← htop]
        exact List.mem_append_left _ List.mem_cons_self
      | remoteList =>
        obtain ⟨rest, rfl, _⟩ := hremote.exists_cons (by rw [FreeHeader.top] at htop; omega)
        rw [← htop]
        exact List.mem_append_right _ List.mem_cons_self
    have hfree := (hiff b).mp hlisted
    rw [hpiece] at hfree
    cases hfree
  | mapped => exact not_not.mpr (hr.heaps.laid.covered _ _ hpiece)

/-! ### The outcome -/

theorem Refines.kept {A' : Arena Tag} {idle' : List ℕ} (hr : Refines cfg main s status A idle)
    (hr' : Refines cfg main s' status A' idle') (hb : liveAt A b = some l)
    (hre : Reallocated (liveAt A) (liveAt A') s s' b l naddr nsize alignment) :
    (Freed s s' l.user ↔ naddr ≠ l.user) ∧ mallocRequestSize s' (some naddr) = nsize ∧
      nsize ≤ dataSpace s' naddr ∧
      (∀ i < min (mallocRequestSize s (some l.user)) nsize, s'.mem (naddr + i) = s.mem (l.user + i)) ∧
      mallocZeroFill s' (some naddr) = mallocZeroFill s (some l.user) ∧
      (mallocZeroFill s (some l.user) → ∀ i, mallocRequestSize s (some l.user) ≤ i → i < nsize →
        s'.mem (naddr + i) = 0) ∧
      mallocAlignment s' (some naddr) = alignment ∧ alignment ∣ naddr := by
  obtain ⟨b', l', rfl, hlive, hiff, hsame, hfresh, rfl, hzero, rfl, hcontents, hzeroed⟩ := hre
  have hb' : liveAt A' b' = some l' := by rw [hlive, Function.update_self]
  obtain ⟨hsize, hfill, halign⟩ := hr'.queries hb'
  obtain ⟨hosize, hofill, _⟩ := hr.queries hb
  obtain ⟨_, _, _, hdvd⟩ := hr'.alignment_bounds hb'
  have hroom := (hr'.dataSize hb').2.2.1
  rw [hr.freed_iff hb, hosize, hofill, hr'.dataSpace_eq hb']
  refine ⟨⟨fun hreturned hu => ?_, fun hu => (hfresh fun hbb => hu (hiff.mp hbb)).2⟩, hsize, by omega,
    hcontents, hfill.trans hzero, hzeroed, halign, hdvd⟩
  obtain rfl := hiff.mpr hu
  obtain ⟨hlen, horigin⟩ := hsame rfl
  refine hr'.not_returned hb' ?_
  unfold Returned at hreturned ⊢
  rwa [hlen, horigin]

theorem refusedAlignment_self : refusedAlignment l (l.view.alignment.getD libAlign) = l.view.alignment := by
  unfold refusedAlignment
  cases l.view.alignment with
  | none => rfl
  | some a => simp

theorem Refines.reallocation (hr : Refines cfg main s status A idle) (hmay : MayCall main s status t)
    (hb : liveAt A b = some l) (hvalid : (c.call (some l.user)).Valid) (hpos : 0 < c.size)
    (hfits : r ≠ none → ∀ n ∈ (c.call (some l.user)).request s, Fits s.heapMaster n)
    (h : (c.call (some l.user)).run k t s = .ok (r, s')) :
    ∃ A' idle', Refines cfg main s' status A' idle' ∧
      AlignedReallocOutcome (liveAt A) (liveAt A') t s s' b l c.size (c.alignment s l.user) r := by
  cases c with
  | realloc size =>
    obtain ⟨A', idle', hr', _, _, hout⟩ := hr.realloc hmay hb hpos.ne' hvalid hfits h
    rw [Reallocation.alignment, (hr.queries hb).2.2]
    have hafter := (hr.dataSize hb).2.1
    exact ⟨A', idle', hr', hout.aligned hb (by omega) refusedAlignment_self⟩
  | alignedRealloc nalignment size =>
    obtain ⟨hsize, hpow, halign⟩ := hvalid
    obtain ⟨A', idle', hr', _, _, hout⟩ :=
      hr.alignedRealloc hmay hb hpos.ne' hsize hpow halign hfits h
    exact ⟨A', idle', hr', hout⟩

/-- In every reachable state, a reallocation that returns an address keeps contents and sticky properties. -/
theorem reallocation_keeps (h : (system cfg main).Reachable w) (hpos : 0 < c.size)
    (hstep : (system cfg main).step w (.call k t (c.call (some oaddr))) w')
    (hrun : (c.call (some oaddr)).run k t w.st = .ok (some naddr, w'.st)) :
    Kept w w' oaddr naddr c.size (c.alignment w.st oaddr) := by
  obtain ⟨⟨hmay, hvalid, hold, hfits⟩, r, hrun', hlive', _⟩ := hstep
  cases hrun.symm.trans hrun'
  obtain ⟨A, idle, hr, hlive⟩ := reachable_inv h
  have hcall : (c.call (some oaddr)).oaddr = some oaddr ∧
      (c.call (some oaddr)).gives (some naddr) = true := by
    cases c <;> exact ⟨rfl, rfl⟩
  rw [hcall.1, hcall.2] at hlive'
  obtain ⟨b, l, hb, rfl⟩ : oaddr ∈ users (liveAt A) := hlive ▸ hold oaddr hcall.1
  obtain ⟨A', idle', hr', hre⟩ := hr.reallocation hmay hb hvalid hpos (fun _ => hfits) hrun
  obtain ⟨hfreed, hsize, hroom, hcontents, hfill, hzeroed, halign, hdvd⟩ := hr.kept hr' hb hre
  refine ⟨?_, ?_, hfreed, hsize, hroom, hcontents, hfill, hzeroed, halign, hdvd⟩
  · rw [hlive']
    exact .inl rfl
  · rw [hlive']
    constructor
    · rintro (hu | ⟨_, hu⟩)
      · exact Option.some.inj hu
      · exact absurd ⟨rfl, rfl⟩ hu
    · rintro rfl
      exact .inl rfl

private def zeroFilled : World := World.booted.call (.above defaultConfig) 0 (.cmemalign 64 1 100)

private def enlarged : World := zeroFilled.call (.above defaultConfig) 0 (.realloc (some 134488128) 300)

private theorem zeroFilled_reachable : (system defaultConfig 0).Reachable zeroFilled := by
  have hvalid : (Call.cmemalign 64 1 100).Valid := ⟨by decide, ⟨6, rfl⟩, by decide⟩
  exact .next World.booted_reachable (World.booted_call hvalid rfl (by decide +kernel) (by decide +kernel))

/-- The block is too small for the new size, so the contents move to another one. -/
theorem reallocation_keeps_moved : ∃ w w' naddr, (system defaultConfig 0).Reachable w ∧
    Kept w w' 134488128 naddr 300 (mallocAlignment w.st (some 134488128)) ∧ naddr ≠ 134488128 := by
  have hheap : zeroFilled.st.heapManager 0 ≠ 1 := by decide +kernel
  have hlive : 134488128 ∈ zeroFilled.live := by
    refine .inl ?_
    decide +kernel
  have hok : CallOk 0 zeroFilled 0 (.realloc (some 134488128) 300) := by
    refine ⟨mayCall_main nofun hheap, ?_, fun u hu => Option.some.inj hu ▸ hlive, ?_⟩
    · exact (by decide : 300 < 2 ^ 64)
    · decide +kernel
  have hrun : (Call.realloc (some 134488128) 300).run (.above defaultConfig) 0 zeroFilled.st =
      .ok (some 134488320, enlarged.st) := World.call_run (by decide +kernel) (by decide +kernel)
  have hstep : (system defaultConfig 0).step zeroFilled
      (.call (.above defaultConfig) 0 (.realloc (some 134488128) 300)) enlarged :=
    World.call_step hok (by decide +kernel)
  have hkept := reallocation_keeps (c := .realloc 300) zeroFilled_reachable (by decide) hstep hrun
  exact ⟨zeroFilled, enlarged, 134488320, zeroFilled_reachable, hkept, by decide⟩

/-- Thread 0 lowers the crossover point to the size of a bucket. -/
private def lowered : World where
  st := ((mallopt mMmapThreshold 81920 World.booted.st).getD (0, State.unbooted)).2
  status := World.booted.status
  live := World.booted.live

/-- It allocates 81919 bytes at 134488080, for which the block is 15 bytes short. -/
private def tooShort : World := lowered.call (.above defaultConfig) 0 (.malloc 81919)

/-- The header of its next eight bytes, at 134570000, is in the first allocation. -/
private def nested : World := tooShort.call (.above defaultConfig) 0 (.malloc 8)

private def overwritten : World :=
  { nested with st := { nested.st with mem := Function.update nested.st.mem (134488080 + 81912) 20 } }

private def lost : World := overwritten.call (.above defaultConfig) 0 (.realloc (some 134570000) 20)

private theorem overwritten_reachable : (programs defaultConfig 0).Reachable overwritten := by
  have hopt : (programs defaultConfig 0).step World.booted (.mallopt mMmapThreshold 81920) lowered :=
    ⟨⟨_, Result.eq_ok (by decide +kernel) (0, State.unbooted)⟩, rfl, rfl⟩
  have hvalid : (Call.malloc 81919).Valid := (by decide : 81919 < 2 ^ 64)
  have hshort : (programs defaultConfig 0).step lowered (.call (.above defaultConfig) 0 (.malloc 81919)) tooShort :=
    World.call_made ⟨by decide, .inr rfl, hvalid, by simp [Call.oaddr]⟩ (by decide +kernel)
  have hvalid' : (Call.malloc 8).Valid := (by decide : 8 < 2 ^ 64)
  have hnested : (programs defaultConfig 0).step tooShort (.call (.above defaultConfig) 0 (.malloc 8)) nested :=
    World.call_made ⟨by decide, .inr rfl, hvalid', by simp [Call.oaddr]⟩ (by decide +kernel)
  have hlive : 134488080 ∈ nested.live := by
    refine .inr ⟨.inl ?_, by simp [Call.oaddr]⟩
    decide +kernel
  have hwrite : (programs defaultConfig 0).step nested (.write 134488080 81912 20) overwritten :=
    ⟨hlive, by decide +kernel, rfl, rfl, rfl⟩
  exact .next (.next (.next (.next (reachable_program World.booted_reachable) hopt) hshort) hnested) hwrite

/-- After a request whose block was too short, a reallocation that is granted and fits loses contents. -/
theorem reallocation_loses : ∃ w w' oaddr naddr, (programs defaultConfig 0).Reachable w ∧
    CallOk 0 w 0 (.realloc (some oaddr) 20) ∧
    (programs defaultConfig 0).step w (.call (.above defaultConfig) 0 (.realloc (some oaddr) 20)) w' ∧
    (Call.realloc (some oaddr) 20).run (.above defaultConfig) 0 w.st = .ok (some naddr, w'.st) ∧
    ¬ Kept w w' oaddr naddr 20 (mallocAlignment w.st (some oaddr)) := by
  have hheap : overwritten.st.heapManager 0 ≠ 1 := by decide +kernel
  have hlive : 134570000 ∈ overwritten.live := by
    refine .inl ?_
    decide +kernel
  have hok : CallOk 0 overwritten 0 (.realloc (some 134570000) 20) := by
    refine ⟨mayCall_main nofun hheap, ?_, fun u hu => Option.some.inj hu ▸ hlive, ?_⟩
    · exact (by decide : 20 < 2 ^ 64)
    · decide +kernel
  have hrun : (Call.realloc (some 134570000) 20).run (.above defaultConfig) 0 overwritten.st =
      .ok (some 134570032, lost.st) := World.call_run (by decide +kernel) (by decide +kernel)
  have hstep : (programs defaultConfig 0).step overwritten
      (.call (.above defaultConfig) 0 (.realloc (some 134570000) 20)) lost :=
    World.call_made ⟨hok.may.runs, hok.may.started, hok.valid, hok.old⟩ (by rw [hrun]; rfl)
  refine ⟨overwritten, lost, 134570000, 134570032, overwritten_reachable, hok, hstep, hrun, fun hkept => ?_⟩
  have hsize : mallocRequestSize overwritten.st (some 134570000) = 20 := by decide +kernel
  have hbyte := hkept.contents 16 (by rw [hsize]; decide)
  have hdiffers : lost.st.mem (134570032 + 16) ≠ overwritten.st.mem (134570000 + 16) := by decide +kernel
  exact hdiffers hbyte

end Llheap
