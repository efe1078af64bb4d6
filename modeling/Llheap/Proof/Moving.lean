import Llheap.Proof.Editing

/-!
# Reallocating

A block is reallocated in place, or its contents move to a new allocation and it is freed. Either way the address that is returned has the old contents, the new size, and the fill property; and when no storage is found nothing has changed.
-/

namespace Llheap

variable {cfg : Config} {main : Tid} {k : Kernel cfg} {t : Tid} {s s₁ s' : State} {r : Option ℕ}
  {status : Tid → Status} {A A₁ A' : Arena Tag} {idle idle₁ : List ℕ} {b b' nsize naddr alignment : ℕ}
  {l l' : Live} {al : Option ℕ}

theorem SameControl.trans {s'' : State} (hs : SameControl s s') (hs' : SameControl s' s'') :
    SameControl s s'' :=
  ⟨hs'.heapMaster.trans hs.heapMaster, hs'.bootFlag.trans hs.bootFlag,
    hs'.heapManager.trans hs.heapManager, hs'.errno.trans hs.errno⟩

theorem SameControl.params (hs : SameControl s s') : SameParams s.heapMaster s'.heapMaster := by
  rw [hs.heapMaster]
  exact ⟨rfl, rfl, rfl⟩

theorem Frame.mono {L L' : ℕ → Option Live} (hframe : Frame L s s')
    (hsub : ∀ c l, L' c = some l → L c = some l) : Frame L' s s' :=
  fun c l hc => hframe c l (hsub c l hc)

theorem Frame.except {L : ℕ → Option Live} (hframe : Frame L s s') (b : ℕ) :
    Frame (Function.update L b none) s s' := by
  refine hframe.mono fun c l hc => ?_
  by_cases hcb : c = b
  · subst c
    rw [Function.update_self] at hc
    cases hc
  · rwa [Function.update_of_ne hcb] at hc

/-- The allocation of the block `b` is at `naddr` now: in the same block, or in one that was not live. -/
def Reallocated (L L' : ℕ → Option Live) (s s' : State) (b : ℕ) (l : Live)
    (naddr nsize alignment : ℕ) : Prop :=
  ∃ b' l', l'.user = naddr ∧ L' = Function.update (Function.update L b none) b' (some l') ∧
    (b' = b ↔ naddr = l.user) ∧ (b' = b → l'.len = l.len ∧ l'.view.origin = l.view.origin) ∧
    (b' ≠ b → L b' = none ∧ Returned s' b l) ∧
    l'.view.size = nsize ∧ l'.view.zeroFill = l.view.zeroFill ∧
    l'.view.alignment.getD libAlign = alignment ∧
    (∀ i < min l.view.size nsize, s'.mem (naddr + i) = s.mem (l.user + i)) ∧
    (l.view.zeroFill → ∀ i, l.view.size ≤ i → i < nsize → s'.mem (naddr + i) = 0)

theorem Refines.moveContents {z : Bool} (hr : Refines cfg main s status A idle) (hb : liveAt A b = some l)
    (hb' : liveAt A b' = some l') (hne : b' ≠ b) (hplain : l'.view.zeroFill = false)
    (h : moveContents t l.user l'.user l.view.size l'.view.size z s = .ok s') :
    ∃ A', Refines cfg main s' status A' idle ∧
      liveAt A' = Function.update (Function.update (liveAt A) b none) b'
        (some { l' with view := { l'.view with zeroFill := z } }) ∧
      Frame (Function.update (Function.update (liveAt A) b none) b' none) s s' ∧ SameControl s s' ∧ Returned s' b l ∧
      (∀ i < min l.view.size l'.view.size, s'.mem (l'.user + i) = s.mem (l.user + i)) ∧
      (z → ∀ i, l.view.size ≤ i → i < l'.view.size → s'.mem (l'.user + i) = 0) := by
  obtain ⟨hblock', _⟩ := hr.liveBlock hb'
  obtain ⟨_, hafter, hroom, _⟩ := hr.dataSize hb'
  unfold Llheap.moveContents at h
  rw [hblock'.encodes.fakeHeader hblock'.taggable] at h
  dsimp only at h
  -- the copy
  have hcopy : ∀ x, x < l'.user ∨ b' + l'.len ≤ x →
      (s.mem.copy l'.user l.user (min l.view.size l'.view.size)) x = s.mem x :=
    fun x hx => Memory.copy_apply_of_outside (by omega)
  obtain ⟨A₁, hr₁, hlive₁, hframe₁⟩ := hr.writeContents hb' hcopy
  -- the old block is freed
  obtain ⟨s₂, A₂, hfree, hr₂, hlive₂, hframe₂, hcontrol, hreturned⟩ := hr₁.doFree (hlive₁ ▸ hb) t
  rw [hlive₁] at hlive₂ hframe₂
  obtain ⟨s₂', hs₂, h⟩ := Result.bind_eq_ok.mp h
  cases hfree.symm.trans hs₂
  have hb₂ : liveAt A₂ b' = some l' := by rw [hlive₂, Function.update_of_ne hne, hb']
  have hkeep : ∀ x, b' ≤ x → x < b' + l'.len → s₂.mem x =
      (s.mem.copy l'.user l.user (min l.view.size l'.view.size)) x :=
    fun x hx hlt => hframe₂ b' l' (by rw [← hlive₂, hb₂]) ⟨hx, hlt⟩
  have hcontents : ∀ i < min l.view.size l'.view.size, s₂.mem (l'.user + i) = s.mem (l.user + i) :=
    fun i hi => (hkeep _ (by omega) (by omega)).trans (Memory.copy_apply_add hi)
  have hframe : Frame (Function.update (Function.update (liveAt A) b none) b' none) s s₂ := by
    refine Frame.trans ?_ (hframe₂.except b')
    rw [Function.update_comm hne.symm]
    exact hframe₁.except b
  cases z with
  | false =>
    cases h
    refine ⟨A₂, hr₂, ?_, hframe, ⟨hcontrol.heapMaster, hcontrol.bootFlag, hcontrol.heapManager,
      hcontrol.errno⟩, hreturned, hcontents, nofun⟩
    rw [hlive₂]
    funext c
    by_cases hc : c = b'
    · subst c
      rw [Function.update_of_ne hne, hb', Function.update_self, ← hplain]
    · rw [Function.update_of_ne hc]
  | true =>
    cases h
    obtain ⟨hblock₂, _⟩ := hr₂.liveBlock hb₂
    have henc := hblock₂.encodes.markZeroFilled hblock₂.taggable
    have hset : ∀ x, x < b' ∨ b' + 16 ≤ x →
        (s₂.mem.setWord b' (markZeroFilledBit (s₂.mem.word b'))) x = s₂.mem x :=
      fun x hx => Memory.setWord_apply_of_outside (by omega)
    have hlive : ∀ {A₃ : Arena Tag} {o : Option Live}, liveAt A₃ = Function.update (liveAt A₂) b' o →
        liveAt A₃ = Function.update (Function.update (liveAt A) b none) b' o :=
      fun h => by rw [h, hlive₂]
    by_cases hgrow : l.view.size < l'.view.size
    · have hfill : ∀ x, x < l'.user + l.view.size ∨ l'.user + l'.view.size ≤ x →
          ((s₂.mem.setWord b' (markZeroFilledBit (s₂.mem.word b'))).fill (l'.user + l.view.size)
            (l'.view.size - l.view.size) 0) x =
          (s₂.mem.setWord b' (markZeroFilledBit (s₂.mem.word b'))) x :=
        fun x hx => Memory.fill_apply_of_outside (by omega)
      obtain ⟨A₃, hr₃, hlive₃, hframe₃⟩ := hr₂.editView hb₂
        (henc.of_contents fun x hx => hfill x (by omega))
        (fun x hx => (hfill x (by omega)).trans (hset x (by omega)))
        (hblock₂.taggable.withZeroFill true) hblock₂.room hblock₂.aligned rfl
      rw [hlive₂] at hframe₃
      rw [if_pos hgrow]
      refine ⟨A₃, hr₃, hlive hlive₃, hframe.trans hframe₃, ⟨hcontrol.heapMaster, hcontrol.bootFlag,
        hcontrol.heapManager, hcontrol.errno⟩, hreturned, fun i hi => ?_, fun _ i hi hlt => ?_⟩
      · exact ((hfill _ (by omega)).trans (hset _ (by omega))).trans (hcontents i hi)
      · exact Memory.fill_apply_of_inside (by omega)
    · obtain ⟨A₃, hr₃, hlive₃, hframe₃⟩ := hr₂.editView hb₂ henc (fun x hx => hset x (by omega))
        (hblock₂.taggable.withZeroFill true) hblock₂.room hblock₂.aligned rfl
      rw [hlive₂] at hframe₃
      rw [if_neg hgrow]
      refine ⟨A₃, hr₃, hlive hlive₃, hframe.trans hframe₃, ⟨hcontrol.heapMaster, hcontrol.bootFlag,
        hcontrol.heapManager, hcontrol.errno⟩, hreturned, fun i hi => ?_,
        fun _ i hi hlt => absurd hlt (by omega)⟩
      exact (hset _ (by omega)).trans (hcontents i hi)

theorem Refines.moveTo (hr : Refines cfg main s status A idle) (hb : liveAt A b = some l)
    (hr₁ : Refines cfg main s₁ status A₁ idle₁) (hframe₁ : Frame (liveAt A) s s₁)
    (hnew : Allocated (liveAt A) (liveAt A₁) s₁.mem naddr nsize al)
    (h : Llheap.moveContents t l.user naddr l.view.size nsize l.view.zeroFill s₁ = .ok s') :
    ∃ A', Refines cfg main s' status A' idle₁ ∧ SameControl s₁ s' ∧
      Frame (Function.update (liveAt A) b none) s s' ∧
      Reallocated (liveAt A) (liveAt A') s s' b l naddr nsize (al.getD libAlign) := by
  obtain ⟨b', n, origin, hnone, hlive₁, _⟩ := hnew
  have hne : b' ≠ b := by
    rintro rfl
    rw [hb] at hnone
    cases hnone
  have hb₁ : liveAt A₁ b = some l := by rw [hlive₁, Function.update_of_ne hne.symm, hb]
  have hb' : liveAt A₁ b' = some ⟨n, naddr, ⟨origin, false, nsize, al⟩⟩ := by
    rw [hlive₁, Function.update_self]
  obtain ⟨A', hr', hlive, hframe, hcontrol, hreturned, hcontents, hzero⟩ :=
    hr₁.moveContents hb₁ hb' hne rfl h
  rw [hlive₁, Function.update_comm hne, Function.update_idem] at hframe hlive
  have hroom := (hr.dataSize hb).2.2.1
  have hafter := (hr.dataSize hb).2.1
  refine ⟨A', hr', hcontrol, (hframe₁.except b).trans ?_, b', _, rfl, hlive, ⟨fun h => absurd h hne, ?_⟩,
    fun h => absurd h hne, fun _ => ⟨hnone, hreturned⟩, rfl, rfl, rfl, fun i hi => (hcontents i hi).trans ?_, hzero⟩
  · have hself : Function.update (liveAt A) b none b' = none := by rw [Function.update_of_ne hne, hnone]
    rwa [Function.update_eq_self_iff.mpr hself.symm] at hframe
  · intro hu
    exact absurd (hr₁.user_injective hb' hb₁ hu) hne
  · exact hframe₁ b l hb ⟨by omega, by omega⟩

end Llheap
