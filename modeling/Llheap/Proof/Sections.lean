import Llheap.Model.Sections
import Llheap.Proof.Sticky

/-!
# What the sections of a call do

A call that is cut is the routine again if nothing comes between its sections. Each section changes the bytes of one live block, makes a block live or frees one, so it can be placed between the steps of other threads.
-/

namespace Llheap

variable {cfg : Config} {main : Tid} {k : Kernel cfg} {t : Tid} {s s₁ s' : State} {status : Tid → Status}
  {A A' : Arena Tag} {idle idle' : List ℕ} {b : ℕ} {l : Live} {oaddr oalignment alignment nsize nalignment header : ℕ}

theorem complete_moving {naddr : ℕ} :
    Progress.complete t (Progress.ofRequest oaddr oalignment header nsize s (some naddr, s₁)) =
      moveContents t oaddr naddr (s.mem.word (sizeField header)) nsize (zeroFillBit (s.mem.word header) ≠ 0) s₁ >>=
        fun s' => .ok (some naddr, s') := by
  rw [Progress.ofRequest, Progress.complete, moveContents]
  dsimp only [Move.copy]
  rw [bind_assoc]
  congr 1
  funext s₂
  unfold Move.carryZeroFill
  dsimp only
  split <;> rfl

theorem reallocStart_complete : realloc k t (some oaddr) nsize s =
    reallocStart k t oaddr oalignment nsize s >>= Progress.complete t := by
  unfold realloc reallocStart
  dsimp only
  split
  · rw [bind_assoc]
    rfl
  · split
    · rfl
    · split
      all_goals
        rw [bind_assoc]
        congr 1
        funext ⟨r, s₁⟩
        cases r with
        | none => rfl
        | some naddr => exact complete_moving.symm

theorem alignedReallocMoveStart_complete : alignedReallocMove k t oaddr nalignment nsize s =
    alignedReallocMoveStart k t oaddr nalignment nsize s >>= Progress.complete t := by
  unfold alignedReallocMove alignedReallocMoveStart
  dsimp only
  rw [bind_assoc]
  congr 1
  funext ⟨r, s₁⟩
  cases r with
  | none => rfl
  | some naddr => exact complete_moving.symm

/-- The first section of a call that is given the address `oaddr`. -/
def Reallocation.start (k : Kernel cfg) (t : Tid) (oaddr : ℕ) : Reallocation → State → Result (Progress × State)
  | .realloc size, s => reallocStart k t oaddr (headers s oaddr).alignment size s
  | .alignedRealloc nalignment size, s => alignedReallocStart k t oaddr nalignment size s

/-- Nothing is lost by cutting a call. -/
theorem Reallocation.run_eq {c : Reallocation} :
    (c.call (some oaddr)).run k t s = c.start k t oaddr s >>= Progress.complete t := by
  cases c with
  | realloc size => exact reallocStart_complete
  | alignedRealloc nalignment size =>
    show Llheap.alignedRealloc k t (some oaddr) nalignment size s = alignedReallocStart k t oaddr nalignment size s >>= _
    unfold Llheap.alignedRealloc alignedReallocStart
    dsimp only
    split
    · rw [bind_assoc]
      rfl
    · split
      · split
        · exact reallocStart_complete
        · exact alignedReallocMoveStart_complete
      · split
        · exact reallocStart_complete
        · exact alignedReallocMoveStart_complete

/-- What a call has done to the live allocations when it is about to copy: there is a new one, and the old one may have another alignment. -/
structure Started (L L' : ℕ → Option Live) (s s' : State) (b : ℕ) (l : Live) (m : Move) (nsize alignment : ℕ) :
    Prop where
  old : m.oaddr = l.user ∧ m.osize = l.view.size ∧ m.ozfill = l.view.zeroFill
  size : m.nsize = nsize ∧ 0 < nsize
  frame : Frame (Function.update L b none) s s'
  contents : ∀ x, l.user ≤ x → x < b + l.len → s'.mem x = s.mem x
  live : ∃ n origin al v, L m.header = none ∧ al.getD libAlign = alignment ∧
    L' = Function.update (Function.update L b (some { l with view := { l.view with alignment := v } })) m.header
      (some ⟨n, m.naddr, ⟨origin, false, nsize, al⟩⟩)

theorem Refines.ofRequest {r : Option ℕ} {m : Move} (hr : Refines cfg main s status A idle) (hmay : MayCall main s status t)
    (hb : liveAt A b = some l) (hpos : 0 < nsize) (hlt : nsize < 2 ^ 64) (hpow : alignment.isPowerOfTwo)
    (halign : alignment < 2 ^ 64) (hfits : Fits s.heapMaster (memalignRequest alignment nsize))
    (hm : Llheap.memalignNoStats k t alignment nsize s = .ok (r, s₁))
    (h : Progress.ofRequest l.user oalignment b nsize s (r, s₁) = (.moving m, s')) :
    ∃ A' idle', Refines cfg main s' status A' idle' ∧ m.oalignment = oalignment ∧
      Started (liveAt A) (liveAt A') s s' b l m nsize (max alignment libAlign) := by
  obtain ⟨hblock, _⟩ := hr.liveBlock hb
  obtain ⟨_, hafter, _, _⟩ := hr.dataSize hb
  cases r with
  | none => cases h
  | some naddr =>
    cases h
    obtain ⟨A', idle', hr', hframe, _, b', n, origin, hnone, hlive, _⟩ :=
      hr.memalignNoStats hmay hlt hpow halign (fun _ => hfits) hm
    obtain ⟨hblock', _⟩ := hr'.liveBlock (b := b') (by rw [hlive, Function.update_self])
    have hheader : (fakeHeader s₁.mem (headerAddr naddr)).1 = b' := by
      have hfake := hblock'.encodes.fakeHeader hblock'.taggable
      dsimp only at hfake
      rw [hfake]
    refine ⟨A', idle', hr', rfl, ⟨rfl, hblock.encodes.size, ?_⟩, ⟨rfl, hpos⟩, hframe.except b, fun x hx hlt => ?_,
      n, origin, _, l.view.alignment, ?_, recordedAlignment_getD hpos.ne', ?_⟩
    · dsimp only
      rw [hblock.zeroFillBit]
    · exact hframe b l hb ⟨by omega, hlt⟩
    · dsimp only
      rw [hheader]
      exact hnone
    · dsimp only
      rw [hheader, hlive, ← hb, Function.update_eq_self]

theorem Refines.reallocStart {m : Move} (hr : Refines cfg main s status A idle) (hmay : MayCall main s status t)
    (hb : liveAt A b = some l) (hlt : nsize < 2 ^ 64)
    (hfits : ∀ n ∈ reallocRequest s l.user nsize, Fits s.heapMaster n)
    (h : Llheap.reallocStart k t l.user oalignment nsize s = .ok (.moving m, s')) :
    ∃ A' idle', Refines cfg main s' status A' idle' ∧ m.oalignment = oalignment ∧
      Started (liveAt A) (liveAt A') s s' b l m nsize (l.view.alignment.getD libAlign) := by
  obtain ⟨hpow, hle, halign, _⟩ := hr.alignment_bounds hb
  unfold Llheap.reallocStart at h
  unfold reallocRequest at hfits
  dsimp only at h hfits
  rw [hr.headers hb] at h hfits
  dsimp only at h hfits
  split at h
  · obtain ⟨_, _, h⟩ := Result.bind_eq_ok.mp h
    cases h
  · next hne =>
    split at h
    · cases h
    · next hreuse =>
      rw [if_neg (not_or.mpr ⟨hne, hreuse⟩)] at hfits
      have hasked : ∃ r s₁, Llheap.memalignNoStats k t (l.view.alignment.getD libAlign) nsize s = .ok (r, s₁) ∧
          Progress.ofRequest l.user oalignment b nsize s (r, s₁) = (.moving m, s') := by
        split at h
        · next hsmall =>
          obtain ⟨⟨r, s₁⟩, hm, h⟩ := Result.bind_eq_ok.mp h
          exact ⟨r, s₁, by rw [Llheap.memalignNoStats, if_pos (.inl hsmall), hm], Except.ok.inj h⟩
        · obtain ⟨⟨r, s₁⟩, hm, h⟩ := Result.bind_eq_ok.mp h
          exact ⟨r, s₁, hm, Except.ok.inj h⟩
      obtain ⟨r, s₁, hm, hmoving⟩ := hasked
      have hstarted := hr.ofRequest hmay hb (Nat.pos_of_ne_zero hne) hlt hpow halign (hfits _ rfl) hm hmoving
      rwa [max_eq_left hle] at hstarted

theorem Refines.alignedReallocMoveStart {m : Move} (hr : Refines cfg main s status A idle)
    (hmay : MayCall main s status t) (hb : liveAt A b = some l) (hpos : 0 < nsize) (hlt : nsize < 2 ^ 64)
    (hpow : nalignment.isPowerOfTwo) (halign : nalignment < 2 ^ 64)
    (hfits : Fits s.heapMaster (memalignRequest nalignment nsize))
    (h : Llheap.alignedReallocMoveStart k t l.user nalignment nsize s = .ok (.moving m, s')) :
    ∃ A' idle', Refines cfg main s' status A' idle' ∧ m.oalignment = l.view.alignment.getD libAlign ∧
      Started (liveAt A) (liveAt A') s s' b l m nsize (max nalignment libAlign) := by
  unfold Llheap.alignedReallocMoveStart at h
  dsimp only at h
  rw [hr.headers hb] at h
  obtain ⟨⟨r, s₁⟩, hm, h⟩ := Result.bind_eq_ok.mp h
  exact hr.ofRequest hmay hb hpos hlt hpow halign hfits hm (Except.ok.inj h)

theorem Started.of_edited {s₀ : State} {L L' : ℕ → Option Live} {m : Move} {al : Option ℕ}
    (h : Started (Function.update L b (some { l with view := { l.view with alignment := al } })) L' s₀ s' b
      { l with view := { l.view with alignment := al } } m nsize alignment)
    (hframe : Frame (Function.update L b none) s s₀) (hkeep : ∀ x, l.user ≤ x → s₀.mem x = s.mem x) :
    Started L L' s s' b l m nsize alignment := by
  obtain ⟨hold, hsize, hframe', hcontents, n, origin, al', v, hnone, halign, hlive⟩ := h
  rw [Function.update_idem] at hframe' hlive
  refine ⟨hold, hsize, hframe.trans hframe', fun x hx hlt => (hcontents x hx hlt).trans (hkeep x hx), n, origin, al', v, ?_,
    halign, hlive⟩
  rwa [Function.update_of_ne] at hnone
  intro hsame
  rw [hsame, Function.update_self] at hnone
  cases hnone

theorem Refines.alignedReallocStart {m : Move} (hr : Refines cfg main s status A idle)
    (hmay : MayCall main s status t) (hb : liveAt A b = some l) (hlt : nsize < 2 ^ 64)
    (hpow : nalignment.isPowerOfTwo) (halign : nalignment < 2 ^ 64)
    (hfits : ∀ n ∈ alignedReallocRequest s l.user nalignment nsize, Fits s.heapMaster n)
    (h : Llheap.alignedReallocStart k t l.user nalignment nsize s = .ok (.moving m, s')) :
    ∃ A' idle', Refines cfg main s' status A' idle' ∧ m.oalignment = l.view.alignment.getD libAlign ∧
      Started (liveAt A) (liveAt A') s s' b l m nsize (max nalignment libAlign) := by
  obtain ⟨hblock, _⟩ := hr.liveBlock hb
  obtain ⟨hbit, hclear⟩ := hblock.encodes.fakeWord hblock.taggable
  have hmaxpow := max_libAlign_pow hpow
  have hmaxlt : max nalignment libAlign < 2 ^ 64 := max_lt halign (by decide)
  unfold Llheap.alignedReallocStart at h
  unfold alignedReallocRequest at hfits
  dsimp only at h hfits
  split at h
  · obtain ⟨_, _, h⟩ := Result.bind_eq_ok.mp h
    cases h
  · next hne =>
    have hpos := Nat.pos_of_ne_zero hne
    rw [if_neg hne] at hfits
    cases hal : l.view.alignment with
    | none =>
      have hplain := not_not.mpr (hbit.mpr hal)
      rw [if_neg hplain] at h hfits
      split at h
      · next hsame =>
        rw [if_pos hsame] at hfits
        obtain ⟨A', idle', hr', hold, hstarted⟩ := hr.reallocStart hmay hb hlt hfits h
        rw [hr.headers hb, hal] at hold
        rw [hal] at hstarted
        rw [hsame, max_self]
        exact ⟨A', idle', hr', hold, hstarted⟩
      · next hdiff =>
        rw [if_neg hdiff] at hfits
        rw [← hal]
        exact hr.alignedReallocMoveStart hmay hb hpos hlt hpow halign (hfits _ rfl) h
    | some a =>
      have hfake : alignmentBit (s.mem.word (headerAddr l.user)) ≠ 0 := by
        rw [ne_eq, hbit, hal]
        exact Option.some_ne_none a
      rw [if_pos hfake, hclear a hal] at h hfits
      split at h
      · next hlucky =>
        rw [if_pos hlucky] at hfits
        obtain ⟨A₁, hr₁, hlive₁, hframe₁, hkeep⟩ := hr.updateAlignment hb hal hmaxpow (le_max_right _ _)
          hmaxlt (Nat.dvd_of_mod_eq_zero hlucky.1)
        have hb₁ : liveAt A₁ b = some { l with view := { l.view with alignment := some (max nalignment libAlign) } } := by
          rw [hlive₁, Function.update_self]
        obtain ⟨A', idle', hr', hold, hstarted⟩ :=
          hr₁.reallocStart (hmay.congr ⟨rfl, rfl, rfl, rfl⟩) hb₁ hlt hfits h
        rw [hlive₁] at hstarted
        exact ⟨A', idle', hr', hold, hstarted.of_edited hframe₁ hkeep⟩
      · next hmiss =>
        rw [if_neg hmiss] at hfits
        have hstarted := hr.alignedReallocMoveStart hmay hb hpos hlt hmaxpow hmaxlt (hfits _ rfl) h
        rwa [max_assoc, max_self, hal] at hstarted

theorem Refines.start {c : Reallocation} {m : Move} (hr : Refines cfg main s status A idle)
    (hmay : MayCall main s status t) (hb : liveAt A b = some l) (hvalid : (c.call (some l.user)).Valid)
    (hfits : ∀ n ∈ (c.call (some l.user)).request s, Fits s.heapMaster n)
    (h : c.start k t l.user s = .ok (.moving m, s')) :
    ∃ A' idle', Refines cfg main s' status A' idle' ∧ m.oalignment = l.view.alignment.getD libAlign ∧
      Started (liveAt A) (liveAt A') s s' b l m c.size (c.alignment s l.user) := by
  cases c with
  | realloc size =>
    obtain ⟨A', idle', hr', hold, hstarted⟩ := hr.reallocStart hmay hb hvalid hfits h
    rw [hr.headers hb] at hold
    rw [Reallocation.alignment, (hr.queries hb).2.2]
    exact ⟨A', idle', hr', hold, hstarted⟩
  | alignedRealloc nalignment size =>
    obtain ⟨hsize, hpow, halign⟩ := hvalid
    exact hr.alignedReallocStart hmay hb hsize hpow halign hfits h

variable {m : Move}

theorem Started.others (h : Started (liveAt A) (liveAt A') s s' b l m nsize alignment) (hb : liveAt A b = some l) :
    Separation.Others A A' s s' (some l.user) := by
  obtain ⟨n, origin, al, v, hnone, _, hlive⟩ := h.live
  intro c l' hc hu
  have hcb : c ≠ b := by
    rintro rfl
    cases hb.symm.trans hc
    exact hu rfl
  have hch : c ≠ m.header := by
    rintro rfl
    cases hnone.symm.trans hc
  refine ⟨?_, h.frame c l' (by rw [Function.update_of_ne hcb, hc])⟩
  rw [hlive, Function.update_of_ne hch, Function.update_of_ne hcb, hc]

theorem Started.header_ne (h : Started (liveAt A) (liveAt A') s s' b l m nsize alignment) (hb : liveAt A b = some l) :
    b ≠ m.header := by
  obtain ⟨_, _, _, _, hnone, _⟩ := h.live
  rintro rfl
  cases hnone.symm.trans hb

theorem Started.users_eq (h : Started (liveAt A) (liveAt A') s s' b l m nsize alignment) (hb : liveAt A b = some l)
    (hinj : Injective (liveAt A)) : users (liveAt A') = liveAfter none false (some m.naddr) (users (liveAt A)) := by
  have hne := h.header_ne hb
  obtain ⟨n, origin, al, v, hnone, _, hlive⟩ := h.live
  have hedited : users (Function.update (liveAt A) b (some { l with view := { l.view with alignment := v } })) =
      users (liveAt A) := Separation.users_edited hb rfl hinj
  rw [hlive, users_obtained (by rw [Function.update_of_ne hne.symm, hnone]), hedited]
  ext u
  simp [liveAfter, eq_comm]

theorem Started.fresh (h : Started (liveAt A) (liveAt A') s s' b l m nsize alignment) (hb : liveAt A b = some l)
    (hinj : Injective (liveAt A')) : m.naddr ∉ users (liveAt A) := by
  have hne := h.header_ne hb
  obtain ⟨n, origin, al, v, hnone, _, hlive⟩ := h.live
  have hnew : liveAt A' m.header = some ⟨n, m.naddr, ⟨origin, false, nsize, al⟩⟩ := by
    rw [hlive, Function.update_self]
  intro ⟨c, l', hc, huser⟩
  have hch : c ≠ m.header := by
    rintro rfl
    cases hnone.symm.trans hc
  by_cases hcb : c = b
  · subst c
    cases hb.symm.trans hc
    have hold : liveAt A' b = some { l with view := { l.view with alignment := v } } := by
      rw [hlive, Function.update_of_ne hne, Function.update_self]
    exact hne (hinj _ _ _ _ hold hnew huser)
  · have hother : liveAt A' c = some l' := by rw [hlive, Function.update_of_ne hch, Function.update_of_ne hcb, hc]
    exact hch (hinj _ _ _ _ hother hnew huser)

/-! ### The other sections -/

theorem Refines.copy {m : Move} (hr : Refines cfg main s status A idle) (hb : liveAt A b = some l)
    (huser : l.user = m.naddr) (hsize : l.view.size = m.nsize) :
    ∃ A', Refines cfg main (m.copy s) status A' idle ∧ liveAt A' = liveAt A ∧
      Frame (Function.update (liveAt A) b none) s (m.copy s) := by
  obtain ⟨_, _, hroom, _⟩ := hr.dataSize hb
  apply hr.writeContents hb
  intro x hx
  exact Memory.copy_apply_of_outside (by omega)

theorem Move.copy_contents {m : Move} {i : ℕ} (h : i < min m.osize m.nsize) :
    (m.copy s).mem (m.naddr + i) = s.mem (m.oaddr + i) := Memory.copy_apply_add h

theorem Move.carryZeroFill_outside {m : Move} {x : ℕ} (hheader : x < m.header ∨ m.header + 8 ≤ x)
    (hdata : x < m.naddr + m.osize ∨ m.naddr + m.nsize ≤ x) : (m.carryZeroFill s).mem x = s.mem x := by
  unfold Move.carryZeroFill
  split
  · dsimp only
    split
    · rw [Memory.fill_apply_of_outside (by omega), Memory.setWord_apply_of_outside hheader]
    · exact Memory.setWord_apply_of_outside hheader
  · rfl

theorem Move.carryZeroFill_contents {m : Move} {i : ℕ} (hheader : m.header + 8 ≤ m.naddr) (hi : i < m.nsize) :
    (m.carryZeroFill s).mem (m.naddr + i) = if m.ozfill ∧ m.osize ≤ i then 0 else s.mem (m.naddr + i) := by
  by_cases hle : m.osize ≤ i
  · unfold Move.carryZeroFill
    split
    · next hz =>
      rw [if_pos ⟨hz, hle⟩]
      dsimp only
      rw [if_pos (by omega)]
      exact Memory.fill_apply_of_inside (by omega)
    · next hz => rw [if_neg fun h => hz h.1]
  · rw [if_neg fun h => hle h.2]
    exact carryZeroFill_outside (by omega) (by omega)

theorem Refines.carryZeroFill {m : Move} (hr : Refines cfg main s status A idle) (hb : liveAt A m.header = some l)
    (huser : l.user = m.naddr) (hsize : l.view.size = m.nsize) (hplain : l.view.zeroFill = false) :
    ∃ A', Refines cfg main (m.carryZeroFill s) status A' idle ∧
      liveAt A' = Function.update (liveAt A) m.header
        (some { l with view := { l.view with zeroFill := m.ozfill } }) ∧
      Frame (Function.update (liveAt A) m.header none) s (m.carryZeroFill s) := by
  obtain ⟨hblock, _⟩ := hr.liveBlock hb
  obtain ⟨_, hafter, hroom, _⟩ := hr.dataSize hb
  have houtside : ∀ x, x < m.header ∨ m.header + l.len ≤ x → (m.carryZeroFill s).mem x = s.mem x :=
    fun x hx => Move.carryZeroFill_outside (by omega) (by omega)
  cases hz : m.ozfill with
  | false =>
    have hsame : m.carryZeroFill s = s := by
      rw [Move.carryZeroFill, hz]
      rfl
    rw [hsame]
    refine ⟨A, hr, ?_, Frame.of_mem rfl⟩
    rw [← hplain, ← hb, Function.update_eq_self]
  | true =>
    have hstate : m.carryZeroFill s = { s with mem := (m.carryZeroFill s).mem } := by
      rw [Move.carryZeroFill, hz]
      rfl
    have henc : Encodes (m.carryZeroFill s).mem m.header l.len l.user { l.view with zeroFill := true } := by
      refine (hblock.encodes.markZeroFilled hblock.taggable).of_contents fun x hx => ?_
      rw [Move.carryZeroFill, hz, if_pos rfl]
      dsimp only
      split
      · exact Memory.fill_apply_of_outside (by omega)
      · rfl
    rw [hstate]
    exact hr.editView hb henc houtside (hblock.taggable.withZeroFill true) hblock.room hblock.aligned rfl

end Llheap
