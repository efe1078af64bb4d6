import Llheap.Proof.Moving

/-!
# What the routines do to live allocations

One lemma for each public routine: which allocation it adds, changes or takes away, which bytes stay, and what a refusal leaves.
-/

namespace Llheap

variable {cfg : Config} {main : Tid} {k : Kernel cfg} {t : Tid} {s s' : State} {r : Option ℕ}
  {status : Tid → Status} {A : Arena Tag} {idle : List ℕ} {b size nsize alignment : ℕ} {l : Live}

/-! ### Zero-filled allocations -/

/-- One allocation is new, marked as zero filled, and zero. -/
def Cleared (L L' : ℕ → Option Live) (mem : Memory) (user size : ℕ) (alignment : Option ℕ) : Prop :=
  ∃ b n origin, L b = none ∧
    L' = Function.update L b (some ⟨n, user, ⟨origin, true, size, alignment⟩⟩) ∧
    ∀ x, user ≤ x → x < user + size → mem x = 0

def ClearedOutcome (L L' : ℕ → Option Live) (t : Tid) (s' : State) (size : ℕ) (alignment : Option ℕ) :
    Option ℕ → Prop
  | none => L' = L ∧ s'.errno t = ENOMEM
  | some user => Cleared L L' s'.mem user size alignment

theorem Refines.clear {s₁ : State} {A₁ : Arena Tag} {idle₁ : List ℕ} {user : ℕ} {al : Option ℕ}
    {L : ℕ → Option Live} (hr : Refines cfg main s₁ status A₁ idle₁) (hframe : Frame L s s₁)
    (hnew : Allocated L (liveAt A₁) s₁.mem user size al) :
    ∃ A', Refines cfg main (Llheap.zeroFill user (fakeHeader s₁.mem (headerAddr user)).1 size s₁) status A'
        idle₁ ∧
      Frame L s (Llheap.zeroFill user (fakeHeader s₁.mem (headerAddr user)).1 size s₁) ∧
      Cleared L (liveAt A') (Llheap.zeroFill user (fakeHeader s₁.mem (headerAddr user)).1 size s₁).mem
        user size al := by
  obtain ⟨b, n, origin, hnone, hlive, hzero⟩ := hnew
  have hb : liveAt A₁ b = some ⟨n, user, ⟨origin, false, size, al⟩⟩ := by rw [hlive, Function.update_self]
  obtain ⟨hblock, _⟩ := hr.liveBlock hb
  have hroom := hblock.room
  dsimp only at hroom
  rw [hblock.encodes.fakeHeader hblock.taggable]
  obtain ⟨A', hr', hlive', hframe', hmem⟩ := hr.zeroFill hb hroom
  rw [hlive] at hlive' hframe'
  rw [Function.update_idem] at hlive'
  refine ⟨A', hr', hframe.trans (hframe'.of_update hnone), b, n, origin, hnone, hlive', fun x hx hlt => ?_⟩
  exact hmem x hx hlt fun hmapped => hzero hmapped x hx (by omega)

theorem Refines.calloc {dimension elemSize : ℕ} (hr : Refines cfg main s status A idle)
    (hmay : MayCall main s status t)
    (hfits : r ≠ none → Fits s.heapMaster (dimension * elemSize % 2 ^ 64))
    (h : calloc k t dimension elemSize s = .ok (r, s')) :
    ∃ A' idle', Refines cfg main s' status A' idle' ∧ Frame (liveAt A) s s' ∧
      SameParams s.heapMaster s'.heapMaster ∧
      ClearedOutcome (liveAt A) (liveAt A') t s' (dimension * elemSize % 2 ^ 64) none r := by
  unfold Llheap.calloc at h
  obtain ⟨⟨r₁, s₁⟩, hm, h⟩ := Result.bind_eq_ok.mp h
  have hsize : dimension * elemSize % 2 ^ 64 < 2 ^ 64 := Nat.mod_lt _ (by decide)
  cases r₁ with
  | none =>
    cases h
    exact hr.doMalloc hmay hsize hfits hm
  | some user =>
    cases h
    obtain ⟨A₁, idle₁, hr₁, hframe, hparams, hnew⟩ :=
      hr.doMalloc hmay hsize (fun _ => hfits (Option.some_ne_none _)) hm
    -- a plain block's header is right in front of the address
    have hheader : headerAddr user = (fakeHeader s₁.mem (headerAddr user)).1 := by
      obtain ⟨b, n, origin, _, hlive, _⟩ := hnew
      have hb : liveAt A₁ b = some ⟨n, user, ⟨origin, false, dimension * elemSize % 2 ^ 64, none⟩⟩ := by
        rw [hlive, Function.update_self]
      obtain ⟨hblock, _⟩ := hr₁.liveBlock hb
      rw [hblock.encodes.fakeHeader hblock.taggable]
      have huser : user = b + sizeofStorage := hblock.encodes.plain rfl
      change headerAddr user = b
      rw [huser, headerAddr, Nat.add_sub_cancel]
    obtain ⟨A', hr', hframe', hcleared⟩ := hr₁.clear hframe hnew
    rw [← hheader] at hr' hframe' hcleared
    exact ⟨A', idle₁, hr', hframe', hparams, hcleared⟩

theorem Refines.cmemalign {dimension elemSize : ℕ} (hr : Refines cfg main s status A idle)
    (hmay : MayCall main s status t) (hpow : alignment.isPowerOfTwo) (halign : alignment < 2 ^ 64)
    (hfits : r ≠ none →
      Fits s.heapMaster (memalignRequest alignment (dimension * elemSize % 2 ^ 64)))
    (h : cmemalign k t alignment dimension elemSize s = .ok (r, s')) :
    ∃ A' idle', Refines cfg main s' status A' idle' ∧ Frame (liveAt A) s s' ∧
      SameParams s.heapMaster s'.heapMaster ∧
      ClearedOutcome (liveAt A) (liveAt A') t s' (dimension * elemSize % 2 ^ 64)
        (recordedAlignment alignment (dimension * elemSize % 2 ^ 64)) r := by
  unfold Llheap.cmemalign at h
  obtain ⟨⟨r₁, s₁⟩, hm, h⟩ := Result.bind_eq_ok.mp h
  have hsize : dimension * elemSize % 2 ^ 64 < 2 ^ 64 := Nat.mod_lt _ (by decide)
  cases r₁ with
  | none =>
    cases h
    exact hr.memalignNoStats hmay hsize hpow halign hfits hm
  | some user =>
    cases h
    obtain ⟨A₁, idle₁, hr₁, hframe, hparams, hnew⟩ :=
      hr.memalignNoStats hmay hsize hpow halign (fun _ => hfits (Option.some_ne_none _)) hm
    obtain ⟨A', hr', hframe', hcleared⟩ := hr₁.clear hframe hnew
    exact ⟨A', idle₁, hr', hframe', hparams, hcleared⟩

/-! ### Keeping contents -/

/-- What a reallocation leaves behind. -/
def ReallocOutcome (L L' : ℕ → Option Live) (t : Tid) (s s' : State) (b : ℕ) (l : Live)
    (nsize alignment : ℕ) : Option ℕ → Prop
  | none => L' = L ∧ Frame L s s' ∧ s'.errno t = ENOMEM
  | some naddr => Reallocated L L' s s' b l naddr nsize alignment

theorem Refines.alignment_bounds (hr : Refines cfg main s status A idle) (hb : liveAt A b = some l) :
    (l.view.alignment.getD libAlign).isPowerOfTwo ∧ libAlign ≤ l.view.alignment.getD libAlign ∧
      l.view.alignment.getD libAlign < 2 ^ 64 ∧ l.view.alignment.getD libAlign ∣ l.user := by
  obtain ⟨hblock, h16, _⟩ := hr.liveBlock hb
  cases halign : l.view.alignment with
  | none =>
    refine ⟨⟨4, rfl⟩, le_rfl, by decide, ?_⟩
    rw [hblock.encodes.plain halign]
    exact h16.add (dvd_refl 16)
  | some a =>
    obtain ⟨hpow, hle, hdvd⟩ := hblock.aligned a halign
    exact ⟨hpow, hle, hblock.taggable.alignment_lt a halign, hdvd⟩

theorem recordedAlignment_getD (hne : size ≠ 0) :
    (recordedAlignment alignment size).getD libAlign = max alignment libAlign := by
  unfold recordedAlignment
  split
  · next hplain => exact (max_eq_right (hplain.resolve_right hne)).symm
  · next hfake => exact (max_eq_left (not_le.mp (not_or.mp hfake).1).le).symm

theorem Refines.reallocMove {s₁ : State} {r₁ : Option ℕ} {al : Option ℕ} {idle₁ : List ℕ}
    {A₁ : Arena Tag} (hr : Refines cfg main s status A idle) (hb : liveAt A b = some l)
    (hr₁ : Refines cfg main s₁ status A₁ idle₁) (hframe : Frame (liveAt A) s s₁)
    (hparams : SameParams s.heapMaster s₁.heapMaster)
    (hout : Outcome (liveAt A) (liveAt A₁) t s₁ nsize al r₁)
    (h : (r₁ = none ∧ r = none ∧ s' = s₁) ∨ ∃ naddr, r₁ = some naddr ∧ r = some naddr ∧
      Llheap.moveContents t l.user naddr l.view.size nsize l.view.zeroFill s₁ = .ok s') :
    ∃ A' idle', Refines cfg main s' status A' idle' ∧ SameParams s.heapMaster s'.heapMaster ∧
      Frame (Function.update (liveAt A) b none) s s' ∧
      ReallocOutcome (liveAt A) (liveAt A') t s s' b l nsize (al.getD libAlign) r := by
  rcases h with ⟨rfl, rfl, rfl⟩ | ⟨naddr, rfl, rfl, hmove⟩
  · exact ⟨A₁, idle₁, hr₁, hparams, hframe.except b, hout.1, hframe, hout.2⟩
  · obtain ⟨A', hr', hcontrol, hframe', hre⟩ := hr.moveTo hb hr₁ hframe hout hmove
    exact ⟨A', idle₁, hr', hparams.trans hcontrol.params, hframe', hre⟩

/-- The `doMalloc` call of a `realloc`, if it makes one. -/
def reallocRequest (s : State) (oaddr nsize : ℕ) : Option ℕ :=
  let hd := headers s oaddr
  if nsize = 0 ∨ reusable nsize (dataSize hd.size oaddr hd.header) then none
  else some (memalignRequest hd.alignment nsize)

theorem Refines.realloc (hr : Refines cfg main s status A idle) (hmay : MayCall main s status t)
    (hb : liveAt A b = some l) (hne : nsize ≠ 0) (hlt : nsize < 2 ^ 64)
    (hfits : r ≠ none → ∀ n ∈ reallocRequest s l.user nsize, Fits s.heapMaster n)
    (h : realloc k t (some l.user) nsize s = .ok (r, s')) :
    ∃ A' idle', Refines cfg main s' status A' idle' ∧ SameParams s.heapMaster s'.heapMaster ∧
      Frame (Function.update (liveAt A) b none) s s' ∧
      ReallocOutcome (liveAt A) (liveAt A') t s s' b l nsize (l.view.alignment.getD libAlign) r := by
  obtain ⟨hblock, _⟩ := hr.liveBlock hb
  obtain ⟨hpow, hle, halign, _⟩ := hr.alignment_bounds hb
  obtain ⟨hdata, hafter, hroom, _⟩ := hr.dataSize hb
  have hcases := realloc_cases hne h
  unfold reallocRequest at hfits
  dsimp only at hcases hfits
  rw [hr.headers hb] at hdata hcases hfits
  dsimp only at hdata hcases hfits
  rw [hdata, hblock.encodes.size, hblock.zeroFillBit] at hcases
  rw [hdata] at hfits
  rcases hcases with ⟨hreuse, rfl, rfl⟩ | ⟨hreuse, r₁, s₁, hm, hcases⟩
  · have hsize : l.user + nsize ≤ b + l.len := by
      have := hreuse.1
      omega
    obtain ⟨A', hr', hlive, hframe, hkeep, hzero⟩ := hr.reallocInPlace hb hsize
    have hparams : SameParams s.heapMaster (Llheap.reallocInPlace l.user b nsize s).heapMaster := by
      rw [reallocInPlace_eq]
      exact ⟨rfl, rfl, rfl⟩
    refine ⟨A', idle, hr', hparams, hframe, b,
      { l with view := { l.view with size := nsize } }, rfl, ?_, ⟨fun _ => rfl, fun _ => rfl⟩,
      fun _ => ⟨rfl, rfl⟩, fun h => absurd rfl h, rfl, rfl, rfl, fun i hi => hkeep _ (by omega) (by omega),
      fun hz i hi hlt => hzero hz _ (by omega) (by omega)⟩
    rw [hlive, Function.update_idem]
  · have hfit : r₁ ≠ none → Fits s.heapMaster (memalignRequest (l.view.alignment.getD libAlign) nsize) := by
      intro hsome
      refine hfits ?_ _ (by rw [if_neg (not_or.mpr ⟨hne, hreuse⟩)]; rfl)
      rcases hcases with ⟨hnone, _⟩ | ⟨naddr, _, rfl, _⟩
      · exact absurd hnone hsome
      · exact Option.some_ne_none _
    obtain ⟨A₁, idle₁, hr₁, hframe, hparams, hout⟩ := hr.memalignNoStats hmay hlt hpow halign hfit hm
    have hre := hr.reallocMove hb hr₁ hframe hparams hout hcases
    rwa [recordedAlignment_getD hne, max_eq_left hle] at hre

/-- The alignment that is recorded after `aligned_realloc` has found no storage. -/
def refusedAlignment (l : Live) (nalignment : ℕ) : Option ℕ :=
  l.view.alignment.map fun a => if luckyMatch l.user a nalignment then nalignment else a

/-- What `aligned_realloc` leaves behind: a refusal may have changed the recorded alignment. -/
def AlignedReallocOutcome (L L' : ℕ → Option Live) (t : Tid) (s s' : State) (b : ℕ) (l : Live)
    (nsize alignment : ℕ) : Option ℕ → Prop
  | none => L' = Function.update L b
        (some { l with view := { l.view with alignment := refusedAlignment l alignment } }) ∧
      (∀ x, l.user ≤ x → x < b + l.len → s'.mem x = s.mem x) ∧ s'.errno t = ENOMEM
  | some naddr => Reallocated L L' s s' b l naddr nsize alignment

theorem ReallocOutcome.aligned {L L' : ℕ → Option Live} (hb : L b = some l) (hafter : b ≤ l.user)
    (hkept : refusedAlignment l alignment = l.view.alignment)
    (hout : ReallocOutcome L L' t s s' b l nsize alignment r) :
    AlignedReallocOutcome L L' t s s' b l nsize alignment r := by
  cases r with
  | none =>
    obtain ⟨hlive, hframe, herrno⟩ := hout
    refine ⟨?_, fun x hx hlt => hframe b l hb ⟨by omega, hlt⟩, herrno⟩
    rw [hkept, hlive, ← hb, Function.update_eq_self]
  | some naddr => exact hout

/-- The `doMalloc` call of an `aligned_realloc`, if it makes one. -/
def alignedReallocRequest (s : State) (oaddr nalignment size : ℕ) : Option ℕ :=
  let word := s.mem.word (headerAddr oaddr)
  if size = 0 then none
  else if alignmentBit word ≠ 0 then
    let nalignment := max nalignment libAlign
    if luckyMatch oaddr (clearAlignmentBit word) nalignment then
      reallocRequest (updateAlignment oaddr nalignment s) oaddr size
    else some (memalignRequest nalignment size)
  else if nalignment = libAlign then reallocRequest s oaddr size
  else some (memalignRequest nalignment size)

theorem max_libAlign_pow (hpow : alignment.isPowerOfTwo) : (max alignment libAlign).isPowerOfTwo := by
  rcases le_total alignment libAlign with hle | hle
  · rw [max_eq_right hle]
    exact ⟨4, rfl⟩
  · rwa [max_eq_left hle]

theorem Refines.alignedReallocMove (hr : Refines cfg main s status A idle)
    (hmay : MayCall main s status t) (hb : liveAt A b = some l) (hne : size ≠ 0) (hlt : size < 2 ^ 64)
    (hpow : alignment.isPowerOfTwo) (halign : alignment < 2 ^ 64)
    (hfits : r ≠ none → Fits s.heapMaster (memalignRequest alignment size))
    (h : alignedReallocMove k t l.user alignment size s = .ok (r, s')) :
    ∃ A' idle', Refines cfg main s' status A' idle' ∧ SameParams s.heapMaster s'.heapMaster ∧
      Frame (Function.update (liveAt A) b none) s s' ∧
      ReallocOutcome (liveAt A) (liveAt A') t s s' b l size (max alignment libAlign) r := by
  obtain ⟨hblock, _⟩ := hr.liveBlock hb
  unfold Llheap.alignedReallocMove at h
  dsimp only at h
  rw [hr.headers hb] at h
  dsimp only at h
  rw [hblock.encodes.size, hblock.zeroFillBit] at h
  obtain ⟨⟨r₁, s₁⟩, hm, h⟩ := Result.bind_eq_ok.mp h
  have hcases := moveContents_cases h
  have hfit : r₁ ≠ none → Fits s.heapMaster (memalignRequest alignment size) := by
    intro hsome
    refine hfits ?_
    rcases hcases with ⟨hnone, _⟩ | ⟨naddr, _, rfl, _⟩
    · exact absurd hnone hsome
    · exact Option.some_ne_none _
  obtain ⟨A₁, idle₁, hr₁, hframe, hparams, hout⟩ := hr.memalignNoStats hmay hlt hpow halign hfit hm
  have hre := hr.reallocMove hb hr₁ hframe hparams hout hcases
  rwa [recordedAlignment_getD hne] at hre

theorem Refines.alignedRealloc {nalignment : ℕ} (hr : Refines cfg main s status A idle)
    (hmay : MayCall main s status t) (hb : liveAt A b = some l) (hne : size ≠ 0) (hlt : size < 2 ^ 64)
    (hpow : nalignment.isPowerOfTwo) (halign : nalignment < 2 ^ 64)
    (hfits : r ≠ none → ∀ n ∈ alignedReallocRequest s l.user nalignment size, Fits s.heapMaster n)
    (h : alignedRealloc k t (some l.user) nalignment size s = .ok (r, s')) :
    ∃ A' idle', Refines cfg main s' status A' idle' ∧ SameParams s.heapMaster s'.heapMaster ∧
      Frame (Function.update (liveAt A) b none) s s' ∧
      AlignedReallocOutcome (liveAt A) (liveAt A') t s s' b l size (max nalignment libAlign) r := by
  obtain ⟨hblock, _⟩ := hr.liveBlock hb
  obtain ⟨hbit, hclear⟩ := hblock.encodes.fakeWord hblock.taggable
  have hmaxpow := max_libAlign_pow hpow
  have hmaxlt : max nalignment libAlign < 2 ^ 64 := max_lt halign (by decide)
  have hafter : b ≤ l.user := by
    have := hblock.encodes.user_after.1
    omega
  unfold alignedReallocRequest at hfits
  unfold Llheap.alignedRealloc at h
  dsimp only at h hfits
  rw [if_neg hne] at h hfits
  cases hal : l.view.alignment with
  | none =>
    rw [if_neg (not_not.mpr (hbit.mpr hal))] at h hfits
    split at h
    · next hsame =>
      rw [if_pos hsame] at hfits
      obtain ⟨A', idle', hr', hparams, hframe, hout⟩ := hr.realloc hmay hb hne hlt hfits h
      rw [hal] at hout
      rw [hsame, max_self]
      exact ⟨A', idle', hr', hparams, hframe, hout.aligned hb hafter (by rw [refusedAlignment, hal]; rfl)⟩
    · next hdiff =>
      rw [if_neg hdiff] at hfits
      obtain ⟨A', idle', hr', hparams, hframe, hout⟩ :=
        hr.alignedReallocMove hmay hb hne hlt hpow halign (fun hr => hfits hr _ rfl) h
      exact ⟨A', idle', hr', hparams, hframe, hout.aligned hb hafter (by rw [refusedAlignment, hal]; rfl)⟩
  | some a =>
    have hfake : alignmentBit (s.mem.word (headerAddr l.user)) ≠ 0 := by
      rw [ne_eq, hbit, hal]
      nofun
    rw [if_pos hfake, hclear a hal] at h hfits
    split at h
    · next hlucky =>
      rw [if_pos hlucky] at hfits
      obtain ⟨A₁, hr₁, hlive₁, hframe₁, hkeep⟩ := hr.updateAlignment hb hal hmaxpow (le_max_right _ _)
        hmaxlt (Nat.dvd_of_mod_eq_zero hlucky.1)
      have hb₁ : liveAt A₁ b = some { l with view := { l.view with alignment := some (max nalignment libAlign) } } := by
        rw [hlive₁, Function.update_self]
      have hmay₁ : MayCall main (Llheap.updateAlignment l.user (max nalignment libAlign) s) status t :=
        hmay.congr ⟨rfl, rfl, rfl, rfl⟩
      obtain ⟨A', idle', hr', hparams, hframe, hout⟩ := hr₁.realloc hmay₁ hb₁ hne hlt hfits h
      rw [hlive₁] at hframe hout
      rw [Function.update_idem] at hframe
      refine ⟨A', idle', hr', ⟨hparams.pageSize, hparams.mmapStart, hparams.maxBucketsUsed⟩,
        hframe₁.trans hframe, ?_⟩
      cases r with
      | none =>
        obtain ⟨hlive, hsame, herrno⟩ := hout
        refine ⟨?_, fun x hx hlt => ?_, herrno⟩
        · rw [hlive, refusedAlignment, hal, Option.map_some, if_pos hlucky]
        · exact (hsame b _ (Function.update_self ..) ⟨by omega, hlt⟩).trans (hkeep x hx)
      | some naddr =>
        obtain ⟨b', l', huser, hlive', hiff, hsame, hfresh, hsize, hzf, hal', hcontents, hzero⟩ := hout
        rw [Function.update_idem] at hlive'
        refine ⟨b', l', huser, hlive', hiff, hsame, fun hne => ?_, hsize, hzf, hal', fun i hi => ?_, hzero⟩
        · obtain ⟨hnone, hreturned⟩ := hfresh hne
          rw [Function.update_of_ne hne] at hnone
          exact ⟨hnone, hreturned⟩
        · exact (hcontents i hi).trans (hkeep _ (Nat.le_add_right _ _))
    · next hmiss =>
      rw [if_neg hmiss] at hfits
      obtain ⟨A', idle', hr', hparams, hframe, hout⟩ :=
        hr.alignedReallocMove hmay hb hne hlt hmaxpow hmaxlt (fun hr => hfits hr _ rfl) h
      rw [max_assoc, max_self] at hout
      refine ⟨A', idle', hr', hparams, hframe, hout.aligned hb hafter ?_⟩
      rw [refusedAlignment, hal, Option.map_some, if_neg hmiss]

/-! ### Giving up contents -/

/-- What `resize` leaves behind: the old allocation is gone, also after a refusal. -/
def ResizeOutcome (L L' : ℕ → Option Live) (t : Tid) (s' : State) (b size : ℕ) : Option ℕ → Prop
  | none => L' = Function.update L b none ∧ s'.errno t = ENOMEM
  | some user => ∃ b' l', l'.user = user ∧ l'.view.size = size ∧
      L' = Function.update (Function.update L b none) b' (some l') ∧ Function.update L b none b' = none

theorem Refines.alignedResizeMove (hr : Refines cfg main s status A idle)
    (hmay : MayCall main s status t) (hb : liveAt A b = some l) (hlt : size < 2 ^ 64)
    (hpow : alignment.isPowerOfTwo) (halign : alignment < 2 ^ 64)
    (hfits : r ≠ none → Fits s.heapMaster (memalignRequest alignment size))
    (h : alignedResizeMove k t l.user alignment size s = .ok (r, s')) :
    ∃ A' idle', Refines cfg main s' status A' idle' ∧ SameParams s.heapMaster s'.heapMaster ∧
      Frame (Function.update (liveAt A) b none) s s' ∧
      ResizeOutcome (liveAt A) (liveAt A') t s' b size r := by
  obtain ⟨s₁, A₁, hfree, hr₁, hlive₁, hframe₁, hcontrol, _⟩ := hr.doFree hb t
  unfold Llheap.alignedResizeMove at h
  obtain ⟨s₁', hs₁, h⟩ := Result.bind_eq_ok.mp h
  cases hfree.symm.trans hs₁
  obtain ⟨A', idle', hr', hframe, hparams, hout⟩ := hr₁.memalignNoStats (hmay.congr hcontrol) hlt hpow halign
    (fun hr => (hfits hr).congr hcontrol.params) h
  rw [hlive₁] at hframe hout
  refine ⟨A', idle', hr', hcontrol.params.trans hparams, hframe₁.trans hframe, ?_⟩
  cases r with
  | none => exact hout
  | some user =>
    obtain ⟨b', n, origin, hnone, hlive, _⟩ := hout
    exact ⟨b', _, rfl, rfl, hlive, hnone⟩

/-- The `doMalloc` call of a `resize`, if it makes one. -/
def resizeRequest (s : State) (oaddr size : ℕ) : Option ℕ :=
  let hd := headers s oaddr
  if size = 0 ∨ hd.alignment = libAlign ∧ reusable size (dataSize hd.size oaddr hd.header) then none
  else some size

theorem Refines.resize (hr : Refines cfg main s status A idle) (hmay : MayCall main s status t)
    (hb : liveAt A b = some l) (hne : size ≠ 0) (hlt : size < 2 ^ 64)
    (hfits : r ≠ none → ∀ n ∈ resizeRequest s l.user size, Fits s.heapMaster n)
    (h : resize k t (some l.user) size s = .ok (r, s')) :
    ∃ A' idle', Refines cfg main s' status A' idle' ∧ SameParams s.heapMaster s'.heapMaster ∧
      Frame (Function.update (liveAt A) b none) s s' ∧
      ResizeOutcome (liveAt A) (liveAt A') t s' b size r := by
  obtain ⟨hdata, hafter, hroom, _⟩ := hr.dataSize hb
  unfold resizeRequest at hfits
  unfold Llheap.resize at h
  dsimp only at h hfits
  rw [if_neg hne] at h
  split at h
  · next hreuse =>
    cases h
    have hsize := hreuse.2.1
    rw [hdata] at hsize
    have hroom : l.user + size ≤ b + l.len := by omega
    rw [show (Llheap.headers s l.user).header = b by rw [hr.headers hb]]
    obtain ⟨A', hr', hlive, hframe⟩ := hr.resizeInPlace hb hroom
    refine ⟨A', idle, hr', ⟨rfl, rfl, rfl⟩, hframe, b,
      { l with view := { l.view with zeroFill := false, size := size } }, rfl, rfl, ?_,
      Function.update_self ..⟩
    rw [hlive, Function.update_idem]
  · next hreuse =>
    rw [if_neg (not_or.mpr ⟨hne, hreuse⟩)] at hfits
    have hmove : Llheap.alignedResizeMove k t l.user libAlign size s = .ok (r, s') := by
      rw [Llheap.alignedResizeMove, ← h]
      congr 1
    refine hr.alignedResizeMove hmay hb hlt ⟨4, rfl⟩ (by decide) (fun hr => ?_) hmove
    rw [memalignRequest, if_pos (.inl le_rfl)]
    exact hfits hr _ rfl

/-- The `doMalloc` call of an `aligned_resize`, if it makes one. -/
def alignedResizeRequest (s : State) (oaddr nalignment size : ℕ) : Option ℕ :=
  let nalignment := max nalignment libAlign
  let word := s.mem.word (headerAddr oaddr)
  if size = 0 then none
  else if alignmentBit word ≠ 0 then
    if luckyMatch oaddr (clearAlignmentBit word) nalignment then
      let hd := headers (updateAlignment oaddr nalignment s) oaddr
      if reusable size (dataSize hd.size oaddr hd.header) then none
      else some (memalignRequest nalignment size)
    else some (memalignRequest nalignment size)
  else if nalignment = libAlign then resizeRequest s oaddr size
  else some (memalignRequest nalignment size)

theorem Refines.alignedResize {nalignment : ℕ} (hr : Refines cfg main s status A idle)
    (hmay : MayCall main s status t) (hb : liveAt A b = some l) (hne : size ≠ 0) (hlt : size < 2 ^ 64)
    (hpow : nalignment.isPowerOfTwo) (halign : nalignment < 2 ^ 64)
    (hfits : r ≠ none → ∀ n ∈ alignedResizeRequest s l.user nalignment size, Fits s.heapMaster n)
    (h : alignedResize k t (some l.user) nalignment size s = .ok (r, s')) :
    ∃ A' idle', Refines cfg main s' status A' idle' ∧ SameParams s.heapMaster s'.heapMaster ∧
      Frame (Function.update (liveAt A) b none) s s' ∧
      ResizeOutcome (liveAt A) (liveAt A') t s' b size r := by
  obtain ⟨hblock, _⟩ := hr.liveBlock hb
  obtain ⟨hbit, hclear⟩ := hblock.encodes.fakeWord hblock.taggable
  have hmaxpow := max_libAlign_pow hpow
  have hmaxlt : max nalignment libAlign < 2 ^ 64 := max_lt halign (by decide)
  unfold alignedResizeRequest at hfits
  unfold Llheap.alignedResize at h
  dsimp only at h hfits
  rw [if_neg hne] at h hfits
  cases hal : l.view.alignment with
  | none =>
    rw [if_neg (not_not.mpr (hbit.mpr hal))] at h hfits
    split at h
    · next hsame =>
      rw [if_pos hsame] at hfits
      exact hr.resize hmay hb hne hlt hfits h
    · next hdiff =>
      rw [if_neg hdiff] at hfits
      exact hr.alignedResizeMove hmay hb hlt hmaxpow hmaxlt (fun hr => hfits hr _ rfl) h
  | some a =>
    have hfake : alignmentBit (s.mem.word (headerAddr l.user)) ≠ 0 := by
      rw [ne_eq, hbit, hal]
      nofun
    rw [if_pos hfake, hclear a hal] at h hfits
    split at h
    · next hlucky =>
      rw [if_pos hlucky] at hfits
      obtain ⟨A₁, hr₁, hlive₁, hframe₁, _⟩ := hr.updateAlignment hb hal hmaxpow (le_max_right _ _)
        hmaxlt (Nat.dvd_of_mod_eq_zero hlucky.1)
      have hb₁ : liveAt A₁ b = some { l with view := { l.view with alignment := some (max nalignment libAlign) } } := by
        rw [hlive₁, Function.update_self]
      have hmay₁ : MayCall main (Llheap.updateAlignment l.user (max nalignment libAlign) s) status t :=
        hmay.congr ⟨rfl, rfl, rfl, rfl⟩
      have hsame : Function.update (liveAt A₁) b none = Function.update (liveAt A) b none := by
        rw [hlive₁, Function.update_idem]
      split at h
      · next hreuse =>
        cases h
        obtain ⟨hdata, _, hroom, _⟩ := hr₁.dataSize hb₁
        dsimp only at hdata hroom
        have hsize := hreuse.1
        rw [hdata] at hsize
        have hheader : (Llheap.headers (Llheap.updateAlignment l.user (max nalignment libAlign) s)
            l.user).header = b := by
          have := hr₁.headers hb₁
          dsimp only at this
          rw [this]
        rw [hheader]
        -- the alignment is recorded a second time
        obtain ⟨A₂, hr₂, hlive₂, hframe₂, _⟩ := hr₁.updateAlignment hb₁ rfl hmaxpow (le_max_right _ _)
          hmaxlt (Nat.dvd_of_mod_eq_zero hlucky.1)
        dsimp only at hr₂ hlive₂ hframe₂
        have hb₂ : liveAt A₂ b =
            some { l with view := { l.view with alignment := some (max nalignment libAlign) } } := by
          rw [hlive₂, Function.update_self]
        have hroom' : l.user + size ≤ b + l.len := by omega
        obtain ⟨A₃, hr₃, hlive₃, hframe₃⟩ := hr₂.resizeInPlace hb₂ hroom'
        rw [hsame] at hframe₂
        rw [hlive₂, Function.update_idem, hsame] at hframe₃
        let l' : Live := ⟨l.len, l.user,
          { l.view with alignment := some (max nalignment libAlign), zeroFill := false, size := size }⟩
        refine ⟨A₃, idle, hr₃, ⟨rfl, rfl, rfl⟩, (hframe₁.trans hframe₂).trans hframe₃, b, l', rfl, rfl, ?_,
          Function.update_self ..⟩
        rw [hlive₃, hlive₂, hlive₁, Function.update_idem, Function.update_idem, Function.update_idem]
      · next hreuse =>
        rw [if_neg hreuse] at hfits
        obtain ⟨A', idle', hr', hparams, hframe, hout⟩ :=
          hr₁.alignedResizeMove hmay₁ hb₁ hlt hmaxpow hmaxlt (fun hr => hfits hr _ rfl) h
        rw [hsame] at hframe
        refine ⟨A', idle', hr', ⟨hparams.pageSize, hparams.mmapStart, hparams.maxBucketsUsed⟩,
          hframe₁.trans hframe, ?_⟩
        cases r with
        | none => exact ⟨hsame ▸ hout.1, hout.2⟩
        | some user =>
          obtain ⟨b', l', huser, hsize, hlive, hnone⟩ := hout
          rw [hsame] at hlive hnone
          exact ⟨b', l', huser, hsize, hlive, hnone⟩
    · next hmiss =>
      rw [if_neg hmiss] at hfits
      exact hr.alignedResizeMove hmay hb hlt hmaxpow hmaxlt (fun hr => hfits hr _ rfl) h

end Llheap
