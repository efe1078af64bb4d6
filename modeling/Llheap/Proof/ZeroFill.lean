import Llheap.Proof.Sticky

/-!
# Zero fill along a run

One allocation that starts out zero filled, followed through a whole run of the program: it is reallocated, written, and asked for its sizes, while the program does anything else with its other allocations. The offsets that the program has written are recorded beside the state.
-/

namespace Llheap

open Separation

/-- A program with one allocation that is followed, and the offsets written there since they were last outside the request size. -/
structure Followed where
  world : World
  addr : ℕ
  written : Set ℕ

inductive FollowedLabel (cfg : Config)
  | reallocate (k : Kernel cfg) (t : Tid) (c : Reallocation)
  | usableSize
  | requestSize
  | write (offset : ℕ) (byte : UInt8)
  /-- anything else that the program does, besides with this allocation -/
  | other (lab : Label cfg)

/-- The two calls that return a zero-filled allocation. -/
inductive ZeroFills : Call → Prop
  | calloc (dimension elemSize : ℕ) : ZeroFills (.calloc dimension elemSize)
  | cmemalign (alignment dimension elemSize : ℕ) : ZeroFills (.cmemalign alignment dimension elemSize)

def Followed.requestSize (p : Followed) : ℕ := mallocRequestSize p.world.st (some p.addr)

def followedSystem (cfg : Config) (main : Tid) : TransitionSystem Followed (FollowedLabel cfg) where
  init p := p.written = ∅ ∧ ∃ (w : World) (k : Kernel cfg) (t : Tid) (c : Call),
    (system cfg main).Reachable w ∧ ZeroFills c ∧ (system cfg main).step w (.call k t c) p.world ∧
    c.run k t w.st = .ok (some p.addr, p.world.st)
  step p lab p' := match lab with
    | .reallocate k t c => 0 < c.size ∧
        (system cfg main).step p.world (.call k t (c.call (some p.addr))) p'.world ∧
        ∃ r, (c.call (some p.addr)).run k t p.world.st = .ok (r, p'.world.st) ∧
          p'.addr = r.getD p.addr ∧ p'.written = { i ∈ p.written | i < p'.requestSize }
    | .usableSize => (system cfg main).step p.world (.usableSize (some p.addr)) p'.world ∧
        p'.addr = p.addr ∧ p'.written = p.written
    | .requestSize => p' = p
    | .write offset byte => (system cfg main).step p.world (.write p.addr offset byte) p'.world ∧
        p'.addr = p.addr ∧ p'.written = insert offset p.written
    | .other lab => (system cfg main).step p.world lab p'.world ∧ p.addr ∉ lab.addr ∧
        p'.addr = p.addr ∧ p'.written = p.written

/-- While the allocation is zero filled, what the program has not written reads as zero. -/
def Followed.ReadsZero (p : Followed) : Prop :=
  mallocZeroFill p.world.st (some p.addr) = true →
    ∀ i < p.requestSize, i ∉ p.written → p.world.st.mem (p.addr + i) = 0

/-- What the usable size adds to the request size is zero. -/
def Followed.TailZero (p : Followed) : Prop :=
  ∀ i, p.requestSize ≤ i → i < dataSpace p.world.st p.addr → p.world.st.mem (p.addr + i) = 0

/-- `malloc_usable_size` is only called when it exposes nothing but zeros. -/
def ExposesZero {cfg : Config} (p : Followed) : FollowedLabel cfg → Prop
  | .usableSize => p.TailZero
  | _ => True

variable {cfg : Config} {main : Tid} {k : Kernel cfg} {t : Tid} {s s' : State} {w w' : World}
  {status : Tid → Status} {A A' : Arena Tag} {idle idle' : List ℕ} {b : ℕ} {l : Live}
  {c : Reallocation} {r : Option ℕ} {p p' : Followed}

/-! ### What the steps do to the contents -/

/-- The allocation as it is after a step, compared with before. -/
structure ZeroKept (s s' : State) (addr addr' : ℕ) : Prop where
  zeroFill : mallocZeroFill s' (some addr') = mallocZeroFill s (some addr)
  contents : ∀ i < mallocRequestSize s (some addr), i < mallocRequestSize s' (some addr') →
    s'.mem (addr' + i) = s.mem (addr + i)
  zeroed : mallocZeroFill s (some addr) = true → ∀ i, mallocRequestSize s (some addr) ≤ i →
    i < mallocRequestSize s' (some addr') → s'.mem (addr' + i) = 0

theorem Refines.reallocation_zeroKept (hr : Refines cfg main s status A idle)
    (hmay : MayCall main s status t) (hb : liveAt A b = some l) (hvalid : (c.call (some l.user)).Valid)
    (hpos : 0 < c.size) (hfits : ∀ n ∈ (c.call (some l.user)).request s, Fits s.heapMaster n)
    (h : (c.call (some l.user)).run k t s = .ok (r, s')) : ZeroKept s s' l.user (r.getD l.user) := by
  obtain ⟨A', idle', hr', hout⟩ := hr.reallocation hmay hb hvalid hpos (fun _ => hfits) h
  cases r with
  | none =>
    obtain ⟨hlive, hcontents, _⟩ := hout
    have hb' := congrFun hlive b
    rw [Function.update_self] at hb'
    obtain ⟨hsize, hfill, _⟩ := hr.queries hb
    obtain ⟨hsize', hfill', _⟩ := hr'.queries hb'
    dsimp only at hsize' hfill'
    have hroom := (hr.dataSize hb).2.2.1
    refine ⟨hfill'.trans hfill.symm, fun i hi _ => ?_, fun _ i hi hlt => ?_⟩
    · rw [hsize] at hi
      exact hcontents (l.user + i) (Nat.le_add_right _ _) (by omega)
    · rw [Option.getD_none, hsize'] at hlt
      rw [hsize] at hi
      omega
  | some naddr =>
    obtain ⟨_, hsize, _, hcontents, hfill, hzeroed, _⟩ := hr.kept hr' hb hout
    refine ⟨hfill, fun i hi hlt => hcontents i ?_, fun hz i hi hlt => hzeroed hz i hi ?_⟩
    · rw [Option.getD_some, hsize] at hlt
      exact lt_min hi hlt
    · rwa [Option.getD_some, hsize] at hlt

theorem others_queries {addr : Option ℕ} (hothers : Others A A' s s' addr)
    (hr : Refines cfg main s status A idle) {status' : Tid → Status}
    (hr' : Refines cfg main s' status' A' idle') (hb : liveAt A b = some l) (hu : l.user ∉ addr) :
    mallocZeroFill s' (some l.user) = mallocZeroFill s (some l.user) ∧
      mallocRequestSize s' (some l.user) = mallocRequestSize s (some l.user) ∧
      ∀ i < mallocRequestSize s (some l.user), s'.mem (l.user + i) = s.mem (l.user + i) := by
  obtain ⟨hb', heq⟩ := hothers b l hb hu
  obtain ⟨hsize, hfill, _⟩ := hr.queries hb
  obtain ⟨hsize', hfill', _⟩ := hr'.queries hb'
  obtain ⟨_, hafter, hroom, _⟩ := hr.dataSize hb
  refine ⟨hfill'.trans hfill.symm, hsize'.trans hsize.symm, fun i hi => heq ⟨by omega, ?_⟩⟩
  rw [hsize] at hi
  omega

/-! ### The allocation along a run -/

/-- What holds in every state of a run: the allocation is live and zero filled. -/
structure FollowedInv (cfg : Config) (main : Tid) (p : Followed) : Prop where
  reach : (system cfg main).Reachable p.world
  live : p.addr ∈ p.world.live
  zeroFill : mallocZeroFill p.world.st (some p.addr) = true
  written : ∀ i ∈ p.written, i < p.requestSize

theorem followed_init (h : (followedSystem cfg main).init p) : FollowedInv cfg main p ∧ p.ReadsZero := by
  obtain ⟨w', addr, written⟩ := p
  obtain ⟨rfl, w, k, t, c, hreach, hc, hstep, hrun⟩ := h
  obtain ⟨⟨hmay, hvalid, hold, hfits⟩, r, hrun', hlive', _⟩ := id hstep
  cases hrun.symm.trans hrun'
  obtain ⟨A, idle, hr, hlive⟩ := reachable_inv hreach
  have hcleared : ∃ A' idle' size al, Refines cfg main w'.st w.status A' idle' ∧
      Cleared (liveAt A) (liveAt A') w'.st.mem addr size al := by
    cases hc with
    | calloc dimension elemSize =>
      obtain ⟨A', idle', hr', _, _, hout⟩ := hr.calloc hmay (fun _ => hfits _ rfl) hrun
      exact ⟨A', idle', _, _, hr', hout⟩
    | cmemalign alignment dimension elemSize =>
      obtain ⟨_, hpow, halign⟩ := hvalid
      obtain ⟨A', idle', hr', _, _, hout⟩ := hr.cmemalign hmay hpow halign (fun _ => hfits _ rfl) hrun
      exact ⟨A', idle', _, _, hr', hout⟩
  obtain ⟨A', idle', size, al, hr', b, n, origin, _, hlive₁, hzero⟩ := hcleared
  have hb : liveAt A' b = some ⟨n, addr, ⟨origin, true, size, al⟩⟩ := by rw [hlive₁, Function.update_self]
  obtain ⟨hsize, hfill, _⟩ := hr'.queries hb
  dsimp only at hsize hfill
  refine ⟨⟨.next hreach hstep, hlive' ▸ .inl rfl, hfill, nofun⟩, fun _ i hi _ => ?_⟩
  rw [Followed.requestSize, hsize] at hi
  exact hzero _ (Nat.le_add_right _ _) (Nat.add_lt_add_left hi _)

theorem ZeroKept.readsZero (hkept : ZeroKept p.world.st p'.world.st p.addr p'.addr) (h : p.ReadsZero)
    (hwritten : ∀ i < p'.requestSize, i ∉ p'.written → i ∉ p.written) : p'.ReadsZero := by
  intro hz i hi hnot
  rw [hkept.zeroFill] at hz
  rcases Nat.lt_or_ge i p.requestSize with hlt | hge
  · rw [hkept.contents i hlt hi]
    exact h hz i hlt (hwritten i hi hnot)
  · exact hkept.zeroed hz i hge hi

theorem reallocate_followed (h : FollowedInv cfg main p)
    (hs : (followedSystem cfg main).step p (.reallocate k t c) p') :
    FollowedInv cfg main p' ∧ (p.ReadsZero → p'.ReadsZero) := by
  obtain ⟨w, addr, written⟩ := p
  obtain ⟨w', addr', written'⟩ := p'
  obtain ⟨hpos, hstep, r, hrun, rfl, hwritten⟩ := hs
  obtain rfl : written' = { i ∈ written | i < mallocRequestSize w'.st (some (r.getD addr)) } := hwritten
  obtain ⟨⟨hmay, hvalid, hold, hfits⟩, r', hrun', hlive', _⟩ := id hstep
  cases hrun.symm.trans hrun'
  obtain ⟨A, idle, hr, hlive⟩ := reachable_inv h.reach
  obtain ⟨b, l, hb, rfl⟩ : addr ∈ users (liveAt A) := hlive ▸ h.live
  have hkept := hr.reallocation_zeroKept hmay hb hvalid hpos hfits hrun
  refine ⟨⟨.next h.reach hstep, ?_, hkept.zeroFill.trans h.zeroFill, fun i hi => hi.2⟩,
    fun hzero => hkept.readsZero hzero fun i hi hnot hmem => hnot ⟨hmem, hi⟩⟩
  have hcall : (c.call (some l.user)).gives r = (r.isSome || c.size == 0) := by
    cases c <;> rfl
  rw [hlive']
  cases r with
  | none =>
    refine .inr ⟨h.live, fun hgone => ?_⟩
    rw [hcall, Option.isSome_none, beq_false_of_ne hpos.ne'] at hgone
    cases hgone.1
  | some naddr => exact .inl rfl

/-- The usable size becomes the request size; nothing else changes. -/
theorem usableSize_followed (h : FollowedInv cfg main p)
    (hs : (followedSystem cfg main).step p .usableSize p') :
    FollowedInv cfg main p' ∧ p'.requestSize = dataSpace p.world.st p.addr ∧
      p.requestSize ≤ p'.requestSize ∧
      ∀ i, p'.world.st.mem (p'.addr + i) = p.world.st.mem (p.addr + i) := by
  obtain ⟨w, addr, written⟩ := p
  obtain ⟨⟨st', status', live'⟩, addr', written'⟩ := p'
  obtain ⟨hstep, haddr, hwritten⟩ := hs
  obtain rfl : addr' = addr := haddr
  obtain rfl : written' = written := hwritten
  obtain ⟨hold, hst, hlive, hstatus⟩ := id hstep
  obtain rfl : st' = (mallocUsableSize (some addr') w.st).2 := hst
  obtain rfl : live' = w.live := hlive
  obtain rfl : status' = w.status := hstatus
  obtain ⟨A, idle, hr, hlive⟩ := reachable_inv h.reach
  obtain ⟨b, l, hb, rfl⟩ : addr' ∈ users (liveAt A) := hlive ▸ h.live
  obtain ⟨_, A', hr', hlive', _, hkeep⟩ := hr.usableSize hb
  have hb' := congrFun hlive' b
  rw [Function.update_self] at hb'
  obtain ⟨hsize, hfill, _⟩ := hr.queries hb
  obtain ⟨hsize', hfill', _⟩ := hr'.queries hb'
  dsimp only at hsize' hfill'
  have hspace := hr.dataSpace_eq hb
  have hroom := (hr.dataSize hb).2.2.1
  have hgrow : mallocRequestSize w.st (some l.user) ≤
      mallocRequestSize (mallocUsableSize (some l.user) w.st).2 (some l.user) := by
    rw [hsize, hsize']
    omega
  exact ⟨⟨.next h.reach hstep, h.live, hfill'.trans (hfill.symm.trans h.zeroFill),
    fun i hi => (h.written i hi).trans_le hgrow⟩, hsize'.trans hspace.symm, hgrow,
    fun i => hkeep _ (Nat.le_add_right _ _)⟩

/-- What is not written reads as zero afterwards exactly if the bytes that are exposed are zero. -/
theorem usableSize_readsZero (h : FollowedInv cfg main p)
    (hs : (followedSystem cfg main).step p .usableSize p') (hzero : p.ReadsZero) :
    p'.ReadsZero ↔ p.TailZero := by
  have hwritten : p'.written = p.written := hs.2.2
  obtain ⟨h', hspace, hgrow, hsame⟩ := usableSize_followed h hs
  constructor
  · intro hafter i hi hlt
    rw [← hsame]
    refine hafter h'.zeroFill i (hspace ▸ hlt) fun hmem => ?_
    have := h.written i (hwritten ▸ hmem)
    omega
  · intro htail _ i hi hnot
    rw [hsame]
    rcases Nat.lt_or_ge i p.requestSize with hlt | hge
    · exact hzero h.zeroFill i hlt (hwritten ▸ hnot)
    · exact htail i hge (hspace ▸ hi)

theorem write_followed {offset : ℕ} {byte : UInt8} (h : FollowedInv cfg main p)
    (hs : (followedSystem cfg main).step p (.write offset byte) p') :
    FollowedInv cfg main p' ∧ (p.ReadsZero → p'.ReadsZero) := by
  obtain ⟨w, addr, written⟩ := p
  obtain ⟨⟨st', status', live'⟩, addr', written'⟩ := p'
  obtain ⟨hstep, haddr, hwritten⟩ := hs
  obtain rfl : addr' = addr := haddr
  obtain rfl : written' = insert offset written := hwritten
  obtain ⟨hold, hlt, hst, hlive, hstatus⟩ := id hstep
  obtain rfl : st' = { w.st with mem := Function.update w.st.mem (addr' + offset) byte } := hst
  obtain rfl : live' = w.live := hlive
  obtain rfl : status' = w.status := hstatus
  obtain ⟨A, idle, hbehind⟩ := reachable_inv h.reach
  obtain ⟨A', hbehind', hlive', _⟩ : ∃ A', Behind cfg main
      ⟨{ w.st with mem := Function.update w.st.mem (addr' + offset) byte }, w.status, w.live⟩ A' idle ∧
      liveAt A' = liveAt A ∧ _ := write_behind _ hbehind hold hlt
  obtain ⟨b, l, hb, rfl⟩ : addr' ∈ users (liveAt A) := hbehind.live ▸ h.live
  obtain ⟨hsize, hfill, _⟩ := hbehind.refines.queries hb
  obtain ⟨hsize', hfill', _⟩ := hbehind'.refines.queries (b := b) (by rw [hlive', hb])
  have hsame := hsize'.trans hsize.symm
  refine ⟨⟨.next h.reach hstep, h.live, hfill'.trans (hfill.symm.trans h.zeroFill), fun i hi => ?_⟩,
    fun hzero _ i hi hnot => ?_⟩
  · rw [Followed.requestSize, hsame]
    rcases hi with rfl | hi
    · exact hlt
    · exact h.written i hi
  · rw [Followed.requestSize, hsame] at hi
    have hne : i ≠ offset := fun heq => hnot (.inl heq)
    dsimp only
    rw [Function.update_of_ne (by omega)]
    exact hzero h.zeroFill i hi fun hmem => hnot (.inr hmem)

theorem other_followed {lab : Label cfg} (h : FollowedInv cfg main p)
    (hs : (followedSystem cfg main).step p (.other lab) p') :
    FollowedInv cfg main p' ∧ (p.ReadsZero → p'.ReadsZero) := by
  obtain ⟨w, addr, written⟩ := p
  obtain ⟨w', addr', written'⟩ := p'
  obtain ⟨hstep, hu, haddr, hwritten⟩ := hs
  obtain rfl : addr' = addr := haddr
  obtain rfl : written' = written := hwritten
  obtain ⟨A, idle, hbehind⟩ := reachable_inv h.reach
  obtain ⟨A', idle', hbehind', hothers⟩ := step_behind hbehind hstep
  obtain ⟨b, l, hb, rfl⟩ : addr' ∈ users (liveAt A) := hbehind.live ▸ h.live
  obtain ⟨hfill, hsize, hcontents⟩ := others_queries hothers hbehind.refines hbehind'.refines hb hu
  have hkept : ZeroKept w.st w'.st l.user l.user :=
    ⟨hfill, fun i hi _ => hcontents i hi, fun _ i hi hlt => absurd (hsize ▸ hlt) hi.not_gt⟩
  refine ⟨⟨.next h.reach hstep, ?_, hfill.trans h.zeroFill, fun i hi => ?_⟩,
    fun hzero => hkept.readsZero hzero fun _ _ => id⟩
  · rw [hbehind'.live]
    exact ⟨b, l, (hothers b l hb hu).1, rfl⟩
  · rw [Followed.requestSize, hsize]
    exact h.written i hi

theorem followed_step {lab : FollowedLabel cfg} (h : FollowedInv cfg main p)
    (hs : (followedSystem cfg main).step p lab p') :
    FollowedInv cfg main p' ∧ (p.ReadsZero → ExposesZero p lab → p'.ReadsZero) := by
  cases lab with
  | reallocate k t c =>
    obtain ⟨h', hzero⟩ := reallocate_followed h hs
    exact ⟨h', fun hp _ => hzero hp⟩
  | usableSize => exact ⟨(usableSize_followed h hs).1, fun hp htail => (usableSize_readsZero h hs hp).mpr htail⟩
  | requestSize =>
    obtain rfl := hs
    exact ⟨h, fun hp _ => hp⟩
  | write offset byte =>
    obtain ⟨h', hzero⟩ := write_followed h hs
    exact ⟨h', fun hp _ => hzero hp⟩
  | other lab =>
    obtain ⟨h', hzero⟩ := other_followed h hs
    exact ⟨h', fun hp _ => hzero hp⟩

theorem followed_inv (h : (followedSystem cfg main).Reachable p) : FollowedInv cfg main p :=
  h.invariant (fun _ hp => (followed_init hp).1) fun _ _ _ hp hs => (followed_step hp hs).1

/-- In a run whose `malloc_usable_size` calls on the allocation expose only zeros, it stays zero filled and what the program has not written reads as zero. A `malloc_usable_size` call that exposes anything else ends this. -/
theorem zero_fill_kept :
    (∀ p, ((followedSystem cfg main).restrict ExposesZero).Reachable p →
      mallocZeroFill p.world.st (some p.addr) = true ∧ p.ReadsZero) ∧
    ∀ p p', (followedSystem cfg main).Reachable p → p.ReadsZero →
      (followedSystem cfg main).step p .usableSize p' → (p'.ReadsZero ↔ p.TailZero) := by
  refine ⟨fun p h => ?_, fun p p' h hzero hs => usableSize_readsZero (followed_inv h) hs hzero⟩
  have hrun : FollowedInv cfg main p ∧ p.ReadsZero :=
    h.invariant (fun _ hp => followed_init hp) fun _ _ _ hp hs =>
      ⟨(followed_step hp.1 hs.2).1, (followed_step hp.1 hs.2).2 hp.2 hs.1⟩
  exact ⟨hrun.1.zeroFill, hrun.2⟩

private def zeroed (w : World) : World := w.call (.above defaultConfig) 0 (.calloc 1 20)

private def asked (w : World) : World := ⟨(mallocUsableSize (some 134488080) w.st).2, w.status, w.live⟩

private theorem zeroed_step {w : World} (hmay : MayCall 0 w.st w.status 0)
    (hfits : ∀ n ∈ (Call.calloc 1 20).request w.st, Fits w.st.heapMaster n)
    (hrun : ((Call.calloc 1 20).run (.above defaultConfig) 0 w.st).isOk = true) :
    (system defaultConfig 0).step w (.call (.above defaultConfig) 0 (.calloc 1 20)) (zeroed w) := by
  refine World.call_step ⟨hmay, ?_, nofun, hfits⟩ hrun
  exact (by decide : 1 < 2 ^ 64 ∧ 20 < 2 ^ 64)

private def fresh : Followed := ⟨zeroed World.booted, 134488080, ∅⟩

/-- In a fresh block the usable bytes are zero: the allocation of 20 bytes becomes one of 32 zero bytes. -/
theorem zero_fill_kept_fresh : ∃ p p', (followedSystem defaultConfig 0).step p .usableSize p' ∧
    mallocZeroFill p.world.st (some p.addr) = true ∧ p.requestSize = 20 ∧ p'.requestSize = 32 ∧
    p'.ReadsZero := by
  have hstep := zeroed_step (w := World.booted) World.booted_may (by decide +kernel) (by decide +kernel)
  have hrun : (Call.calloc 1 20).run (.above defaultConfig) 0 World.booted.st =
      .ok (some 134488080, (zeroed World.booted).st) := World.call_run (by decide +kernel) (by decide +kernel)
  have hinit : (followedSystem defaultConfig 0).init fresh :=
    ⟨rfl, _, _, _, _, World.booted_reachable, .calloc 1 20, hstep, hrun⟩
  have hlive : fresh.addr ∈ fresh.world.live := by
    rw [fresh, zeroed, World.call_live hrun]
    exact .inl rfl
  have hask : (followedSystem defaultConfig 0).step fresh .usableSize ⟨asked fresh.world, fresh.addr, ∅⟩ :=
    ⟨⟨fun u hu => Option.some.inj hu ▸ hlive, rfl, rfl, rfl⟩, rfl, rfl⟩
  have hsize : fresh.requestSize = 20 := by decide +kernel
  have hsize' : (⟨asked fresh.world, fresh.addr, ∅⟩ : Followed).requestSize = 32 := by decide +kernel
  have hspace : dataSpace fresh.world.st fresh.addr = 32 := by decide +kernel
  have hbytes : ∀ i < 32, 20 ≤ i → fresh.world.st.mem (fresh.addr + i) = 0 := by decide +kernel
  have htail : fresh.TailZero := by
    intro i hi hlt
    rw [hsize] at hi
    rw [hspace] at hlt
    exact hbytes i hlt hi
  obtain ⟨hfill, hzero⟩ := zero_fill_kept.1 fresh (.start hinit)
  exact ⟨fresh, _, hask, hfill, hsize, hsize', (zero_fill_kept.2 fresh _ (.start hinit) hzero hask).mpr htail⟩

/-- Thread 0 allocates 30 bytes, writes the one at offset 25, and frees them. -/
private def dirty : World :=
  let w := World.booted.call (.above defaultConfig) 0 (.malloc 30)
  ⟨{ w.st with mem := Function.update w.st.mem (134488080 + 25) 7 }, w.status, w.live⟩

private def dirtyFreed : World := dirty.free 0 (some 134488080)

private theorem dirtyFreed_reachable : (system defaultConfig 0).Reachable dirtyFreed := by
  have hvalid : (Call.malloc 30).Valid := (by decide : 30 < 2 ^ 64)
  have hcall : (system defaultConfig 0).step World.booted (.call (.above defaultConfig) 0 (.malloc 30))
      (World.booted.call (.above defaultConfig) 0 (.malloc 30)) :=
    World.booted_call hvalid rfl (by decide +kernel) (by decide +kernel)
  have hlive : 134488080 ∈ (World.booted.call (.above defaultConfig) 0 (.malloc 30)).live := by
    refine .inl ?_
    decide +kernel
  have hsize : 25 < mallocRequestSize (World.booted.call (.above defaultConfig) 0 (.malloc 30)).st
      (some 134488080) := by decide +kernel
  have hwrite : (system defaultConfig 0).step (World.booted.call (.above defaultConfig) 0 (.malloc 30))
      (.write 134488080 25 7) dirty := ⟨hlive, hsize, rfl, rfl, rfl⟩
  have hfree : (system defaultConfig 0).step dirty (.free 0 (some 134488080)) dirtyFreed :=
    World.free_step (fun u hu => Option.some.inj hu ▸ hlive) (by decide +kernel)
  exact .next (.next (.next World.booted_reachable hcall) hwrite) hfree

private def reused : Followed := ⟨zeroed dirtyFreed, 134488080, ∅⟩

/-- `calloc` reuses the block and clears 20 bytes of it, then `malloc_usable_size` makes them 32: the byte at offset 25 is the one that was written before. -/
theorem usable_size_exposes : ∃ p, (followedSystem defaultConfig 0).Reachable p ∧ p.written = ∅ ∧
    mallocZeroFill p.world.st (some p.addr) = true ∧ 25 < p.requestSize ∧
    p.world.st.mem (p.addr + 25) = 7 ∧ ¬ p.ReadsZero := by
  have hheap : dirtyFreed.st.heapManager 0 ≠ 1 := by decide +kernel
  have hrunning : dirtyFreed.status 0 ≠ .terminated := by decide +kernel
  have hmay : MayCall 0 dirtyFreed.st dirtyFreed.status 0 := mayCall_main hrunning hheap
  have hstep := zeroed_step (w := dirtyFreed) hmay (by decide +kernel) (by decide +kernel)
  have hrun : (Call.calloc 1 20).run (.above defaultConfig) 0 dirtyFreed.st =
      .ok (some 134488080, (zeroed dirtyFreed).st) := World.call_run (by decide +kernel) (by decide +kernel)
  have hinit : (followedSystem defaultConfig 0).init reused :=
    ⟨rfl, _, _, _, _, dirtyFreed_reachable, .calloc 1 20, hstep, hrun⟩
  have hlive : reused.addr ∈ reused.world.live := by
    rw [reused, zeroed, World.call_live hrun]
    exact .inl rfl
  have hask : (followedSystem defaultConfig 0).step reused .usableSize ⟨asked reused.world, reused.addr, ∅⟩ :=
    ⟨⟨fun u hu => Option.some.inj hu ▸ hlive, rfl, rfl, rfl⟩, rfl, rfl⟩
  have hfill : mallocZeroFill (asked reused.world).st (some reused.addr) = true := by decide +kernel
  have hsize : 25 < mallocRequestSize (asked reused.world).st (some reused.addr) := by decide +kernel
  have hbyte : (asked reused.world).st.mem (reused.addr + 25) = 7 := by decide +kernel
  refine ⟨_, .next (.start hinit) hask, rfl, hfill, hsize, hbyte, fun hzero => ?_⟩
  have hclear := hzero hfill 25 hsize (Set.notMem_empty 25)
  exact absurd (hbyte.symm.trans hclear) (by decide)

end Llheap
