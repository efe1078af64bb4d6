import Llheap.Base.Pool
import Llheap.Proof.Separation
import Llheap.Proof.SlabKept
import Llheap.Proof.Tenants

/-!
# Reuse before growth

Runs in which `doMalloc` and `doFree` are single steps, with the writes that programs and routines make to the blocks in between. Sizes need not fit, and a heap may be handed on while the thread that had it still exits. For every bucket the blocks that have been carved are never more than the live allocations that the bucket was the home of at one time.
-/

namespace Llheap.Reuse

variable {cfg : Config}

structure World where
  st : State
  status : Tid → Status
  live : Finset ℕ
  /-- how many blocks have been carved for each bucket -/
  carved : ℕ → ℕ
  /-- the most allocations of each home bucket that were live at one time -/
  most : ℕ → ℕ

inductive Label (cfg : Config)
  | doMalloc (k : Kernel cfg) (t : Tid) (size : ℕ)
  | doFree (t : Tid) (addr : ℕ)
  /-- what `memalignNoStats` does to a block that `doMalloc` has returned -/
  | align (addr alignment size : ℕ)
  | edit (addr : ℕ) (e : Edit)
  | setErrno (t : Tid) (e : ℕ)
  | mallopt (option value : ℤ)
  | startup (k : Kernel cfg)
  | dtor (t : Tid)
  | terminate (t : Tid)

/-- The live allocations whose home is the bucket `f`. -/
def homed (s : State) (live : Finset ℕ) (f : ℕ) : Finset ℕ := live.filter fun u => home s u = some f

/-- One more block for a bucket. -/
def tally (carved : ℕ → ℕ) : Option ℕ → ℕ → ℕ
  | none => carved
  | some f => Function.update carved f (carved f + 1)

/-- The world after a step. -/
def World.next (w : World) (st : State) (status : Tid → Status) (live : Finset ℕ) (carved : ℕ → ℕ) : World :=
  ⟨st, status, live, carved, fun f => max (w.most f) (homed st live f).card⟩

def Step (main : Tid) (w : World) : Label cfg → World → Prop
  | .doMalloc k t size, w' => w.status t ≠ .terminated ∧ (w.st.heapMasterBootFlag = 2 ∨ t = main) ∧
      size < 2 ^ 64 ∧ ∃ r st, Llheap.doMalloc k t size w.st = .ok (r, st) ∧
        w' = w.next st w.status (w.live ∪ r.toFinset) (if r = none then w.carved
          else tally w.carved (carves k t size w.st))
  | .doFree t addr, w' => addr ∈ w.live ∧ ∃ st, Llheap.doFree t addr w.st = .ok st ∧
      w' = w.next st w.status (w.live.erase addr) w.carved
  | .align addr alignment size, w' => addr ∈ w.live ∧ alignmentBit (w.st.mem.word (headerAddr addr)) = 0 ∧
      alignment.isPowerOfTwo ∧ libAlign ≤ alignment ∧ alignment < 2 ^ 64 ∧ size < 2 ^ 64 ∧
      addr + sizeofStorage ≤ ceiling (addr + sizeofStorage) alignment ∧
      ceiling (addr + sizeofStorage) alignment ≤ addr + dataSpace w.st addr ∧
      w' = w.next (setFakeHeader addr (ceiling (addr + sizeofStorage) alignment) alignment size w.st) w.status
        (insert (ceiling (addr + sizeofStorage) alignment) (w.live.erase addr)) w.carved
  | .edit addr e, w' => addr ∈ w.live ∧ e.Valid addr w.st ∧
      w' = w.next (e.run addr w.st) w.status w.live w.carved
  | .setErrno t e, w' => w' = w.next (w.st.refuse t e) w.status w.live w.carved
  | .mallopt option value, w' => ∃ code st, Llheap.mallopt option value w.st = .ok (code, st) ∧
      w' = w.next st w.status w.live w.carved
  | .startup k, w' => ∃ st, Llheap.startup k main w.st = .ok st ∧ w' = w.next st w.status w.live w.carved
  | .dtor t, w' => w.st.heapMasterBootFlag = 2 ∧ w.status t = .alive ∧ w.st.setspecific t = true ∧
      w' = w.next (heapManagerDtor t w.st) (Function.update w.status t .exiting) w.live w.carved
  | .terminate t, w' => w.st.heapMasterBootFlag = 2 ∧
      (w.status t = .exiting ∨ w.status t = .alive ∧ w.st.setspecific t = false) ∧
      w' = w.next w.st (Function.update w.status t .terminated) w.live w.carved

/-- The first thing that any program does to the allocator is to boot it. -/
def system (cfg : Config) (main : Tid) : TransitionSystem World (Label cfg) where
  init w := (∃ k : Kernel cfg, heapManagerCtor k main State.unbooted = .ok w.st) ∧
    w.status = (fun _ => .alive) ∧ w.live = ∅ ∧ w.carved = (fun _ => 0) ∧ w.most = fun _ => 0
  step := Step main

/-! ### Pools -/

/-- The free blocks of a bucket. -/
def stock (A : Arena Tag) (f : ℕ) : Set ℕ := { b | ∃ n, A.at? b = some ⟨n, .free f⟩ }

/-- The blocks of a bucket that tenants have. -/
def used (L : ℕ → Option Live) (f : ℕ) : Set ℕ := { b | ∃ l, L b = some l ∧ l.view.origin = .bucket f }

variable {main : Tid} {k : Kernel cfg} {t : Tid} {s s' : State} {w w' : World} {status : Tid → Status}
  {A A' : Arena Tag} {idle idle' : List ℕ} {L L' : ℕ → Option Live} {b f u addr size : ℕ} {l : Live}
  {live live' : Finset ℕ} {carved : ℕ → ℕ} {o : Option ℕ}

theorem used_card_le (htenants : ∀ b l, L b = some l → Tenant s A b l.len l.user l.view)
    (hlive : (live : Set ℕ) = users L) {blocks : Finset ℕ} (hblocks : (blocks : Set ℕ) ⊆ used L f) :
    blocks.card ≤ (homed s live f).card := by
  have himage : blocks ⊆ (homed s live f).image fun u => (headers s u).header := by
    intro b hb
    obtain ⟨l, hl, horigin⟩ := hblocks hb
    have htenant := htenants b l hl
    have huser : l.user ∈ (live : Set ℕ) := hlive ▸ ⟨b, l, hl, rfl⟩
    refine Finset.mem_image.mpr ⟨l.user, Finset.mem_filter.mpr ⟨huser, ?_⟩, htenant.header⟩
    rw [htenant.home, horigin, Origin.home]
  exact (Finset.card_le_card himage).trans Finset.card_image_le

/-- The statuses that the arena counts on: a thread whose heap has been handed on while it exits counts as terminated, and goes on using the heap. -/
structure Threads (s : State) (status counted : Tid → Status) : Prop where
  counted : ∀ t, counted t = status t ∨ status t = .exiting ∧ counted t = .terminated
  exiting : ∀ t, status t = .exiting → s.heapManager t ≠ 1
  listed : HeapsListed s

theorem Threads.congr {counted : Tid → Status} (h : Threads s status counted)
    (hmanager : s'.heapManager = s.heapManager)
    (hlist : s'.heapMaster.heapManagersList = s.heapMaster.heapManagersList) : Threads s' status counted :=
  ⟨h.counted, by rw [hmanager]; exact h.exiting, by rw [HeapsListed, hmanager, hlist]; exact h.listed⟩

/-- Addresses are aligned, and mapped blocks start with a page. -/
structure Placed (cfg : Config) (b : ℕ) (l : Live) : Prop where
  align_dvd : libAlign ∣ l.user
  pages : l.view.origin = .mapped → cfg.pageSize ∣ b

/-- What a run keeps: an arena behind the state, a tenant for each live allocation, the slab, and a frugal pool for each bucket. -/
structure Behind (cfg : Config) (main : Tid) (w : World) (A : Arena Tag) (idle : List ℕ)
    (counted : Tid → Status) (L : ℕ → Option Live) : Prop where
  refines : Refines cfg main w.st counted A idle
  threads : Threads w.st w.status counted
  tenants : ∀ b l, L b = some l → Tenant w.st A b l.len l.user l.view
  placed : ∀ b l, L b = some l → Placed cfg b l
  live : (w.live : Set ℕ) = users L
  slab : Slab.Kept w.st L
  unlocked : w.st.heapMaster.extLock = false
  pools : ∀ f, ∃ made : Finset ℕ, made.card = w.carved f ∧ Pool.Frugal (stock A f) (used L f) made (w.most f)

variable {counted counted' : Tid → Status} {x : Option Live}

theorem live_replaced {live : Finset ℕ} {addr : ℕ} (hnew : addr ∉ live) (user : ℕ) :
    insert user ((live ∪ {addr}).erase addr) = live ∪ {user} := by
  ext u
  by_cases hu : u = addr
  · simp [hu, hnew]
  · simp [hu]

theorem Behind.injective (h : Behind cfg main w A idle counted L) : Injective L := by
  intro b c l l' hb hc hu
  rw [← (h.tenants b l hb).header, hu, (h.tenants c l' hc).header]

/-- No block is lost between stock and use, and one is carved only for a bucket that has none in stock. -/
theorem Behind.advance (h : Behind cfg main w A idle counted L) (hr' : Refines cfg main s' counted' A' idle')
    (hthreads : Threads s' status counted')
    (htenants : ∀ b l, L' b = some l → Tenant s' A' b l.len l.user l.view)
    (hplaced : ∀ b l, L' b = some l → Placed cfg b l) (hlive : (live' : Set ℕ) = users L')
    (hslab : Slab.Kept s' L') (hlock : s'.heapMaster.extLock = false)
    (hkept : ∀ f c, c ∈ stock A f ∨ c ∈ used L f → c ∈ stock A' f ∨ c ∈ used L' f)
    (hcarved : ∀ f ∈ o, stock A f = ∅ ∧ used L f ⊆ used L' f ∧ b ∈ used L' f ∧ b ∉ used L f) :
    Behind cfg main (w.next s' status live' (tally w.carved o)) A' idle' counted' L' := by
  refine ⟨hr', hthreads, htenants, hplaced, hlive, hslab, hlock, fun f => ?_⟩
  obtain ⟨made, hcard, hpool⟩ := h.pools f
  have hmost : w.most f ≤ max (w.most f) (homed s' live' f).card := le_max_left ..
  cases o with
  | none => exact ⟨made, hcard, hpool.keep (hkept f) hmost⟩
  | some g =>
    by_cases hfg : f = g
    · subst g
      obtain ⟨hstock, hused, hin, hout⟩ := hcarved f rfl
      have hnew : b ∉ made := hpool.not_made (hstock ▸ Set.notMem_empty b) hout
      have hsucc : (insert b made).card = w.carved f + 1 := by
        rw [Finset.card_insert_of_notMem hnew, hcard]
      refine ⟨insert b made, ?_, hpool.make hstock hused hin fun blocks hblocks => ?_⟩
      · exact hsucc.trans (Function.update_self f (w.carved f + 1) w.carved).symm
      · exact (used_card_le htenants hlive hblocks).trans (le_max_right ..)
    · have hsame : tally w.carved (some g) f = w.carved f := Function.update_of_ne hfg ..
      exact ⟨made, hcard.trans hsame.symm, hpool.keep (hkept f) hmost⟩

theorem Behind.same (h : Behind cfg main w A idle counted L) (hr' : Refines cfg main s' counted' A' idle')
    (hthreads : Threads s' status counted') (hothers : ∀ b, OthersUndisturbed b w.st s' A A')
    (hlist : ∀ h ∈ w.st.heapMaster.heapManagersList, h ∈ s'.heapMaster.heapManagersList)
    (hslab : Slab.Kept s' L) (hlock : s'.heapMaster.extLock = false) :
    Behind cfg main (w.next s' status w.live w.carved) A' idle' counted' L := by
  refine h.advance (o := none) (b := 0) hr' hthreads
    (fun b l hb => (h.tenants b l hb).others (hothers (b + 1)) (Nat.succ_ne_self b).symm hlist)
    h.placed h.live hslab hlock (fun f c hc => hc.imp_left ?_) (by simp)
  rintro ⟨n, hfree⟩
  exact ⟨n, (hothers (c + 1) c _ .free (Nat.succ_ne_self c).symm hfree).1⟩

theorem Behind.one (h : Behind cfg main w A idle counted L) (hr' : Refines cfg main s' counted' A' idle')
    (hthreads : Threads s' status counted') (hothers : OthersUndisturbed b w.st s' A A')
    (hlist : ∀ h ∈ w.st.heapMaster.heapManagersList, h ∈ s'.heapMaster.heapManagersList)
    (hx : ∀ l ∈ x, Tenant s' A' b l.len l.user l.view ∧ Placed cfg b l)
    (hlive : (live' : Set ℕ) = users (Function.update L b x)) (hslab : Slab.Kept s' (Function.update L b x))
    (hlock : s'.heapMaster.extLock = false)
    (hkept : ∀ f, b ∈ stock A f ∨ b ∈ used L f → b ∈ stock A' f ∨ ∃ l ∈ x, l.view.origin = .bucket f)
    (hcarved : ∀ f ∈ o, stock A f = ∅ ∧ L b = none ∧ ∃ l ∈ x, l.view.origin = .bucket f) :
    Behind cfg main (w.next s' status live' (tally w.carved o)) A' idle' counted' (Function.update L b x) := by
  have hself : ∀ f, (∃ l ∈ x, l.view.origin = .bucket f) → b ∈ used (Function.update L b x) f := by
    rintro f ⟨l, hl, horigin⟩
    exact ⟨l, (Function.update_self ..).trans hl, horigin⟩
  have hother : ∀ f c, c ≠ b → c ∈ used L f → c ∈ used (Function.update L b x) f := by
    rintro f c hc ⟨l, hl, horigin⟩
    exact ⟨l, (Function.update_of_ne hc ..).trans hl, horigin⟩
  have hall : ∀ c l, Function.update L b x c = some l → Tenant s' A' c l.len l.user l.view ∧ Placed cfg c l := by
    intro c l hc
    by_cases hcb : c = b
    · subst c
      rw [Function.update_self] at hc
      exact hx l hc
    · rw [Function.update_of_ne hcb] at hc
      exact ⟨(h.tenants c l hc).others hothers hcb hlist, h.placed c l hc⟩
  refine h.advance (b := b) hr' hthreads (fun c l hc => (hall c l hc).1) (fun c l hc => (hall c l hc).2) hlive
    hslab hlock (fun f c hc => ?_) fun f hf => ?_
  · by_cases hcb : c = b
    · subst c
      exact (hkept f hc).imp_right (hself f)
    · refine hc.imp ?_ (hother f c hcb)
      rintro ⟨n, hfree⟩
      exact ⟨n, (hothers c _ .free hcb hfree).1⟩
  · obtain ⟨hstock, hnone, hhome⟩ := hcarved f hf
    have hout : b ∉ used L f := by
      rintro ⟨l, hl, _⟩
      rw [hnone] at hl
      cases hl
    refine ⟨hstock, fun c hc => hother f c ?_ hc, hself f hhome, hout⟩
    rintro rfl
    exact hout hc

/-! ### Steps -/

/-- A thread that exits need not count on the heap that it has put on the stack of free heaps. -/
theorem Refines.release (hr : Refines cfg main s counted A idle) : ∃ counted' : Tid → Status,
    Refines cfg main s counted' A idle ∧
    (∀ u, counted' u = counted u ∨ counted u = .exiting ∧ counted' u = .terminated) ∧
    ∀ u, counted' u = .exiting → s.heapManager u ≠ s.heapMaster.freeHeapManagersList := by
  by_cases hex : ∃ u, counted u = .exiting ∧ s.heapManager u = s.heapMaster.freeHeapManagersList
  · obtain ⟨u, hexit, htop⟩ := hex
    have howned := hr.heaps.owned
    have hone := hr.heaps.pieces.one_not_mem hr.heaps.laid
    have hflag : s.heapMasterBootFlag = 2 := by
      by_contra hnot
      cases hexit.symm.trans (howned.booting hnot u).1
    refine ⟨Function.update counted u .terminated, ⟨hr.booted, hr.ready, ⟨hr.heaps.laid, hr.heaps.pieces,
      howned.terminate hflag (.inl hexit) hone⟩, hr.blocks⟩, fun v => ?_, fun v hv => ?_⟩
    · by_cases hvu : v = u
      · exact .inr ⟨hvu ▸ hexit, by rw [hvu, Function.update_self]⟩
      · exact .inl (Function.update_of_ne hvu ..)
    · have hvu : v ≠ u := by
        rintro rfl
        rw [Function.update_self] at hv
        cases hv
      rw [Function.update_of_ne hvu] at hv
      intro htop'
      have hmem := howned.idle_mem _ (howned.exiting v hv)
      refine hvu (howned.unique v u (by simp [hv]) (by simp [hexit]) (fun h1 => hone (h1 ▸ hmem)) ?_)
      exact htop'.trans htop.symm
  · exact ⟨counted, hr, fun _ => .inl rfl, fun u hu htop => hex ⟨u, hu, htop⟩⟩

theorem Behind.release (h : Behind cfg main w A idle counted L) : ∃ counted',
    Behind cfg main w A idle counted' L ∧
    ∀ u, counted' u = .exiting → w.st.heapManager u ≠ w.st.heapMaster.freeHeapManagersList := by
  obtain ⟨counted', hr, hcounted, hfree⟩ := Refines.release h.refines
  refine ⟨counted', ⟨hr, ⟨fun u => ?_, h.threads.exiting, h.threads.listed⟩, h.tenants, h.placed, h.live, h.slab,
    h.unlocked, h.pools⟩, hfree⟩
  rcases hcounted u with hu | ⟨hexit, hterminated⟩
  · rw [hu]
    exact h.threads.counted u
  · rcases h.threads.counted u with heq | ⟨_, hterm⟩
    · exact .inr ⟨heq ▸ hexit, hterminated⟩
    · cases hexit.symm.trans hterm

theorem Behind.mayBoot (h : Behind cfg main w A idle counted L) (hrun : w.status t ≠ .terminated)
    (hstarted : w.st.heapMasterBootFlag = 2 ∨ t = main) : ∃ counted', Behind cfg main w A idle counted' L ∧
      (w.st.heapManager t = 1 → MayCall main w.st counted' t) := by
  obtain ⟨counted', h, hfree⟩ := h.release
  refine ⟨counted', h, fun hnew => ⟨?_, hstarted, fun _ _ => hfree⟩⟩
  rcases h.threads.counted t with heq | ⟨hexit, _⟩
  · rw [heq]
    exact hrun
  · exact absurd hnew (h.threads.exiting t hexit)

theorem Threads.boot (h : Threads s status counted) (hlisted : HeapsListed s')
    (hmanager : ∀ u, s'.heapManager u = s.heapManager u ∨ u = t ∧ s.heapManager t = 1) :
    Threads s' status counted := by
  refine ⟨h.counted, fun u hu => ?_, hlisted⟩
  rcases hmanager u with heq | ⟨rfl, hnew⟩
  · rw [heq]
    exact h.exiting u hu
  · exact absurd hnew (h.exiting u hu)

theorem boot_behind (h : Behind cfg main w A idle counted L) (hrun : w.status t ≠ .terminated)
    (hstarted : w.st.heapMasterBootFlag = 2 ∨ t = main) (hboot : bootHeapManager k t w.st = .ok s') :
    ∃ A' idle' counted', Behind cfg main (w.next s' w.status w.live w.carved) A' idle' counted' L ∧
      (∀ b, OthersUndisturbed b w.st s' A A') ∧ s'.heapManager t ∈ s'.heapMaster.heapManagersList := by
  obtain ⟨counted', h, hmay⟩ := h.mayBoot hrun hstarted
  obtain ⟨A', idle', hr', hsame, hbytes, hlisted, hheap⟩ := h.refines.boot_listed hmay h.threads.listed hboot
  obtain ⟨hlist, hmanager⟩ := bootHeapManager_keeps h.refines.booted hboot
  obtain ⟨hslab, hlock, _⟩ := Slab.bootHeapManager_kept h.refines.booted h.slab hboot
  have hothers : ∀ b, OthersUndisturbed b w.st s' A A' :=
    fun b c p hp _ hc => ⟨(hsame.block hp).mpr hc, hbytes c p hc⟩
  exact ⟨A', idle', counted', h.same hr' (h.threads.boot hlisted hmanager) hothers hlist hslab
    (hlock.trans h.unlocked), hothers, hheap⟩

theorem Behind.served {r : Option ℕ} (h : Behind cfg main w A idle counted L) (hrun : w.status t ≠ .terminated)
    (hstarted : w.st.heapMasterBootFlag = 2 ∨ t = main) (hsize : size < 2 ^ 64)
    (hok : doMalloc k t size w.st = .ok (r, s')) : ∃ counted' A' idle', Behind cfg main w A idle counted' L ∧
      Served cfg main w.st s' counted' t A' idle' ∧ (r = none → ∀ b, OthersUndisturbed b w.st s' A A') ∧
      ∀ u ∈ r, ∃ b n origin, Tenant s' A' b n u ⟨origin, false, size, none⟩ ∧ OthersUndisturbed b w.st s' A A' ∧
        Obtains A b n (carves k t size w.st) origin ∧
        (origin = .mapped → ∃ s₁, bootHeapManager k t w.st = .ok s₁ ∧ MapsBlock cfg s₁ s' b n) := by
  obtain ⟨counted', h, hmay⟩ := h.mayBoot hrun hstarted
  obtain ⟨A', idle', hserved⟩ := h.refines.doMalloc_tenant hmay h.threads.listed hsize hok
  exact ⟨counted', A', idle', h, hserved⟩

theorem Behind.fresh {n : ℕ} {origin : Origin} (h : Behind cfg main w A idle counted L)
    (hobtains : Obtains A b n o origin) : L b = none := by
  by_contra hsome
  obtain ⟨l, hl⟩ := Option.ne_none_iff_exists'.mp hsome
  exact hobtains.not_held (h.tenants b l hl).held

theorem doMalloc_behind {r : Option ℕ} (h : Behind cfg main w A idle counted L) (hrun : w.status t ≠ .terminated)
    (hstarted : w.st.heapMasterBootFlag = 2 ∨ t = main) (hsize : size < 2 ^ 64)
    (hok : doMalloc k t size w.st = .ok (r, s')) : ∃ A' idle' counted' L',
      Behind cfg main (w.next s' w.status (w.live ∪ r.toFinset)
        (if r = none then w.carved else tally w.carved (carves k t size w.st))) A' idle' counted' L' ∧
      (r = none → L' = L ∧ ∀ b, OthersUndisturbed b w.st s' A A') ∧
      ∀ u ∈ r, ∃ b n origin, L' = Function.update L b (some ⟨n, u, ⟨origin, false, size, none⟩⟩) ∧
        OthersUndisturbed b w.st s' A A' ∧ Obtains A b n (carves k t size w.st) origin := by
  obtain ⟨counted', A', idle', h, hserved, hnone, hsome⟩ := h.served hrun hstarted hsize hok
  have hthreads := h.threads.boot hserved.listed hserved.manager
  obtain ⟨hslab, hlock⟩ := Slab.doMalloc_kept h.refines.booted h.slab h.unlocked hok
  cases r with
  | none =>
    have h' := h.same hserved.refines hthreads (hnone rfl) hserved.list hslab hlock
    rw [if_pos rfl, Option.toFinset_none, Finset.union_empty]
    exact ⟨A', idle', counted', L, h', fun _ => ⟨rfl, hnone rfl⟩, nofun⟩
  | some u =>
    obtain ⟨b, n, origin, htenant, hothers, hobtains, hmaps⟩ := hsome u rfl
    have hfresh := h.fresh hobtains
    have hkept : Slab.Kept s' (Function.update L b (some ⟨n, u, ⟨origin, false, size, none⟩⟩)) :=
      Slab.doMalloc_kept_tenant h.refines.booted h.slab h.unlocked hok hfresh hmaps
    rw [if_neg (Option.some_ne_none u)]
    refine ⟨A', idle', counted', Function.update L b (some ⟨n, u, ⟨origin, false, size, none⟩⟩),
      h.one hserved.refines hthreads hothers hserved.list ?_ ?_ hkept hlock
        (fun f hf => .inr ⟨_, rfl, ?_⟩) fun f hf => ?_, nofun, fun u' hu => ?_⟩
    · rintro l ⟨⟩
      refine ⟨htenant, htenant.plain_dvd hserved.refines rfl, fun hmapped => ?_⟩
      obtain ⟨_, _, hmap⟩ := hmaps hmapped
      exact hmap.fresh.aligned
    · rw [users_obtained hfresh, ← h.live]
      ext x
      simp
    · rcases hf with ⟨m, hstock⟩ | ⟨l, hl, _⟩
      · exact hobtains.of_free hstock
      · rw [hfresh] at hl
        cases hl
    · rw [Option.mem_def] at hf
      rw [hf] at hobtains
      obtain ⟨horigin, hnone⟩ := hobtains.of_carved
      exact ⟨Set.eq_empty_of_forall_notMem fun c ⟨m, hc⟩ => hnone c m hc, hfresh, _, rfl, horigin⟩
    · cases hu
      exact ⟨b, n, origin, rfl, hothers, hobtains⟩

theorem freed_behind (h : Behind cfg main w A idle counted L) (hb : L b = some l)
    (hr' : Refines cfg main s' counted A' idle) (hsame : SameControl w.st s')
    (hothers : OthersUndisturbed b w.st s' A A')
    (hfree : ∀ f, l.view.origin = .bucket f → A'.at? b = some ⟨l.len, .free f⟩)
    (hslab : Slab.Kept s' (Function.update L b none)) :
    Behind cfg main (w.next s' w.status (w.live.erase l.user) w.carved) A' idle counted (Function.update L b none) := by
  have hthreads := h.threads.congr hsame.heapManager (by rw [hsame.heapMaster])
  refine h.one (o := none) hr' hthreads hothers (by rw [hsame.heapMaster]; exact fun _ hh => hh) nofun ?_ hslab
    (by rw [hsame.heapMaster]; exact h.unlocked) (fun f hf => .inl ⟨l.len, hfree f ?_⟩) (by simp)
  · rw [users_freed h.injective hb, ← h.live, Finset.coe_erase]
  · rcases hf with ⟨m, hstock⟩ | ⟨l', hl', horigin⟩
    · rw [(h.tenants b l hb).held] at hstock
      cases hstock
    · obtain rfl := Option.some.inj (hb.symm.trans hl')
      exact horigin

theorem doFree_behind (h : Behind cfg main w A idle counted L) (hb : L b = some l)
    (hok : doFree t l.user w.st = .ok s') : ∃ A',
      Behind cfg main (w.next s' w.status (w.live.erase l.user) w.carved) A' idle counted (Function.update L b none) ∧
      OthersUndisturbed b w.st s' A A' := by
  have ht := h.tenants b l hb
  obtain ⟨A', hr', hsame, hothers, hfree⟩ := ht.doFree h.refines hok
  obtain ⟨hslab, _⟩ := Slab.doFree_kept h.slab hb ht.mapped hok
  exact ⟨A', freed_behind h hb hr' hsame hothers hfree hslab, hothers⟩

theorem rewrite_behind {v : View} {user : ℕ} (h : Behind cfg main w A idle counted L) (hb : L b = some l)
    (horigin : v.origin = l.view.origin) (hr' : Refines cfg main s' counted A idle)
    (htenant : Tenant s' A b l.len user v) (huser : libAlign ∣ user) (hothers : OthersUndisturbed b w.st s' A A)
    (hsame : SameControl w.st s') (hmappings : s'.mappings = w.st.mappings)
    (hlive : (live' : Set ℕ) = users (Function.update L b (some ⟨l.len, user, v⟩))) :
    Behind cfg main (w.next s' w.status live' w.carved) A idle counted
      (Function.update L b (some ⟨l.len, user, v⟩)) := by
  have hthreads := h.threads.congr hsame.heapManager (by rw [hsame.heapMaster])
  have hslab : Slab.Kept s' (Function.update L b (some ⟨l.len, user, v⟩)) := by
    refine (h.slab.congr (by rw [hsame.heapMaster]) hmappings).tenants fun c l' hc hmapped => ?_
    by_cases hcb : c = b
    · subst c
      rw [Function.update_self] at hc
      cases hc
      exact ⟨l, hb, rfl, horigin.symm.trans hmapped⟩
    · rw [Function.update_of_ne hcb] at hc
      exact ⟨l', hc, rfl, hmapped⟩
  refine h.one (o := none) hr' hthreads hothers (by rw [hsame.heapMaster]; exact fun _ hh => hh) ?_ hlive
    hslab (by rw [hsame.heapMaster]; exact h.unlocked) (fun f hf => .inr ⟨_, rfl, horigin.trans ?_⟩) (by simp)
  · rintro l' ⟨⟩
    exact ⟨htenant, huser, fun hmapped => (h.placed b l hb).pages (horigin.symm.trans hmapped)⟩
  · rcases hf with ⟨m, hstock⟩ | ⟨l', hl', horigin'⟩
    · rw [(h.tenants b l hb).held] at hstock
      cases hstock
    · obtain rfl := Option.some.inj (hb.symm.trans hl')
      exact horigin'

theorem edit_behind {e : Edit} (h : Behind cfg main w A idle counted L) (hb : L b = some l)
    (hvalid : e.Valid l.user w.st) :
    Behind cfg main (w.next (e.run l.user w.st) w.status w.live w.carved) A idle counted
      (Function.update L b (some ⟨l.len, l.user, e.view l.user w.st l.view⟩)) := by
  obtain ⟨hr', htenant, hothers⟩ := (h.tenants b l hb).edit h.refines hvalid
  refine rewrite_behind h hb Edit.view_origin hr' htenant (h.placed b l hb).align_dvd hothers
    Edit.sameControl Edit.mappings_eq ?_
  rw [Separation.users_edited hb (by rfl) h.injective, h.live]

theorem align_behind {alignment : ℕ} (h : Behind cfg main w A idle counted L) (hb : L b = some l)
    (hbit : alignmentBit (w.st.mem.word (headerAddr l.user)) = 0) (hpow : alignment.isPowerOfTwo)
    (hle : libAlign ≤ alignment) (hlt : alignment < 2 ^ 64) (hsize : size < 2 ^ 64)
    (huser : l.user + sizeofStorage ≤ ceiling (l.user + sizeofStorage) alignment)
    (hin : ceiling (l.user + sizeofStorage) alignment ≤ l.user + dataSpace w.st l.user) :
    Behind cfg main (w.next (setFakeHeader l.user (ceiling (l.user + sizeofStorage) alignment) alignment size w.st)
        w.status (insert (ceiling (l.user + sizeofStorage) alignment) (w.live.erase l.user)) w.carved) A idle counted
      (Function.update L b (some ⟨l.len, ceiling (l.user + sizeofStorage) alignment,
        { l.view with size := size, alignment := some alignment }⟩)) := by
  have ht := h.tenants b l hb
  have hinside := ht.inside
  obtain ⟨hspace, _, hend⟩ := ht.space h.refines
  have hplain := (ht.encodes.fakeWord ht.taggable).1.mp hbit
  obtain ⟨hr', htenant, hothers⟩ := ht.align h.refines hplain hpow hle hlt hsize huser (by omega)
  have huser16 : libAlign ∣ ceiling (l.user + sizeofStorage) alignment := (align_dvd_of_le hpow hle).trans
    (ceiling_dvd (by rw [sizeofStorage]; omega) hpow hlt)
  refine rewrite_behind h hb (by rfl) hr' htenant huser16 hothers ⟨rfl, rfl, rfl, rfl⟩ rfl ?_
  rw [← Function.update_idem, users_obtained (Function.update_self ..), users_freed h.injective hb, ← h.live,
    Finset.coe_insert, Finset.coe_erase]

theorem control_behind (h : Behind cfg main w A idle counted L)
    (h' : Separation.Behind cfg main ⟨s', counted', users (liveAt A)⟩ A idle') (hmem : s'.mem = w.st.mem)
    (hthreads : Threads s' status counted')
    (hlist : s'.heapMaster.heapManagersList = w.st.heapMaster.heapManagersList)
    (hslab : s'.heapMaster.sbrkStart = w.st.heapMaster.sbrkStart ∧ s'.mappings = w.st.mappings)
    (hlock : s'.heapMaster.extLock = w.st.heapMaster.extLock) :
    Behind cfg main (w.next s' status w.live w.carved) A idle' counted' L :=
  h.same h'.refines hthreads (fun _ => (Undisturbed.of_mem ⟨fun _ _ _ hc => hc, rfl⟩ hmem).others)
    (fun _ hh => hlist ▸ hh) (h.slab.congr hslab.1 hslab.2) (hlock.trans h.unlocked)

theorem Threads.alive (h : Threads s status counted) (halive : status t = .alive) : counted t = .alive := by
  rcases h.counted t with heq | ⟨hexit, _⟩
  · rw [heq, halive]
  · cases halive.symm.trans hexit

theorem Threads.dtor (h : Threads s status counted) (hheap : s.heapManager t ≠ 1) :
    Threads (heapManagerDtor t s) (Function.update status t .exiting) (Function.update counted t .exiting) := by
  refine ⟨fun u => ?_, fun u hu => ?_, h.listed⟩
  · by_cases hut : u = t
    · subst u
      simp
    · rw [Function.update_of_ne hut, Function.update_of_ne hut]
      exact h.counted u
  · by_cases hut : u = t
    · exact hut ▸ hheap
    · rw [Function.update_of_ne hut] at hu
      exact h.exiting u hu

theorem Threads.terminate (h : Threads s status counted) : Threads s (Function.update status t .terminated)
    (Function.update counted t .terminated) := by
  have hother : ∀ u, Function.update status t .terminated u = .exiting → u ≠ t := by
    rintro u hu rfl
    rw [Function.update_self] at hu
    cases hu
  refine ⟨fun u => ?_, fun u hu => ?_, h.listed⟩
  · by_cases hut : u = t
    · subst u
      simp
    · rw [Function.update_of_ne hut, Function.update_of_ne hut]
      exact h.counted u
  · have hut := hother u hu
    rw [Function.update_of_ne hut] at hu
    exact h.exiting u hu

theorem dtor_behind (h : Behind cfg main w A idle counted L) (hflag : w.st.heapMasterBootFlag = 2)
    (halive : w.status t = .alive) (hset : w.st.setspecific t = true) : ∃ idle' counted',
      Behind cfg main (w.next (heapManagerDtor t w.st) (Function.update w.status t .exiting) w.live w.carved)
        A idle' counted' L := by
  have hcounted := h.threads.alive halive
  obtain ⟨idle', h'⟩ := Separation.dtor_behind (w := ⟨w.st, counted, users (liveAt A)⟩) ⟨h.refines, rfl⟩
    hflag hcounted hset
  have hheap := (h.refines.heaps.owned.registered hflag t).mp hset
  exact ⟨idle', _, control_behind h h' rfl (h.threads.dtor hheap) rfl ⟨rfl, rfl⟩ rfl⟩

theorem terminate_behind (h : Behind cfg main w A idle counted L) (hflag : w.st.heapMasterBootFlag = 2)
    (hdone : w.status t = .exiting ∨ w.status t = .alive ∧ w.st.setspecific t = false) : ∃ counted',
      Behind cfg main (w.next w.st (Function.update w.status t .terminated) w.live w.carved)
        A idle counted' L := by
  by_cases hterm : counted t = .terminated
  · have hsame : Function.update counted t .terminated = counted := by
      rw [← hterm, Function.update_eq_self]
    have hthreads := h.threads.terminate (t := t)
    rw [hsame] at hthreads
    exact ⟨counted, control_behind h ⟨h.refines, rfl⟩ rfl hthreads rfl ⟨rfl, rfl⟩ rfl⟩
  · have hcounted : counted t = .exiting ∨ counted t = .alive ∧ w.st.setspecific t = false := by
      rcases h.threads.counted t with heq | ⟨_, hno⟩
      · rw [heq]
        exact hdone
      · exact absurd hno hterm
    have h' := Separation.terminate_behind (w := ⟨w.st, counted, users (liveAt A)⟩) ⟨h.refines, rfl⟩ hflag hcounted
    exact ⟨_, control_behind h h' rfl h.threads.terminate rfl ⟨rfl, rfl⟩ rfl⟩

theorem mallopt_slab {option value : ℤ} {code : ℕ} (h : Llheap.mallopt option value s = .ok (code, s')) :
    (s'.heapMaster.sbrkStart = s.heapMaster.sbrkStart ∧ s'.mappings = s.mappings) ∧
      s'.heapMaster.extLock = s.heapMaster.extLock := by
  rcases mallopt_cases h with ⟨_, rfl⟩ | ⟨_, _, _, _, rfl⟩ | ⟨_, _, _, _, rfl⟩
  · exact ⟨⟨rfl, rfl⟩, rfl⟩
  · exact ⟨⟨rfl, rfl⟩, rfl⟩
  · exact ⟨⟨rfl, rfl⟩, rfl⟩

theorem setErrno_behind {e : ℕ} (h : Behind cfg main w A idle counted L) :
    Behind cfg main (w.next (w.st.refuse t e) w.status w.live w.carved) A idle counted L :=
  control_behind h ⟨h.refines.of_grown (.refuse e), rfl⟩ rfl (h.threads.congr rfl rfl) rfl ⟨rfl, rfl⟩ rfl

theorem mallopt_behind {option value : ℤ} {code : ℕ} (h : Behind cfg main w A idle counted L)
    (hopt : Llheap.mallopt option value w.st = .ok (code, s')) :
    Behind cfg main (w.next s' w.status w.live w.carved) A idle counted L ∧ s'.mem = w.st.mem := by
  obtain ⟨h', hmem⟩ := Separation.mallopt_behind (w := ⟨w.st, counted, users (liveAt A)⟩) ⟨h.refines, rfl⟩ hopt
  have hsame := mallopt_sameHeaps hopt
  obtain ⟨hslab, hlock⟩ := mallopt_slab hopt
  exact ⟨control_behind h h' hmem (h.threads.congr hsame.heapManager hsame.heapManagersList)
    hsame.heapManagersList hslab hlock, hmem⟩

theorem startup_behind (h : Behind cfg main w A idle counted L) (hstart : Llheap.startup k main w.st = .ok s') :
    Behind cfg main (w.next s' w.status w.live w.carved) A idle counted L ∧ s'.mem = w.st.mem := by
  obtain ⟨h', hmem⟩ := Separation.startup_behind (w := ⟨w.st, counted, users (liveAt A)⟩) ⟨h.refines, rfl⟩ hstart
  obtain ⟨s₁, ⟨hzero, _⟩ | ⟨_, rfl⟩, _, rfl⟩ := startup_cases hstart
  · exact absurd hzero h.refines.booted
  · exact ⟨control_behind h h' hmem (h.threads.congr rfl rfl) rfl ⟨rfl, rfl⟩ rfl, hmem⟩

/-! ### Runs -/

def Inv (cfg : Config) (main : Tid) (w : World) : Prop :=
  ∃ A idle counted L, Behind cfg main w A idle counted L

theorem init_inv (h : (system cfg main).init w) : Inv cfg main w := by
  obtain ⟨st, status, live, carved, most⟩ := w
  obtain ⟨⟨k, hctor⟩, rfl, rfl, rfl, rfl⟩ := h
  obtain ⟨A, idle, hr, _⟩ := Separation.preboot_unbooted.behind hctor
  obtain ⟨hslab, hlock⟩ := Slab.unbooted_kept hctor
  refine ⟨A, idle, _, fun _ => none, hr, ⟨fun _ => .inl rfl, nofun, fun t ht => ?_⟩, nofun, nofun, ?_, hslab,
    hlock, fun f => ?_⟩
  · exact hr.heaps.owned.known t nofun ht
  · simp [users]
  · exact ⟨∅, rfl, Pool.Frugal.empty⟩

theorem step_inv {lab : Label cfg} (h : Inv cfg main w) (hs : Step main w lab w') : Inv cfg main w' := by
  obtain ⟨A, idle, counted, L, h⟩ := h
  cases lab with
  | doMalloc k t size =>
    obtain ⟨hrun, hstarted, hsize, r, st, hok, rfl⟩ := hs
    obtain ⟨A', idle', counted', L', h', _⟩ := doMalloc_behind h hrun hstarted hsize hok
    exact ⟨A', idle', counted', L', h'⟩
  | doFree t addr =>
    obtain ⟨hlive, st, hok, rfl⟩ := hs
    obtain ⟨b, l, hb, rfl⟩ : addr ∈ users L := h.live ▸ hlive
    obtain ⟨A', h', _⟩ := doFree_behind h hb hok
    exact ⟨A', idle, counted, _, h'⟩
  | align addr alignment size =>
    obtain ⟨hlive, hbit, hpow, hle, hlt, hsize, huser, hin, rfl⟩ := hs
    obtain ⟨b, l, hb, rfl⟩ : addr ∈ users L := h.live ▸ hlive
    exact ⟨A, idle, counted, _, align_behind h hb hbit hpow hle hlt hsize huser hin⟩
  | edit addr e =>
    obtain ⟨hlive, hvalid, rfl⟩ := hs
    obtain ⟨b, l, hb, rfl⟩ : addr ∈ users L := h.live ▸ hlive
    exact ⟨A, idle, counted, _, edit_behind h hb hvalid⟩
  | setErrno t e =>
    obtain rfl := hs
    exact ⟨A, idle, counted, L, setErrno_behind h⟩
  | mallopt option value =>
    obtain ⟨code, st, hopt, rfl⟩ := hs
    exact ⟨A, idle, counted, L, (mallopt_behind h hopt).1⟩
  | startup k =>
    obtain ⟨st, hstart, rfl⟩ := hs
    exact ⟨A, idle, counted, L, (startup_behind h hstart).1⟩
  | dtor t =>
    obtain ⟨hflag, halive, hset, rfl⟩ := hs
    obtain ⟨idle', counted', h'⟩ := dtor_behind h hflag halive hset
    exact ⟨A, idle', counted', L, h'⟩
  | terminate t =>
    obtain ⟨hflag, hdone, rfl⟩ := hs
    obtain ⟨counted', h'⟩ := terminate_behind h hflag hdone
    exact ⟨A, idle, counted', L, h'⟩

theorem reachable_inv (h : (system cfg main).Reachable w) : Inv cfg main w :=
  h.invariant (fun _ hw => init_inv hw) fun _ _ _ hw hs => step_inv hw hs

/-- The world that a call of `doMalloc` leaves behind. -/
def World.malloc (w : World) (k : Kernel cfg) (t : Tid) (size : ℕ) : World :=
  let result := (doMalloc k t size w.st).getD (none, State.unbooted)
  w.next result.2 w.status (w.live ∪ result.1.toFinset)
    (if result.1 = none then w.carved else tally w.carved (carves k t size w.st))

theorem World.malloc_step (hrun : w.status t ≠ .terminated) (hstarted : w.st.heapMasterBootFlag = 2 ∨ t = main)
    (hsize : size < 2 ^ 64) (hok : (doMalloc k t size w.st).isOk = true) :
    Step main w (.doMalloc k t size) (w.malloc k t size) :=
  ⟨hrun, hstarted, hsize, _, _, Result.eq_ok hok (none, State.unbooted), rfl⟩

def World.free (w : World) (t : Tid) (addr : ℕ) : World :=
  w.next ((doFree t addr w.st).getD State.unbooted) w.status (w.live.erase addr) w.carved

theorem World.free_step (hlive : addr ∈ w.live) (hok : (doFree t addr w.st).isOk = true) :
    (system cfg main).step w (.doFree t addr) (w.free t addr) :=
  ⟨hlive, _, Result.eq_ok hok State.unbooted, rfl⟩

/-- Thread 0 of a program with the default control routines has made its first call. -/
def World.first : World :=
  ⟨firstHeap defaultConfig (.above defaultConfig), fun _ => .alive, ∅, fun _ => 0, fun _ => 0⟩

/-- It allocates eight bytes. -/
def World.eight : World := World.first.malloc (.above defaultConfig) 0 8

theorem World.first_reachable : (system defaultConfig 0).Reachable World.first :=
  .start ⟨⟨_, heapManagerCtor_default⟩, rfl, rfl, rfl, rfl⟩

theorem World.malloc_reachable (hw : (system defaultConfig 0).Reachable w) (hrun : w.status 0 ≠ .terminated)
    (hok : (doMalloc (.above defaultConfig) 0 8 w.st).isOk = true) :
    (system defaultConfig 0).Reachable (w.malloc (.above defaultConfig) 0 8) := by
  have hstep : (system defaultConfig 0).step w (.doMalloc (.above defaultConfig) 0 8)
      (w.malloc (.above defaultConfig) 0 8) := World.malloc_step hrun (.inr rfl) (by decide) hok
  exact .next hw hstep

theorem World.eight_reachable : (system defaultConfig 0).Reachable World.eight :=
  World.malloc_reachable World.first_reachable nofun (by decide +kernel)

end Llheap.Reuse
