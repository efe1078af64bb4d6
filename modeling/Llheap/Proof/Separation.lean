import Llheap.Base.Transition
import Llheap.Proof.Calls
import Mathlib.Order.CompletePartialOrder

/-!
# Separation of storage

Whole runs of a program: any number of threads that start, call the allocator and end, with any kernel. The program frees only live addresses and writes only inside the request size. In every state that such a run reaches, blocks and buffers do not overlap.
-/

namespace Llheap.Separation

variable {cfg : Config}

/-- The allocator's state, the threads, and the addresses that the program has and has not freed. -/
structure World where
  st : State
  status : Tid → Status
  live : Set ℕ

inductive Label (cfg : Config)
  | call (k : Kernel cfg) (t : Tid) (c : Call)
  | usableSize (addr : Option ℕ)
  | free (t : Tid) (addr : Option ℕ)
  /-- the program writes to an allocation -/
  | write (addr offset : ℕ) (byte : UInt8)
  | setErrno (t : Tid) (e : ℕ)
  | mallopt (option value : ℤ)
  | startup (k : Kernel cfg)
  | dtor (t : Tid)
  | terminate (t : Tid)

/-- A call is made with live addresses, and a `doMalloc` call it makes gets a bucket that fits. -/
structure CallOk (main : Tid) (w : World) (t : Tid) (c : Call) : Prop where
  may : MayCall main w.st w.status t
  valid : c.Valid
  old : ∀ u ∈ c.oaddr, u ∈ w.live
  fits : ∀ n ∈ c.request w.st, Fits w.st.heapMaster n

def Step [Os] (main : Tid) (w : World) : Label cfg → World → Prop
  | .call k t c, w' => CallOk main w t c ∧ ∃ r, c.run k t w.st = .ok (r, w'.st) ∧
      w'.live = liveAfter c.oaddr (c.gives r) r w.live ∧ w'.status = w.status
  | .usableSize addr, w' => (∀ u ∈ addr, u ∈ w.live) ∧ w'.st = (mallocUsableSize addr w.st).2 ∧
      w'.live = w.live ∧ w'.status = w.status
  | .free t addr, w' => (∀ u ∈ addr, u ∈ w.live) ∧ Llheap.free t addr w.st = .ok w'.st ∧
      w'.live = liveAfter addr true none w.live ∧ w'.status = w.status
  | .write addr offset byte, w' => addr ∈ w.live ∧ offset < mallocRequestSize w.st (some addr) ∧
      w'.st = { w.st with mem := Function.update w.st.mem (addr + offset) byte } ∧
      w'.live = w.live ∧ w'.status = w.status
  | .setErrno t e, w' => w'.st = w.st.refuse t e ∧ w'.live = w.live ∧ w'.status = w.status
  | .mallopt option value, w' => (∃ r, Llheap.mallopt option value w.st = .ok (r, w'.st)) ∧
      w'.live = w.live ∧ w'.status = w.status
  | .startup k, w' => Llheap.startup k main w.st = .ok w'.st ∧ w'.live = w.live ∧ w'.status = w.status
  | .dtor t, w' => w.st.heapMasterBootFlag = 2 ∧ w.status t = .alive ∧ w.st.setspecific t = true ∧
      w'.st = heapManagerDtor t w.st ∧ w'.live = w.live ∧
      w'.status = Function.update w.status t .exiting
  | .terminate t, w' => w.st.heapMasterBootFlag = 2 ∧
      (w.status t = .exiting ∨ w.status t = .alive ∧ w.st.setspecific t = false) ∧
      w'.st = w.st ∧ w'.live = w.live ∧ w'.status = Function.update w.status t .terminated

/-- The first thing that any program does to the allocator is to boot it. -/
def system [Os] (cfg : Config) (main : Tid) : TransitionSystem World (Label cfg) where
  init w := (∃ k : Kernel cfg, heapManagerCtor k main State.unbooted = .ok w.st) ∧
    w.status = (fun _ => .alive) ∧ w.live = ∅
  step := Step main

/-! ### Extents -/

/-- Storage that is accounted for: a live allocation, a block on a list of a bucket, a heap's buffer. -/
inductive Item
  | live (user : ℕ)
  | listed (freeHead : ℕ) (l : ListField) (block : ℕ)
  | buffer (heap : ℕ)
deriving DecidableEq

/-- A list of a bucket from its top on. -/
def IsList (s : State) (freeHead : ℕ) (l : ListField) (blocks : List ℕ) : Prop :=
  Chain s.mem.word ((s.freeHeader freeHead).top l) blocks

def Item.Present (w : World) : Item → Prop
  | .live user => user ∈ w.live
  | .listed freeHead l block => (∃ h n, IsBucket w.st.heapMaster h freeHead n) ∧
      ∃ blocks, IsList w.st freeHead l blocks ∧ block ∈ blocks
  | .buffer heap => heap ∈ w.st.heapMaster.heapManagersList

/-- Where the storage of an item starts, and its length. -/
def Item.extent (s : State) : Item → ℕ × ℕ
  | .live user => ((headers s user).header, (headers s user).size)
  | .listed freeHead _ block => (block, (s.freeHeader freeHead).blockSize)
  | .buffer heap => ((s.heap heap).bufStart, (s.heap heap).bufRemaining)

def Item.storage (s : State) (i : Item) : Set ℕ :=
  Set.Ico (i.extent s).1 ((i.extent s).1 + (i.extent s).2)

/-! ### Steps -/

variable {main : Tid} {k : Kernel cfg} {t : Tid} {s s' : State} {r : Option ℕ} {w w' : World}
  {status : Tid → Status} {A A' : Arena Tag} {idle : List ℕ} {b : ℕ} {l : Live}

/-- The state refines an arena whose live allocations are the program's. -/
structure Behind (cfg : Config) (main : Tid) (w : World) (A : Arena Tag) (idle : List ℕ) : Prop where
  refines : Refines cfg main w.st w.status A idle
  live : w.live = users (liveAt A)

def Inv (cfg : Config) (main : Tid) (w : World) : Prop :=
  ∃ A idle, Behind cfg main w A idle

/-- The live allocations at other addresses than `addr` are the same, and so are their bytes. -/
def Others (A A' : Arena Tag) (s s' : State) (addr : Option ℕ) : Prop :=
  ∀ b l, liveAt A b = some l → l.user ∉ addr →
    liveAt A' b = some l ∧ Set.EqOn s'.mem s.mem (Set.Ico b (b + l.len))

theorem Others.of_mem {addr : Option ℕ} (hmem : s'.mem = s.mem) : Others A A s s' addr :=
  fun _ _ hb _ => ⟨hb, by rw [hmem]; exact Set.eqOn_refl _ _⟩

theorem Others.of_frame (hb : liveAt A b = some l) (hlive : ∀ c, c ≠ b → liveAt A' c = liveAt A c)
    (hframe : Frame (Function.update (liveAt A) b none) s s') : Others A A' s s' (some l.user) := by
  intro c m hc hu
  have hne : c ≠ b := by
    rintro rfl
    cases hb.symm.trans hc
    exact hu rfl
  exact ⟨(hlive c hne).trans hc, hframe c m ((Function.update_of_ne hne ..).trans hc)⟩

theorem users_edited {L : ℕ → Option Live} {l' : Live} (hb : L b = some l) (hu : l'.user = l.user)
    (hinj : Injective L) : users (Function.update L b (some l')) = users L := by
  rw [(Change.edited hb hu).users hinj]
  ext u
  simp [liveAfter]

/-- Nothing has been booted: no thread has a heap and nothing is mapped. -/
structure Preboot (s : State) : Prop where
  bootFlag : s.heapMasterBootFlag = 0
  heapManager : ∀ t, s.heapManager t = 1
  setspecific : ∀ t, s.setspecific t = false
  mappings : s.mappings = []

/-- The first call of the program's thread leaves a heap and no blocks. -/
theorem Preboot.behind (hp : Preboot s) (hctor : heapManagerCtor k main s = .ok s') :
    Inv cfg main ⟨s', fun _ => .alive, ∅⟩ := by
  have hboot : bootHeapManager k main s = .ok s' := by
    rw [bootHeapManager, if_pos (hp.heapManager main)]
    exact hctor
  obtain ⟨s₀, hmaster, hboot⟩ := boot_unbooted hp.bootFlag (hp.heapManager main) hboot
  obtain ⟨_, hasserts, rfl⟩ := heapMasterCtor_ok hmaster
  have hthread : cfg.mallocThreadBlock + libAlign ≤ 2 ^ 64 := by
    have hle : cfg.mallocThreadBlock ≤ ceiling cfg.mallocHeapExtend cfg.pageSize := hasserts.2.1
    have hdvd := cfg.align_dvd_pageSize.trans
      (ceiling_dvd cfg.mallocHeapExtend_lt cfg.pageSize_pow2 cfg.pageSize_lt)
    have hlt : ceiling cfg.mallocHeapExtend cfg.pageSize < 2 ^ 64 := Nat.mod_lt _ (by decide)
    rw [libAlign]
    omega
  have huser : ∀ m ∈ s.mappings, InUser m := by
    rw [hp.mappings]
    simp
  have hblocks : Blocks cfg
      { s with heapMaster := initHeapMaster cfg s.heapMaster, heapMasterBootFlag := 1 }
      (Arena.empty Tag) :=
    ⟨rfl, heapMasterCtor_crossover hmaster, hthread, huser, fun _ _ _ hf => absurd hf.1 List.not_mem_nil,
      by simp, fun b n h => iff_of_false (by simp) fun hh => absurd hh.1 List.not_mem_nil, by simp⟩
  have hheaps : Heaps main
      { s with heapMaster := initHeapMaster cfg s.heapMaster, heapMasterBootFlag := 1 }
      (fun _ => .alive) (Arena.empty Tag) [] :=
    .none rfl rfl rfl rfl hp.heapManager hp.setspecific fun _ => rfl
  have hmay : MayCall main
      { s with heapMaster := initHeapMaster cfg s.heapMaster, heapMasterBootFlag := 1 }
      (fun _ => .alive) main := ⟨by simp, .inr rfl, fun _ _ _ hu => by cases hu⟩
  obtain ⟨A, idle, hr, hlive, _⟩ := Refines.of_boot Nat.one_ne_zero hheaps hblocks hmay hboot
  refine ⟨A, idle, hr, ?_⟩
  rw [hlive]
  ext u
  simp [users, liveAt]

theorem preboot_unbooted : Preboot State.unbooted := ⟨rfl, fun _ => rfl, fun _ => rfl, rfl⟩

theorem init_inv (h : (system cfg main).init w) : Inv cfg main w := by
  obtain ⟨st, status, live⟩ := w
  obtain ⟨⟨k, hctor⟩, rfl, rfl⟩ := h
  exact preboot_unbooted.behind hctor

theorem call_behind {c : Call} (h : Behind cfg main w A idle) (hok : CallOk main w t c)
    (hrun : c.run k t w.st = .ok (r, s')) :
    ∃ A' idle', Behind cfg main ⟨s', w.status, liveAfter c.oaddr (c.gives r) r w.live⟩ A' idle' ∧
      Others A A' w.st s' c.oaddr := by
  obtain ⟨hr, hlive⟩ := h
  obtain ⟨A', idle', hspec⟩ := hr.call hok.may hok.valid (fun u hu => hlive ▸ hok.old u hu)
    (fun _ => hok.fits) hrun
  refine ⟨A', idle', ⟨hspec.refines, ?_⟩,
    fun b l hb hu => ⟨hspec.change.others hb hu, hspec.frame b l hb hu⟩⟩
  rw [hspec.change.users hr.injective, ← hlive]

theorem free_behind {addr : Option ℕ} (h : Behind cfg main w A idle) (hold : ∀ u ∈ addr, u ∈ w.live)
    (hfree : Llheap.free t addr w.st = .ok s') :
    ∃ A', Behind cfg main ⟨s', w.status, liveAfter addr true none w.live⟩ A' idle ∧
      Others A A' w.st s' addr := by
  obtain ⟨hr, hlive⟩ := h
  cases addr with
  | none =>
    cases hfree
    refine ⟨A, ⟨hr, ?_⟩, .of_mem rfl⟩
    simp [liveAfter, hlive]
  | some u =>
    obtain ⟨b, l, hb, rfl⟩ : u ∈ users (liveAt A) := hlive ▸ hold u rfl
    obtain ⟨s₁, A', hs₁, hr', hlive', hframe, _⟩ := hr.doFree hb t
    cases hs₁.symm.trans hfree
    refine ⟨A', ⟨hr', ?_⟩, .of_frame hb (fun c hc => ?_) hframe⟩
    · rw [hlive', (Change.freed hb).users hr.injective, ← hlive]
    · rw [hlive', Function.update_of_ne hc]

theorem usableSize_behind {addr : Option ℕ} (h : Behind cfg main w A idle) (hold : ∀ u ∈ addr, u ∈ w.live) :
    ∃ A', Behind cfg main ⟨(mallocUsableSize addr w.st).2, w.status, w.live⟩ A' idle ∧
      Others A A' w.st (mallocUsableSize addr w.st).2 addr := by
  obtain ⟨hr, hlive⟩ := h
  cases addr with
  | none => exact ⟨A, ⟨hr, hlive⟩, .of_mem rfl⟩
  | some u =>
    obtain ⟨b, l, hb, rfl⟩ : u ∈ users (liveAt A) := hlive ▸ hold u rfl
    obtain ⟨_, A', hr', hlive', hframe, _⟩ := hr.usableSize hb
    refine ⟨A', ⟨hr', hlive.trans ?_⟩, .of_frame hb (fun c hc => ?_) hframe⟩
    · rw [hlive']
      exact (users_edited hb (by rfl) hr.injective).symm
    · rw [hlive', Function.update_of_ne hc]

theorem write_behind {addr offset : ℕ} (byte : UInt8) (h : Behind cfg main w A idle) (hlive : addr ∈ w.live)
    (hlt : offset < mallocRequestSize w.st (some addr)) :
    ∃ A', Behind cfg main
        ⟨{ w.st with mem := Function.update w.st.mem (addr + offset) byte }, w.status, w.live⟩ A' idle ∧
      liveAt A' = liveAt A ∧
      Others A A' w.st { w.st with mem := Function.update w.st.mem (addr + offset) byte } (some addr) := by
  obtain ⟨hr, hall⟩ := h
  obtain ⟨b, l, hb, rfl⟩ : addr ∈ users (liveAt A) := hall ▸ hlive
  obtain ⟨hblock, _⟩ := hr.liveBlock hb
  have hroom := hblock.room
  rw [hblock.encodes.mallocRequestSize hblock.taggable] at hlt
  obtain ⟨A', hr', hlive', hframe⟩ := hr.writeContents hb (fun x hx =>
    Function.update_of_ne (show x ≠ l.user + offset by omega) byte w.st.mem)
  refine ⟨A', ⟨hr', ?_⟩, hlive', .of_frame hb (fun c _ => congrFun hlive' c) hframe⟩
  rw [hlive', ← hall]

theorem mallopt_behind {option value : ℤ} {code : ℕ} (h : Behind cfg main w A idle)
    (hopt : Llheap.mallopt option value w.st = .ok (code, s')) :
    Behind cfg main ⟨s', w.status, w.live⟩ A idle ∧ s'.mem = w.st.mem := by
  obtain ⟨hr, hlive⟩ := h
  have hsame := mallopt_sameHeaps hopt
  have hstep : ∀ {m : HeapMaster}, CrossoverOk m → m.pageSize = w.st.heapMaster.pageSize →
      m.heapManagersList = w.st.heapMaster.heapManagersList →
      SameHeaps w.st { w.st with heapMaster := m } →
      Behind cfg main ⟨{ w.st with heapMaster := m }, w.status, w.live⟩ A idle := by
    intro m hcross hpage hlist hsame
    refine ⟨⟨hr.booted, hr.ready, hr.heaps.of_same hsame, ?_⟩, hlive⟩
    exact hr.blocks.of_same (.refl A) hcross hpage hr.blocks.inUser (fun _ _ _ => Set.eqOn_refl _ _) rfl hlist
      fun _ => ⟨rfl, rfl⟩
  have hcross := hr.blocks.crossover
  rcases mallopt_cases hopt with ⟨_, rfl⟩ | ⟨_, _, _, _, rfl⟩ | ⟨_, _, hlow, hhigh, rfl⟩
  · exact ⟨⟨hr, hlive⟩, rfl⟩
  · exact ⟨hstep ⟨hcross.lower, hcross.upper, hcross.used⟩ rfl rfl hsame, rfl⟩
  · refine ⟨hstep ⟨?_, ?_, rfl⟩ rfl rfl hsame, rfl⟩
    · exact hlow
    · exact hhigh

theorem startup_behind (h : Behind cfg main w A idle) (hstart : Llheap.startup k main w.st = .ok s') :
    Behind cfg main ⟨s', w.status, w.live⟩ A idle ∧ s'.mem = w.st.mem := by
  obtain ⟨hr, hlive⟩ := h
  obtain ⟨s₁, ⟨hzero, _⟩ | ⟨_, rfl⟩, hflag, rfl⟩ := startup_cases hstart
  · exact absurd hzero hr.booted
  refine ⟨⟨⟨two_ne_zero, fun h1 => absurd (show 2 = 1 from h1) (Nat.succ_ne_self 1),
    ⟨hr.heaps.laid, hr.heaps.pieces, hr.heaps.owned.start hflag (hr.ready hflag)⟩, ?_⟩, hlive⟩, rfl⟩
  exact hr.blocks.of_same (.refl A) hr.blocks.crossover rfl hr.blocks.inUser
    (fun _ _ _ => Set.eqOn_refl _ _) rfl rfl fun _ => ⟨rfl, rfl⟩

theorem dtor_behind (h : Behind cfg main w A idle) (hflag : w.st.heapMasterBootFlag = 2)
    (halive : w.status t = .alive) (hset : w.st.setspecific t = true) :
    ∃ idle', Behind cfg main
      ⟨heapManagerDtor t w.st, Function.update w.status t .exiting, w.live⟩ A idle' := by
  obtain ⟨hr, hlive⟩ := h
  have hzero := hr.heaps.pieces.zero_not_mem hr.heaps.laid
  refine ⟨_, ⟨hr.booted, hr.ready, ⟨hr.heaps.laid,
    ⟨hr.heaps.pieces.heap, hr.heaps.pieces.spare, hr.heaps.pieces.whole⟩,
    hr.heaps.owned.dtor hflag halive hset hzero⟩, ?_⟩, hlive⟩
  refine hr.blocks.of_same (.refl A) ⟨hr.blocks.crossover.lower, hr.blocks.crossover.upper,
    hr.blocks.crossover.used⟩ rfl hr.blocks.inUser (fun _ _ _ => Set.eqOn_refl _ _) rfl rfl fun h => ?_
  by_cases hh : h = w.st.heapManager t
  · subst h
    simp [heapManagerDtor]
  · simp [heapManagerDtor, hh]

theorem terminate_behind (h : Behind cfg main w A idle) (hflag : w.st.heapMasterBootFlag = 2)
    (hdone : w.status t = .exiting ∨ w.status t = .alive ∧ w.st.setspecific t = false) :
    Behind cfg main ⟨w.st, Function.update w.status t .terminated, w.live⟩ A idle := by
  obtain ⟨hr, hlive⟩ := h
  exact ⟨⟨hr.booted, hr.ready, ⟨hr.heaps.laid, hr.heaps.pieces,
    hr.heaps.owned.terminate hflag hdone (hr.heaps.pieces.one_not_mem hr.heaps.laid)⟩, hr.blocks⟩, hlive⟩

/-! ### Runs -/

/-- The old address of a call, and the address that the program writes to, asks about or frees. -/
def Label.addr : Label cfg → Option ℕ
  | .call _ _ c => c.oaddr
  | .usableSize addr | .free _ addr => addr
  | .write addr _ _ => some addr
  | _ => none

/-- A step keeps an arena behind the world, and does nothing to the allocations that it does not name. -/
theorem step_behind {lab : Label cfg} (h : Behind cfg main w A idle) (hs : Step main w lab w') :
    ∃ A' idle', Behind cfg main w' A' idle' ∧ Others A A' w.st w'.st lab.addr := by
  obtain ⟨st', status', live'⟩ := w'
  cases lab with
  | call k t c =>
    obtain ⟨hok, r, hrun, rfl, rfl⟩ := hs
    exact call_behind h hok hrun
  | usableSize addr =>
    obtain ⟨hold, rfl, rfl, rfl⟩ := hs
    obtain ⟨A', h', hothers⟩ := usableSize_behind h hold
    exact ⟨A', idle, h', hothers⟩
  | free t addr =>
    obtain ⟨hold, hfree, rfl, rfl⟩ := hs
    obtain ⟨A', h', hothers⟩ := free_behind h hold hfree
    exact ⟨A', idle, h', hothers⟩
  | write addr offset byte =>
    obtain ⟨hlive, hlt, rfl, rfl, rfl⟩ := hs
    obtain ⟨A', h', _, hothers⟩ := write_behind byte h hlive hlt
    exact ⟨A', idle, h', hothers⟩
  | setErrno t e =>
    obtain ⟨rfl, rfl, rfl⟩ := hs
    exact ⟨A, idle, ⟨h.refines.of_grown (.refuse e), h.live⟩, .of_mem rfl⟩
  | mallopt option value =>
    obtain ⟨⟨code, hopt⟩, rfl, rfl⟩ := hs
    obtain ⟨h', hmem⟩ := mallopt_behind h hopt
    exact ⟨A, idle, h', .of_mem hmem⟩
  | startup k =>
    obtain ⟨hstart, rfl, rfl⟩ := hs
    obtain ⟨h', hmem⟩ := startup_behind h hstart
    exact ⟨A, idle, h', .of_mem hmem⟩
  | dtor t =>
    obtain ⟨hflag, halive, hset, rfl, rfl, rfl⟩ := hs
    obtain ⟨idle', h'⟩ := dtor_behind h hflag halive hset
    exact ⟨A, idle', h', .of_mem rfl⟩
  | terminate t =>
    obtain ⟨hflag, hdone, rfl, rfl, rfl⟩ := hs
    exact ⟨A, idle, terminate_behind h hflag hdone, .of_mem rfl⟩

theorem step_inv {lab : Label cfg} (h : Inv cfg main w) (hs : Step main w lab w') : Inv cfg main w' := by
  obtain ⟨A, idle, h⟩ := h
  obtain ⟨A', idle', h', _⟩ := step_behind h hs
  exact ⟨A', idle', h'⟩

theorem reachable_inv (h : (system cfg main).Reachable w) : Inv cfg main w :=
  h.invariant (fun _ hw => init_inv hw) fun _ _ _ hw hs => step_inv hw hs

/-- The world that a call leaves behind. -/
def World.call [Os] (w : World) (k : Kernel cfg) (t : Tid) (c : Call) : World :=
  let result := (c.run k t w.st).getD (none, State.unbooted)
  ⟨result.2, w.status, liveAfter c.oaddr (c.gives result.1) result.1 w.live⟩

theorem World.call_step [Os] {c : Call} (hok : CallOk main w t c) (hrun : (c.run k t w.st).isOk = true) :
    Step main w (.call k t c) (w.call k t c) :=
  ⟨hok, _, Result.eq_ok hrun (none, State.unbooted), rfl, rfl⟩

theorem World.call_run [Os] {c : Call} (hrun : (c.run k t w.st).isOk = true)
    (hr : ((c.run k t w.st).getD (none, State.unbooted)).1 = r) :
    c.run k t w.st = .ok (r, (w.call k t c).st) :=
  Result.eq_ok_pair hrun hr

theorem World.call_live [Os] {c : Call} (hrun : c.run k t w.st = .ok (r, s')) :
    (w.call k t c).live = liveAfter c.oaddr (c.gives r) r w.live := by
  rw [World.call, hrun]
  rfl

def World.free [Os] (w : World) (t : Tid) (addr : Option ℕ) : World :=
  ⟨(Llheap.free t addr w.st).getD State.unbooted, w.status, liveAfter addr true none w.live⟩

theorem World.free_step [Os] {addr : Option ℕ} (hold : ∀ u ∈ addr, u ∈ w.live)
    (hrun : (Llheap.free t addr w.st).isOk = true) :
    (system cfg main).step w (.free t addr) (w.free t addr) :=
  ⟨hold, Result.eq_ok hrun State.unbooted, rfl, rfl⟩

theorem mayCall_main (hrun : status main ≠ .terminated) (hheap : s.heapManager main ≠ 1) :
    MayCall main s status main :=
  ⟨hrun, .inr rfl, fun hone => absurd hone hheap⟩

/-- Thread 0 of a program with the default control routines has made its first call. -/
def World.booted : World :=
  ⟨firstHeap defaultConfig (.above defaultConfig), fun _ => .alive, ∅⟩

theorem World.booted_reachable [Os] : (system defaultConfig 0).Reachable World.booted :=
  .start ⟨⟨_, heapManagerCtor_default⟩, rfl, rfl⟩

theorem World.booted_may : MayCall 0 World.booted.st World.booted.status 0 :=
  mayCall_main (by simp [World.booted]) (by decide)

/-- A call with no old address, which fits, has a result. -/
theorem World.booted_call [Os] {c : Call} (hvalid : c.Valid) (hnone : c.oaddr = none)
    (hfits : ∀ n ∈ c.request World.booted.st, Fits World.booted.st.heapMaster n)
    (hrun : (c.run (.above defaultConfig) 0 World.booted.st).isOk = true) :
    (system defaultConfig 0).step World.booted (.call (.above defaultConfig) 0 c)
      (World.booted.call (.above defaultConfig) 0 c) :=
  World.call_step ⟨World.booted_may, hvalid, by simp [hnone], hfits⟩ hrun

/-! ### Items are pieces -/

/-- The tag that the piece of an item has. -/
def Item.IsTag : Item → Tag → Prop
  | .live user, tag => ∃ v, tag = .live user v
  | .listed freeHead _ _, tag => tag = .free freeHead
  | .buffer heap, tag => tag = .bump heap

theorem Item.piece {i : Item} (hr : Refines cfg main w.st w.status A idle)
    (hlive : w.live = users (liveAt A)) (hi : i.Present w) (hpos : 0 < (i.extent w.st).2) :
    ∃ tag, i.IsTag tag ∧ A.at? (i.extent w.st).1 = some ⟨(i.extent w.st).2, tag⟩ := by
  cases i with
  | live user =>
    obtain ⟨b, l, hb, rfl⟩ : user ∈ users (liveAt A) := hlive ▸ hi
    refine ⟨.live l.user l.view, ⟨l.view, rfl⟩, ?_⟩
    rw [Item.extent, hr.headers hb]
    exact liveAt_eq_some.mp hb
  | listed f l block =>
    obtain ⟨⟨h, n, hf⟩, blocks, hlist, hmem⟩ := hi
    have hbucket := hr.blocks.bucket h f n hf
    obtain ⟨own, remote, hown, hremote, _, hiff⟩ := hbucket.listed
    refine ⟨.free f, rfl, ?_⟩
    rw [Item.extent, hbucket.blockSize]
    refine (hiff block).mp (List.mem_append.mpr ?_)
    cases l with
    | freeList => exact .inl (hlist.unique hown ▸ hmem)
    | remoteList => exact .inr (hlist.unique hremote ▸ hmem)
  | buffer heap => exact ⟨.bump heap, rfl, (hr.blocks.bump _ _ heap).mpr ⟨hi, rfl, rfl, hpos⟩⟩

theorem Item.one_list {f b : ℕ} {l l' : ListField} (hr : Refines cfg main w.st w.status A idle)
    (hi : (Item.listed f l b).Present w) (hj : (Item.listed f l' b).Present w) : l = l' := by
  obtain ⟨⟨h, n, hf⟩, blocks, hlist, hmem⟩ := hi
  obtain ⟨_, blocks', hlist', hmem'⟩ := hj
  obtain ⟨own, remote, hown, hremote, hnodup, _⟩ := (hr.blocks.bucket h f n hf).listed
  have hapart : ∀ c ∈ own, c ∉ remote := fun c hc hc' => (List.nodup_append.mp hnodup).2.2 c hc c hc' rfl
  cases l <;> cases l'
  · rfl
  · exact absurd (hlist'.unique hremote ▸ hmem') (hapart b (hlist.unique hown ▸ hmem))
  · exact absurd (hlist.unique hremote ▸ hmem) (hapart b (hlist'.unique hown ▸ hmem'))
  · rfl

theorem Item.eq_of_tag {i j : Item} {tag : Tag} (hr : Refines cfg main w.st w.status A idle)
    (hi : i.Present w) (hj : j.Present w) (hstart : (i.extent w.st).1 = (j.extent w.st).1)
    (hit : i.IsTag tag) (hjt : j.IsTag tag) : i = j := by
  cases i with
  | live user =>
    obtain ⟨v, rfl⟩ := hit
    cases j with
    | live user' =>
      obtain ⟨v', heq⟩ := hjt
      rw [(Tag.live.inj heq).1]
    | listed f l b => cases hjt
    | buffer heap => cases hjt
  | listed f l b =>
    obtain rfl := hit
    cases j with
    | live user' =>
      obtain ⟨v', heq⟩ := hjt
      cases heq
    | listed f' l' b' =>
      obtain rfl := Tag.free.inj hjt
      obtain rfl : b = b' := hstart
      rw [Item.one_list hr hi hj]
    | buffer heap => cases hjt
  | buffer heap =>
    obtain rfl := hit
    cases j with
    | live user' =>
      obtain ⟨v', heq⟩ := hjt
      cases heq
    | listed f l b => cases hjt
    | buffer heap' => rw [Tag.bump.inj hjt]

theorem disjoint_storage {i j : Item} (hr : Refines cfg main w.st w.status A idle)
    (hlive : w.live = users (liveAt A)) (hi : i.Present w) (hj : j.Present w) (hne : i ≠ j) :
    Disjoint (i.storage w.st) (j.storage w.st) := by
  rw [Set.disjoint_left]
  intro x hxi hxj
  have hxi' := Set.mem_Ico.mp hxi
  have hxj' := Set.mem_Ico.mp hxj
  obtain ⟨tag, hit, hpi⟩ := Item.piece hr hlive hi (by omega)
  obtain ⟨tag', hjt, hpj⟩ := Item.piece hr hlive hj (by omega)
  have hstart := Arena.eq_of_overlap hpi hpj hxi' hxj'
  rw [← hstart, hpi] at hpj
  obtain rfl := (Piece.mk.inj (Option.some.inj hpj)).2
  exact hne (Item.eq_of_tag hr hi hj hstart hit hjt)

/-- Blocks that are live or on a list, and the heaps' buffers, never overlap. They are mapped, the lists of every bucket end, and a live allocation has its request size inside its block, behind the header. -/
theorem storage_separated (h : (system cfg main).Reachable w) :
    (∀ i j : Item, i.Present w → j.Present w → i ≠ j → Disjoint (i.storage w.st) (j.storage w.st)) ∧
    (∀ i : Item, i.Present w → 0 < (i.extent w.st).2 →
      Covered w.st.mappings (i.extent w.st).1 (i.extent w.st).2) ∧
    (∀ heap f n, IsBucket w.st.heapMaster heap f n → ∀ l, ∃ blocks, IsList w.st f l blocks) ∧
    (∀ user ∈ w.live, ((Item.live user).extent w.st).1 + sizeofStorage ≤ user ∧
      user + mallocRequestSize w.st (some user) ≤
        ((Item.live user).extent w.st).1 + ((Item.live user).extent w.st).2) := by
  obtain ⟨A, idle, hr, hlive⟩ := reachable_inv h
  refine ⟨fun i j hi hj hne => disjoint_storage hr hlive hi hj hne, fun i hi hpos => ?_,
    fun heap f n hf l => ?_, fun user hu => ?_⟩
  · obtain ⟨tag, _, hpiece⟩ := Item.piece hr hlive hi hpos
    exact hr.heaps.laid.covered _ _ hpiece
  · obtain ⟨own, remote, hown, hremote, _⟩ := (hr.blocks.bucket heap f n hf).listed
    cases l with
    | freeList => exact ⟨own, hown⟩
    | remoteList => exact ⟨remote, hremote⟩
  · obtain ⟨b, l, hb, rfl⟩ : user ∈ users (liveAt A) := hlive ▸ hu
    obtain ⟨hblock, _⟩ := hr.liveBlock hb
    obtain ⟨_, hlow, hhigh, _⟩ := hr.dataSize hb
    rw [hblock.encodes.mallocRequestSize hblock.taggable, Item.extent, hr.headers hb]
    exact ⟨hlow, hhigh⟩

private def allocated : World := World.booted.call (.above defaultConfig) 0 (.malloc 8)

private theorem allocated_reachable : (system defaultConfig 0).Reachable allocated := by
  have hvalid : (Call.malloc 8).Valid := (by decide : 8 < 2 ^ 64)
  exact .next World.booted_reachable (World.booted_call hvalid rfl (by decide +kernel) (by decide +kernel))

/-- The block that is allocated does not meet what is left of the buffer. -/
theorem storage_separated_malloc : ∃ w user heap, (system defaultConfig 0).Reachable w ∧ user ∈ w.live ∧
    heap ∈ w.st.heapMaster.heapManagersList ∧
    Disjoint ((Item.live user).storage w.st) ((Item.buffer heap).storage w.st) := by
  have hlive : 134488080 ∈ allocated.live := by
    refine .inl ?_
    decide +kernel
  have hheap : allocated.st.heapManager 0 ∈ allocated.st.heapMaster.heapManagersList := by decide +kernel
  obtain ⟨hdisjoint, _⟩ := storage_separated allocated_reachable
  exact ⟨allocated, 134488080, _, allocated_reachable, hlive, hheap,
    hdisjoint (.live 134488080) (.buffer _) hlive hheap nofun⟩

end Llheap.Separation
