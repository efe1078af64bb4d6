import Llheap.Proof.BucketFit
import Llheap.Proof.Mappings
import Llheap.Base.Transition
import Llheap.Model.Routines

/-!
# The slab reservation

`master_extend` reserves `sbrkExtend` bytes of address space and accounts the larger of that and the request. The two agree as long as no slab is started for a request above `sbrkExtend`, and every thread block is such a request once `mallopt` lowers `sbrkExtend` below it. The system below runs the boot code, `mallopt(M_TOP_PAD)`, `master_extend` at every size a bucket asks for, and the mapping and unmapping of large blocks, in any order.
-/

namespace Llheap.Slab

variable {cfg : Config}

/-- The allocator's state and the mapped blocks that are live. -/
structure World where
  st : State
  blocks : List Mapping

/-- The size `manager_extend` passes on for a block of bucket `b`. -/
def extendSize (cfg : Config) (b : ℕ) : ℕ :=
  ceiling (max (bucketSize b) cfg.mallocThreadBlock) libAlign

/-- The live mapped blocks after a request for one of `len` bytes. -/
def addBlock (len : ℕ) (blocks : List Mapping) : Option ℕ → List Mapping
  | none => blocks
  | some addr => ⟨headerAddr addr, len, .readWrite⟩ :: blocks

inductive Label (cfg : Config)
  | boot
  | topPad (value : ℤ)
  | extend (k : Kernel cfg) (t : Tid) (bucket : ℕ)
  | mapLarge (k : Kernel cfg) (t : Tid) (size : ℕ)
  | unmap (block : Mapping)

def Step (w : World) : Label cfg → World → Prop
  | .boot, w' => heapMasterCtor cfg w.st = .ok w'.st ∧ w'.blocks = w.blocks
  | .topPad value, w' => ∃ r, value < 2 ^ 31 ∧ mallopt mTopPad value w.st = .ok (r, w'.st) ∧
      w'.blocks = w.blocks
  | .extend k t bucket, w' => w.st.heapMasterBootFlag ≠ 0 ∧ bucket < noBucketSizes ∧
      (∃ r, masterExtend k t (extendSize cfg bucket) w.st = .ok (r, w'.st)) ∧ w'.blocks = w.blocks
  | .mapLarge k t size, w' => w.st.heapMasterBootFlag ≠ 0 ∧
      ∃ r, Llheap.mapLarge k t size w.st = .ok (r, w'.st) ∧
        w'.blocks = addBlock (ceiling ((size + sizeofStorage) % 2 ^ 64) w.st.heapMaster.pageSize)
          w.blocks r
  | .unmap block, w' => block ∈ w.blocks ∧ w'.st = w.st.munmap block.base block.len ∧
      w'.blocks = w.blocks.erase block

def system (cfg : Config) : TransitionSystem World (Label cfg) where
  init w := w = ⟨State.unbooted, []⟩
  step := Step

/-- No accepted `M_TOP_PAD` rounds to less than a thread block, and no slab is started for a request above the extension amount. -/
def WithinExtend (w : World) : Label cfg → Prop
  | .topPad value => 0 ≤ value → w.st.heapMaster.sbrkThreadBlock ≤
      ceiling value.toNat w.st.heapMaster.pageSize
  | .extend _ _ bucket => w.st.heapMaster.sbrkRemaining < extendSize cfg bucket →
      extendSize cfg bucket ≤ w.st.heapMaster.sbrkExtend
  | _ => True

/-- `m` is the `PROT_NONE` mapping of the current slab, and the accounted area lies inside it. -/
structure Reserves (s : State) (m : Mapping) : Prop where
  mem : m ∈ s.mappings
  prot : m.prot = .none
  base : m.base = s.heapMaster.sbrkStart
  start_le : s.heapMaster.sbrkStart ≤ s.heapMaster.sbrkEnd
  inside : s.heapMaster.sbrkEnd + s.heapMaster.sbrkRemaining ≤ m.base + m.len

/-- The accounted area `[sbrkStart, sbrkEnd + sbrkRemaining)` is reserved, or there is no slab yet. -/
def AccountedReserved (s : State) : Prop :=
  (s.heapMaster.sbrkStart = 0 ∧ s.heapMaster.sbrkEnd = 0 ∧ s.heapMaster.sbrkRemaining = 0) ∨
    ∃ m, Reserves s m

/-- The assertion of `headers` on the address of a mapped block. -/
def OutsideSlab (s : State) (addr : ℕ) : Prop :=
  addr < s.heapMaster.sbrkStart ∨ s.heapMaster.sbrkEnd < addr

/-- The amounts that boot sets and `M_TOP_PAD` changes. -/
structure Amounts (cfg : Config) (s : State) : Prop where
  block_le : s.heapMaster.sbrkThreadBlock ≤ s.heapMaster.sbrkExtend
  extend_lt : s.heapMaster.sbrkExtend < 2 ^ 64
  unbooted : s.heapMasterBootFlag = 0 → s.heapMaster = State.unbooted.heapMaster
  page : s.heapMasterBootFlag ≠ 0 → s.heapMaster.pageSize = cfg.pageSize
  extend_dvd : s.heapMasterBootFlag ≠ 0 → cfg.pageSize ∣ s.heapMaster.sbrkExtend

/-- Live mapped blocks are mappings, apart from each other and from every slab. -/
structure Apart (ms blocks : List Mapping) : Prop where
  user : ∀ m ∈ ms, 0 < m.base ∧ 0 < m.len ∧ m.base + m.len ≤ 2 ^ 63
  mapped : ∀ b ∈ blocks, b ∈ ms
  pairwise : blocks.Pairwise fun b c => b.base + b.len ≤ c.base ∨ c.base + c.len ≤ b.base
  slabs : ∀ b ∈ blocks, ∀ m ∈ ms, m.prot = .none →
    b.base + b.len ≤ m.base ∨ m.base + m.len ≤ b.base

structure Inv (cfg : Config) (w : World) : Prop where
  amounts : Amounts cfg w.st
  reserved : AccountedReserved w.st
  apart : Apart w.st.mappings w.blocks

variable {s s' : State} {ms blocks : List Mapping} {a len : ℕ}

theorem Apart.grant (h : Apart ms blocks) (hfresh : FreshRegion cfg ms a len) (prot : Prot) :
    Apart (⟨a, len, prot⟩ :: ms) blocks where
  user := by
    intro m hm
    rcases List.mem_cons.mp hm with rfl | hm
    · exact ⟨hfresh.pos, hfresh.len_pos, hfresh.user⟩
    · exact h.user m hm
  mapped b hb := List.mem_cons_of_mem _ (h.mapped b hb)
  pairwise := h.pairwise
  slabs := by
    intro b hb m hm hprot
    rcases List.mem_cons.mp hm with rfl | hm
    · exact (hfresh.apart b (h.mapped b hb)).symm
    · exact h.slabs b hb m hm hprot

/-- A block that has just been mapped is apart from everything. -/
theorem Apart.grantBlock (h : Apart ms blocks) (hfresh : FreshRegion cfg ms a len) :
    Apart (⟨a, len, .readWrite⟩ :: ms) (⟨a, len, .readWrite⟩ :: blocks) := by
  have hgrant := h.grant hfresh .readWrite
  refine ⟨hgrant.user, ?_, ?_, ?_⟩
  · intro b hb
    rcases List.mem_cons.mp hb with rfl | hb
    · exact List.mem_cons_self
    · exact hgrant.mapped b hb
  · exact List.pairwise_cons.mpr ⟨fun b hb => hfresh.apart b (h.mapped b hb), h.pairwise⟩
  · intro b hb m hm hprot
    rcases List.mem_cons.mp hb with rfl | hb
    · rcases List.mem_cons.mp hm with rfl | hm
      · cases hprot
      · exact hfresh.apart m hm
    · exact hgrant.slabs b hb m hm hprot

theorem Apart.of_mem_erase (h : Apart ms blocks) {b c : Mapping} (hb : b ∈ blocks)
    (hc : c ∈ blocks.erase b) : b.base + b.len ≤ c.base ∨ c.base + c.len ≤ b.base := by
  have hperm := List.perm_cons_erase hb
  have hpair := (hperm.pairwise_iff fun hxy => Or.symm hxy).mp h.pairwise
  exact (List.pairwise_cons.mp hpair).1 c hc

theorem Apart.unmap (h : Apart s.mappings blocks) {b : Mapping} (hb : b ∈ blocks) :
    Apart (s.munmap b.base b.len).mappings (blocks.erase b) := by
  refine ⟨?_, ?_, h.pairwise.sublist List.erase_sublist, ?_⟩
  · intro m' hm'
    obtain ⟨m, hm, hpart⟩ := List.mem_flatMap.mp hm'
    have := h.user m hm
    have := remove_inside hpart
    omega
  · intro c hc
    have hmem := h.mapped c (List.mem_of_mem_erase hc)
    exact mem_munmap hmem (h.user c hmem).2.1 (h.of_mem_erase hb hc)
  · intro c hc m' hm' hprot
    obtain ⟨m, hm, hpart⟩ := List.mem_flatMap.mp hm'
    have hin := remove_inside hpart
    have := h.slabs c (List.mem_of_mem_erase hc) m hm (hin.1 ▸ hprot)
    omega

theorem AccountedReserved.of_mappings (h : AccountedReserved s)
    (hstart : s'.heapMaster.sbrkStart = s.heapMaster.sbrkStart)
    (hend : s'.heapMaster.sbrkEnd = s.heapMaster.sbrkEnd)
    (hrem : s'.heapMaster.sbrkRemaining = s.heapMaster.sbrkRemaining)
    (hmem : ∀ m ∈ s.mappings, m.prot = .none → m ∈ s'.mappings) : AccountedReserved s' := by
  rcases h with hzero | ⟨m, hm⟩
  · left
    rw [hstart, hend, hrem]
    exact hzero
  · refine .inr ⟨m, hmem m hm.mem hm.prot, hm.prot, ?_, ?_, ?_⟩
    · rw [hstart]
      exact hm.base
    · rw [hstart, hend]
      exact hm.start_le
    · rw [hend, hrem]
      exact hm.inside

/-! ### One lemma per label -/

theorem init_inv (cfg : Config) : Inv cfg ⟨State.unbooted, []⟩ where
  amounts := ⟨le_rfl, by decide, fun _ => rfl, fun h => absurd rfl h, fun h => absurd rfl h⟩
  reserved := .inl ⟨rfl, rfl, rfl⟩
  apart := ⟨by simp [State.unbooted], by simp, List.Pairwise.nil, by simp⟩

theorem boot_inv {w w' : World} (hw : Inv cfg w) (h : heapMasterCtor cfg w.st = .ok w'.st)
    (hblocks : w'.blocks = w.blocks) : Inv cfg w' := by
  obtain ⟨hflag, hasserts, hst⟩ := heapMasterCtor_ok h
  have hmaster := hw.amounts.unbooted hflag
  have hext : ceiling cfg.mallocHeapExtend cfg.pageSize < 2 ^ 64 := Nat.mod_lt _ (by decide)
  refine ⟨⟨hasserts.2.1, ?_, ?_, ?_, ?_⟩, ?_, ?_⟩
  · rw [hst]
    exact hext
  · rw [hst]
    exact fun h0 => absurd h0 Nat.one_ne_zero
  · rw [hst]
    exact fun _ => rfl
  · rw [hst]
    exact fun _ => ceiling_dvd cfg.mallocHeapExtend_lt cfg.pageSize_pow2 cfg.pageSize_lt
  · left
    rw [hst, hmaster]
    exact ⟨rfl, rfl, rfl⟩
  · rw [hst, hblocks]
    exact hw.apart

theorem topPad_inv {w w' : World} {value : ℤ} {r : ℕ} (hw : Inv cfg w) (hvalue : value < 2 ^ 31)
    (hok : 0 ≤ value →
      w.st.heapMaster.sbrkThreadBlock ≤ ceiling value.toNat w.st.heapMaster.pageSize)
    (h : mallopt mTopPad value w.st = .ok (r, w'.st)) (hblocks : w'.blocks = w.blocks) :
    Inv cfg w' := by
  obtain ⟨w's, w'b⟩ := w'
  dsimp only at h hblocks
  subst w'b
  obtain ⟨_, rfl⟩ | ⟨_, _, hpos, hmin, rfl⟩ | ⟨_, hoption, _⟩ := mallopt_cases h
  · exact hw
  · have hbooted : w.st.heapMasterBootFlag ≠ 0 := by
      intro hflag
      rw [hw.amounts.unbooted hflag] at hmin
      have : ceiling value.toNat 0 = 0 := by simp [ceiling, floor]
      change 256 * 1024 ≤ ceiling value.toNat 0 at hmin
      omega
    refine ⟨⟨hok hpos, Nat.mod_lt _ (by decide), ?_, hw.amounts.page, fun _ => ?_⟩, ?_, hw.apart⟩
    · exact fun hflag => absurd hflag hbooted
    · dsimp only
      rw [hw.amounts.page hbooted]
      exact ceiling_dvd (by omega) cfg.pageSize_pow2 cfg.pageSize_lt
    · exact hw.reserved.of_mappings rfl rfl rfl fun _ hm _ => hm
  · cases hoption

theorem AccountedReserved.remaining_lt (h : AccountedReserved s) (happ : Apart s.mappings blocks) :
    s.heapMaster.sbrkRemaining < 2 ^ 63 := by
  rcases h with ⟨_, _, hzero⟩ | ⟨m, hm⟩
  · omega
  · have huser := happ.user m hm.mem
    have hin := hm.inside
    have hstart := hm.start_le
    have hbase := hm.base
    omega

theorem Amounts.of_booted (h : Amounts cfg s) (hbooted : s.heapMasterBootFlag ≠ 0)
    (hflag : s'.heapMasterBootFlag = s.heapMasterBootFlag)
    (hext : s'.heapMaster.sbrkExtend = s.heapMaster.sbrkExtend)
    (hblock : s'.heapMaster.sbrkThreadBlock = s.heapMaster.sbrkThreadBlock)
    (hpage : s'.heapMaster.pageSize = s.heapMaster.pageSize) : Amounts cfg s' where
  block_le := by rw [hext, hblock]; exact h.block_le
  extend_lt := by rw [hext]; exact h.extend_lt
  unbooted h0 := absurd (hflag ▸ h0) hbooted
  page _ := by rw [hpage]; exact h.page hbooted
  extend_dvd _ := by rw [hext]; exact h.extend_dvd hbooted

variable {k : Kernel cfg} {t : Tid} {size rem : ℕ} {r : Option ℕ}

theorem extendBlock_inv (hw : Inv cfg ⟨s, blocks⟩) (hbooted : s.heapMasterBootFlag ≠ 0)
    (hroom : ∀ a, FreshRegion cfg s.mappings a (max size s.heapMaster.sbrkThreadBlock) →
      AccountedReserved (extendedBlock a size rem s))
    (h : extendBlock k t size rem s = .ok (r, s')) : Inv cfg ⟨s', blocks⟩ := by
  obtain ⟨_, rfl⟩ | ⟨a, _, hfresh, rfl⟩ := extendBlock_cases h
  · refine ⟨hw.amounts.of_booted hbooted rfl rfl rfl rfl, ?_, hw.apart⟩
    exact hw.reserved.of_mappings rfl rfl rfl fun _ hm _ => hm
  · exact ⟨hw.amounts.of_booted hbooted rfl rfl rfl rfl, hroom a hfresh, hw.apart.grant hfresh _⟩

/-- A request that fits in what is left of the slab. -/
theorem extendedBlock_reserved (h : AccountedReserved s) (hle : size ≤ s.heapMaster.sbrkRemaining)
    (a : ℕ) :
    AccountedReserved (extendedBlock a size (s.heapMaster.sbrkRemaining - size) s) := by
  rcases h with ⟨hstart, hend, hzero⟩ | ⟨m, hm⟩
  · have hsize : size = 0 := by omega
    subst hsize
    exact .inl ⟨hstart, hend, hzero⟩
  · have hstart := hm.start_le
    have hin := hm.inside
    exact .inr ⟨m, List.mem_cons_of_mem _ hm.mem, hm.prot, hm.base,
      by dsimp only [extendedBlock]; omega, by dsimp only [extendedBlock]; omega⟩

/-- The state once a new slab has been reserved at `a`. -/
def newSlab (a : ℕ) (s : State) : State :=
  startSlab a ((locked s).grant a s.heapMaster.sbrkExtend .none)

theorem newSlab_reserved (a : ℕ) (hrem : s.heapMaster.sbrkRemaining ≤ s.heapMaster.sbrkExtend) :
    AccountedReserved (newSlab a s) :=
  .inr ⟨⟨a, s.heapMaster.sbrkExtend, .none⟩, List.mem_cons_self, rfl, rfl, le_rfl,
    Nat.add_le_add_left hrem a⟩

theorem newSlab_extended_reserved (hamounts : Amounts cfg s) (hbooted : s.heapMasterBootFlag ≠ 0)
    {ms : List Mapping} {a : ℕ} (hfresh : FreshRegion cfg ms a s.heapMaster.sbrkExtend)
    (hsize : size ≤ s.heapMaster.sbrkExtend) (b : ℕ) :
    AccountedReserved (extendedBlock b size
      (sub64 (ceiling (max size s.heapMaster.sbrkExtend) libAlign) size) (newSlab a s)) := by
  have huser := hfresh.user
  have hpos := hfresh.pos
  have hpage := cfg.align_dvd_pageSize
  have hincrease : ceiling (max size s.heapMaster.sbrkExtend) libAlign = s.heapMaster.sbrkExtend := by
    rw [max_eq_right hsize, libAlign]
    exact ceiling_of_dvd ⟨4, rfl⟩ (by decide) (hpage.trans (hamounts.extend_dvd hbooted)) (by omega)
  rw [hincrease, sub64_of_le (by omega) hsize]
  refine .inr ⟨⟨a, s.heapMaster.sbrkExtend, .none⟩, ?_, rfl, rfl, ?_, ?_⟩
  · exact List.mem_cons_of_mem _ List.mem_cons_self
  · exact Nat.le_add_right a size
  · change a + size + (s.heapMaster.sbrkExtend - size) ≤ a + s.heapMaster.sbrkExtend
    omega

theorem extend_inv (hw : Inv cfg ⟨s, blocks⟩) (hbooted : s.heapMasterBootFlag ≠ 0)
    (hok : s.heapMaster.sbrkRemaining < size → size ≤ s.heapMaster.sbrkExtend)
    (hsize : size < 2 ^ 64)
    (h : masterExtend k t size s = .ok (r, s')) : Inv cfg ⟨s', blocks⟩ := by
  have hrem := hw.reserved.remaining_lt hw.apart
  have hlocked : Inv cfg ⟨locked s, blocks⟩ :=
    ⟨hw.amounts.of_booted hbooted rfl rfl rfl rfl,
      hw.reserved.of_mappings rfl rfl rfl fun _ hm _ => hm, hw.apart⟩
  dsimp only at hrem
  rcases masterExtend_cases h with ⟨hneg, ⟨_, rfl⟩ | ⟨a, hfresh, hblock⟩⟩ | ⟨hneg, hblock⟩
  · exact ⟨hw.amounts.of_booted hbooted rfl rfl rfl rfl,
      hw.reserved.of_mappings rfl rfl rfl fun _ hm _ => hm, hw.apart⟩
  · have hshort : s.heapMaster.sbrkRemaining < size := by
      by_contra hle
      rw [sub64_of_le (by omega) (by omega), negative] at hneg
      omega
    have hslab : Inv cfg ⟨newSlab a s, blocks⟩ :=
      ⟨hw.amounts.of_booted hbooted rfl rfl rfl rfl,
        newSlab_reserved a (hshort.le.trans (hok hshort)), hw.apart.grant hfresh .none⟩
    exact extendBlock_inv hslab hbooted
      (fun b _ => newSlab_extended_reserved hw.amounts hbooted hfresh (hok hshort) b) hblock
  · refine extendBlock_inv hlocked hbooted (fun a hfresh => ?_) hblock
    -- a request that does not fit is refused: it does not fit in the address space either
    have hle : size ≤ s.heapMaster.sbrkRemaining := by
      have := hfresh.user
      by_contra hgt
      rw [sub64_of_lt hsize (by omega), negative] at hneg
      omega
    rw [sub64_of_le (by omega) hle]
    exact extendedBlock_reserved hlocked.reserved hle a

theorem mapLarge_inv (hw : Inv cfg ⟨s, blocks⟩) (hbooted : s.heapMasterBootFlag ≠ 0)
    (h : Llheap.mapLarge k t size s = .ok (r, s')) :
    Inv cfg ⟨s', addBlock (ceiling ((size + sizeofStorage) % 2 ^ 64) s.heapMaster.pageSize)
      blocks r⟩ := by
  obtain ⟨rfl, rfl⟩ | ⟨a, rfl, hfresh, rfl⟩ := mapLarge_cases h
  · exact ⟨hw.amounts.of_booted hbooted rfl rfl rfl rfl,
      hw.reserved.of_mappings rfl rfl rfl fun _ hm _ => hm, hw.apart⟩
  · refine ⟨hw.amounts.of_booted hbooted rfl rfl rfl rfl, ?_, ?_⟩
    · exact hw.reserved.of_mappings rfl rfl rfl fun _ hm _ => List.mem_cons_of_mem _ hm
    · have haddr : headerAddr (a + sizeofStorage) = a := Nat.add_sub_cancel a _
      simp only [addBlock, haddr]
      exact hw.apart.grantBlock hfresh

theorem unmap_inv (hw : Inv cfg ⟨s, blocks⟩) {b : Mapping} (hb : b ∈ blocks) :
    Inv cfg ⟨s.munmap b.base b.len, blocks.erase b⟩ := by
  refine ⟨⟨hw.amounts.block_le, hw.amounts.extend_lt, hw.amounts.unbooted, hw.amounts.page,
    hw.amounts.extend_dvd⟩, ?_, hw.apart.unmap hb⟩
  refine hw.reserved.of_mappings rfl rfl rfl fun m hm hprot => ?_
  exact mem_munmap hm (hw.apart.user m hm).2.1 (hw.apart.slabs b hb m hm hprot)

/-! ### Runs -/

theorem step_inv {w w' : World} {l : Label cfg} (hw : Inv cfg w) (hok : WithinExtend w l)
    (h : Step w l w') : Inv cfg w' := by
  obtain ⟨s', blocks'⟩ := w'
  cases l with
  | boot => exact boot_inv hw h.1 h.2
  | topPad value =>
    obtain ⟨r, hvalue, hopt, hblocks⟩ := h
    exact topPad_inv hw hvalue hok hopt hblocks
  | extend k t bucket =>
    obtain ⟨hbooted, _, ⟨r, hext⟩, rfl⟩ := h
    exact extend_inv hw hbooted hok (Nat.mod_lt _ (by decide)) hext
  | mapLarge k t size =>
    obtain ⟨hbooted, r, hmap, rfl⟩ := h
    exact mapLarge_inv hw hbooted hmap
  | unmap block =>
    obtain ⟨hb, rfl, rfl⟩ := h
    exact unmap_inv hw hb

theorem reachable_inv {w : World} (h : ((system cfg).restrict WithinExtend).Reachable w) :
    Inv cfg w := by
  refine h.invariant ?_ fun w l w' hw hs => step_inv hw hs.1 hs.2
  rintro w rfl
  exact init_inv cfg

/-- Every address a mapped block can hand out is outside the slab. -/
theorem Inv.outsideSlab {w : World} (hw : Inv cfg w) {b : Mapping} (hb : b ∈ w.blocks) {addr : ℕ}
    (hlow : b.base < addr) (hhigh : addr < b.base + b.len) : OutsideSlab w.st addr := by
  rcases hw.reserved with ⟨_, hend, _⟩ | ⟨m, hm⟩
  · exact .inr (by omega)
  · have happ := hw.apart.slabs b hb m hm.mem hm.prot
    have hbase := hm.base
    have hstart := hm.start_le
    have hin := hm.inside
    unfold OutsideSlab
    omega

/-- In every state of a run that keeps within the extension amount, that amount covers a thread block, the accounted area lies in the slab that is reserved for it, and no address inside a live mapped block fails the assertion of `headers`. -/
theorem slab_reserved {w : World} (h : ((system cfg).restrict WithinExtend).Reachable w) :
    w.st.heapMaster.sbrkThreadBlock ≤ w.st.heapMaster.sbrkExtend ∧ AccountedReserved w.st ∧
      ∀ b ∈ w.blocks, ∀ addr, b.base + sizeofStorage ≤ addr → addr < b.base + b.len →
        OutsideSlab w.st addr := by
  have hw := reachable_inv h
  refine ⟨hw.amounts.block_le, hw.reserved, fun b hb addr hlow hhigh => ?_⟩
  exact hw.outsideSlab hb (by rw [sizeofStorage] at hlow; omega) hhigh

theorem boot_step :
    (system defaultConfig).step ⟨State.unbooted, []⟩ .boot ⟨bootState defaultConfig, []⟩ :=
  ⟨heapMasterCtor_eq rfl bootAsserts_default, rfl⟩

/-- The state after the first thread block of a run that starts in `s`. -/
private def extended (k : Kernel defaultConfig) (s : State) : State :=
  ((masterExtend k 0 (extendSize defaultConfig 0) s).getD (none, State.unbooted)).2

private def mapped (k : Kernel defaultConfig) (s : State) : State :=
  ((Llheap.mapLarge k 0 33554448 s).getD (none, State.unbooted)).2

private def roomyWorld : World :=
  ⟨mapped (.above defaultConfig) (extended (.above defaultConfig) (bootState defaultConfig)),
    [⟨136318976, 33558528, .readWrite⟩]⟩

private theorem roomyWorld_reachable :
    ((system defaultConfig).restrict WithinExtend).Reachable roomyWorld := by
  have hboot : ((system defaultConfig).restrict WithinExtend).step ⟨State.unbooted, []⟩ .boot
      ⟨bootState defaultConfig, []⟩ := ⟨trivial, boot_step⟩
  have hextend : ((system defaultConfig).restrict WithinExtend).step ⟨bootState defaultConfig, []⟩
      (.extend (.above defaultConfig) 0 0) ⟨extended (.above defaultConfig) (bootState defaultConfig), []⟩ := by
    refine ⟨fun _ => ?_, ?_, by decide, ⟨_, Result.eq_ok ?_ (none, State.unbooted)⟩, rfl⟩
    all_goals decide
  have hmap : ((system defaultConfig).restrict WithinExtend).step
      ⟨extended (.above defaultConfig) (bootState defaultConfig), []⟩ (.mapLarge (.above defaultConfig) 0 33554448)
      roomyWorld := by
    refine ⟨trivial, ?_, _, Result.eq_ok ?_ (none, State.unbooted), ?_⟩
    all_goals decide
  exact .next (.next (.next (.start rfl) hboot) hextend) hmap

/-- The default start-up, one thread block and one large block. -/
theorem slab_reserved_default :
    roomyWorld.st.heapMaster.sbrkThreadBlock ≤ roomyWorld.st.heapMaster.sbrkExtend ∧
      AccountedReserved roomyWorld.st ∧
      ∀ b ∈ roomyWorld.blocks, ∀ addr, b.base + sizeofStorage ≤ addr → addr < b.base + b.len →
        OutsideSlab roomyWorld.st addr :=
  slab_reserved roomyWorld_reachable

private def tightKernel : Kernel defaultConfig :=
  .ofPlacement defaultConfig fun _ len =>
    if len = 262144 then 2 ^ 28 else if len = 2097152 then 2 ^ 30 else 2 ^ 28 + 262144

private def loweredState : State := ((mallopt mTopPad 262144 (bootState defaultConfig)).getD (0, State.unbooted)).2

private def loweredWorld : World :=
  ⟨mapped tightKernel (extended tightKernel loweredState),
    [⟨2 ^ 28 + 262144, 33558528, .readWrite⟩]⟩

private theorem loweredWorld_reachable : (system defaultConfig).Reachable loweredWorld := by
  have hlower : (system defaultConfig).step ⟨bootState defaultConfig, []⟩ (.topPad 262144) ⟨loweredState, []⟩ := by
    refine ⟨_, by decide, Result.eq_ok ?_ (0, State.unbooted), rfl⟩
    decide
  have hextend : (system defaultConfig).step ⟨loweredState, []⟩ (.extend tightKernel 0 0)
      ⟨extended tightKernel loweredState, []⟩ := by
    refine ⟨by decide, by decide, ⟨_, Result.eq_ok ?_ (none, State.unbooted)⟩, rfl⟩
    decide
  have hmap : (system defaultConfig).step ⟨extended tightKernel loweredState, []⟩
      (.mapLarge tightKernel 0 33554448) loweredWorld := by
    refine ⟨by decide, _, Result.eq_ok ?_ (none, State.unbooted), ?_⟩
    · decide
    · decide
  exact .next (.next (.next (.next (.start rfl) boot_step) hlower) hextend) hmap

/-- The default start-up, `M_TOP_PAD` lowered to 256 KiB, one thread block and one large block: the extension amount no longer covers a thread block, the accounted area runs past the slab, and the large block lies inside it. -/
theorem slab_overrun : ∃ w, (system defaultConfig).Reachable w ∧
    ¬ w.st.heapMaster.sbrkThreadBlock ≤ w.st.heapMaster.sbrkExtend ∧ ¬ AccountedReserved w.st ∧
      ∃ b ∈ w.blocks, ¬ OutsideSlab w.st (b.base + sizeofStorage) := by
  refine ⟨loweredWorld, loweredWorld_reachable, ?_, ?_, _, List.mem_singleton.mpr rfl, ?_⟩
  · decide
  · rintro (⟨hzero, _⟩ | ⟨m, hm⟩)
    · revert hzero
      decide
    · have hshort : ∀ m ∈ loweredWorld.st.mappings, m.prot = .none → ¬
          loweredWorld.st.heapMaster.sbrkEnd + loweredWorld.st.heapMaster.sbrkRemaining ≤
            m.base + m.len := by
        decide
      exact hshort m hm.mem hm.prot hm.inside
  · unfold OutsideSlab
    decide

end Llheap.Slab
