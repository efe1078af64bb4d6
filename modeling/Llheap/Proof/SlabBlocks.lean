import Llheap.Proof.Growth
import Llheap.Proof.Slab

/-!
# Blocks and the slab

`master_extend` passes the end of the blocks handed out so far as a hint to `mmap`, without `MAP_FIXED`. That range is inside the `PROT_NONE` mapping of the slab, so it is never free, and the kernel puts every thread block somewhere else. The slab stays reserved and unused. The runs are those of the slab's bookkeeping, without any condition on them.
-/

namespace Llheap.Slab

variable {cfg : Config} {k : Kernel cfg} {t : Tid} {s s' : State} {w w' : World} {blocks : List Mapping}
  {size rem newblock : ℕ} {r : Option ℕ}

/-- The block starts where the one before it ended, or where a new slab does, and it lies inside the mapping that reserves the slab. -/
structure CarvedFromSlab (s s' : State) (size newblock : ℕ) : Prop where
  consecutive : newblock = s'.heapMaster.sbrkStart ∨
    newblock = s.heapMaster.sbrkEnd ∧ s'.heapMaster.sbrkStart = s.heapMaster.sbrkStart
  inside : ∃ m ∈ s'.mappings, m.prot = .none ∧ m.base = s'.heapMaster.sbrkStart ∧ m.base ≤ newblock ∧
    newblock + max size s.heapMaster.sbrkThreadBlock ≤ m.base + m.len

/-- A `PROT_NONE` mapping starts at `sbrkStart`. -/
def SlabReserved (s : State) : Prop :=
  ∃ m ∈ s.mappings, m.prot = .none ∧ m.base = s.heapMaster.sbrkStart

/-- What holds of the bookkeeping in every run. -/
structure SlabInv (w : World) : Prop where
  unbooted : w.st.heapMasterBootFlag = 0 → w.st.heapMaster = State.unbooted.heapMaster
  slab : w.st.heapMaster.sbrkRemaining = 0 ∨ SlabReserved w.st
  apart : Apart w.st.mappings w.blocks

/-! ### The granted block -/

theorem extendBlock_mapping (h : extendBlock k t size rem s = .ok (some newblock, s')) :
    FreshRegion cfg s.mappings newblock (max size s.heapMaster.sbrkThreadBlock) ∧
      s'.mappings = ⟨newblock, max size s.heapMaster.sbrkThreadBlock, .readWrite⟩ :: s.mappings ∧
      s'.heapMaster.sbrkStart = s.heapMaster.sbrkStart := by
  obtain ⟨hnone, _⟩ | ⟨a, ha, hfresh, rfl⟩ := extendBlock_cases h
  · cases hnone
  · obtain rfl := Option.some.inj ha
    exact ⟨hfresh, rfl, rfl⟩

theorem masterExtend_mapping (h : masterExtend k t size s = .ok (some newblock, s')) :
    ∃ ms, FreshRegion cfg ms newblock (max size s.heapMaster.sbrkThreadBlock) ∧
      s'.mappings = ⟨newblock, max size s.heapMaster.sbrkThreadBlock, .readWrite⟩ :: ms := by
  rcases masterExtend_cases h with ⟨_, ⟨hnone, _⟩ | ⟨a, _, hblock⟩⟩ | ⟨_, hblock⟩
  · cases hnone
  · obtain ⟨hfresh, hmap, _⟩ := extendBlock_mapping hblock
    exact ⟨_, hfresh, hmap⟩
  · obtain ⟨hfresh, hmap, _⟩ := extendBlock_mapping hblock
    exact ⟨_, hfresh, hmap⟩

/-- The block meets no mapping that cannot be accessed. -/
theorem masterExtend_apart (h : masterExtend k t size s = .ok (some newblock, s')) {m : Mapping}
    (hm : m ∈ s'.mappings) (hprot : m.prot = .none) :
    newblock + max size s.heapMaster.sbrkThreadBlock ≤ m.base ∨ m.base + m.len ≤ newblock := by
  obtain ⟨ms, hfresh, hmap⟩ := masterExtend_mapping h
  rw [hmap] at hm
  rcases List.mem_cons.mp hm with rfl | hm
  · cases hprot
  · exact hfresh.apart m hm

/-! ### One lemma per label -/

theorem SlabReserved.of_mappings (h : SlabReserved s)
    (hstart : s'.heapMaster.sbrkStart = s.heapMaster.sbrkStart)
    (hmem : ∀ m ∈ s.mappings, m.prot = .none → m ∈ s'.mappings) : SlabReserved s' := by
  obtain ⟨m, hm, hprot, hbase⟩ := h
  exact ⟨m, hmem m hm hprot, hprot, hbase.trans hstart.symm⟩

theorem slabInv_init : SlabInv ⟨State.unbooted, []⟩ where
  unbooted _ := rfl
  slab := .inl rfl
  apart := ⟨by simp [State.unbooted], by simp, List.Pairwise.nil, by simp⟩

theorem boot_slabInv (hw : SlabInv w) (h : heapMasterCtor cfg w.st = .ok w'.st)
    (hblocks : w'.blocks = w.blocks) : SlabInv w' := by
  obtain ⟨_, _, hst⟩ := heapMasterCtor_ok h
  refine ⟨?_, ?_, ?_⟩
  · rw [hst]
    exact fun h0 => absurd h0 Nat.one_ne_zero
  · left
    rw [hst]
    rfl
  · rw [hst, hblocks]
    exact hw.apart

theorem topPad_slabInv {value : ℤ} {code : ℕ} (hw : SlabInv ⟨s, blocks⟩)
    (h : mallopt mTopPad value s = .ok (code, s')) : SlabInv ⟨s', blocks⟩ := by
  obtain ⟨_, rfl⟩ | ⟨_, _, _, hmin, rfl⟩ | ⟨_, hoption, _⟩ := mallopt_cases h
  · exact hw
  · refine ⟨fun hflag => ?_, hw.slab.imp_right fun hslab => hslab.of_mappings rfl fun _ hm _ => hm, hw.apart⟩
    rw [hw.unbooted hflag] at hmin
    have hzero : ceiling value.toNat 0 = 0 := by simp [ceiling, floor]
    change 256 * 1024 ≤ ceiling value.toNat 0 at hmin
    omega
  · cases hoption

theorem extendBlock_slabInv (hbooted : s.heapMasterBootFlag ≠ 0) (hslab : SlabReserved s)
    (happ : Apart s.mappings blocks) (h : extendBlock k t size rem s = .ok (r, s')) :
    SlabInv ⟨s', blocks⟩ := by
  obtain ⟨_, rfl⟩ | ⟨a, _, hfresh, rfl⟩ := extendBlock_cases h
  · exact ⟨fun hflag => absurd hflag hbooted, .inr (hslab.of_mappings rfl fun _ hm _ => hm), happ⟩
  · exact ⟨fun hflag => absurd hflag hbooted,
      .inr (hslab.of_mappings rfl fun _ hm _ => List.mem_cons_of_mem _ hm), happ.grant hfresh _⟩

/-- When nothing is left of a slab, a request that is not above the rest of it is empty or cannot be mapped. -/
theorem extendBlock_refused (hrem : s.heapMaster.sbrkRemaining = 0)
    (hneg : ¬ negative (sub64 s.heapMaster.sbrkRemaining size))
    (h : extendBlock k t size rem (locked s) = .ok (r, s')) :
    s' = refused t (locked s) ∨ size = 0 := by
  obtain ⟨_, hnone⟩ | ⟨a, _, hfresh, _⟩ := extendBlock_cases h
  · exact .inl hnone
  · refine .inr ?_
    by_contra hsize
    have huser := hfresh.user
    have hle := le_max_left size (locked s).heapMaster.sbrkThreadBlock
    rw [hrem, sub64_of_lt (by omega) (by omega), negative] at hneg
    omega

theorem extend_slabInv (hw : SlabInv ⟨s, blocks⟩) (hbooted : s.heapMasterBootFlag ≠ 0)
    (h : masterExtend k t size s = .ok (r, s')) : SlabInv ⟨s', blocks⟩ := by
  have hrefused : SlabInv ⟨refused t (locked s), blocks⟩ :=
    ⟨fun hflag => absurd hflag hbooted,
      hw.slab.imp_right fun hslab => hslab.of_mappings rfl fun _ hm _ => hm, hw.apart⟩
  rcases masterExtend_cases h with ⟨_, ⟨_, rfl⟩ | ⟨a, hfresh, hblock⟩⟩ | ⟨hneg, hblock⟩
  · exact hrefused
  · have hslab : SlabReserved (newSlab a s) :=
      ⟨⟨a, s.heapMaster.sbrkExtend, .none⟩, List.mem_cons_self, rfl, rfl⟩
    exact extendBlock_slabInv (s := newSlab a s) hbooted hslab (hw.apart.grant hfresh .none) hblock
  · rcases hw.slab with hzero | hslab
    · rcases extendBlock_refused hzero hneg hblock with rfl | rfl
      · exact hrefused
      · obtain ⟨_, rfl⟩ | ⟨a, _, hfresh, rfl⟩ := extendBlock_cases hblock
        · exact hrefused
        · have hrem : sub64 s.heapMaster.sbrkRemaining 0 = 0 := by
            rw [hzero]
            rfl
          exact ⟨fun hflag => absurd hflag hbooted, .inl hrem, hw.apart.grant hfresh _⟩
    · exact extendBlock_slabInv (s := locked s) hbooted (hslab.of_mappings rfl fun _ hm _ => hm) hw.apart
        hblock

theorem mapLarge_slabInv (hw : SlabInv ⟨s, blocks⟩) (hbooted : s.heapMasterBootFlag ≠ 0)
    (h : Llheap.mapLarge k t size s = .ok (r, s')) :
    SlabInv ⟨s', addBlock (ceiling ((size + sizeofStorage) % 2 ^ 64) s.heapMaster.pageSize) blocks r⟩ := by
  obtain ⟨rfl, rfl⟩ | ⟨a, rfl, hfresh, rfl⟩ := mapLarge_cases h
  · exact ⟨fun hflag => absurd hflag hbooted,
      hw.slab.imp_right fun hslab => hslab.of_mappings rfl fun _ hm _ => hm, hw.apart⟩
  · have haddr : headerAddr (a + sizeofStorage) = a := Nat.add_sub_cancel a _
    refine ⟨fun hflag => absurd hflag hbooted, hw.slab.imp_right fun hslab =>
      hslab.of_mappings rfl fun _ hm _ => List.mem_cons_of_mem _ hm, ?_⟩
    simp only [addBlock, haddr]
    exact hw.apart.grantBlock hfresh

theorem unmap_slabInv (hw : SlabInv ⟨s, blocks⟩) {b : Mapping} (hb : b ∈ blocks) :
    SlabInv ⟨s.munmap b.base b.len, blocks.erase b⟩ := by
  refine ⟨hw.unbooted, hw.slab.imp_right fun hslab => ?_, hw.apart.unmap hb⟩
  refine hslab.of_mappings rfl fun m hm hprot => ?_
  exact mem_munmap hm (hw.apart.user m hm).2.1 (hw.apart.slabs b hb m hm hprot)

/-! ### Runs -/

theorem step_slabInv {l : Label cfg} (hw : SlabInv w) (h : Step w l w') : SlabInv w' := by
  obtain ⟨s', blocks'⟩ := w'
  cases l with
  | boot => exact boot_slabInv hw h.1 h.2
  | topPad value =>
    obtain ⟨code, _, hopt, rfl⟩ := h
    exact topPad_slabInv hw hopt
  | extend k t bucket =>
    obtain ⟨hbooted, _, ⟨r, hext⟩, rfl⟩ := h
    exact extend_slabInv hw hbooted hext
  | mapLarge k t size =>
    obtain ⟨hbooted, r, hmap, rfl⟩ := h
    exact mapLarge_slabInv hw hbooted hmap
  | unmap block =>
    obtain ⟨hb, rfl, rfl⟩ := h
    exact unmap_slabInv hw hb

theorem reachable_slabInv (h : (system cfg).Reachable w) : SlabInv w := by
  refine h.invariant ?_ fun w l w' hw hs => step_slabInv hw hs
  intro w hw
  rw [show w = ⟨State.unbooted, []⟩ from hw]
  exact slabInv_init

theorem SlabInv.reserved (hw : SlabInv w) (hsize : 0 < size)
    (hext : masterExtend k t size w.st = .ok (some newblock, s')) : SlabReserved s' := by
  rcases masterExtend_cases hext with ⟨_, ⟨hnone, _⟩ | ⟨a, _, hblock⟩⟩ | ⟨hneg, hblock⟩
  · cases hnone
  · have hslab : SlabReserved (newSlab a w.st) :=
      ⟨⟨a, w.st.heapMaster.sbrkExtend, .none⟩, List.mem_cons_self, rfl, rfl⟩
    obtain ⟨_, hmap, hstart⟩ := extendBlock_mapping hblock
    exact hslab.of_mappings hstart fun m hm _ => hmap ▸ List.mem_cons_of_mem _ hm
  · obtain ⟨hfresh, hmap, hstart⟩ := extendBlock_mapping hblock
    rcases hw.slab with hzero | hslab
    · rcases extendBlock_refused hzero hneg hblock with rfl | rfl
      · have hlen := congrArg List.length hmap
        have hsame : (refused t (locked w.st)).mappings = (locked w.st).mappings := rfl
        rw [hsame, List.length_cons] at hlen
        omega
      · exact absurd rfl hsize.ne
    · have hlocked : SlabReserved (locked w.st) := hslab.of_mappings rfl fun _ hm _ => hm
      exact hlocked.of_mappings hstart fun m hm _ => hmap ▸ List.mem_cons_of_mem _ hm

/-- In every reachable state, the block that `master_extend` returns lies outside the mapping that reserves the slab. -/
theorem block_outside_slab (h : (system cfg).Reachable w)
    (hext : masterExtend k t size w.st = .ok (some newblock, s')) :
    (0 < size → ∃ m ∈ s'.mappings, m.prot = .none ∧ m.base = s'.heapMaster.sbrkStart ∧
      (newblock + max size w.st.heapMaster.sbrkThreadBlock ≤ m.base ∨ m.base + m.len ≤ newblock)) ∧
    ¬ CarvedFromSlab w.st s' size newblock := by
  constructor
  · intro hsize
    obtain ⟨m, hm, hprot, hbase⟩ := (reachable_slabInv h).reserved hsize hext
    exact ⟨m, hm, hprot, hbase, masterExtend_apart hext hm hprot⟩
  · rintro ⟨_, m, hm, hprot, _, hlow, hhigh⟩
    obtain ⟨_, hfresh, _⟩ := masterExtend_mapping hext
    have hpos := hfresh.len_pos
    have happ := masterExtend_apart hext hm hprot
    omega

private theorem boot_reachable :
    (system defaultConfig).Reachable ⟨bootState defaultConfig, []⟩ :=
  .next (.start rfl) boot_step

/-- The first thread block of a default program lies behind the slab. -/
theorem block_outside_slab_default : ∃ s',
    masterExtend (.above defaultConfig) 0 2097152 (bootState defaultConfig) = .ok (some 134221824, s') ∧
      ¬ CarvedFromSlab (bootState defaultConfig) s' 2097152 134221824 := by
  have hrun : (masterExtend (.above defaultConfig) 0 2097152 (bootState defaultConfig)).isOk = true := by
    decide
  have h := Result.eq_ok_pair hrun (d := (none, State.unbooted)) (a := some 134221824) (by decide)
  exact ⟨_, h, (block_outside_slab boot_reachable h).2⟩

/-- The block does not start where the slab does. -/
theorem block_not_at_sbrkEnd : ¬ ∀ (w : World), (system defaultConfig).Reachable w →
    ∀ (k : Kernel defaultConfig) (t size newblock : ℕ) (s' : State), w.st.heapMaster.pageSize ∣ size →
      masterExtend k t size w.st = .ok (some newblock, s') → CarvedFromSlab w.st s' size newblock := by
  intro hall
  have hrun : (masterExtend (.above defaultConfig) 0 2097152 (bootState defaultConfig)).isOk = true := by
    decide
  have hstart : ((masterExtend (.above defaultConfig) 0 2097152 (bootState defaultConfig)).getD
      (none, State.unbooted)).2.heapMaster.sbrkStart = 4096 := by decide
  have h := Result.eq_ok_pair hrun (d := (none, State.unbooted)) (a := some 134221824) (by decide)
  generalize ((masterExtend (.above defaultConfig) 0 2097152 (bootState defaultConfig)).getD
    (none, State.unbooted)).2 = s' at h hstart
  have hend : (bootState defaultConfig).heapMaster.sbrkEnd = 0 := by decide
  rcases (hall _ boot_reachable _ _ _ _ _ (by decide) h).consecutive with hslab | ⟨hlast, _⟩
  · rw [hstart] at hslab
    omega
  · change 134221824 = (bootState defaultConfig).heapMaster.sbrkEnd at hlast
    omega

end Llheap.Slab
