import Llheap.Base.Transition
import Llheap.Proof.Encoding
import Llheap.Proof.Growth
import Llheap.Proof.Startup

/-!
# An allocation's headers over its life

An allocation is produced by `doMalloc` or `memalignNoStats`, which is what every public routine calls, and then edited in place: marked as zero filled, resized, given another alignment. Each edit finds the header through the header itself. The system below follows one allocation through any order of such edits, with anything else the allocator and the program do in between, as long as they leave its header words alone; what is recorded about it stays what `doMalloc` was asked for.
-/

namespace Llheap.Decoding

variable {cfg : Config}

/-- For a request of `size` bytes, `b` was taken from a bucket of blocks of `n` bytes, or mapped with length `n`. -/
inductive Obtained (k : Kernel cfg) (t : Tid) (size : ℕ) (s : State) : ℕ → ℕ → Origin → Prop
  | bucket {s₁ s₂ : State} {b : ℕ} : bootHeapManager k t s = .ok s₁ → size < s₁.heapMaster.mmapStart →
      allocateBlock k t (requestBucket t size s₁) s₁ = .ok (some b, s₂) →
      Obtained k t size s b (s₁.freeHeader (requestBucket t size s₁)).blockSize
        (.bucket (requestBucket t size s₁))
  | mapped {s₁ s₂ : State} {b n : ℕ} : bootHeapManager k t s = .ok s₁ → s₁.heapMaster.mmapStart ≤ size →
      n = ceiling ((size + sizeofStorage) % 2 ^ 64) s₁.heapMaster.pageSize →
      s₁.mmap k t 0 n .readWrite = (.ok b, s₂) → Obtained k t size s b n .mapped

/-- One allocation: the block, what it came from, and the address the program has. Buckets are aligned as their type says, and storage is in the user half of the address space. -/
structure Allocation where
  block : ℕ
  len : ℕ
  origin : Origin
  user : ℕ
  aligned : ∀ freeHead, origin = .bucket freeHead → 64 ∣ freeHead ∧ freeHead < 2 ^ 64
  inUser : block + 2 * sizeofStorage ≤ 2 ^ 63

/-- The allocator's state, and the alignment that was last recorded for the allocation. -/
structure World where
  st : State
  alignment : Option ℕ

/-- `al` has just been produced by a request to `doMalloc` or `memalignNoStats`. -/
inductive Produced (cfg : Config) (al : Allocation) : World → Prop
  | malloc {k : Kernel cfg} {t : Tid} {size : ℕ} {s s' : State} : size < 2 ^ 64 →
      Obtained k t size s al.block al.len al.origin → doMalloc k t size s = .ok (some al.user, s') →
      s'.heapMaster.pageSize = cfg.pageSize → Produced cfg al ⟨s', none⟩
  | memalign {k : Kernel cfg} {t : Tid} {alignment size : ℕ} {s s' : State} : size < 2 ^ 64 →
      alignment.isPowerOfTwo → alignment < 2 ^ 64 → libAlign < alignment → size ≠ 0 →
      Obtained k t (alignedSize alignment size) s al.block al.len al.origin →
      memalignNoStats k t alignment size s = .ok (some al.user, s') →
      s'.heapMaster.pageSize = cfg.pageSize → Produced cfg al ⟨s', some alignment⟩

inductive Edit
  /-- `calloc` and `cmemalign` -/
  | zeroFill (size : ℕ)
  /-- `resize` and `aligned_resize` -/
  | resizeInPlace (size : ℕ)
  /-- `realloc` and `aligned_realloc` -/
  | reallocInPlace (nsize : ℕ)
  /-- `aligned_resize` and `aligned_realloc`, for an address with a fake header -/
  | updateAlignment (nalignment : ℕ)
  | usableSize
  /-- anything that leaves the allocation's headers alone -/
  | other

/-- An edit finds the header the way the routine does. -/
def Step (al : Allocation) (w : World) : Edit → World → Prop
  | .zeroFill size, w' => w'.st =
      zeroFill al.user (fakeHeader w.st.mem (headerAddr al.user)).1 size w.st ∧
        w'.alignment = w.alignment
  | .resizeInPlace size, w' => size < 2 ^ 64 ∧
      w'.st = resizeInPlace (headers w.st al.user).header size w.st ∧ w'.alignment = w.alignment
  | .reallocInPlace nsize, w' => nsize < 2 ^ 64 ∧
      w'.st = reallocInPlace al.user (headers w.st al.user).header nsize w.st ∧
        w'.alignment = w.alignment
  | .updateAlignment nalignment, w' => nalignment.isPowerOfTwo ∧ nalignment < 2 ^ 64 ∧
      alignmentBit (w.st.mem.word (headerAddr al.user)) ≠ 0 ∧
      w'.st = updateAlignment al.user (max nalignment libAlign) w.st ∧
        w'.alignment = some (max nalignment libAlign)
  | .usableSize, w' => w'.st = (mallocUsableSize (some al.user) w.st).2 ∧ w'.alignment = w.alignment
  | .other, w' => Set.EqOn w'.st.mem w.st.mem (Set.Ico al.block (al.block + 16)) ∧
      Set.EqOn w'.st.mem w.st.mem (Set.Ico (headerAddr al.user) al.user) ∧
      w'.st.heapMaster.pageSize = w.st.heapMaster.pageSize ∧ w'.alignment = w.alignment

def system (cfg : Config) (al : Allocation) : TransitionSystem World Edit where
  init := Produced cfg al
  step := Step al

/-- The headers record the allocation and the current alignment. -/
structure Inv (cfg : Config) (al : Allocation) (w : World) : Prop where
  page : w.st.heapMaster.pageSize = cfg.pageSize
  encodes : ∃ v, Encodes w.st.mem al.block al.len al.user v ∧ v.Taggable al.len ∧
    v.origin = al.origin ∧ v.alignment = w.alignment
  mapped : al.origin = .mapped → cfg.pageSize ∣ al.block ∧ al.len ≠ 0

variable {k : Kernel cfg} {t : Tid} {s s' : State} {al : Allocation} {w w' : World} {size : ℕ}

theorem bucket_taggable {n f : ℕ} (hf : 64 ∣ f ∧ f < 2 ^ 64) (hsize : size < 2 ^ 64) :
    View.Taggable ⟨.bucket f, false, size, none⟩ n :=
  ⟨(by decide : 8 ∣ 64).trans hf.1, hf.2, hsize, nofun, nofun⟩

theorem mapped_taggable {n : ℕ} (hdvd : 8 ∣ n) (hn : n < 2 ^ 64) (hsize : size < 2 ^ 64) :
    View.Taggable ⟨.mapped, false, size, none⟩ n :=
  ⟨hdvd, hn, hsize, nofun, nofun⟩

theorem mapped_dvd {v : ℕ} (hv : v < 2 ^ 64) : 8 ∣ ceiling v cfg.pageSize :=
  cfg.word_dvd_pageSize.trans
    (ceiling_dvd hv cfg.pageSize_pow2 cfg.pageSize_lt)

theorem doMalloc_encodes {b n user : ℕ} {origin : Origin} (hsize : size < 2 ^ 64)
    (haligned : ∀ f, origin = .bucket f → 64 ∣ f ∧ f < 2 ^ 64)
    (hobt : Obtained k t size s b n origin) (hm : doMalloc k t size s = .ok (some user, s'))
    (hpage : s'.heapMaster.pageSize = cfg.pageSize) :
    user = b + sizeofStorage ∧ Encodes s'.mem b n user ⟨origin, false, size, none⟩ ∧
      View.Taggable ⟨origin, false, size, none⟩ n ∧
      (origin = .mapped → cfg.pageSize ∣ b ∧ n ≠ 0) := by
  obtain ⟨s₁, hboot, hcases⟩ := doMalloc_cases hm
  cases hobt with
  | bucket hboot' hsmall hblock' =>
    cases hboot.symm.trans hboot'
    rcases hcases with ⟨_, hnone, _⟩ | ⟨_, block, s₂, huser, hblock, rfl⟩ | ⟨hlarge, _⟩
    · cases hnone
    · cases hblock.symm.trans hblock'
      cases huser
      have hv := bucket_taggable (n := (s₁.freeHeader (requestBucket t size s₁)).blockSize)
        (haligned _ rfl) hsize
      exact ⟨rfl, setHeader_encodes_bucket hv, hv, nofun⟩
    · exact absurd hsmall (not_lt.mpr hlarge)
  | mapped hboot' hlarge hn hmap =>
    cases hboot.symm.trans hboot'
    rcases hcases with ⟨hsmall, _⟩ | ⟨hsmall, _⟩ | ⟨_, hlarge'⟩
    · exact absurd hsmall (not_lt.mpr hlarge)
    · exact absurd hsmall (not_lt.mpr hlarge)
    · rw [mapLarge, ← hn, hmap] at hlarge'
      cases hlarge'
      obtain ⟨rfl, hfresh⟩ := State.mmap_ok hmap
      have hdvd : 8 ∣ n := by
        rw [hn, show s₁.heapMaster.pageSize = cfg.pageSize from hpage]
        exact mapped_dvd (Nat.mod_lt _ (by decide))
      have hlt : n < 2 ^ 64 := hn ▸ Nat.mod_lt _ (by decide)
      have hv := mapped_taggable hdvd hlt hsize
      exact ⟨rfl, setHeader_encodes_mapped hdvd hv, hv, fun _ => ⟨hfresh.aligned, hfresh.len_pos.ne'⟩⟩

theorem two_pow_le {a : ℕ} (ha : a.isPowerOfTwo) (hlt : a < 2 ^ 64) : a ≤ 2 ^ 63 := by
  obtain ⟨e, rfl⟩ := ha
  exact Nat.pow_le_pow_right (by decide)
    (Nat.lt_succ_iff.mp ((Nat.pow_lt_pow_iff_right Nat.one_lt_two).mp hlt))

theorem produced_inv (h : Produced cfg al w) : Inv cfg al w := by
  cases h with
  | malloc hsize hobt hm hpage =>
    obtain ⟨_, henc, hv, hmapped⟩ := doMalloc_encodes hsize al.aligned hobt hm hpage
    exact ⟨hpage, ⟨_, henc, hv, rfl, rfl⟩, hmapped⟩
  | memalign hsize hpow hlt hbig hne hobt hm hpage =>
    rcases memalignNoStats_cases hm with ⟨hplain, _⟩ | ⟨_, _, ⟨hnone, _⟩ | ⟨addr, s₁, hmalloc, huser, rfl⟩⟩
    · exact absurd hplain (not_or.mpr ⟨not_le.mpr hbig, hne⟩)
    · cases hnone
    · obtain ⟨haddr, henc, hv, hmapped⟩ :=
        doMalloc_encodes (Nat.mod_lt _ (by decide)) al.aligned hobt hmalloc hpage
      have hinUser := al.inUser
      have hle := two_pow_le hpow hlt
      rw [sizeofStorage] at haddr hinUser
      rw [libAlign] at hbig
      have hdvd := word_dvd_of_le hpow hbig.le
      obtain ⟨hceil, _⟩ := ceiling_bounds hpow
        (show addr + sizeofStorage + _ ≤ 2 ^ 64 by rw [sizeofStorage]; omega)
      have henc' := setFakeHeader_encodes henc rfl hceil (Nat.mod_lt _ (by decide)) hdvd hlt hsize
      rw [← Option.some.inj huser] at henc' ⊢
      exact ⟨hpage, ⟨_, henc', (hv.withSize hsize).withAlignment hdvd hlt, rfl, rfl⟩, hmapped⟩

/-! ### Edits -/

theorem Inv.header (h : Inv cfg al w) : (headers w.st al.user).header = al.block ∧
    (fakeHeader w.st.mem (headerAddr al.user)).1 = al.block := by
  obtain ⟨v, henc, hv, _, _⟩ := h.encodes
  rw [henc.headers hv, henc.fakeHeader hv]
  exact ⟨rfl, rfl⟩

theorem encodes_fill {m : Memory} {b n u a len : ℕ} {v : View} {c : UInt8} (h : Encodes m b n u v)
    (ha : u ≤ a) : Encodes (m.fill a len c) b n u v := by
  obtain ⟨hhead, hfake⟩ := h.user_after
  refine h.congr (Memory.fill_eqOn fun x hx => ?_) fun hs => Memory.fill_eqOn fun x hx => ?_
  · have := hx.2
    omega
  · have := hx.2
    have := hfake hs
    omega

theorem step_inv {l : Edit} (h : Inv cfg al w) (hs : Step al w l w') : Inv cfg al w' := by
  obtain ⟨hheader, hfake⟩ := h.header
  obtain ⟨v, henc, hv, horigin, halign⟩ := h.encodes
  obtain ⟨st', alignment'⟩ := w'
  cases l with
  | zeroFill size =>
    obtain ⟨rfl, rfl⟩ := hs
    rw [hfake]
    refine ⟨h.page, ⟨_, ?_, hv.withZeroFill true, horigin, halign⟩, h.mapped⟩
    unfold zeroFill
    dsimp only
    split
    · exact (encodes_fill henc le_rfl).markZeroFilled hv
    · exact henc.markZeroFilled hv
  | resizeInPlace size =>
    obtain ⟨hsize, rfl, rfl⟩ := hs
    rw [hheader]
    exact ⟨h.page, ⟨_, (henc.clearZeroFill hv).setSize hsize, (hv.withZeroFill false).withSize hsize,
      horigin, halign⟩, h.mapped⟩
  | reallocInPlace nsize =>
    obtain ⟨hsize, rfl, rfl⟩ := hs
    rw [hheader, reallocInPlace_eq]
    have hset := henc.setSize hsize
    refine ⟨h.page, ⟨_, ?_, hv.withSize hsize, horigin, halign⟩, h.mapped⟩
    unfold regrown
    dsimp only
    split
    · exact encodes_fill hset (Nat.le_add_right _ _)
    · exact hset
  | updateAlignment nalignment =>
    obtain ⟨hpow, hlt, hbit, rfl, rfl⟩ := hs
    have hdvd : 8 ∣ max nalignment libAlign := by
      rcases le_total nalignment libAlign with hle | hle
      · rw [max_eq_right hle]
        decide
      · rw [max_eq_left hle]
        exact word_dvd_of_le hpow hle
    have hmax : max nalignment libAlign < 2 ^ 64 := by rw [libAlign]; omega
    cases ha : v.alignment with
    | none =>
      rw [henc.plain ha, headerAddr, Nat.add_sub_cancel, henc.home] at hbit
      exact absurd (View.alignmentBit hv) hbit
    | some a =>
      exact ⟨h.page, ⟨_, henc.setAlignment ha hdvd hmax, hv.withAlignment hdvd hmax, horigin, rfl⟩,
        h.mapped⟩
  | usableSize =>
    obtain ⟨rfl, rfl⟩ := hs
    have hsize : dataSize (headers w.st al.user).size al.user al.block < 2 ^ 64 :=
      Nat.mod_lt _ (by decide)
    refine ⟨h.page, ⟨_, ?_, hv.withSize hsize, horigin, halign⟩, h.mapped⟩
    simp only [mallocUsableSize]
    rw [hheader]
    exact henc.setSize hsize
  | other =>
    obtain ⟨hhead, hfakeWords, hpage, rfl⟩ := hs
    refine ⟨hpage.trans h.page, ⟨v, henc.congr hhead fun hsome => ?_, hv, horigin, halign⟩, h.mapped⟩
    rw [henc.user_after.2 hsome]
    exact hfakeWords

theorem reachable_inv (h : (system cfg al).Reachable w) : Inv cfg al w :=
  h.invariant (fun _ hw => produced_inv hw) fun _ _ _ hw hs => step_inv hw hs

/-- After any edits, `headers` finds the block, what it came from and its alignment, and freeing it puts it back on that bucket or unmaps exactly what was mapped. -/
theorem headers_exact (h : (system cfg al).Reachable w) :
    (headers w.st al.user).header = al.block ∧
    (headers w.st al.user).alignment = w.alignment.getD libAlign ∧
    (∀ f, al.origin = .bucket f → (headers w.st al.user).mapped = false ∧
      (headers w.st al.user).freeHead = f ∧
      (headers w.st al.user).size = (w.st.freeHeader f).blockSize ∧
      ∀ t, doFree t al.user w.st = .ok (w.st.push
        (if w.st.heapManager t = (w.st.freeHeader f).homeManager then .freeList else .remoteList)
        f al.block)) ∧
    (al.origin = .mapped → (headers w.st al.user).mapped = true ∧
      (headers w.st al.user).size = al.len ∧
      ∀ t, doFree t al.user w.st = .ok (w.st.munmap al.block al.len)) := by
  have hinv := reachable_inv h
  obtain ⟨v, henc, hv, horigin, halign⟩ := hinv.encodes
  have hheaders := henc.headers hv
  rw [horigin, halign] at hheaders
  refine ⟨by rw [hheaders], by rw [hheaders], fun f hf => ?_, fun hf => ?_⟩
  · rw [hf] at hheaders
    refine ⟨by rw [hheaders]; rfl, by rw [hheaders]; rfl, by rw [hheaders]; rfl, fun t => ?_⟩
    rw [doFree, hheaders]
    rfl
  · have hheader : (headers w.st al.user).mapped = true ∧ (headers w.st al.user).header = al.block ∧
        (headers w.st al.user).size = al.len := by
      rw [hheaders, hf]
      exact ⟨rfl, rfl, rfl⟩
    obtain ⟨hmap, hblock, hlen⟩ := hheader
    obtain ⟨hdvd, hne⟩ := hinv.mapped hf
    refine ⟨hmap, hlen, fun t => ?_⟩
    rw [doFree]
    dsimp only
    rw [if_neg (not_not.mpr hmap), unmapBlock_granting, hblock, hlen, if_pos ⟨hinv.page ▸ hdvd, hne⟩]

/-! ### A run -/

private def sampleStart : State := startState defaultConfig (.above defaultConfig)

private def sampleAllocation : Allocation where
  block := 134488064
  len := 192
  origin := .bucket 4992
  user := 134488128
  aligned _ h := by
    cases h
    decide
  inUser := by decide

private def sampleAligned : State :=
  ((memalignNoStats (.above defaultConfig) 0 64 100 sampleStart).getD (none, State.unbooted)).2

private def sampleMarked : State :=
  zeroFill 134488128 (fakeHeader sampleAligned.mem (headerAddr 134488128)).1 100 sampleAligned

private def sampleBlock : State :=
  ((allocateBlock (.above defaultConfig) 0 (requestBucket 0 164 sampleStart) sampleStart).getD
    (none, State.unbooted)).2

private theorem sampleAligned_produced :
    Produced defaultConfig sampleAllocation ⟨sampleAligned, some 64⟩ := by
  have hrequest : requestBucket 0 164 sampleStart = 4992 := by decide +kernel
  have hlen : (sampleStart.freeHeader 4992).blockSize = 192 := by decide
  have hsize : alignedSize 64 100 = 164 := by decide
  have hobt : Obtained (.above defaultConfig) 0 (alignedSize 64 100) sampleStart 134488064
      (sampleStart.freeHeader (requestBucket 0 164 sampleStart)).blockSize
      (.bucket (requestBucket 0 164 sampleStart)) := by
    have hboot : bootHeapManager (.above defaultConfig) 0 sampleStart = .ok sampleStart :=
      if_neg (by decide)
    rw [hsize]
    have hsmall : 164 < sampleStart.heapMaster.mmapStart := by decide
    have hblock : allocateBlock (.above defaultConfig) 0 (requestBucket 0 164 sampleStart) sampleStart =
        .ok (some 134488064, sampleBlock) := Result.eq_ok_pair (by decide +kernel) (by decide +kernel)
    exact .bucket hboot hsmall hblock
  rw [hrequest, hlen] at hobt
  have hm : memalignNoStats (.above defaultConfig) 0 64 100 sampleStart =
      .ok (some 134488128, sampleAligned) :=
    Result.eq_ok_pair (by decide +kernel) (by decide +kernel)
  have hpage : sampleAligned.heapMaster.pageSize = defaultConfig.pageSize := by decide +kernel
  have hpow : Nat.isPowerOfTwo 64 := ⟨6, rfl⟩
  have hbig : libAlign < 64 := by decide
  have hlt : 64 < 2 ^ 64 ∧ 100 < 2 ^ 64 := by decide
  exact .memalign hlt.2 hpow hlt.1 hbig (Nat.succ_ne_zero 99) hobt hm hpage

/-- Aligned, zero filled, from a bucket: the block and its bucket are found behind the fake header. -/
theorem headers_exact_cmemalign :
    ∃ w, (system defaultConfig sampleAllocation).Reachable w ∧
      (headers w.st 134488128).header = 134488064 ∧
      (headers w.st 134488128).alignment = (some 64).getD libAlign := by
  have hreach : (system defaultConfig sampleAllocation).Reachable ⟨sampleMarked, some 64⟩ :=
    .next (.start sampleAligned_produced) (l := .zeroFill 100) ⟨rfl, rfl⟩
  obtain ⟨hheader, halign, _⟩ := headers_exact hreach
  exact ⟨_, hreach, hheader, halign⟩

end Llheap.Decoding
