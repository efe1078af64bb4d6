import Llheap.Proof.Separation

/-!
# Aligned allocation

`memalignNoStats` asks `doMalloc` for the alignment on top of the size, moves the program's address up to a multiple of the alignment, and puts a fake header in front of it. The block that `doMalloc` grants may start at any multiple of 16: the address, the fake header and the data fit in every case, and the headers lead back to the block.
-/

namespace Llheap

variable {cfg : Config} {main : Tid} {k : Kernel cfg} {t : Tid} {s s' : State}
  {status : Tid → Status} {A : Arena Tag} {idle : List ℕ} {alignment size addr user b n : ℕ}
  {origin : Origin}

/-- `size` bytes are granted at `addr`, on a block of `n` bytes whose header names its bucket or, for whole pages, its length. -/
structure Granted (cfg : Config) (s : State) (addr size n : ℕ) (origin : Origin) : Prop where
  align_dvd : libAlign ∣ addr
  header_le : sizeofStorage ≤ addr
  room : addr + size ≤ headerAddr addr + n
  inUser : headerAddr addr + n ≤ 2 ^ 63
  bucket : ∀ f, origin = .bucket f → (8 ∣ f ∧ f < 2 ^ 64) ∧ s.mem.word (headerAddr addr) = f ∧
    (s.freeHeader f).blockSize = n
  mapped : origin = .mapped → s.mem.word (headerAddr addr) = markMmappedBit n ∧
    s.heapMaster.pageSize = cfg.pageSize ∧ cfg.pageSize ∣ headerAddr addr ∧ cfg.pageSize ∣ n

/-- Freeing gives the block back to a list of its bucket, or to the kernel. -/
def Releases (s s' : State) (b n : ℕ) : Origin → Prop
  | .bucket f => ∃ l, s' = s.push l f b
  | .mapped => s' = s.munmap b n

/-- The block `[b, b + n)` holds `size` bytes at the aligned address `user`, and can be found from it. -/
structure AlignedAt (s : State) (b n user alignment size : ℕ) (origin : Origin) : Prop where
  alignment_dvd : alignment ∣ user
  align_dvd : libAlign ∣ user
  start_le : b + sizeofStorage ≤ user
  end_le : user + size ≤ b + n
  /-- the fake header is between the real one and the data -/
  fake : libAlign < alignment → b + sizeofStorage ≤ headerAddr user ∧
    headerAddr user + sizeofStorage = user ∧ alignmentBit (s.mem.word (headerAddr user)) ≠ 0 ∧
    realHeader s.mem (headerAddr user) = b
  mallocAlignment : mallocAlignment s (some user) = max alignment libAlign
  requestSize : mallocRequestSize s (some user) = size
  usableSize : size ≤ (mallocUsableSize (some user) s).1 ∧
    user + (mallocUsableSize (some user) s).1 = b + n
  free : ∀ t, ∃ s', free t (some user) s = .ok s' ∧ Releases s s' b n origin

/-! ### The granted block -/

theorem doMalloc_size (hsize : size < 2 ^ 64) (h : doMalloc k t size s = .ok (some addr, s')) :
    s'.mem.word (sizeField (headerAddr addr)) = size := by
  have hword : ∀ {block home : ℕ} {s₁ : State}, addr = block + sizeofStorage →
      (setHeader block home size s₁).mem.word (sizeField (headerAddr addr)) = size := by
    intro block home s₁ haddr
    rw [haddr, headerAddr, Nat.add_sub_cancel]
    exact Memory.word_setWord_self hsize
  obtain ⟨s₁, _, ⟨_, hnone, _⟩ | ⟨_, block, s₂, haddr, _, rfl⟩ | ⟨_, hmap⟩⟩ := doMalloc_cases h
  · cases hnone
  · exact hword (Option.some.inj haddr)
  · rcases mapLarge_cases hmap with ⟨hnone, _⟩ | ⟨a, haddr, _, rfl⟩
    · cases hnone
    · exact hword (Option.some.inj haddr)

theorem Granted.taggable {asked : ℕ} (hg : Granted cfg s addr asked n origin) (hsize : size < 2 ^ 64) :
    View.Taggable ⟨origin, false, size, none⟩ n := by
  cases origin with
  | bucket f => exact ⟨(hg.bucket f rfl).1.1, (hg.bucket f rfl).1.2, hsize, by simp, by simp⟩
  | mapped =>
    have hpage := cfg.word_dvd_pageSize
    have hend := hg.inUser
    refine ⟨hpage.trans (hg.mapped rfl).2.2.2, ?_, hsize, by simp, by simp⟩
    change n < 2 ^ 64
    omega

theorem Granted.encodes {asked : ℕ} (hg : Granted cfg s addr asked n origin) (hsize : size < 2 ^ 64)
    (hword : s.mem.word (sizeField (headerAddr addr)) = size) :
    Encodes s.mem (headerAddr addr) n addr ⟨origin, false, size, none⟩ := by
  have hle := hg.header_le
  have haddr : addr = headerAddr addr + sizeofStorage := (Nat.sub_add_cancel hle).symm
  have hv := hg.taggable hsize
  refine ⟨?_, hword, fun _ => haddr, by simp⟩
  cases origin with
  | bucket f => exact (hg.bucket f rfl).2.1
  | mapped => exact (hg.mapped rfl).1.trans (markMmappedBit_eq hv.word_dvd size)

/-! ### The aligned address -/

theorem Encodes.releases {v : View} (h : Encodes s.mem b n user v) (hv : v.Taggable n)
    (hmapped : v.origin = .mapped → s.heapMaster.pageSize ∣ b ∧ n ≠ 0) (t : Tid) :
    ∃ s', free t (some user) s = .ok s' ∧ Releases s s' b n v.origin := by
  rw [free, doFree, h.headers hv]
  dsimp only
  cases horigin : v.origin with
  | bucket f => exact ⟨_, rfl, _, rfl⟩
  | mapped =>
    refine ⟨s.munmap b n, ?_, rfl⟩
    simp [unmapBlock_granting, hmapped horigin]

theorem Encodes.mallocUsableSize {v : View} (h : Encodes s.mem b n user v) (hv : v.Taggable n)
    (hbucket : ∀ f, v.origin = .bucket f → (s.freeHeader f).blockSize = n) (hle : user ≤ b + n)
    (hend : b + n ≤ 2 ^ 63) : user + (Llheap.mallocUsableSize (some user) s).1 = b + n := by
  have hafter := h.user_after.1
  have hsize : (Llheap.headers s user).size = n := by
    rw [h.headers hv]
    dsimp only
    split
    · rfl
    · next hnot =>
      cases horigin : v.origin with
      | bucket f => exact hbucket f horigin
      | mapped => exact absurd horigin hnot
  rw [Llheap.mallocUsableSize]
  dsimp only
  rw [hsize, h.headers hv]
  dsimp only
  rw [dataSize, sub64_of_le (by omega) (by omega)]
  omega

theorem Encodes.alignedAt {v : View} (h : Encodes s.mem b n user v) (hv : v.Taggable n)
    (hend : b + n ≤ 2 ^ 63) (hroom : user + v.size ≤ b + n)
    (hbucket : ∀ f, v.origin = .bucket f → (s.freeHeader f).blockSize = n)
    (hmapped : v.origin = .mapped → s.heapMaster.pageSize ∣ b ∧ n ≠ 0)
    (hdvd : alignment ∣ user) (hdvd16 : libAlign ∣ user)
    (hrecord : v.alignment.getD libAlign = max alignment libAlign)
    (hfake : libAlign < alignment → v.alignment.isSome) :
    AlignedAt s b n user alignment v.size v.origin where
  alignment_dvd := hdvd
  align_dvd := hdvd16
  start_le := h.user_after.1
  end_le := hroom
  fake hlt := by
    obtain ⟨a, ha⟩ := Option.isSome_iff_exists.mp (hfake hlt)
    obtain ⟨hlow, _, hoffset⟩ := h.fake a ha
    have hafter := h.user_after.2 (hfake hlt)
    have hbit : alignmentBit (s.mem.word (headerAddr user)) ≠ 0 := by
      intro hzero
      have hnone := (h.fakeWord hv).1.mp hzero
      rw [ha] at hnone
      cases hnone
    simp only [sizeofStorage] at hlow ⊢
    refine ⟨by omega, hafter, hbit, ?_⟩
    rw [realHeader, hoffset]
    omega
  mallocAlignment := (h.mallocAlignment hv).trans hrecord
  requestSize := h.mallocRequestSize hv
  usableSize := by
    have huse := h.mallocUsableSize hv hbucket (by omega) hend
    exact ⟨by omega, huse⟩
  free t := h.releases hv hmapped t

/-- The alignment on top of the size is just enough: for every residue of the block's address the aligned address is behind both headers and the data ends inside the block. -/
theorem memalignNoStats_aligned (hpow : alignment.isPowerOfTwo) (hpos : 0 < size)
    (hwrap : size + alignment < 2 ^ 64) {s₁ : State}
    (hm : doMalloc k t (memalignRequest alignment size) s = .ok (some addr, s₁))
    (hg : Granted cfg s₁ addr (memalignRequest alignment size) n origin) :
    ∃ user s', memalignNoStats k t alignment size s = .ok (some user, s') ∧
      AlignedAt s' (headerAddr addr) n user alignment size origin := by
  have hend := hg.inUser
  have hroom := hg.room
  have hmapped : origin = .mapped → s₁.heapMaster.pageSize ∣ headerAddr addr ∧ n ≠ 0 := by
    intro horigin
    obtain ⟨_, hpage, hbase, _⟩ := hg.mapped horigin
    have hle := hg.header_le
    rw [headerAddr, sizeofStorage] at *
    exact ⟨hpage ▸ hbase, by omega⟩
  have hbucket : ∀ f, origin = .bucket f → (s₁.freeHeader f).blockSize = n :=
    fun f hf => (hg.bucket f hf).2.2
  by_cases hplain : alignment ≤ libAlign ∨ size = 0
  · have hsmall : alignment ≤ libAlign := hplain.resolve_right hpos.ne'
    rw [memalignRequest, if_pos hplain] at hm hg hroom
    have henc := hg.encodes (by omega) (doMalloc_size (by omega) hm)
    refine ⟨addr, s₁, ?_, ?_⟩
    · rw [memalignNoStats, if_pos hplain]
      exact hm
    · exact henc.alignedAt (hg.taggable (by omega)) hend hroom hbucket hmapped
        ((Rounding.dvd_of_isPowerOfTwo hpow ⟨4, rfl⟩ hsmall).trans hg.align_dvd) hg.align_dvd (max_eq_right hsmall).symm
        fun hbig => absurd hsmall (not_le.mpr hbig)
  · have hbig : libAlign < alignment := not_le.mp fun hle => hplain (.inl hle)
    rw [memalignRequest, if_neg hplain] at hm hg hroom
    have hrequest : size + (alignment - libAlign + sizeofStorage) = size + alignment := by
      rw [libAlign] at *
      rw [sizeofStorage]
      omega
    rw [hrequest] at hm hg hroom
    have henc := hg.encodes hwrap (doMalloc_size hwrap hm)
    have hle := hg.header_le
    have h16 := hg.align_dvd
    have halign16 : libAlign ∣ alignment := align_dvd_of_le hpow hbig.le
    have hplus : headerAddr addr + sizeofStorage = addr := Nat.sub_add_cancel hle
    rw [sizeofStorage] at hplus
    obtain ⟨hlow, hceil⟩ := ceiling_bounds (v := addr + sizeofStorage) hpow (by rw [sizeofStorage]; omega)
    have hdvd : alignment ∣ ceiling (addr + sizeofStorage) alignment :=
      ceiling_dvd (by rw [sizeofStorage]; omega) hpow (by omega)
    have hrun : memalignNoStats k t alignment size s =
        .ok (some (ceiling (addr + sizeofStorage) alignment),
          setFakeHeader addr (ceiling (addr + sizeofStorage) alignment) alignment size s₁) := by
      rw [memalignNoStats, if_neg hplain]
      dsimp only
      rw [hrequest, Nat.mod_eq_of_lt hwrap, hm]
      rfl
    refine ⟨_, _, hrun, ?_⟩
    have hdvd16 := halign16.trans hdvd
    generalize ceiling (addr + sizeofStorage) alignment = user at *
    rw [libAlign] at h16 halign16 hdvd16 hbig
    rw [sizeofStorage] at hlow hceil
    -- both addresses are multiples of 16, so the slack covers the way up
    have huser : user ≤ addr + alignment := by omega
    have h8 : 8 ∣ alignment := by omega
    have halign : alignment < 2 ^ 64 := by omega
    have hsize : size < 2 ^ 64 := by omega
    have hnew := setFakeHeader_encodes henc rfl hlow (by omega) h8 halign hsize
    have hv := ((hg.taggable hwrap).withSize hsize).withAlignment h8 halign
    exact hnew.alignedAt hv hend (by dsimp only; omega) hbucket hmapped hdvd hdvd16
      (max_eq_left hbig.le).symm fun _ => rfl

private def granted : State :=
  ((doMalloc (.above defaultConfig) 0 356 Separation.World.booted.st).getD (none, State.unbooted)).2

/-- Thread 0 asks for 100 bytes on a multiple of 256 and frees them. -/
theorem memalignNoStats_aligned_default : ∃ user s' s'',
    memalignNoStats (.above defaultConfig) 0 256 100 Separation.World.booted.st = .ok (some user, s') ∧
      256 ∣ user ∧ mallocRequestSize s' (some user) = 100 ∧ free 0 (some user) s' = .ok s'' := by
  have hrun : (doMalloc (.above defaultConfig) 0 356 Separation.World.booted.st).isOk = true := by
    decide +kernel
  have hm : doMalloc (.above defaultConfig) 0 (memalignRequest 256 100) Separation.World.booted.st =
      .ok (some 134488080, granted) := Result.eq_ok_pair hrun (by decide +kernel)
  have hbucket : (8 ∣ 5504 ∧ 5504 < 2 ^ 64) ∧
      granted.mem.word (headerAddr 134488080) = 5504 ∧ (granted.freeHeader 5504).blockSize = 384 := by
    decide +kernel
  have hgranted : Granted defaultConfig granted 134488080 (memalignRequest 256 100) 384 (.bucket 5504) :=
    ⟨by decide, by decide, by decide, by decide, fun f hf => Origin.bucket.inj hf ▸ hbucket, by simp⟩
  obtain ⟨user, s', hok, hat⟩ := memalignNoStats_aligned ⟨8, rfl⟩ (by decide) (by decide) hm hgranted
  obtain ⟨s'', hfree, _⟩ := hat.free 0
  exact ⟨user, s', s'', hok, hat.alignment_dvd, hat.requestSize, hfree⟩

/-! ### What is granted -/

/-- A request that gets a bucket or a mapping that fits is granted: the headers and the arena say so. -/
theorem Refines.granted (hr : Refines cfg main s status A idle) (hmay : MayCall main s status t)
    (hsize : size < 2 ^ 64) (hfits : Fits s.heapMaster size)
    (h : Llheap.doMalloc k t size s = .ok (some addr, s')) :
    ∃ n origin, Granted cfg s' addr size n origin := by
  obtain ⟨A', idle', hr', _, _, b, n, origin, _, hlive, _⟩ := hr.doMalloc hmay hsize (fun _ => hfits) h
  obtain ⟨hblock, hb16, hend⟩ := hr'.liveBlock (b := b) (by rw [hlive, Function.update_self])
  have haddr : addr = b + sizeofStorage := hblock.encodes.plain rfl
  have hroom := hblock.room
  have hhome := hblock.encodes.home
  have hb : headerAddr addr = b := by rw [haddr, headerAddr, Nat.add_sub_cancel]
  dsimp only at hroom hend
  refine ⟨n, origin, ?_, ?_, by rw [hb]; exact hroom, by rw [hb]; exact hend, fun f hf => ?_, fun hm => ?_⟩
  · rw [haddr, libAlign, sizeofStorage]
    omega
  · rw [haddr]
    exact Nat.le_add_left ..
  · subst hf
    obtain ⟨h, hbucket⟩ := hblock.bucket f rfl
    exact ⟨⟨hblock.taggable.word_dvd, hblock.taggable.word_lt⟩, hb ▸ hhome,
      (hr'.blocks.bucket h f _ hbucket).blockSize⟩
  · subst hm
    obtain ⟨hbase, hlen⟩ := hblock.mapped rfl
    rw [hb]
    exact ⟨hhome.trans (markMmappedBit_eq hblock.taggable.word_dvd size).symm, hr'.blocks.page, hbase, hlen⟩

end Llheap
