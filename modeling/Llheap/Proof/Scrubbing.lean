import Llheap.Model.Debug
import Llheap.Proof.Accounts
import Llheap.Proof.Tenants

/-!
# What the debug build does to storage

The primitives of the debug build against those of the release build: a successful request is the same request with some contents overwritten, a live address passes every check, and freeing overwrites the contents before the block goes on its list. A fake header is overwritten whole or not at all.
-/

namespace Llheap.Debug

variable {cfg : Config} {main : Tid} {k : Kernel cfg} {t : Tid} {s s' : State} {status : Tid → Status}
  {A : Arena Tag} {idle : List ℕ} {a b n u f h size : ℕ} {v : View} {r : Option ℕ} {m : Memory} {name : String}

theorem bind_eq_ok {α β : Type} {x : Except Abort α} {g : α → Except Abort β} {y : β} :
    (x >>= g) = .ok y ↔ ∃ z, x = .ok z ∧ g z = .ok y := by
  cases x with
  | error e => simp [bind, Except.bind]
  | ok z => simp [bind, Except.bind]

@[simp] theorem shared_eq_ok {α : Type} {x : Result α} {y : α} : shared x = .ok y ↔ x = .ok y := by
  cases x with
  | error e => simp [shared, Except.mapError]
  | ok z => simp [shared, Except.mapError]

theorem pow2_iff (ha : a ≠ 0) : pow2 a ↔ a.isPowerOfTwo := Nat.and_sub_one_eq_zero_iff_isPowerOfTwo ha

/-! ### Overwritten words -/

/-- The word of eight scrubbed bytes. -/
def scrubbed : ℕ := 2 ^ 64 - 1

theorem word_eq_scrubbed (h : ∀ x, a ≤ x → x < a + 8 → m x = SCRUB) : m.word a = scrubbed := by
  have hone : Memory.word (fun _ => SCRUB) a = scrubbed := by
    simp [Memory.word, Memory.load, SCRUB, scrubbed]
  rw [← hone]
  exact Memory.word_congr fun x hx => h x hx.1 hx.2

theorem setWord_fill {c : UInt8} {w : ℕ} (h : a + 8 ≤ b ∨ b + n ≤ a) :
    (m.fill b n c).setWord a w = (m.setWord a w).fill b n c := by
  funext x
  by_cases hx : b ≤ x ∧ x < b + n
  · rw [Memory.setWord_apply_of_outside (by omega), Memory.fill_apply_of_inside hx, Memory.fill_apply_of_inside hx]
  · have hout : x < b ∨ b + n ≤ x := by omega
    rw [Memory.fill_apply_of_outside hout, Memory.setWord, Memory.store, Memory.setWord, Memory.store,
      Memory.fill_apply_of_outside hout]

/-- The bytes of the block `[b, b + n)` that freeing overwrites. -/
def Scrubs (b n x : ℕ) : Prop :=
  b + sizeofStorage ≤ x ∧ x < b + n ∧
    (n ≤ sizeofStorage + scrubSize * 2 ∨ x < b + sizeofStorage + scrubSize ∨ b + n ≤ x + scrubSize)

theorem scrubFreed_mem (hlen : 2 * sizeofStorage ≤ n) (hend : b + n ≤ 2 ^ 63) : (scrubFreed b n s).mem =
    if n - sizeofStorage ≤ scrubSize * 2 then s.mem.fill (b + sizeofStorage) (n - sizeofStorage) SCRUB
    else (s.mem.fill (b + sizeofStorage) scrubSize SCRUB).fill (b + n - scrubSize) scrubSize SCRUB := by
  have hdsize : sub64 n sizeofStorage = n - sizeofStorage := sub64_of_le (by omega) (by omega)
  rw [scrubFreed, hdsize]
  dsimp only
  by_cases hshort : n - sizeofStorage ≤ scrubSize * 2
  · rw [if_pos hshort, if_pos hshort]
  · have hback : sub64 (b + sizeofStorage + (n - sizeofStorage)) scrubSize = b + n - scrubSize := by
      simp only [scrubSize, sizeofStorage] at *
      rw [sub64_of_le (by omega) (by omega)]
      omega
    rw [if_neg hshort, if_neg hshort, hback]

theorem scrubFreed_of_scrubs {x : ℕ} (hlen : 2 * sizeofStorage ≤ n) (hend : b + n ≤ 2 ^ 63) (hx : Scrubs b n x) :
    (scrubFreed b n s).mem x = SCRUB := by
  rw [scrubFreed_mem hlen hend]
  obtain ⟨hlow, hhigh, hwhere⟩ := hx
  split
  · exact Memory.fill_apply_of_inside (by omega)
  · simp only [scrubSize, sizeofStorage] at *
    by_cases hin : b + n - 128 ≤ x
    · exact Memory.fill_apply_of_inside (by omega)
    · rw [Memory.fill_apply_of_outside (by omega)]
      exact Memory.fill_apply_of_inside (by omega)

theorem scrubFreed_of_not_scrubs {x : ℕ} (hlen : 2 * sizeofStorage ≤ n) (hend : b + n ≤ 2 ^ 63)
    (hx : ¬ Scrubs b n x) : (scrubFreed b n s).mem x = s.mem x := by
  rw [scrubFreed_mem hlen hend]
  split <;> simp only [Scrubs, scrubSize, sizeofStorage] at *
  · exact Memory.fill_apply_of_outside (by omega)
  · rw [Memory.fill_apply_of_outside (by omega), Memory.fill_apply_of_outside (by omega)]

theorem scrubFreed_spec (hlen : 2 * sizeofStorage ≤ n) (hend : b + n ≤ 2 ^ 63) :
    ∃ mem, scrubFreed b n s = { s with mem := mem } ∧ (∀ x, Scrubs b n x → mem x = SCRUB) ∧
      ∀ x, ¬ Scrubs b n x → mem x = s.mem x := by
  refine ⟨(scrubFreed b n s).mem, ?_, fun x => scrubFreed_of_scrubs hlen hend, fun x =>
    scrubFreed_of_not_scrubs hlen hend⟩
  rw [scrubFreed]
  dsimp only
  by_cases hshort : sub64 n sizeofStorage ≤ scrubSize * 2
  · rw [if_pos hshort]
  · rw [if_neg hshort]

theorem scrubFreed_heapMaster : (scrubFreed b n s).heapMaster = s.heapMaster := by
  rw [scrubFreed]
  dsimp only
  by_cases hshort : sub64 n sizeofStorage ≤ scrubSize * 2
  · rw [if_pos hshort]
  · rw [if_neg hshort]

theorem scrubs_whole (hb : 16 ∣ b) (hn : 16 ∣ n) (ha : 16 ∣ a) (hin : b + sizeofStorage ≤ a) (hend : a + 16 ≤ b + n) :
    (∀ x, a ≤ x → x < a + 16 → Scrubs b n x) ∨ ∀ x, a ≤ x → x < a + 16 → ¬ Scrubs b n x := by
  simp only [Scrubs, sizeofStorage, scrubSize] at *
  by_cases hall : n ≤ 272 ∨ a < b + 144 ∨ b + n ≤ a + 128
  · exact .inl fun x hx hlt => by omega
  · exact .inr fun x hx hlt => by omega

/-! ### The check of a header -/

/-- What the debug build adds to `headers`. -/
theorem headers_eq (u : ℕ) : headers t name u s =
    let hd := Llheap.headers s u
    if hd.alignment < libAlign ∨ ¬ pow2 hd.alignment then .error (.badAlignment name u hd.alignment)
    else if hd.mapped then
      if u < s.heapMaster.sbrkStart ∨ s.heapMaster.sbrkEnd < u then .ok hd else .error .assertion
    else bucketHeaders t name u hd.header hd.freeHead hd.alignment s := by
  unfold headers Llheap.headers
  dsimp only
  split
  · have hplain : ¬ (libAlign < libAlign ∨ ¬ pow2 libAlign) := by decide
    rw [if_neg Bool.false_ne_true, if_neg hplain]
  · split
    · split <;> rfl
    · next hgood =>
      by_cases hmapped : mmappedBit (s.mem.word (fakeHeader s.mem (headerAddr u)).1) ≠ 0
      · rw [if_pos hmapped, if_pos hmapped, if_neg hgood, if_pos rfl]
      · rw [if_neg hmapped, if_neg hmapped, if_neg hgood, if_neg Bool.false_ne_true]

theorem IsBucketAt.of_isBucket {m : HeapMaster} (hf : IsBucket m h f n) : IsBucketAt m f := by
  obtain ⟨hh, i, hi, hfi, _⟩ := hf
  exact ⟨h, hh, i, hi, hfi⟩

theorem IsBucket.range {m : HeapMaster} (hf : IsBucket m h f n) :
    freeListsAddr h 0 ≤ f ∧ f < freeListsAddr h noBucketSizes := by
  obtain ⟨_, i, hi, rfl, _⟩ := hf
  simp only [freeListsAddr, sizeofFreeHeader, noBucketSizes] at *
  omega

/-- What the headers record is in order: an alignment that may be asked for, a size that the block holds. -/
structure Recorded (l : Live) : Prop where
  alignment : ∀ a ∈ l.view.alignment, a.isPowerOfTwo ∧ libAlign ≤ a ∧ a < 2 ^ 64
  size : l.view.size ≤ l.len

theorem Recorded.checked {l : Live} (h : Recorded l) :
    ¬ (l.view.alignment.getD libAlign < libAlign ∨ ¬ pow2 (l.view.alignment.getD libAlign)) := by
  cases ha : l.view.alignment with
  | none => decide
  | some a =>
    obtain ⟨hpow, hle, _⟩ := h.alignment a ha
    rw [Option.getD_some, not_or, not_not, not_lt]
    exact ⟨hle, (pow2_iff (Nat.pos_of_isPowerOfTwo hpow).ne').mpr hpow⟩

/-- The check lets an allocation through, but for the assertion about mapped storage. -/
theorem checked {l : Live} (ht : Tenant s A b l.len l.user l.view) (hr : Refines cfg main s status A idle)
    (hrec : Recorded l) (t : Tid) (name : String) :
    headers t name l.user s = .ok (Llheap.headers s l.user) ∨ headers t name l.user s = .error .assertion := by
  rw [headers_eq, ht.encodes.headers ht.taggable]
  dsimp only
  rw [if_neg hrec.checked]
  cases horigin : l.view.origin with
  | mapped =>
    rw [if_pos (decide_eq_true rfl)]
    split
    · exact .inl rfl
    · exact .inr rfl
  | bucket f =>
    obtain ⟨h, hf⟩ := ht.bucket f horigin
    have hbucket := hr.blocks.bucket h f l.len hf
    have hrange := IsBucket.range hf
    have hpos := hr.heaps.laid.pos _ _ ((hr.heaps.pieces.heap h _).mpr ⟨hf.1, rfl⟩)
    have hat : freeHeaderAt s f = s.freeHeader f := if_pos (IsBucketAt.of_isBucket hf)
    have hinside := hf.inside
    have hsound : ¬ corrupted t b f s := by
      rintro (hzero | ⟨hhome, hout⟩ | hsize)
      · omega
      · rw [hat, hbucket.home] at hhome
        rw [hhome] at hout
        omega
      · rw [hat, hbucket.blockSize, ht.encodes.size] at hsize
        exact absurd hrec.size (not_le.mpr hsize)
    rw [if_neg (by simp), Origin.freeHead, bucketHeaders, if_neg hsound, hat, if_neg (by simp)]
    exact .inl rfl

/-! ### Requests -/

/-- The guards and assertions that a request of the debug build passes. -/
def Passes (t : Tid) (size : ℕ) (s : State) : Prop :=
  size ≤ 2 ^ 64 - 1 - sizeofStorage ∧
    if size < s.heapMaster.mmapStart then BucketAsserted t size s else size ≤ 2 ^ 64 - 1 - s.heapMaster.pageSize

/-- The contents of a new block of `n` bytes, in front, may be overwritten. -/
inductive Scrubbed (s : State) (n : ℕ) : Option ℕ → State → Prop
  | kept {r : Option ℕ} : Scrubbed s n r s
  | filled {block : ℕ} : Scrubbed s n (some (block + sizeofStorage)) (scrubNew block n s)

/-- The scrubbed bytes are behind the header. -/
theorem setHeader_scrubNew {block home : ℕ} :
    setHeader block home size (scrubNew block n s) = scrubNew block n (setHeader block home size s) := by
  have hhome : block + 8 ≤ block + sizeofStorage := by rw [sizeofStorage]; omega
  have hsize : sizeField block + 8 ≤ block + sizeofStorage := by rw [sizeofStorage, sizeField]
  rw [setHeader, scrubNew]
  dsimp only
  rw [setWord_fill (.inl hhome), setWord_fill (.inl hsize)]
  rfl

theorem allocateBlock_cases (h : allocateBlock k t f s = .ok (r, s')) :
    (r = none ∧ Llheap.allocateBlock k t f s = .ok (none, s')) ∨
      ∃ block s₁, r = some block ∧ Llheap.allocateBlock k t f s = .ok (some block, s₁) ∧
        (s' = s₁ ∨ s' = scrubNew block (s.freeHeader f).blockSize s₁) := by
  obtain ⟨⟨r₁, s₁⟩, hblock, h⟩ := bind_eq_ok.mp h
  rw [shared_eq_ok] at hblock
  cases r₁ with
  | none =>
    cases h
    exact .inl ⟨rfl, hblock⟩
  | some block =>
    dsimp only at h
    split at h
    · cases h
      exact .inr ⟨block, s₁, rfl, hblock, .inr rfl⟩
    · cases h
      exact .inr ⟨block, _, rfl, hblock, .inl rfl⟩

theorem doMalloc_cases (h : doMalloc k t size s = .ok (r, s')) : ∃ s₁, bootHeapManager k t s = .ok s₁ ∧
    (r = none ∧ s' = s₁.refuse t ENOMEM ∨
      Passes t size s₁ ∧ ∃ s₂, Llheap.doMalloc k t size s = .ok (r, s₂) ∧ Scrubbed s₂ (countedSize t size s₁) r s') := by
  obtain ⟨s₁, hboot, h⟩ := bind_eq_ok.mp h
  rw [shared_eq_ok] at hboot
  refine ⟨s₁, hboot, ?_⟩
  rw [Llheap.doMalloc, hboot, Passes, countedSize]
  change _ ∨ _ ∧ ∃ s₂, (if size < s₁.heapMaster.mmapStart then
    Llheap.allocateBlock k t (requestBucket t size s₁) s₁ >>= _ else mapLarge k t size s₁) = _ ∧ _
  split at h
  · cases h
    exact .inl ⟨rfl, rfl⟩
  next hguard =>
  dsimp only at h
  split at h
  · next hsmall =>
    rw [if_pos hsmall, if_pos hsmall, if_pos hsmall]
    split at h
    · cases h
    next hchecks =>
    refine .inr ⟨⟨not_lt.mp hguard, not_not.mp hchecks⟩, ?_⟩
    obtain ⟨⟨r₁, s₂⟩, hblock, h⟩ := bind_eq_ok.mp h
    rcases allocateBlock_cases hblock with ⟨rfl, hnone⟩ | ⟨block, s₃, rfl, hsome, hscrub⟩
    · cases h
      rw [requestBucket, hnone]
      exact ⟨s', rfl, .kept⟩
    · cases h
      rw [requestBucket, hsome]
      refine ⟨_, rfl, ?_⟩
      rcases hscrub with rfl | rfl
      · exact .kept
      · rw [setHeader_scrubNew]
        exact .filled
  · next hlarge =>
    rw [if_neg hlarge, if_neg hlarge, if_neg hlarge]
    split at h
    · cases h
      exact .inl ⟨rfl, rfl⟩
    next hpast =>
    refine .inr ⟨⟨not_lt.mp hguard, not_lt.mp hpast⟩, ?_⟩
    obtain ⟨⟨r₁, s₂⟩, hmap, h⟩ := bind_eq_ok.mp h
    rw [shared_eq_ok] at hmap
    cases r₁ with
    | none =>
      cases h
      exact ⟨s', hmap, .kept⟩
    | some addr =>
      cases h
      refine ⟨s₂, hmap, ?_⟩
      rcases mapLarge_cases hmap with ⟨hnone, _⟩ | ⟨a, hsome, _⟩
      · cases hnone
      · obtain rfl := Option.some.inj hsome
        rw [headerAddr, Nat.add_sub_cancel]
        exact .filled

theorem supplied {s₁ : State} (hr : Refines cfg main s status A idle)
    (hmay : s.heapManager t = 1 → MayCall main s status t) (hlisted : HeapsListed s) (hsize : size < 2 ^ 64)
    (hboot : bootHeapManager k t s = .ok s₁) (h : Llheap.doMalloc k t size s = .ok (some u, s')) :
    (Llheap.headers s' u).size = countedSize t size s₁ ∧
      (Passes t size s₁ → size + sizeofStorage ≤ countedSize t size s₁) := by
  obtain ⟨s₁', hboot', hcases⟩ := Llheap.doMalloc_cases h
  cases hboot.symm.trans hboot'
  obtain ⟨A₁, idle', hr₁, _, _, _, hh⟩ := hr.boot_listed hmay hlisted hboot
  rcases hcases with ⟨_, hnone, _⟩ | ⟨hsmall, block, s₂, hsome, hblock, rfl⟩ | ⟨hlarge, hmap⟩
  · cases hnone
  · obtain rfl := Option.some.inj hsome
    have hf := hr₁.requestBucket hh hsmall
    obtain ⟨A₂, hr₂, hheld, _, _, _, hmaster⟩ := hr₁.allocateBlock_supplied hf hblock
    have hf₂ : IsBucket s₂.heapMaster _ _ _ := ⟨by rw [hmaster.heapManagersList]; exact hf.1, hf.2⟩
    obtain ⟨hr₃, htenant, _⟩ := hr₂.tenant_of_bucket hf₂ hheld hsize
    rw [htenant.size_eq hr₃, countedSize, if_pos hsmall, (hr₁.blocks.bucket _ _ _ hf).blockSize]
    refine ⟨rfl, fun hpass => ?_⟩
    obtain ⟨hguard, hchecks⟩ := hpass
    rw [if_pos hsmall, BucketAsserted, (hr₁.blocks.bucket _ _ _ hf).blockSize] at hchecks
    have hword : (size + sizeofStorage) % 2 ^ 64 = size + sizeofStorage :=
      Nat.mod_eq_of_lt (by rw [sizeofStorage] at *; omega)
    exact hword.symm.le.trans hchecks.2
  · obtain ⟨A₂, b, n, hr₂, htenant, _, _, hmaps⟩ := hr₁.tenant_of_mapping hsize hmap
    rcases mapLarge_cases hmap with ⟨hnone, _⟩ | ⟨a, _, hfresh, rfl⟩
    · cases hnone
    have hlen : ceiling ((size + sizeofStorage) % 2 ^ 64) s₁.heapMaster.pageSize = n :=
      (Mapping.mk.inj (List.cons.inj hmaps.mappings).1).2.1
    obtain ⟨hpow, hlt, hpage⟩ := hr₁.pageSize
    have hpos := hfresh.len_pos
    rw [htenant.size_eq hr₂, countedSize, if_neg (not_lt.mpr hlarge)]
    refine ⟨hlen.symm, fun hpass => ?_⟩
    obtain ⟨hguard, hchecks⟩ := hpass
    rw [if_neg (not_lt.mpr hlarge)] at hchecks
    have hfits : Fits s₁.heapMaster size := by
      rw [Fits, if_neg (not_lt.mpr hlarge)]
      by_contra hwrap
      rw [sizeofStorage] at *
      rw [Nat.mod_eq_of_lt (by omega), ceiling_wraps hpow hlt (by omega) (by omega)] at hpos
      exact absurd hpos (lt_irrefl 0)
    have hlong := (fits_iff hpow hlt hsize hpage).mp hfits
    rwa [requestLength, if_neg (not_lt.mpr hlarge)] at hlong

/-! ### Freed blocks -/

/-- What is left in the free block `[b, b + n)` of the headers for the address `u` that it was freed at: the word in front of the address is overwritten, or the headers are those of a block whose home is the next free block. -/
structure Freed (m : Memory) (b n u : ℕ) : Prop where
  user_after : b + sizeofStorage ≤ u
  inside : u ≤ b + n
  third : m.word (blockSizeField b) = scrubbed
  header : m.word (headerAddr u) = scrubbed ∨ ∃ alignment,
    Encodes m b n u ⟨.bucket (m.word b), false, m.word (sizeField b), alignment⟩ ∧
      ∀ a ∈ alignment, a.isPowerOfTwo ∧ libAlign ≤ a ∧ a < 2 ^ 64

theorem Freed.congr {m' : Memory} (hfreed : Freed m b n u) (hlen : 2 * sizeofStorage ≤ n)
    (hmem : Set.EqOn m' m (Set.Ico b (b + n))) : Freed m' b n u := by
  have hafter := hfreed.user_after
  have hinside := hfreed.inside
  rw [sizeofStorage] at *
  have hword : ∀ a, b ≤ a → a + 8 ≤ b + n → m'.word a = m.word a := fun a hlow hhigh =>
    Memory.word_congr (hmem.mono (Set.Ico_subset_Ico hlow hhigh))
  have hheader : b ≤ headerAddr u ∧ headerAddr u + 16 ≤ b + n := by
    rw [headerAddr, sizeofStorage]
    omega
  refine ⟨hafter, hinside, (hword _ ?_ ?_).trans hfreed.third, ?_⟩
  · exact Nat.le_add_right b 16
  · rw [blockSizeField]
    omega
  · rw [hword b le_rfl (by omega), hword (sizeField b) (Nat.le_add_right b 8) (by rw [sizeField]; omega),
      hword (headerAddr u) hheader.1 (by omega)]
    refine hfreed.header.imp_right ?_
    rintro ⟨al, henc, hal⟩
    refine ⟨al, henc.congr (hmem.mono (Set.Ico_subset_Ico le_rfl (by omega))) fun _ => ?_, hal⟩
    exact hmem.mono (Set.Ico_subset_Ico hheader.1 hheader.2)

theorem headers_scrubbed (hword : s.mem.word (headerAddr u) = scrubbed) :
    headers t name u s = .error (.badAlignment name u (2 ^ 64 - 2)) := by
  have halign : (Llheap.headers s u).alignment = 2 ^ 64 - 2 := by
    have hsticky : ¬ stickyBits scrubbed = 0 := by decide
    have hbit : alignmentBit scrubbed ≠ 0 := by decide
    have hclear : clearAlignmentBit scrubbed = 2 ^ 64 - 2 := by decide
    unfold Llheap.headers fakeHeader
    dsimp only
    rw [hword, if_neg hsticky, if_pos hbit, hclear]
    dsimp only
    split <;> rfl
  have hbad : 2 ^ 64 - 2 < libAlign ∨ ¬ pow2 (2 ^ 64 - 2) := by decide
  rw [headers_eq]
  dsimp only
  rw [halign, if_pos hbad]

theorem Freed.headers (hfreed : Freed s.mem b n u) (t : Tid) (name : String) (hlink : 8 ∣ s.mem.word b)
    (hword : s.mem.word (headerAddr u) ≠ scrubbed) :
    ∃ alignment, headers t name u s = bucketHeaders t name u b (s.mem.word b) alignment s := by
  obtain ⟨al, henc, hal⟩ := hfreed.header.resolve_left hword
  have hv : View.Taggable ⟨.bucket (s.mem.word b), false, s.mem.word (sizeField b), al⟩ n := by
    refine ⟨hlink, s.mem.word_lt b, s.mem.word_lt _, fun a ha => ?_, fun a ha => (hal a ha).2.2⟩
    obtain ⟨hpow, hle, _⟩ := hal a ha
    exact word_dvd_of_le hpow hle
  have hrec : Recorded ⟨0, u, ⟨.bucket (s.mem.word b), false, 0, al⟩⟩ := ⟨hal, le_rfl⟩
  refine ⟨al.getD libAlign, ?_⟩
  rw [headers_eq, henc.headers hv]
  dsimp only
  rw [if_neg hrec.checked, if_neg (by simp)]
  rfl

/-! ### Freeing -/

theorem doFree_cases (h : doFree k t u s = .ok s') : ∃ s₁ hd, bootHeapManager k t s = .ok s₁ ∧
    headers t "free" u s₁ = .ok hd ∧
    (hd.mapped = false ∧ (∃ l, s' = pushAt l hd.freeHead hd.header (scrubFreed hd.header hd.size s₁)) ∨
      hd.mapped = true ∧ unmapBlock hd.header hd.size u s₁ = .ok s') := by
  obtain ⟨s₁, hboot, h⟩ := bind_eq_ok.mp h
  rw [shared_eq_ok] at hboot
  obtain ⟨hd, hheaders, h⟩ := bind_eq_ok.mp h
  refine ⟨s₁, hd, hboot, hheaders, ?_⟩
  dsimp only at h
  split at h
  · next hplain => exact .inl ⟨Bool.eq_false_iff.mpr hplain, _, (Except.ok.inj h).symm⟩
  · next hmapped =>
    rw [shared_eq_ok] at h
    exact .inr ⟨not_not.mp hmapped, h⟩

/-- The headers that freeing leaves, in a block whose contents are overwritten and whose first word is now a link. -/
theorem Freed.of_scrubs {m' : Memory} {link : ℕ} (henc : Encodes m b n u v) (hlen : 2 * sizeofStorage ≤ n)
    (hb : 16 ∣ b) (hn : 16 ∣ n) (huser : 16 ∣ u) (hinside : u ≤ b + n)
    (halign : ∀ a ∈ v.alignment, a.isPowerOfTwo ∧ libAlign ≤ a ∧ a < 2 ^ 64)
    (hin : ∀ x, Scrubs b n x → m' x = SCRUB) (hout : ∀ x, ¬ Scrubs b n x → m' x = m x) :
    Freed (m'.setWord b link) b n u := by
  have hword : ∀ a, b + sizeofStorage ≤ a → (m'.setWord b link).word a = m'.word a := fun a ha =>
    Memory.word_setWord_of_disjoint (by rw [sizeofStorage] at ha; omega)
  have hhome : ∀ size alignment, (m'.setWord b link).word b =
      View.word ⟨.bucket ((m'.setWord b link).word b), false, size, alignment⟩ n := fun size alignment => by
    simp [View.word, View.tags, Origin.word]
  refine ⟨henc.user_after.1, hinside, ?_, ?_⟩
  · have hthird : b + sizeofStorage = blockSizeField b := rfl
    rw [← hthird, hword _ le_rfl]
    refine word_eq_scrubbed fun x hlow hhigh => hin x ⟨hlow, ?_, .inr (.inl ?_)⟩
    · rw [sizeofStorage] at *
      omega
    · rw [scrubSize]
      omega
  · cases ha : v.alignment with
    | none => exact .inr ⟨none, ⟨hhome _ _, rfl, fun _ => henc.plain ha, by simp⟩, by simp⟩
    | some a =>
      obtain ⟨hroom, hfake, hoffset⟩ := henc.fake a ha
      have hlow : b + sizeofStorage ≤ headerAddr u := by
        rw [headerAddr]
        omega
      have hhigh : headerAddr u + 16 = u := by
        rw [headerAddr]
        simp only [sizeofStorage] at *
        omega
      rw [hword _ hlow]
      rcases scrubs_whole hb hn (a := headerAddr u) (by omega) hlow (by omega) with hall | hnone
      · exact .inl (word_eq_scrubbed fun x hx hlt => hin x (hall x hx (by omega)))
      · have hsame : ∀ y, headerAddr u ≤ y → y + 8 ≤ headerAddr u + 16 → m'.word y = m.word y := fun y hy hlt =>
          Memory.word_congr fun x hx => hout x (hnone x (hy.trans hx.1) (hx.2.trans_le hlt))
        refine .inr ⟨some a, ⟨hhome _ _, rfl, by simp, fun c hc => ?_⟩, fun c hc => halign c (ha ▸ hc)⟩
        cases hc
        refine ⟨hroom, ?_, ?_⟩
        · rw [hword _ hlow, hsame _ le_rfl (by omega)]
          exact hfake
        · rw [sizeField] at hoffset ⊢
          rw [hword _ (by omega), hsame _ (by omega) (by omega)]
          exact hoffset

theorem freed (ht : Tenant s A b n u v) (hr : Refines cfg main s status A idle) (hf : IsBucket s.heapMaster h f n)
    (halign : ∀ a ∈ v.alignment, a.isPowerOfTwo ∧ libAlign ≤ a ∧ a < 2 ^ 64) (huser : 16 ∣ u) (l : ListField) :
    Refines cfg main ((scrubFreed b n s).push l f b) status (A.retag b (.free f)) idle ∧
      OthersUndisturbed b s ((scrubFreed b n s).push l f b) A (A.retag b (.free f)) ∧
      SameControl s ((scrubFreed b n s).push l f b) ∧
      ((scrubFreed b n s).push l f b).mappings = s.mappings ∧
      Freed ((scrubFreed b n s).push l f b).mem b n u := by
  have hlen : 2 * sizeofStorage ≤ n := hf.le_len
  have hend : b + n ≤ 2 ^ 63 := hr.blocks.end_le hr.heaps.laid ht.held
  obtain ⟨mem, hscrub, hin, hout⟩ := scrubFreed_spec (s := s) hlen hend
  rw [hscrub]
  have hsame : ∀ x, x < b ∨ b + n ≤ x → mem x = s.mem x := by
    refine fun x hx => hout x fun hscrubs => ?_
    obtain ⟨hlow, hhigh, _⟩ := hscrubs
    omega
  obtain ⟨hr₁, hothers₁⟩ := hr.writeHeld ht.held mem hsame
  have hb16 := hr.heaps.laid.aligned b _ ht.held
  have hn16 : 16 ∣ n := by
    obtain ⟨_, i, hi, _, rfl⟩ := hf
    exact align_dvd_bucketSize hi
  refine ⟨hr₁.push hf ht.held .held nofun l, fun c p hp hne hc => ?_, ⟨rfl, rfl, rfl, rfl⟩, rfl,
    .of_scrubs ht.encodes hlen hb16 hn16 huser ht.inside halign hin hout⟩
  have hmem : ∀ x, x < b ∨ b + n ≤ x → ({ s with mem := mem }.push l f b).mem x = s.mem x := fun x hx =>
    (setWord_outside le_rfl (by rw [sizeofStorage] at hlen; omega) hx).trans (hsame x hx)
  exact ⟨(Arena.at?_retag_of_ne hne).trans hc, eqOn_of_outside ht.held hmem hc hne⟩

end Llheap.Debug
