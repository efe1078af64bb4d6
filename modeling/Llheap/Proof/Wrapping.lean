import Llheap.Proof.Builds
import Llheap.Proof.Separation

/-!
# Requests near the end of a word

The additions of a request, for the header and for the slack of an alignment, and its rounding to whole pages are exact in a machine word only if the storage that is needed fits in one. `doMalloc`, `memalignNoStats` and `pvalloc` should give enough storage or refuse; this file says when they do, in the release build and in the debug build with its two guards.
-/

namespace Llheap

open Rounding (roundUp)

variable {cfg : Config} {main : Tid} {k : Kernel cfg} {t : Tid} {s s' : State} {status : Tid → Status}
  {A : Arena Tag} {idle : List ℕ} {size alignment n f : ℕ} {m : HeapMaster}

/-- The storage that `n` bytes and a header need, in whole pages if they are mapped. -/
def requestTotal (m : HeapMaster) (n : ℕ) : ℕ :=
  if n < m.mmapStart then n + sizeofStorage else roundUp (n + sizeofStorage) m.pageSize

/-- Storage for `n` bytes that is returned is long enough, and storage that no word can count is refused. -/
def Sound (t : Tid) (m : HeapMaster) (n : ℕ) (x : Result (Option ℕ × State)) : Prop :=
  (∀ user s', x = .ok (some user, s') → n + sizeofStorage ≤ (headers s' user).size) ∧
    (2 ^ 64 ≤ requestTotal m n → ∃ s', x = .ok (none, s') ∧ s'.errno t = ENOMEM)

theorem dvd_word (hpow : n.isPowerOfTwo) (hlt : n < 2 ^ 64) : n ∣ 2 ^ 64 := by
  obtain ⟨e, rfl⟩ := hpow
  exact pow_dvd_pow 2 (lt_64_of_two_pow_lt hlt).le

/-- For a mapped request, the total fits in a word exactly if the request fits. -/
theorem requestTotal_lt (hpow : m.pageSize.isPowerOfTwo) (hlt : m.pageSize < 2 ^ 64)
    (hlarge : m.mmapStart ≤ n) : requestTotal m n < 2 ^ 64 ↔ Fits m n := by
  rw [requestTotal, Fits, if_neg (not_lt.mpr hlarge), if_neg (not_lt.mpr hlarge)]
  exact Rounding.roundUp_lt_iff (Nat.pos_of_isPowerOfTwo hpow) (dvd_word hpow hlt)

/-! ### Served requests -/

/-- There is a block in the bucket, in the thread's buffer, or to be mapped. -/
def HasBlock (k : Kernel cfg) (t : Tid) (freeHead : ℕ) (s : State) : Prop :=
  let f := s.freeHeader freeHead
  let m := s.heapMaster
  let asked := ceiling (max f.blockSize cfg.mallocThreadBlock) libAlign
  f.freeList ≠ 0 ∨ f.remoteList ≠ 0 ∨
    ¬ negative (sub64 (s.heap (s.heapManager t)).bufRemaining f.blockSize) ∨
    if negative (sub64 m.sbrkRemaining asked) then
      ∃ slab, k.mmap s.mappings 0 m.sbrkExtend = .ok slab ∧ ∃ block,
        k.mmap (⟨slab, m.sbrkExtend, .none⟩ :: s.mappings) slab (max asked m.sbrkThreadBlock) = .ok block
    else ∃ block, k.mmap s.mappings m.sbrkEnd (max asked m.sbrkThreadBlock) = .ok block

theorem extendBlock_some_iff {rem : ℕ} : (∃ b s', extendBlock k t size rem s = .ok (some b, s')) ↔
    ∃ b, k.mmap s.mappings s.heapMaster.sbrkEnd (max size s.heapMaster.sbrkThreadBlock) = .ok b := by
  unfold extendBlock State.mmap
  cases hmap : k.mmap s.mappings s.heapMaster.sbrkEnd (max size s.heapMaster.sbrkThreadBlock) with
  | error e =>
    refine iff_of_false ?_ (by simp)
    dsimp only
    rw [mmapCheck]
    split <;> simp
  | ok a => exact iff_of_true ⟨_, _, rfl⟩ ⟨a, rfl⟩

theorem masterExtend_some_iff : (∃ b s', masterExtend k t size s = .ok (some b, s')) ↔
    if negative (sub64 s.heapMaster.sbrkRemaining size) then
      ∃ slab, k.mmap s.mappings 0 s.heapMaster.sbrkExtend = .ok slab ∧ ∃ block,
        k.mmap (⟨slab, s.heapMaster.sbrkExtend, .none⟩ :: s.mappings) slab
          (max size s.heapMaster.sbrkThreadBlock) = .ok block
    else ∃ block, k.mmap s.mappings s.heapMaster.sbrkEnd (max size s.heapMaster.sbrkThreadBlock) = .ok block := by
  unfold masterExtend
  dsimp only
  split
  · unfold State.mmap
    dsimp only
    cases hmap : k.mmap s.mappings 0 s.heapMaster.sbrkExtend with
    | error e =>
      refine iff_of_false ?_ (by simp)
      dsimp only
      rw [mmapCheck]
      split <;> simp
    | ok slab =>
      simp only [Except.ok.injEq, exists_eq_left']
      exact extendBlock_some_iff
  · exact extendBlock_some_iff

theorem allocateBlock_some_iff : (∃ b s', allocateBlock k t f s = .ok (some b, s')) ↔ HasBlock k t f s := by
  unfold allocateBlock HasBlock
  dsimp only
  split
  · next hfree => exact iff_of_true ⟨_, _, rfl⟩ (.inl hfree)
  · next hfree =>
    split
    · next hremote => exact iff_of_true ⟨_, _, rfl⟩ (.inr (.inl hremote))
    · next hremote =>
      split
      · next hfits => exact iff_of_true ⟨_, _, rfl⟩ (.inr (.inr (.inl hfits)))
      · next hshort =>
        rw [or_iff_right hfree, or_iff_right hremote, or_iff_right hshort, ← masterExtend_some_iff (t := t)]
        constructor
        · rintro ⟨b, s', h⟩
          rcases managerExtend_cases h with ⟨hnone, _⟩ | ⟨a, s₁, _, hmaster, _⟩
          · cases hnone
          · exact ⟨a, s₁, hmaster⟩
        · rintro ⟨b, s', h⟩
          rw [managerExtend, h]
          exact ⟨b, _, rfl⟩

theorem doMalloc_some_iff (hsmall : ∀ s₁, bootHeapManager k t s = .ok s₁ → size < s₁.heapMaster.mmapStart) :
    (∃ u s', doMalloc k t size s = .ok (some u, s')) ↔
      ∃ s₁, bootHeapManager k t s = .ok s₁ ∧ HasBlock k t (requestBucket t size s₁) s₁ := by
  constructor
  · rintro ⟨u, s', h⟩
    obtain ⟨s₁, hboot, ⟨_, hnone, _⟩ | ⟨_, block, s₂, _, hblock, _⟩ | ⟨hlarge, _⟩⟩ := doMalloc_cases h
    · cases hnone
    · exact ⟨s₁, hboot, allocateBlock_some_iff.mp ⟨block, s₂, hblock⟩⟩
    · exact absurd (hsmall s₁ hboot) (not_lt.mpr hlarge)
  · rintro ⟨s₁, hboot, h⟩
    obtain ⟨block, s₂, hblock⟩ := allocateBlock_some_iff.mpr h
    rw [doMalloc, hboot]
    change ∃ u s', (if size < s₁.heapMaster.mmapStart then
      allocateBlock k t (requestBucket t size s₁) s₁ >>= _ else mapLarge k t size s₁) = _
    rw [if_pos (hsmall s₁ hboot), hblock]
    exact ⟨_, _, rfl⟩

/-! ### The release build -/

/-- No block is given out for `n` bytes that are asked for as `word`: there is none, and if the storage cannot be counted the kernel says so. -/
def Unserved (k : Kernel cfg) (t : Tid) (n word : ℕ) (s : State) : Prop :=
  if n < s.heapMaster.mmapStart then
    ¬ ∃ s₁, bootHeapManager k t s = .ok s₁ ∧ HasBlock k t (requestBucket t word s₁) s₁
  else OutOfMemory k t word s

theorem request_eq (hn : n = memalignRequest alignment size ∨ 2 ^ 64 ≤ n) (hlt : n < 2 ^ 64) :
    n = memalignRequest alignment size % 2 ^ 64 := by
  obtain rfl := hn.resolve_right (not_le.mpr hlt)
  exact (Nat.mod_eq_of_lt hlt).symm

/-- A request through `memalignNoStats` is answered soundly exactly if a block or a mapping can hold it, or it happens not to be served. -/
theorem Refines.sound_iff (hr : Refines cfg main s status A idle) (hmay : MayCall main s status t)
    (hsize : size < 2 ^ 64) (hpow : alignment.isPowerOfTwo) (halign : alignment < 2 ^ 64)
    (hn : n = memalignRequest alignment size ∨ 2 ^ 64 ≤ n) :
    Sound t s.heapMaster n (Llheap.memalignNoStats k t alignment size s) ↔
      Fits s.heapMaster n ∨ Unserved k t n (memalignRequest alignment size % 2 ^ 64) s := by
  obtain ⟨hpage, hlt, hle⟩ := hr.pageSize
  by_cases hsmall : n < s.heapMaster.mmapStart
  · have hword := hr.small_lt hsmall
    have htotal : ¬ 2 ^ 64 ≤ requestTotal s.heapMaster n := by
      rw [requestTotal, if_pos hsmall]
      exact not_le.mpr hword
    have hrequest := request_eq hn ((Nat.le_add_right n sizeofStorage).trans_lt hword)
    have hparams : ∀ s₁, bootHeapManager k t s = .ok s₁ → n < s₁.heapMaster.mmapStart := by
      intro s₁ hboot
      obtain ⟨_, _, _, _, _, hparams, _⟩ := hr.boot hmay hboot
      rwa [hparams.mmapStart]
    rw [Unserved, if_pos hsmall, ← doMalloc_some_iff (by rwa [← hrequest]), ← memalignNoStats_some_iff hsize,
      fits_iff hpage hlt (by omega) hle]
    constructor
    · rintro ⟨hlong, _⟩
      refine or_iff_not_imp_right.mpr fun hserved => ?_
      obtain ⟨user, s', h⟩ := not_not.mp hserved
      rw [← hr.served_length hmay hsize hpow halign hrequest (.inl hsmall) h]
      exact hlong user s' h
    · refine fun hcond => ⟨fun user s' h => ?_, fun hbig => absurd hbig htotal⟩
      rw [hr.served_length hmay hsize hpow halign hrequest (.inl hsmall) h]
      exact hcond.resolve_right (not_not.mpr ⟨user, s', h⟩)
  · have htotal := requestTotal_lt hpage hlt (not_lt.mp hsmall)
    rw [Unserved, if_neg hsmall, ← memalignNoStats_none_iff hsize]
    constructor
    · rintro ⟨_, hrefused⟩
      refine or_iff_not_imp_left.mpr fun hfits => ?_
      obtain ⟨s', h, _⟩ := hrefused (not_lt.mp (mt htotal.mp hfits))
      exact ⟨s', h⟩
    · rintro (hfits | ⟨s', h⟩)
      · have hword := hfits.word hr
        have hrequest := request_eq hn hword
        refine ⟨fun user s' h => ?_, fun hbig => absurd (htotal.mpr hfits) (not_lt.mpr hbig)⟩
        rw [hr.served_length hmay hsize hpow halign hrequest (.inr hfits) h]
        exact (fits_iff hpage hlt hword hle).mp hfits
      · refine ⟨fun user s'' hsome => ?_, fun _ => ⟨s', h, ?_⟩⟩
        · cases h.symm.trans hsome
        · obtain ⟨_, _, _, _, _, hout⟩ := hr.memalignNoStats hmay hsize hpow halign (fun hne => absurd rfl hne) h
          exact hout.2

/-! ### The debug build -/

/-- The debug build returns null: one of its guards refuses, or the checks are passed and there is no storage. -/
def Denied (k : Kernel cfg) (t : Tid) (size : ℕ) (s : State) : Prop :=
  ∃ s₁, bootHeapManager k t s = .ok s₁ ∧ (2 ^ 64 - 1 - sizeofStorage < size ∨
    if size < s₁.heapMaster.mmapStart then
      BucketAsserted t size s₁ ∧ NoBlock k t (requestBucket t size s₁) s₁
    else 2 ^ 64 - 1 - s₁.heapMaster.pageSize < size ∨
      k.NoMemory s₁.mappings 0 (ceiling ((size + sizeofStorage) % 2 ^ 64) s₁.heapMaster.pageSize))

section

variable {d d' : Counted (BitVec 64)} {name : Counter} {r : Option ℕ}

theorem debug_doMalloc_none_iff (name : Counter) :
    (∃ d', debugHooks.doMalloc k t name size d = .ok (none, d')) ↔ Denied k t size d.st := by
  constructor
  · rintro ⟨d', h⟩
    obtain ⟨d₁, hboot, ⟨_, hguard, _⟩ | ⟨_, _, hlarge, hguard, _⟩ | ⟨hchecked, hplain, _⟩⟩ := Hooks.doMalloc_cases h
    · exact ⟨d₁.st, Hooks.bootHeapManager_ok hboot, .inl hguard⟩
    · refine ⟨d₁.st, Hooks.bootHeapManager_ok hboot, .inr ?_⟩
      rw [if_neg (not_lt.mpr hlarge)]
      exact .inl hguard
    · obtain ⟨_, hchecks⟩ := hchecked rfl
      obtain ⟨s₁, hboot', hnone⟩ := doMalloc_none_iff.mp ⟨d'.st, hplain⟩
      cases (Hooks.bootHeapManager_ok hboot).symm.trans hboot'
      refine ⟨d₁.st, hboot', .inr ?_⟩
      split at hnone
      · next hsmall =>
        rw [if_pos hsmall] at hchecks ⊢
        exact ⟨hchecks, hnone⟩
      · next hlarge =>
        rw [if_neg hlarge]
        exact .inr hnone
  · rintro ⟨s₁, hboot, hcases⟩
    rw [← Hooks.bootHeapManager_st (I := debugHooks), Result.map_eq_ok] at hboot
    obtain ⟨d₁, hboot, rfl⟩ := hboot
    unfold Hooks.doMalloc
    rw [hboot]
    change ∃ d', (if true = true ∧ 2 ^ 64 - 1 - sizeofStorage < size then _ else _) = _
    split
    · exact ⟨_, rfl⟩
    · next hguard =>
      have hcases := hcases.resolve_left fun h => hguard ⟨rfl, h⟩
      dsimp only
      rw [Counted.record_st]
      split
      · next hsmall =>
        rw [if_pos hsmall] at hcases
        obtain ⟨s', hnone⟩ := allocateBlock_none_iff.mpr hcases.2
        rw [if_neg fun h => h.2 hcases.1, Counted.record_record]
        change ∃ d', (allocateBlock k t (requestBucket t size d₁.st) d₁.st >>= _) = _
        rw [hnone]
        exact ⟨_, rfl⟩
      · next hlarge =>
        rw [if_neg hlarge] at hcases
        split
        · exact ⟨_, rfl⟩
        · next hpast =>
          obtain ⟨s', hnone⟩ := mapLarge_none_iff (t := t).mpr (hcases.resolve_left fun h => hpast ⟨rfl, h⟩)
          change ∃ d', (mapLarge k t size d₁.st >>= _) = _
          rw [hnone]
          exact ⟨_, rfl⟩

theorem debug_memalignNoStats_none_iff (name : Counter) (hsize : size < 2 ^ 64) :
    (∃ d', debugHooks.memalignNoStats k t name alignment size d = .ok (none, d')) ↔
      Denied k t (memalignRequest alignment size % 2 ^ 64) d.st := by
  rw [← debug_doMalloc_none_iff name, memalignRequest_mod hsize]
  constructor
  · rintro ⟨d', h⟩
    rcases Hooks.memalignNoStats_cases h with ⟨hplain, hm⟩ | ⟨hbig, hne, ⟨_, hm⟩ | ⟨_, _, _, hsome, _⟩⟩
    · rw [if_pos hplain]
      exact ⟨d', hm⟩
    · rw [if_neg (not_or.mpr ⟨not_le.mpr hbig, hne⟩)]
      exact ⟨d', hm⟩
    · cases hsome
  · rintro ⟨d', h⟩
    refine ⟨d', ?_⟩
    unfold Hooks.memalignNoStats
    split at h
    · next hplain => rw [if_pos hplain, h]
    · next hfake =>
      rw [if_neg hfake]
      change (debugHooks.doMalloc k t name (alignedSize alignment size) d >>= _) = _
      rw [h]
      rfl

theorem Refines.debug_fits {u : ℕ} (hr : Refines cfg main d.st status A idle) (hmay : MayCall main d.st status t)
    (hsmall : size < d.st.heapMaster.mmapStart)
    (h : debugHooks.doMalloc k t name size d = .ok (some u, d')) : Fits d.st.heapMaster size := by
  obtain ⟨d₁, hboot, ⟨_, _, hnone, _⟩ | ⟨_, _, _, _, hnone, _⟩ | ⟨hchecked, _⟩⟩ := Hooks.doMalloc_cases h
  · cases hnone
  · cases hnone
  · obtain ⟨A₁, idle₁, hr₁, _, _, hparams, hh⟩ := hr.boot hmay (Hooks.bootHeapManager_ok hboot)
    have hsmall₁ : size < d₁.st.heapMaster.mmapStart := by rwa [hparams.mmapStart]
    obtain ⟨_, hchecks⟩ := hchecked rfl
    rw [if_pos hsmall₁] at hchecks
    have hword := hr.small_lt hsmall
    have hle := hchecks.2
    rw [(hr₁.blocks.bucket _ _ _ (hr₁.requestBucket hh hsmall₁)).blockSize, Nat.mod_eq_of_lt hword,
      hparams.maxBucketsUsed] at hle
    rw [Fits, if_pos hsmall, Nat.mod_eq_of_lt hword]
    exact hle

/-- In the debug build the size of a small request is checked, and what is left are requests for a mapping that wraps around to nothing and aligned requests that wrap around before the guards. -/
theorem Refines.debug_sound_iff (hr : Refines cfg main d.st status A idle) (hmay : MayCall main d.st status t)
    (hsize : size < 2 ^ 64) (hpow : alignment.isPowerOfTwo) (halign : alignment < 2 ^ 64)
    (hn : n = memalignRequest alignment size ∨ 2 ^ 64 ≤ n) :
    Sound t d.st.heapMaster n (Counted.plain (debugHooks.memalignNoStats k t name alignment size d)) ↔
      n < d.st.heapMaster.mmapStart ∨ Fits d.st.heapMaster n ∨
        Denied k t (memalignRequest alignment size % 2 ^ 64) d.st := by
  obtain ⟨hpage, hlt, hle⟩ := hr.pageSize
  have hlong : Fits d.st.heapMaster n → ∀ user s', Counted.plain
      (debugHooks.memalignNoStats k t name alignment size d) = .ok (some user, s') →
        n + sizeofStorage ≤ (Llheap.headers s' user).size := by
    intro hfits user s' h
    have hword := hfits.word hr
    have hrequest := request_eq hn hword
    obtain ⟨d', hrun, rfl⟩ := Counted.plain_eq_ok.mp h
    rw [hr.served_length hmay hsize hpow halign hrequest (.inr hfits) (Hooks.memalignNoStats_plain hrun)]
    exact (fits_iff hpage hlt hword hle).mp hfits
  by_cases hsmall : n < d.st.heapMaster.mmapStart
  · have hword := hr.small_lt hsmall
    have hrequest := request_eq hn ((Nat.le_add_right n sizeofStorage).trans_lt hword)
    refine iff_of_true ⟨fun user s' h => ?_, fun hbig => ?_⟩ (.inl hsmall)
    · obtain ⟨d', hrun, _⟩ := Counted.plain_eq_ok.mp h
      obtain ⟨u, d₁, hm⟩ := Hooks.memalignNoStats_some hsize hrun
      rw [← hrequest] at hm
      exact hlong (hr.debug_fits hmay hsmall hm) user s' h
    · rw [requestTotal, if_pos hsmall] at hbig
      exact absurd hbig (not_le.mpr hword)
  · have htotal := requestTotal_lt hpage hlt (not_lt.mp hsmall)
    rw [or_iff_right hsmall, ← debug_memalignNoStats_none_iff name hsize]
    constructor
    · rintro ⟨_, hrefused⟩
      refine or_iff_not_imp_left.mpr fun hfits => ?_
      obtain ⟨s', h, _⟩ := hrefused (not_lt.mp (mt htotal.mp hfits))
      obtain ⟨d', hrun, _⟩ := Counted.plain_eq_ok.mp h
      exact ⟨d', hrun⟩
    · rintro (hfits | ⟨d', hrun⟩)
      · exact ⟨hlong hfits, fun hbig => absurd (htotal.mpr hfits) (not_lt.mpr hbig)⟩
      · have h := Counted.plain_eq_ok.mpr ⟨d', hrun, rfl⟩
        refine ⟨fun user s'' hsome => ?_, fun _ => ⟨d'.st, h, Hooks.memalignNoStats_errno hrun⟩⟩
        cases h.symm.trans hsome

end

/-! ### The three routines -/

inductive Request
  | doMalloc (size : ℕ)
  | memalignNoStats (alignment size : ℕ)
  | pvalloc (size : ℕ)

namespace Request

/-- Sizes are of type `size_t`, and alignments are powers of two. -/
def Valid : Request → Prop
  | .doMalloc size | .pvalloc size => size < 2 ^ 64
  | .memalignNoStats alignment size => size < 2 ^ 64 ∧ alignment.isPowerOfTwo ∧ alignment < 2 ^ 64

def run (k : Kernel cfg) (t : Tid) : Request → State → Result (Option ℕ × State)
  | .doMalloc size => Llheap.doMalloc k t size
  | .memalignNoStats alignment size => Llheap.memalignNoStats k t alignment size
  | .pvalloc size => Llheap.pvalloc k t size

def runDebug (k : Kernel cfg) (t : Tid) :
    Request → Counted (BitVec 64) → Result (Option ℕ × Counted (BitVec 64))
  | .doMalloc size => debugHooks.doMalloc k t .malloc size
  | .memalignNoStats alignment size => debugHooks.memalignNoStats k t .memalign alignment size
  | .pvalloc size => debugHooks.pvalloc k t size

/-- The bytes that are needed behind the header, with the slack of the alignment and with whole pages for `pvalloc`. -/
def bytes (pageSize : ℕ) : Request → ℕ
  | .doMalloc size => size
  | .memalignNoStats alignment size => memalignRequest alignment size
  | .pvalloc size => memalignRequest pageSize (roundUp size pageSize)

/-- What the code makes of them in machine words. -/
def word (pageSize : ℕ) : Request → ℕ
  | .doMalloc size => size
  | .memalignNoStats alignment size => memalignRequest alignment size % 2 ^ 64
  | .pvalloc size => memalignRequest pageSize (ceiling size pageSize) % 2 ^ 64

end Request

theorem ceiling_eq_roundUp (hpow : n.isPowerOfTwo) (hlt : n < 2 ^ 64) (hsize : size < 2 ^ 64) :
    ceiling size n = roundUp size n % 2 ^ 64 := by
  obtain ⟨e, rfl⟩ := hpow
  exact ceiling_eq hsize (lt_64_of_two_pow_lt hlt)

theorem le_memalignRequest : size ≤ memalignRequest alignment size := by
  unfold memalignRequest
  split <;> omega

theorem doMalloc_eq_memalign : Llheap.memalignNoStats k t libAlign size s = Llheap.doMalloc k t size s := by
  rw [Llheap.memalignNoStats, if_pos (.inl le_rfl)]

theorem Hooks.doMalloc_eq_memalign {H : Type} {I : Hooks H} {d : Counted H} {name : Counter} :
    I.memalignNoStats k t name libAlign size d = I.doMalloc k t name size d := by
  rw [Hooks.memalignNoStats, if_pos (.inl le_rfl)]

theorem memalignRequest_libAlign : memalignRequest libAlign size = size := by
  rw [memalignRequest, if_pos (.inl le_rfl)]

/-- In any state that an arena describes: a request is answered soundly in the release build if and only if a bucket or a mapping can hold it with its header, and in the debug build if and only if it is small or a mapping can hold it, or the request happens to be refused. -/
theorem request_sound_iff {c : Request} {d : Counted (BitVec 64)} (hr : Refines cfg main d.st status A idle)
    (hmay : MayCall main d.st status t) (hvalid : c.Valid) :
    (Sound t d.st.heapMaster (c.bytes d.st.heapMaster.pageSize) (c.run k t d.st) ↔
      Fits d.st.heapMaster (c.bytes d.st.heapMaster.pageSize) ∨
        Unserved k t (c.bytes d.st.heapMaster.pageSize) (c.word d.st.heapMaster.pageSize) d.st) ∧
    (Sound t d.st.heapMaster (c.bytes d.st.heapMaster.pageSize) (Counted.plain (c.runDebug k t d)) ↔
      c.bytes d.st.heapMaster.pageSize < d.st.heapMaster.mmapStart ∨
        Fits d.st.heapMaster (c.bytes d.st.heapMaster.pageSize) ∨
          Denied k t (c.word d.st.heapMaster.pageSize) d.st) := by
  cases c with
  | doMalloc size =>
    have hrequest : size = memalignRequest libAlign size ∨ 2 ^ 64 ≤ size := .inl memalignRequest_libAlign.symm
    have hpow : libAlign.isPowerOfTwo := ⟨4, rfl⟩
    have hplain := hr.sound_iff (k := k) hmay hvalid hpow (by decide) hrequest
    have hdebug : Sound t d.st.heapMaster size
        (Counted.plain (debugHooks.memalignNoStats k t .malloc libAlign size d)) ↔ _ :=
      hr.debug_sound_iff hmay hvalid hpow (by decide) hrequest
    rw [doMalloc_eq_memalign, memalignRequest_libAlign, Nat.mod_eq_of_lt hvalid] at hplain
    rw [Hooks.doMalloc_eq_memalign, memalignRequest_libAlign, Nat.mod_eq_of_lt hvalid] at hdebug
    exact ⟨hplain, hdebug⟩
  | memalignNoStats alignment size =>
    obtain ⟨hsize, hpow, halign⟩ := hvalid
    exact ⟨hr.sound_iff hmay hsize hpow halign (.inl rfl), hr.debug_sound_iff hmay hsize hpow halign (.inl rfl)⟩
  | pvalloc size =>
    obtain ⟨hpow, hlt, _⟩ := hr.pageSize
    have hceil := ceiling_eq_roundUp hpow hlt hvalid
    have hasked : ceiling size d.st.heapMaster.pageSize < 2 ^ 64 := by
      rw [hceil]
      exact Nat.mod_lt _ (by decide)
    have hrequest : memalignRequest d.st.heapMaster.pageSize (roundUp size d.st.heapMaster.pageSize) =
        memalignRequest d.st.heapMaster.pageSize (ceiling size d.st.heapMaster.pageSize) ∨
        2 ^ 64 ≤ memalignRequest d.st.heapMaster.pageSize (roundUp size d.st.heapMaster.pageSize) := by
      rcases Nat.lt_or_ge (roundUp size d.st.heapMaster.pageSize) (2 ^ 64) with hword | hbig
      · rw [hceil, Nat.mod_eq_of_lt hword]
        exact .inl rfl
      · exact .inr (hbig.trans le_memalignRequest)
    exact ⟨hr.sound_iff hmay hasked hpow hlt hrequest, hr.debug_sound_iff hmay hasked hpow hlt hrequest⟩

private def bootedDebug : Counted (BitVec 64) := ⟨Separation.World.booted.st, 0, fun _ => 0⟩

/-- A hundred bytes. -/
theorem request_sound_iff_default :
    Sound 0 Separation.World.booted.st.heapMaster 100
        (Llheap.doMalloc (.above defaultConfig) 0 100 Separation.World.booted.st) ∧
      Sound 0 Separation.World.booted.st.heapMaster 100
        (Counted.plain (debugHooks.doMalloc (.above defaultConfig) 0 .malloc 100 bootedDebug)) := by
  obtain ⟨A, idle, hr, _⟩ := Separation.reachable_inv Separation.World.booted_reachable
  have hmay : MayCall 0 bootedDebug.st Separation.World.booted.status 0 := Separation.World.booted_may
  have hsmall : 100 < bootedDebug.st.heapMaster.mmapStart := by decide +kernel
  have hfits : Fits bootedDebug.st.heapMaster 100 := by decide +kernel
  obtain ⟨hplain, hdebug⟩ := request_sound_iff (c := .doMalloc 100) (d := bootedDebug)
    (k := .above defaultConfig) hr hmay (by decide : 100 < 2 ^ 64)
  exact ⟨hplain.mpr (.inl hfits), hdebug.mpr (.inl hsmall)⟩

private def strict : Kernel defaultConfig where
  mmap ms hint len := if len = 0 then .error 22 else (Kernel.above defaultConfig).mmap ms hint len
  aligned h := by
    split at h
    · cases h
    · exact (Kernel.above defaultConfig).aligned h
  bounds h := by
    split at h
    · cases h
    · exact (Kernel.above defaultConfig).bounds h
  fresh h := by
    split at h
    · cases h
    · exact (Kernel.above defaultConfig).fresh h

/-- In the release build a request for `2 ^ 64 - 1` bytes gets one page. In the debug build a request for `2 ^ 64 - 64` bytes at a multiple of 64 gets a block of 32 bytes, and one for `2 ^ 64 - 4097` bytes passes both guards and asks for an empty mapping, so the program is aborted. -/
theorem request_wraps :
    (∃ s', Llheap.doMalloc (.above defaultConfig) 0 (2 ^ 64 - 1) Separation.World.booted.st =
        .ok (some 270352, s') ∧ (headers s' 270352).size = 4096) ∧
      ¬ Sound 0 Separation.World.booted.st.heapMaster (2 ^ 64 - 1)
        (Llheap.doMalloc (.above defaultConfig) 0 (2 ^ 64 - 1) Separation.World.booted.st) ∧
    (∃ d', debugHooks.memalignNoStats (.above defaultConfig) 0 .memalign 64 (2 ^ 64 - 64) bootedDebug =
        .ok (some 134488128, d') ∧ (headers d'.st 134488128).size = 32) ∧
      ¬ Sound 0 bootedDebug.st.heapMaster (memalignRequest 64 (2 ^ 64 - 64)) (Counted.plain
        (debugHooks.memalignNoStats (.above defaultConfig) 0 .memalign 64 (2 ^ 64 - 64) bootedDebug)) ∧
    Counted.plain (debugHooks.doMalloc strict 0 .malloc (2 ^ 64 - 4097) bootedDebug) =
        .error (.largeObject (2 ^ 64 - 4097) 22) ∧
      ¬ Sound 0 bootedDebug.st.heapMaster (2 ^ 64 - 4097)
        (Counted.plain (debugHooks.doMalloc strict 0 .malloc (2 ^ 64 - 4097) bootedDebug)) := by
  have hpage : (Llheap.doMalloc (.above defaultConfig) 0 (2 ^ 64 - 1)
      Separation.World.booted.st).isOk = true := by decide
  have hpageSize : (headers ((Llheap.doMalloc (.above defaultConfig) 0 (2 ^ 64 - 1)
      Separation.World.booted.st).getD (none, State.unbooted)).2 270352).size = 4096 := by decide
  have hpageRun := Result.eq_ok_pair hpage (d := (none, State.unbooted)) (a := some 270352) (by decide)
  have hshort : (Counted.plain (debugHooks.memalignNoStats (.above defaultConfig) 0 .memalign 64
      (2 ^ 64 - 64) bootedDebug)).isOk = true := by decide +kernel
  have hshortSize : (headers ((Counted.plain (debugHooks.memalignNoStats (.above defaultConfig) 0 .memalign
      64 (2 ^ 64 - 64) bootedDebug)).getD (none, State.unbooted)).2 134488128).size = 32 := by decide +kernel
  have hshortRun := Result.eq_ok_pair hshort (d := (none, State.unbooted)) (a := some 134488128)
    (by decide +kernel)
  have habort : Counted.plain (debugHooks.doMalloc strict 0 .malloc (2 ^ 64 - 4097) bootedDebug) =
      .error (.largeObject (2 ^ 64 - 4097) 22) := Result.eq_error (by decide)
  refine ⟨⟨_, hpageRun, hpageSize⟩, fun hsound => ?_, ?_, fun hsound => ?_, habort, fun hsound => ?_⟩
  · have hlong := hsound.1 _ _ hpageRun
    rw [hpageSize] at hlong
    exact absurd hlong (by decide)
  · obtain ⟨d', hrun, hd⟩ := Counted.plain_eq_ok.mp hshortRun
    exact ⟨d', hrun, hd ▸ hshortSize⟩
  · have hlong := hsound.1 _ _ hshortRun
    rw [hshortSize] at hlong
    exact absurd hlong (by decide)
  · have hbig : 2 ^ 64 ≤ requestTotal bootedDebug.st.heapMaster (2 ^ 64 - 4097) := by decide
    obtain ⟨s', hnone, _⟩ := hsound.2 hbig
    cases habort.symm.trans hnone

end Llheap
