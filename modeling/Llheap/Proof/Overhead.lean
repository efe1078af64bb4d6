import Llheap.Proof.StoreRefines
import Llheap.Proof.Wrapping

/-!
# How much storage an allocation takes

A block may be longer than the request that it serves: buckets come in steps, mapped storage in pages, an aligned address leaves storage in front of it, and a block is used again for less than it was obtained for. In every state that a run reaches, whatever has happened to an allocation, its block is at most twice as long as its request with its header and its alignment.
-/

namespace Llheap

open Separation

variable {cfg : Config} {main : Tid} {k : Kernel cfg} {t : Tid} {s s' : State} {w w' : World}
  {status : Tid → Status} {A A' : Arena Tag} {idle idle' : List ℕ} {b n u user size alignment : ℕ} {l : Live}
  {r addr : Option ℕ} {m : HeapMaster}

/-- What the alignment of an address may add: an alignment of up to 256 may have been recorded over by a smaller one. -/
def slack (s : State) (u : ℕ) : ℕ :=
  if alignmentBit (s.mem.word (headerAddr u)) ≠ 0 then max 256 (mallocAlignment s (some u)) else 0

/-- The block of `u` is not too long for what it is used for, and the storage in front of `u` is what the alignment may take. -/
structure Compact (s : State) (u : ℕ) : Prop where
  front : u ≤ (headers s u).header + 2 * sizeofStorage + slack s u
  whole : (headers s u).size ≤ 2 * (mallocRequestSize s (some u) + slack s u + sizeofStorage)

def Live.slack (l : Live) : ℕ := l.view.alignment.elim 0 (max 256)

structure Live.Compact (l : Live) (b : ℕ) : Prop where
  front : l.user ≤ b + 2 * sizeofStorage + l.slack
  whole : l.len ≤ 2 * (l.view.size + l.slack + sizeofStorage)

/-! ### New blocks -/

theorem bucketSize_succ_le : ∀ i < 63, bucketSize (i + 1) ≤ 2 * bucketSize i := by decide

/-- All buckets before the one that is selected are too small. -/
theorem selectBucket_least {tsize : ℕ} (hm : CrossoverOk m) (hkey : tsize < 2 ^ 32) :
    ∀ i < selectBucket m.maxBucketsUsed tsize, bucketSize i < tsize := by
  unfold selectBucket
  split
  · next hsmall =>
    rw [lookupSizes] at hsmall
    have hbound : tsize ≤ 67108880 := by omega
    rw [lookup_eq hbound]
    exact (lookupIdx_spec hbound).2.2
  · exact (bsearchl_spec _ _ bucketSize hkey
      fun i j hij (hj : j < m.maxBucketsUsed) => bucketSize_le hij (hj.trans hm.used_lt)).2.1

/-- The block of a request is at most twice as long as the request with its header. -/
theorem requestLength_le (hm : CrossoverOk m) (hpow : m.pageSize.isPowerOfTwo) (hlt : m.pageSize < 2 ^ 64)
    (hpage : sizeofStorage ≤ m.pageSize) (hsize : size < 2 ^ 64) (hfits : Fits m size) :
    requestLength m size ≤ 2 * (size + sizeofStorage) := by
  have hlast : bucketSize (noBucketSizes - 1) = 67108880 := by decide
  have hword := hfits.lt hm (by rw [sizeofStorage] at hpage; omega)
  unfold requestLength
  rw [Nat.mod_eq_of_lt hword]
  unfold Fits at hfits
  split
  · next hsmall =>
    have hupper := hm.upper
    have hkey : size + sizeofStorage < 2 ^ 32 := by
      rw [sizeofStorage]
      omega
    have hused := selectBucket_lt hm hkey
    have hleast := selectBucket_least hm hkey
    rw [noBucketSizes] at hused
    cases hsel : selectBucket m.maxBucketsUsed (size + sizeofStorage) with
    | zero =>
      have hfirst : bucketSize 0 = 32 := by decide
      rw [hfirst, sizeofStorage]
      omega
    | succ i =>
      rw [hsel] at hused hleast
      have hstep := bucketSize_succ_le i (by omega)
      have hbelow := hleast i (Nat.lt_succ_self i)
      omega
  · next hlarge =>
    rw [if_neg hlarge] at hfits
    have hlower := hm.lower
    have hceil := (ceiling_bounds (v := size + sizeofStorage) hpow hfits).2
    omega

theorem memalignRequest_le (alignment size : ℕ) :
    memalignRequest alignment size ≤ size + (recordedAlignment alignment size).elim 0 (max 256) := by
  rw [memalignRequest, recordedAlignment]
  split
  · omega
  · next hfake =>
    rw [not_or, libAlign] at hfake
    simp only [Option.elim_some, libAlign, sizeofStorage]
    omega

theorem Refines.live_header (hr : Refines cfg main s status A idle) (hb : liveAt A b = some l) :
    (Llheap.headers s l.user).header = b := by rw [hr.headers hb]

theorem Refines.memalign_front (hr : Refines cfg main s status A idle) (hmay : MayCall main s status t)
    (hsize : size < 2 ^ 64) (hpow : alignment.isPowerOfTwo) (halign : alignment < 2 ^ 64)
    (hfits : Fits s.heapMaster (memalignRequest alignment size))
    (h : Llheap.memalignNoStats k t alignment size s = .ok (some user, s')) :
    user ≤ (Llheap.headers s' user).header + 2 * sizeofStorage + (recordedAlignment alignment size).elim 0 (max 256) := by
  rcases memalignNoStats_cases h with ⟨hplain, hm⟩ | ⟨hbig, hne, ⟨hnone, _⟩ | ⟨addr, s₁, hm, huser, rfl⟩⟩
  · rw [memalignRequest, if_pos hplain] at hfits
    obtain ⟨A', idle', hr', _, _, b, n, origin, _, hlive, _⟩ := hr.doMalloc hmay hsize (fun _ => hfits) hm
    have hb : liveAt A' b = some ⟨n, user, ⟨origin, false, size, none⟩⟩ := by rw [hlive, Function.update_self]
    have haddr := (hr'.liveBlock hb).1.encodes.plain rfl
    have hheader := hr'.live_header hb
    dsimp only at haddr hheader
    rw [hheader]
    omega
  · cases hnone
  · obtain rfl := Option.some.inj huser
    have hfake : ¬ (alignment ≤ libAlign ∨ size = 0) := not_or.mpr ⟨not_le.mpr hbig, hne⟩
    have hword := hfits.word hr
    have hasked := alignedSize_eq hbig hne hword
    rw [memalignRequest, if_neg hfake] at hfits
    have hrequest : size + (alignment - libAlign + sizeofStorage) = size + alignment := by
      rw [libAlign, sizeofStorage] at *
      omega
    rw [hrequest] at hfits
    rw [hasked] at hm
    obtain ⟨A', idle', hr', _, _, b, n, origin, _, hlive, _⟩ :=
      hr.doMalloc hmay (hfits.word hr) (fun _ => hfits) hm
    have hb : liveAt A' b = some ⟨n, addr, ⟨origin, false, size + alignment, none⟩⟩ := by
      rw [hlive, Function.update_self]
    obtain ⟨hblock, _, hend⟩ := hr'.liveBlock hb
    have haddr := hblock.encodes.plain rfl
    have hroom := hblock.room
    dsimp only at haddr hroom hend
    rw [libAlign] at hbig
    rw [sizeofStorage] at haddr
    obtain ⟨hle, hceil⟩ := ceiling_bounds (v := addr + sizeofStorage) hpow (by rw [sizeofStorage]; omega)
    rw [sizeofStorage] at hle hceil
    have hdvd : 8 ∣ alignment := word_dvd_of_le hpow hbig.le
    have henc := setFakeHeader_encodes hblock.encodes rfl hle (by omega) hdvd halign hsize
    have hv := (hblock.taggable.withSize hsize).withAlignment (a := alignment) hdvd halign
    have hheader : (Llheap.headers (setFakeHeader addr (ceiling (addr + 16) alignment) alignment size s₁)
        (ceiling (addr + 16) alignment)).header = b := by rw [henc.headers hv]
    have hsome : recordedAlignment alignment size = some alignment := if_neg hfake
    rw [sizeofStorage, hheader, hsome, Option.elim_some]
    omega

theorem Refines.memalign_compact (hr : Refines cfg main s status A idle) (hmay : MayCall main s status t)
    (hsize : size < 2 ^ 64) (hpow : alignment.isPowerOfTwo) (halign : alignment < 2 ^ 64)
    (hfits : Fits s.heapMaster (memalignRequest alignment size))
    (h : Llheap.memalignNoStats k t alignment size s = .ok (some user, s')) :
    ∃ A' idle' b l, Refines cfg main s' status A' idle' ∧ Frame (liveAt A) s s' ∧ SameParams s.heapMaster s'.heapMaster ∧
      liveAt A b = none ∧ liveAt A' = Function.update (liveAt A) b (some l) ∧ l.user = user ∧ l.Compact b ∧
      l.view.zeroFill = false ∧ l.view.size = size ∧ l.view.alignment = recordedAlignment alignment size := by
  obtain ⟨A', idle', hr', hframe, hparams, b, n, origin, hnone, hlive, _⟩ :=
    hr.memalignNoStats hmay hsize hpow halign (fun _ => hfits) h
  have hb : liveAt A' b = some ⟨n, user, ⟨origin, false, size, recordedAlignment alignment size⟩⟩ := by
    rw [hlive, Function.update_self]
  refine ⟨A', idle', b, _, hr', hframe, hparams, hnone, hlive, rfl, ⟨?_, ?_⟩, rfl, rfl, rfl⟩
  · have hfront := hr.memalign_front hmay hsize hpow halign hfits h
    have hheader := hr'.live_header hb
    dsimp only at hheader
    rwa [hheader] at hfront
  · have hword := hfits.word hr
    have hserved := hr.served_length hmay hsize hpow halign (Nat.mod_eq_of_lt hword).symm (.inr hfits) h
    have hheaders := hr'.headers hb
    dsimp only at hheaders
    rw [hheaders] at hserved
    obtain ⟨hpage, hlt, hle⟩ := hr.pageSize
    have hlength := requestLength_le hr.blocks.crossover hpage hlt hle hword hfits
    rw [← hserved] at hlength
    have hrequest := memalignRequest_le alignment size
    dsimp only [Live.slack] at hlength ⊢
    omega

theorem Refines.compact_iff (hr : Refines cfg main s status A idle) (hb : liveAt A b = some l) :
    Compact s l.user ↔ l.Compact b := by
  obtain ⟨hblock, _⟩ := hr.liveBlock hb
  have hbit := (hblock.encodes.fakeWord hblock.taggable).1
  obtain ⟨hsize, _, halign⟩ := hr.queries hb
  have hslack : slack s l.user = l.slack := by
    unfold slack Live.slack
    rw [halign]
    cases hal : l.view.alignment with
    | none => exact if_neg (not_not.mpr (hbit.mpr hal))
    | some a =>
      refine if_pos fun hplain => ?_
      cases (hbit.mp hplain).symm.trans hal
  have hheaders := hr.headers hb
  constructor
  · intro ⟨hfront, hwhole⟩
    rw [hheaders, hslack] at hfront hwhole
    rw [hsize] at hwhole
    exact ⟨hfront, hwhole⟩
  · intro ⟨hfront, hwhole⟩
    constructor
    · rwa [hheaders, hslack]
    · rwa [hheaders, hslack, hsize]

/-! ### Blocks that are used again -/

/-- At most half of the storage behind the address is wasted. -/
theorem Live.Compact.inPlace {origin : Origin} {z : Bool} (h : l.Compact b) (hroom : l.user ≤ b + l.len)
    (hreuse : reusable size (b + l.len - l.user)) :
    Live.Compact ⟨l.len, l.user, ⟨origin, z, size, l.view.alignment⟩⟩ b := by
  have hhalf : b + l.len - l.user ≤ size * 2 := hreuse.2.trans (Nat.mod_le _ _)
  obtain ⟨hfront, _⟩ := h
  refine ⟨hfront, ?_⟩
  dsimp only [Live.slack] at hfront ⊢
  rw [sizeofStorage] at *
  omega

theorem Live.Compact.realigned {a nalignment : ℕ} (h : l.Compact b) (hal : l.view.alignment = some a)
    (hlucky : luckyMatch l.user a nalignment) :
    Live.Compact { l with view := { l.view with alignment := some nalignment } } b := by
  have hslack : l.slack ≤ max 256 nalignment := by
    rw [Live.slack, hal, Option.elim_some]
    obtain ⟨_, hle | ⟨_, hsmall⟩⟩ := hlucky <;> omega
  obtain ⟨hfront, hwhole⟩ := h
  constructor
  · dsimp only [Live.slack, Option.elim_some]
    exact hfront.trans (Nat.add_le_add_left hslack _)
  · dsimp only [Live.slack, Option.elim_some]
    omega

/-! ### Reallocations -/

theorem Refines.move_compact {naddr : ℕ} (hr : Refines cfg main s status A idle) (hmay : MayCall main s status t)
    (hb : liveAt A b = some l) (hsize : size < 2 ^ 64) (hpow : alignment.isPowerOfTwo) (halign : alignment < 2 ^ 64)
    (hfits : Fits s.heapMaster (memalignRequest alignment size)) {s₁ : State}
    (hm : Llheap.memalignNoStats k t alignment size s = .ok (some naddr, s₁))
    (hmove : Llheap.moveContents t l.user naddr l.view.size size l.view.zeroFill s₁ = .ok s') : Compact s' naddr := by
  obtain ⟨A₁, idle₁, b', l', hr₁, _, _, hnone, hlive₁, rfl, hcompact, hplain, rfl, _⟩ :=
    hr.memalign_compact hmay hsize hpow halign hfits hm
  have hne : b' ≠ b := by
    rintro rfl
    cases hb.symm.trans hnone
  have hb₁ : liveAt A₁ b = some l := by rw [hlive₁, Function.update_of_ne hne.symm, hb]
  have hb' : liveAt A₁ b' = some l' := by rw [hlive₁, Function.update_self]
  obtain ⟨A', hr', hlive', _⟩ := hr₁.moveContents hb₁ hb' hne hplain hmove
  have hmoved := (congrFun hlive' b').trans (Function.update_self ..)
  exact (hr'.compact_iff hmoved).mpr ⟨hcompact.front, hcompact.whole⟩

theorem Refines.realloc_compact (hr : Refines cfg main s status A idle) (hmay : MayCall main s status t)
    (hb : liveAt A b = some l) (hcompact : l.Compact b) (hne : size ≠ 0) (hlt : size < 2 ^ 64)
    (hfits : ∀ n ∈ reallocRequest s l.user size, Fits s.heapMaster n)
    (h : Llheap.realloc k t (some l.user) size s = .ok (some user, s')) : Compact s' user := by
  obtain ⟨hblock, _⟩ := hr.liveBlock hb
  obtain ⟨hpow, _, halign, _⟩ := hr.alignment_bounds hb
  obtain ⟨hdata, _, hroom, _⟩ := hr.dataSize hb
  have hcases := realloc_cases hne h
  unfold reallocRequest at hfits
  dsimp only at hcases hfits
  rw [hr.headers hb] at hdata hcases hfits
  dsimp only at hdata hcases hfits
  rw [hdata, hblock.encodes.size, hblock.zeroFillBit] at hcases
  rw [hdata] at hfits
  rcases hcases with ⟨hreuse, hu, rfl⟩ | ⟨hreuse, r₁, s₁, hm, ⟨_, hnone, _⟩ | ⟨naddr, rfl, hu, hmove⟩⟩
  · obtain rfl := Option.some.inj hu
    have hsize : l.user + size ≤ b + l.len := by
      have := hreuse.1
      omega
    obtain ⟨A', hr', hlive', _⟩ := hr.reallocInPlace hb hsize
    have hplace := (congrFun hlive' b).trans (Function.update_self ..)
    exact (hr'.compact_iff hplace).mpr (hcompact.inPlace (by omega) hreuse)
  · cases hnone
  · obtain rfl := Option.some.inj hu
    rw [if_neg (not_or.mpr ⟨hne, hreuse⟩)] at hfits
    exact hr.move_compact hmay hb hlt hpow halign (hfits _ rfl) hm hmove

theorem Refines.alignedReallocMove_compact (hr : Refines cfg main s status A idle) (hmay : MayCall main s status t)
    (hb : liveAt A b = some l) (hsize : size < 2 ^ 64) (hpow : alignment.isPowerOfTwo) (halign : alignment < 2 ^ 64)
    (hfits : Fits s.heapMaster (memalignRequest alignment size))
    (h : Llheap.alignedReallocMove k t l.user alignment size s = .ok (some user, s')) : Compact s' user := by
  obtain ⟨hblock, _⟩ := hr.liveBlock hb
  unfold Llheap.alignedReallocMove at h
  dsimp only at h
  rw [hr.headers hb] at h
  dsimp only at h
  rw [hblock.encodes.size, hblock.zeroFillBit] at h
  obtain ⟨⟨r₁, s₁⟩, hm, h⟩ := Result.bind_eq_ok.mp h
  rcases moveContents_cases h with ⟨_, hnone, _⟩ | ⟨naddr, hsome, hu, hmove⟩
  · cases hnone
  · obtain rfl := Option.some.inj hu
    obtain rfl : r₁ = some user := hsome
    exact hr.move_compact hmay hb hsize hpow halign hfits hm hmove

theorem Refines.alignedRealloc_compact {nalignment : ℕ} (hr : Refines cfg main s status A idle)
    (hmay : MayCall main s status t) (hb : liveAt A b = some l) (hcompact : l.Compact b) (hne : size ≠ 0)
    (hlt : size < 2 ^ 64) (hpow : nalignment.isPowerOfTwo) (halign : nalignment < 2 ^ 64)
    (hfits : ∀ n ∈ alignedReallocRequest s l.user nalignment size, Fits s.heapMaster n)
    (h : Llheap.alignedRealloc k t (some l.user) nalignment size s = .ok (some user, s')) : Compact s' user := by
  obtain ⟨hblock, _⟩ := hr.liveBlock hb
  obtain ⟨hbit, hclear⟩ := hblock.encodes.fakeWord hblock.taggable
  have hmaxpow := max_libAlign_pow hpow
  have hmaxlt : max nalignment libAlign < 2 ^ 64 := max_lt halign (by decide)
  unfold alignedReallocRequest at hfits
  unfold Llheap.alignedRealloc at h
  dsimp only at hfits h
  rw [if_neg hne] at hfits h
  cases hal : l.view.alignment with
  | none =>
    have hplain := not_not.mpr (hbit.mpr hal)
    rw [if_neg hplain] at hfits h
    split at h
    · next hsame =>
      rw [if_pos hsame] at hfits
      exact hr.realloc_compact hmay hb hcompact hne hlt hfits h
    · next hdiff =>
      rw [if_neg hdiff] at hfits
      exact hr.alignedReallocMove_compact hmay hb hlt hpow halign (hfits _ rfl) h
  | some a =>
    have hfake : alignmentBit (s.mem.word (headerAddr l.user)) ≠ 0 := by
      rw [ne_eq, hbit, hal]
      simp
    rw [if_pos hfake, hclear a hal] at hfits h
    split at h
    · next hlucky =>
      rw [if_pos hlucky] at hfits
      obtain ⟨A₁, hr₁, hlive₁, _⟩ := hr.updateAlignment hb hal hmaxpow (le_max_right _ _) hmaxlt
        (Nat.dvd_of_mod_eq_zero hlucky.1)
      have hb₁ := (congrFun hlive₁ b).trans (Function.update_self ..)
      exact hr₁.realloc_compact (hmay.congr ⟨rfl, rfl, rfl, rfl⟩) hb₁ (hcompact.realigned hal hlucky) hne hlt hfits h
    · next hmiss =>
      rw [if_neg hmiss] at hfits
      exact hr.alignedReallocMove_compact hmay hb hlt hmaxpow hmaxlt (hfits _ rfl) h

theorem Live.Compact.refused {nalignment : ℕ} (h : l.Compact b) :
    Live.Compact { l with view := { l.view with alignment := refusedAlignment l nalignment } } b := by
  cases hal : l.view.alignment with
  | none =>
    have hsame : refusedAlignment l nalignment = l.view.alignment := by rw [refusedAlignment, hal, Option.map_none]
    rw [hsame]
    exact h
  | some a =>
    rw [refusedAlignment, hal, Option.map_some]
    split
    · next hlucky => exact h.realigned hal hlucky
    · rw [← hal]
      exact h

/-! ### Resizing -/

variable {c : Resizing}

theorem Refines.resizing_compact (hr : Refines cfg main s status A idle) (hmay : MayCall main s status t)
    (hb : liveAt A b = some l) (hcompact : l.Compact b) (hc : c.Valid)
    (hfits : ∀ n ∈ (c.call l.user).request s, Fits s.heapMaster n)
    (h : c.run k t l.user s = .ok (some user, s')) : Compact s' user := by
  rcases Resizing.request_cases k t l.user s hc.pos with ⟨⟨hreuse, hway⟩, hrun⟩ | ⟨hrequest, hrun⟩
  · cases hrun.symm.trans h
    obtain ⟨A₁, l₁, hr₁, hb₁, huser, hcompact₁⟩ : ∃ A₁ l₁, Refines cfg main (c.edited l.user s) status A₁ idle ∧
        liveAt A₁ b = some l₁ ∧ l₁.user = l.user ∧ l₁.Compact b := by
      rcases hway with ⟨_, _, heq⟩ | ⟨hfake, hlucky, heq⟩
      · rw [heq]
        exact ⟨A, l, hr, hb, rfl, hcompact⟩
      · obtain ⟨hblock, _⟩ := hr.liveBlock hb
        obtain ⟨hbit, hclear⟩ := hblock.encodes.fakeWord hblock.taggable
        obtain ⟨a, hal⟩ : ∃ a, l.view.alignment = some a := Option.ne_none_iff_exists'.mp (mt hbit.mpr hfake)
        rw [hclear a hal] at hlucky
        obtain ⟨A₁, hr₁, hb₁⟩ := hr.alignmentEdited hb hc hfake (Nat.dvd_of_mod_eq_zero hlucky.1)
        rw [heq]
        exact ⟨A₁, _, hr₁, hb₁, rfl, hcompact.realigned hal hlucky⟩
    generalize c.edited l.user s = s₁ at *
    rw [← huser] at hreuse ⊢
    have hroom := (hr₁.dataSize hb₁).2.2.1
    rw [hr₁.dataSpace_eq hb₁] at hreuse
    have hsize : l₁.user + c.size ≤ b + l₁.len := by
      have := hreuse.1
      omega
    obtain ⟨A', hr', hlive', _⟩ := hr₁.resizeInPlace hb₁ hsize
    have hplace := (congrFun hlive' b).trans (Function.update_self ..)
    rw [hr₁.live_header hb₁]
    exact (hr'.compact_iff hplace).mpr (hcompact₁.inPlace (by omega) hreuse)
  · rw [hrun] at h
    obtain ⟨A₁, v, hr₁, hb₁, hsame₁⟩ := hr.edited hb hc
    obtain ⟨s₂, A₂, hfree, hr₂, _, _, hsame₂, _⟩ := hr₁.doFree hb₁ t
    obtain ⟨s₂', hs₂, h⟩ := Result.bind_eq_ok.mp h
    cases hfree.symm.trans hs₂
    obtain ⟨hpow, _, hlt⟩ := hc.alignment_ok
    have hsame := hsame₁.trans hsame₂
    obtain ⟨A', idle', b', l', hr', _, _, _, hlive', rfl, hcompact', _⟩ :=
      hr₂.memalign_compact (hmay.congr hsame) hc.size_lt hpow hlt ((hfits _ hrequest).congr hsame.params) h
    have hb' := (congrFun hlive' b').trans (Function.update_self ..)
    exact (hr'.compact_iff hb').mpr hcompact'

/-! ### Calls -/

theorem Refines.new_compact (hr : Refines cfg main s status A idle) (hmay : MayCall main s status t)
    (hsize : size < 2 ^ 64) (hpow : alignment.isPowerOfTwo) (halign : alignment < 2 ^ 64)
    (hfits : Fits s.heapMaster (memalignRequest alignment size))
    (h : Llheap.memalignNoStats k t alignment size s = .ok (some user, s')) : Compact s' user := by
  obtain ⟨A', idle', b, l, hr', _, _, _, hlive, rfl, hcompact, _⟩ := hr.memalign_compact hmay hsize hpow halign hfits h
  exact (hr'.compact_iff ((congrFun hlive b).trans (Function.update_self ..))).mpr hcompact

theorem Refines.malloc_compact (hr : Refines cfg main s status A idle) (hmay : MayCall main s status t)
    (hsize : size < 2 ^ 64) (hfits : Fits s.heapMaster size) (h : Llheap.doMalloc k t size s = .ok (some user, s')) :
    Compact s' user := by
  rw [← doMalloc_eq_memalign] at h
  exact hr.new_compact hmay hsize ⟨4, rfl⟩ (by decide) (memalignRequest_libAlign.symm ▸ hfits) h

theorem Refines.clear_compact (hr : Refines cfg main s status A idle) (hb : liveAt A b = some l)
    (hcompact : l.Compact b) : Compact (Llheap.zeroFill l.user b l.view.size s) l.user := by
  obtain ⟨A', hr', hlive', _⟩ := hr.zeroFill hb (hr.dataSize hb).2.2.1
  have hcleared := (congrFun hlive' b).trans (Function.update_self ..)
  exact (hr'.compact_iff hcleared).mpr ⟨hcompact.front, hcompact.whole⟩

theorem Refines.cmemalign_compact {dimension elemSize : ℕ} (hr : Refines cfg main s status A idle)
    (hmay : MayCall main s status t) (hpow : alignment.isPowerOfTwo) (halign : alignment < 2 ^ 64)
    (hfits : Fits s.heapMaster (memalignRequest alignment (dimension * elemSize % 2 ^ 64)))
    (h : Llheap.cmemalign k t alignment dimension elemSize s = .ok (some user, s')) : Compact s' user := by
  obtain ⟨⟨r₁, s₁⟩, hm, h⟩ := Result.bind_eq_ok.mp h
  cases r₁ with
  | none => cases h
  | some u =>
    cases h
    obtain ⟨A₁, _, b, l, hr₁, _, _, _, hlive₁, rfl, hcompact, _, hsize, _⟩ :=
      hr.memalign_compact hmay (Nat.mod_lt _ (by decide)) hpow halign hfits hm
    have hb : liveAt A₁ b = some l := (congrFun hlive₁ b).trans (Function.update_self ..)
    obtain ⟨hblock, _⟩ := hr₁.liveBlock hb
    rw [hblock.encodes.fakeHeader hblock.taggable, ← hsize]
    exact hr₁.clear_compact hb hcompact

theorem Refines.calloc_compact {dimension elemSize : ℕ} (hr : Refines cfg main s status A idle)
    (hmay : MayCall main s status t) (hfits : Fits s.heapMaster (dimension * elemSize % 2 ^ 64))
    (h : Llheap.calloc k t dimension elemSize s = .ok (some user, s')) : Compact s' user := by
  have hrequest : memalignRequest libAlign (dimension * elemSize % 2 ^ 64) = dimension * elemSize % 2 ^ 64 :=
    memalignRequest_libAlign
  rw [← hrequest] at hfits
  obtain ⟨⟨r₁, s₁⟩, hm, h⟩ := Result.bind_eq_ok.mp h
  rw [← doMalloc_eq_memalign] at hm
  cases r₁ with
  | none => cases h
  | some u =>
    cases h
    obtain ⟨A₁, _, b, l, hr₁, _, _, _, hlive₁, rfl, hcompact, _, hsize, hplain⟩ :=
      hr.memalign_compact hmay (Nat.mod_lt _ (by decide)) ⟨4, rfl⟩ (by decide) hfits hm
    have hb : liveAt A₁ b = some l := (congrFun hlive₁ b).trans (Function.update_self ..)
    rw [recordedAlignment, if_pos (.inl le_rfl)] at hplain
    have huser := (hr₁.liveBlock hb).1.encodes.plain hplain
    have hheader : headerAddr l.user = b := by rw [huser, headerAddr, Nat.add_sub_cancel]
    rw [hheader, ← hsize]
    exact hr₁.clear_compact hb hcompact

theorem Refines.call_compact {c : Call} (hr : Refines cfg main s status A idle) (hmay : MayCall main s status t)
    (hvalid : c.Valid) (hold : ∀ u ∈ c.oaddr, u ∈ users (liveAt A)) (hcompact : ∀ u ∈ c.oaddr, Compact s u)
    (hfits : ∀ n ∈ c.request s, Fits s.heapMaster n) (h : c.run k t s = .ok (some user, s')) : Compact s' user := by
  cases c with
  | malloc size => exact hr.malloc_compact hmay hvalid (hfits _ rfl) h
  | calloc dimension elemSize => exact hr.calloc_compact hmay (hfits _ rfl) h
  | memalign alignment size =>
    obtain ⟨hsize, hpow, halign⟩ := hvalid
    exact hr.new_compact hmay hsize hpow halign (hfits _ rfl) h
  | cmemalign alignment dimension elemSize =>
    obtain ⟨_, hpow, halign⟩ := hvalid
    exact hr.cmemalign_compact hmay hpow halign (hfits _ rfl) h
  | resize oaddr size =>
    cases oaddr with
    | none => exact hr.malloc_compact hmay hvalid (hfits _ rfl) h
    | some u =>
      obtain ⟨b, l, hb, rfl⟩ := hold u rfl
      have hlive := (hr.compact_iff hb).mp (hcompact _ rfl)
      exact hr.resizing_compact (c := .resize size) hmay hb hlive ⟨Call.size_pos h rfl, hvalid⟩ hfits h
  | alignedResize oaddr nalignment size =>
    obtain ⟨hsize, hpow, halign⟩ := id hvalid
    cases oaddr with
    | none => exact hr.new_compact hmay hsize hpow halign (hfits _ rfl) h
    | some u =>
      obtain ⟨b, l, hb, rfl⟩ := hold u rfl
      have hlive := (hr.compact_iff hb).mp (hcompact _ rfl)
      exact hr.resizing_compact (c := .alignedResize nalignment size) hmay hb hlive ⟨Call.size_pos h rfl, hvalid⟩ hfits h
  | realloc oaddr size =>
    cases oaddr with
    | none => exact hr.malloc_compact hmay hvalid (hfits _ rfl) h
    | some u =>
      obtain ⟨b, l, hb, rfl⟩ := hold u rfl
      have hlive := (hr.compact_iff hb).mp (hcompact _ rfl)
      have hpos : 0 < size := Call.size_pos h rfl
      exact hr.realloc_compact hmay hb hlive hpos.ne' hvalid hfits h
  | alignedRealloc oaddr nalignment size =>
    obtain ⟨hsize, hpow, halign⟩ := hvalid
    cases oaddr with
    | none => exact hr.new_compact hmay hsize hpow halign (hfits _ rfl) h
    | some u =>
      obtain ⟨b, l, hb, rfl⟩ := hold u rfl
      have hlive := (hr.compact_iff hb).mp (hcompact _ rfl)
      have hpos : 0 < size := Call.size_pos h rfl
      exact hr.alignedRealloc_compact hmay hb hlive hpos.ne' hsize hpow halign hfits h

theorem Refines.refused_compact {c : Call} (hr : Refines cfg main s status A idle) (hmay : MayCall main s status t)
    (hvalid : c.Valid) (hb : liveAt A b = some l) (hcompact : l.Compact b) (hold : c.oaddr = some l.user)
    (hgives : c.gives none = false) (h : c.run k t s = .ok (none, s')) : Compact s' l.user := by
  have hcases : ∀ c' : Reallocation, c = c'.call (some l.user) → Compact s' l.user := by
    rintro c' rfl
    have hpos : 0 < c'.size := by
      apply Nat.pos_of_ne_zero
      intro hzero
      cases c' with
      | realloc size | alignedRealloc nalignment size =>
        simp [Reallocation.call, Call.gives] at hgives
        exact hgives hzero
    obtain ⟨A', idle', hr', hlive, _⟩ := hr.reallocation hmay hb hvalid hpos (fun hne => absurd rfl hne) h
    have hb' := (congrFun hlive b).trans (Function.update_self ..)
    exact (hr'.compact_iff hb').mpr hcompact.refused
  cases c with
  | realloc oaddr size =>
    cases hold
    exact hcases (.realloc size) rfl
  | alignedRealloc oaddr nalignment size =>
    cases hold
    exact hcases (.alignedRealloc nalignment size) rfl
  | resize oaddr size | alignedResize oaddr nalignment size =>
    cases hold
    cases hgives
  | _ => cases hold

/-! ### Runs -/

theorem compact_others (h : Behind cfg main w A idle) (h' : Behind cfg main w' A' idle')
    (hothers : Others A A' w.st w'.st addr) (hu : u ∈ w.live) (hne : u ∉ addr) (hcompact : Compact w.st u) :
    Compact w'.st u := by
  rw [h.live] at hu
  obtain ⟨b, l, hb, rfl⟩ := hu
  obtain ⟨hb', _⟩ := hothers b l hb hne
  exact (h'.refines.compact_iff hb').mpr ((h.refines.compact_iff hb).mp hcompact)

theorem compact_given {lab : Label cfg} (h : Behind cfg main w A idle) (hs : Step main w lab w')
    (hcompact : ∀ u ∈ w.live, Compact w.st u) (hlive : u ∈ w'.live) (hu : u ∈ w.live → u ∈ lab.addr) :
    Compact w'.st u := by
  cases lab with
  | call k t c =>
    obtain ⟨hok, r, hrun, hlive', _⟩ := hs
    have hold : ∀ v ∈ c.oaddr, v ∈ users (liveAt A) := fun v hv => h.live ▸ hok.old v hv
    rw [hlive'] at hlive
    rcases hlive with hreturned | ⟨hwas, hkept⟩
    · obtain rfl : r = some u := hreturned
      exact h.refines.call_compact hok.may hok.valid hold (fun v hv => hcompact v (hok.old v hv)) hok.fits hrun
    · have hgives : c.gives r = false := Bool.eq_false_iff.mpr fun hgone => hkept ⟨hgone, hu hwas⟩
      cases r with
      | some v =>
        rw [Call.gives_some (hu hwas)] at hgives
        cases hgives
      | none =>
        obtain ⟨b, l, hb, rfl⟩ := hold u (hu hwas)
        have hcompact' := (h.refines.compact_iff hb).mp (hcompact _ hwas)
        exact h.refines.refused_compact hok.may hok.valid hb hcompact' (hu hwas) hgives hrun
  | usableSize addr =>
    obtain ⟨_, hst, hlive', _⟩ := hs
    rw [hlive'] at hlive
    obtain rfl : addr = some u := hu hlive
    obtain ⟨b, l, hb, rfl⟩ : u ∈ users (liveAt A) := h.live ▸ hlive
    obtain ⟨hfront, _⟩ := (h.refines.compact_iff hb).mp (hcompact _ hlive)
    obtain ⟨_, A', hr', hlive', _⟩ := h.refines.usableSize hb
    have hb' := (congrFun hlive' b).trans (Function.update_self ..)
    have hroom := (h.refines.dataSize hb).2.2.1
    rw [hst]
    refine (hr'.compact_iff hb').mpr ⟨hfront, ?_⟩
    dsimp only [Live.slack] at hfront ⊢
    rw [sizeofStorage] at *
    omega
  | free t addr =>
    obtain ⟨_, _, hlive', _⟩ := hs
    rw [hlive'] at hlive
    rcases hlive with hnone | ⟨hwas, hkept⟩
    · cases hnone
    · exact absurd ⟨rfl, hu hwas⟩ hkept
  | write addr offset byte =>
    obtain ⟨ha, hlt, hst, hlive', _⟩ := hs
    rw [hlive'] at hlive
    obtain rfl : addr = u := Option.some.inj (hu hlive)
    obtain ⟨A', h', hsame, _⟩ := write_behind byte h ha hlt
    obtain ⟨b, l, hb, rfl⟩ : addr ∈ users (liveAt A) := h.live ▸ ha
    rw [hst]
    exact (h'.refines.compact_iff (hsame ▸ hb)).mpr ((h.refines.compact_iff hb).mp (hcompact _ ha))
  | setErrno t e | mallopt option value | startup k => cases hu (hs.2.1 ▸ hlive)
  | dtor t => cases hu (hs.2.2.2.2.1 ▸ hlive)
  | terminate t => cases hu (hs.2.2.2.1 ▸ hlive)

theorem step_compact {lab : Label cfg} (h : Inv cfg main w) (hs : Step main w lab w')
    (hcompact : ∀ u ∈ w.live, Compact w.st u) : ∀ u ∈ w'.live, Compact w'.st u := by
  intro u hlive
  obtain ⟨A, idle, h⟩ := h
  by_cases hwas : u ∈ w.live ∧ u ∉ lab.addr
  · obtain ⟨hold, hne⟩ := hwas
    obtain ⟨A', idle', h', hothers⟩ := step_behind h hs
    exact compact_others h h' hothers hold hne (hcompact u hold)
  · exact compact_given h hs hcompact hlive fun hold => by_contra fun hne => hwas ⟨hold, hne⟩

theorem reachable_compact (h : (system cfg main).Reachable w) : ∀ u ∈ w.live, Compact w.st u := by
  induction h with
  | start h0 =>
    intro u hu
    rw [h0.2.2] at hu
    exact absurd hu (Set.notMem_empty u)
  | next hreach hs ih => exact step_compact (reachable_inv hreach) hs ih

/-- Whatever a program has done with an allocation, its block is at most twice as long as what it asks for now, with the header and the slack of its alignment. -/
theorem overhead_bounded (h : (system cfg main).Reachable w) (hu : u ∈ w.live) :
    (headers w.st u).size ≤ 2 * (mallocRequestSize w.st (some u) + slack w.st u + sizeofStorage) :=
  (reachable_compact h u hu).whole

/-- Nothing is wasted in front of an address without a fake header, and a request for no bytes gets the least bucket: 32 bytes for a header of 16. -/
theorem overhead_bounded_least : ∃ w, (system defaultConfig 0).Reachable w ∧ 134488080 ∈ w.live ∧
    (headers w.st 134488080).size = 32 ∧
    (headers w.st 134488080).size ≤ 2 * (mallocRequestSize w.st (some 134488080) + slack w.st 134488080 + sizeofStorage) ∧
    2 * (mallocRequestSize w.st (some 134488080) + slack w.st 134488080 + sizeofStorage) = 32 := by
  have hvalid : (Call.malloc 0).Valid := (by decide : 0 < 2 ^ 64)
  have hstep : (system defaultConfig 0).step World.booted (.call (.above defaultConfig) 0 (.malloc 0)) _ :=
    World.booted_call hvalid rfl (by decide +kernel) (by decide +kernel)
  have hreach := World.booted_reachable.next hstep
  have hlive : 134488080 ∈ (World.booted.call (.above defaultConfig) 0 (.malloc 0)).live := by
    refine .inl ?_
    decide +kernel
  exact ⟨_, hreach, hlive, by decide +kernel, overhead_bounded hreach hlive, by decide +kernel⟩

end Llheap
