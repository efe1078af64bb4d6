import Llheap.Proof.Blocks

/-!
# Header encoding

One word of a header holds a bucket address or a length, and up to three tags; an aligned address has a second header that leads back to the first. Writing a view and decoding it are inverse, and every in-place edit of a header changes the view in one field.
-/

namespace Llheap

variable {s : State} {m m' : Memory} {b n u : ℕ} {v : View}

/-! ### Tags -/

theorem tagged_and {base r c : ℕ} (hbase : 8 ∣ base) (hr : r < 8) (hc : c < 8) :
    (base + r) &&& c = r &&& c := by
  obtain ⟨q, rfl⟩ := hbase
  exact Rounding.and_low (k := 3) q hr hc

theorem tagged_or {base r c : ℕ} (hbase : 8 ∣ base) (hr : r < 8) (hc : c < 8) :
    (base + r) ||| c = base + (r ||| c) := by
  obtain ⟨q, rfl⟩ := hbase
  exact Rounding.or_low (k := 3) q hr hc

theorem tagged_and_high {base r c : ℕ} (hbase : 8 ∣ base) (hr : r < 8) (hc : c < 8)
    (hlt : base < 2 ^ 64) : (base + r) &&& (2 ^ 64 - 8 + c) = base + (r &&& c) := by
  obtain ⟨q, rfl⟩ := hbase
  exact Rounding.and_high (k := 3) (w := 64) (by decide) hlt hr hc

/-- The untagged part of a block's first word. -/
def Origin.word (n : ℕ) : Origin → ℕ
  | .bucket freeHead => freeHead
  | .mapped => n

def View.tags (v : View) : ℕ := (if v.origin = .mapped then 4 else 0) + if v.zeroFill then 2 else 0

/-- The first word of the header of a block with this view. -/
def View.word (v : View) (n : ℕ) : ℕ := v.origin.word n + v.tags

/-- The numbers in a header leave room for the tags. -/
structure View.Taggable (v : View) (n : ℕ) : Prop where
  word_dvd : 8 ∣ v.origin.word n
  word_lt : v.origin.word n < 2 ^ 64
  size_lt : v.size < 2 ^ 64
  alignment_dvd : ∀ a ∈ v.alignment, 8 ∣ a
  alignment_lt : ∀ a ∈ v.alignment, a < 2 ^ 64

theorem View.tags_lt (v : View) : v.tags < 8 := by
  unfold View.tags
  split <;> split <;> decide

theorem View.stickyBits_eq_zero (hv : v.Taggable n) :
    stickyBits (v.word n) = 0 ↔ v.origin ≠ .mapped ∧ v.zeroFill = false := by
  rw [stickyBits, View.word, tagged_and hv.word_dvd v.tags_lt (by decide), View.tags]
  cases v.zeroFill <;> by_cases hm : v.origin = .mapped <;> simp [hm]

theorem View.alignmentBit (hv : v.Taggable n) : alignmentBit (v.word n) = 0 := by
  rw [Llheap.alignmentBit, View.word, tagged_and hv.word_dvd v.tags_lt (by decide), View.tags]
  split <;> split <;> decide

theorem View.zeroFillBit (hv : v.Taggable n) :
    zeroFillBit (v.word n) ≠ 0 ↔ v.zeroFill = true := by
  rw [Llheap.zeroFillBit, View.word, tagged_and hv.word_dvd v.tags_lt (by decide), View.tags]
  cases v.zeroFill <;> by_cases hm : v.origin = .mapped <;> simp [hm]

theorem View.mmappedBit (hv : v.Taggable n) : mmappedBit (v.word n) ≠ 0 ↔ v.origin = .mapped := by
  rw [Llheap.mmappedBit, View.word, tagged_and hv.word_dvd v.tags_lt (by decide), View.tags]
  cases v.zeroFill <;> by_cases hm : v.origin = .mapped <;> simp [hm]

theorem View.clearStickyBits (hv : v.Taggable n) : clearStickyBits (v.word n) = v.origin.word n := by
  have h := tagged_and_high (r := v.tags) (c := 0) hv.word_dvd v.tags_lt (by decide) hv.word_lt
  rw [Nat.and_zero] at h
  exact h

theorem View.markZeroFilledBit (hv : v.Taggable n) :
    markZeroFilledBit (v.word n) = { v with zeroFill := true }.word n := by
  rw [Llheap.markZeroFilledBit, View.word, tagged_or hv.word_dvd v.tags_lt (by decide), View.word,
    View.tags, View.tags]
  cases v.zeroFill <;> by_cases hm : v.origin = .mapped <;> simp [hm]

theorem View.clearZeroFillBit (hv : v.Taggable n) :
    clearZeroFillBit (v.word n) = { v with zeroFill := false }.word n := by
  have h := tagged_and_high (r := v.tags) (c := 5) hv.word_dvd v.tags_lt (by decide) hv.word_lt
  rw [Llheap.clearZeroFillBit, View.word]
  refine h.trans ?_
  rw [View.word, View.tags, View.tags]
  cases v.zeroFill <;> by_cases hm : v.origin = .mapped <;> simp [hm]

theorem View.word_lt (hv : v.Taggable n) : v.word n < 2 ^ 64 := by
  have := v.tags_lt
  have := hv.word_lt
  obtain ⟨q, hq⟩ := hv.word_dvd
  unfold View.word
  omega

theorem markAlignmentBit_eq {a : ℕ} (ha : 8 ∣ a) : markAlignmentBit a = a + 1 :=
  tagged_or (r := 0) ha (by decide) (by decide)

/-! ### A block's header -/

/-- The header of the block `[b, b + n)` records `v`, and `u` is the address the program has. -/
structure Encodes (m : Memory) (b n u : ℕ) (v : View) : Prop where
  home : m.word b = v.word n
  size : m.word (sizeField b) = v.size
  plain : v.alignment = none → u = b + sizeofStorage
  fake : ∀ a ∈ v.alignment, b + 2 * sizeofStorage ≤ u ∧ m.word (headerAddr u) = a + 1 ∧
    m.word (sizeField (headerAddr u)) = headerAddr u - b

theorem Encodes.user_after (h : Encodes m b n u v) :
    b + 16 ≤ u ∧ (v.alignment.isSome → headerAddr u + 16 = u) := by
  cases ha : v.alignment with
  | none => exact ⟨(h.plain ha).ge, nofun⟩
  | some a =>
    obtain ⟨hroom, _⟩ := h.fake a ha
    rw [sizeofStorage] at hroom
    exact ⟨by omega, fun _ => by rw [headerAddr, sizeofStorage]; omega⟩

theorem Encodes.fakeHeader (h : Encodes m b n u v) (hv : v.Taggable n) :
    fakeHeader m (headerAddr u) = (b, v.alignment.getD libAlign) := by
  unfold Llheap.fakeHeader
  cases ha : v.alignment with
  | none =>
    have hu : headerAddr u = b := by rw [h.plain ha, headerAddr, Nat.add_sub_cancel]
    rw [hu, h.home, View.alignmentBit hv]
    rfl
  | some a =>
    obtain ⟨hroom, hword, hoffset⟩ := h.fake a ha
    have hdvd := hv.alignment_dvd a ha
    have hbit : alignmentBit (a + 1) = 1 := tagged_and hdvd (by decide) (by decide)
    have hclear : clearAlignmentBit (a + 1) = a :=
      tagged_and_high (r := 1) (c := 6) hdvd (by decide) (by decide) (hv.alignment_lt a ha)
    rw [hword, hbit, if_pos Nat.one_ne_zero, hclear, realHeader, hoffset, Option.getD_some]
    have hle : b ≤ headerAddr u := by rw [headerAddr]; simp only [sizeofStorage] at *; omega
    rw [Nat.sub_sub_self hle]

/-- The word in front of the program's address tells a fake header from a real one. -/
theorem Encodes.fakeWord (h : Encodes m b n u v) (hv : v.Taggable n) :
    (Llheap.alignmentBit (m.word (headerAddr u)) = 0 ↔ v.alignment = none) ∧
      ∀ a ∈ v.alignment, clearAlignmentBit (m.word (headerAddr u)) = a := by
  cases ha : v.alignment with
  | none =>
    rw [h.plain ha, headerAddr, Nat.add_sub_cancel, h.home, View.alignmentBit hv]
    exact ⟨⟨fun _ => rfl, fun _ => rfl⟩, nofun⟩
  | some a =>
    have hdvd := hv.alignment_dvd a ha
    have hbit : Llheap.alignmentBit (a + 1) = 1 := tagged_and hdvd (by decide) (by decide)
    rw [(h.fake a ha).2.1, hbit]
    refine ⟨⟨nofun, nofun⟩, fun c hc => Option.some.inj hc ▸ ?_⟩
    exact tagged_and_high (r := 1) (c := 6) hdvd (by decide) (by decide) (hv.alignment_lt a ha)

/-- The bucket a block goes back to, null for a mapped one. -/
def Origin.freeHead : Origin → ℕ
  | .bucket freeHead => freeHead
  | .mapped => 0

theorem Encodes.headers (h : Encodes s.mem b n u v) (hv : v.Taggable n) :
    headers s u = ⟨v.origin = .mapped, b, v.origin.freeHead,
      if v.origin = .mapped then n else (s.freeHeader v.origin.freeHead).blockSize,
      v.alignment.getD libAlign⟩ := by
  unfold Llheap.headers
  dsimp only
  split
  · next hsticky =>
    cases ha : v.alignment with
    | none =>
      have hu : headerAddr u = b := by rw [h.plain ha, headerAddr, Nat.add_sub_cancel]
      rw [hu, h.home] at hsticky ⊢
      obtain ⟨horigin, hzf⟩ := (View.stickyBits_eq_zero hv).mp hsticky
      cases ho : v.origin with
      | mapped => exact absurd ho horigin
      | bucket f => simp [View.word, View.tags, ho, hzf, Origin.word, Origin.freeHead]
    | some a =>
      obtain ⟨_, hword, _⟩ := h.fake a ha
      have hbit : stickyBits (a + 1) = 1 :=
        tagged_and (hv.alignment_dvd a ha) (by decide) (by decide)
      rw [hword, hbit] at hsticky
      cases hsticky
  · rw [h.fakeHeader hv]
    dsimp only
    rw [h.home, View.clearStickyBits hv]
    cases ho : v.origin with
    | mapped =>
      rw [if_pos ((View.mmappedBit hv).mpr ho)]
      simp [Origin.word, Origin.freeHead]
    | bucket f =>
      rw [if_neg fun hm => by rw [(View.mmappedBit hv).mp hm] at ho; cases ho]
      simp [Origin.word, Origin.freeHead]

theorem queryHeader_eq (m : Memory) (addr : ℕ) :
    queryHeader m addr = (Llheap.fakeHeader m (headerAddr addr)).1 := by
  unfold queryHeader Llheap.fakeHeader
  split <;> rfl

theorem Encodes.mallocRequestSize (h : Encodes s.mem b n u v) (hv : v.Taggable n) :
    mallocRequestSize s (some u) = v.size := by
  rw [Llheap.mallocRequestSize, queryHeader_eq, h.fakeHeader hv]
  exact h.size

theorem Encodes.mallocZeroFill (h : Encodes s.mem b n u v) (hv : v.Taggable n) :
    mallocZeroFill s (some u) = v.zeroFill := by
  rw [Llheap.mallocZeroFill, queryHeader_eq, h.fakeHeader hv, h.home]
  have := View.zeroFillBit hv
  cases hzf : v.zeroFill <;> simp_all

theorem mallocAlignment_eq (s : State) (addr : ℕ) :
    mallocAlignment s (some addr) = (Llheap.fakeHeader s.mem (headerAddr addr)).2 := by
  unfold mallocAlignment Llheap.fakeHeader
  dsimp only
  split <;> rfl

theorem Encodes.mallocAlignment (h : Encodes s.mem b n u v) (hv : v.Taggable n) :
    mallocAlignment s (some u) = v.alignment.getD libAlign := by
  rw [mallocAlignment_eq, h.fakeHeader hv]

/-! ### Edits -/

theorem Encodes.congr (h : Encodes m b n u v) (hhead : Set.EqOn m' m (Set.Ico b (b + 16)))
    (hfake : v.alignment.isSome → Set.EqOn m' m (Set.Ico (headerAddr u) (headerAddr u + 16))) :
    Encodes m' b n u v := by
  have hword : ∀ a, Set.EqOn m' m (Set.Ico a (a + 16)) →
      m'.word a = m.word a ∧ m'.word (sizeField a) = m.word (sizeField a) := by
    intro a ha
    constructor
    · exact Memory.word_congr (ha.mono (Set.Ico_subset_Ico le_rfl (by omega)))
    · exact Memory.word_congr (ha.mono (Set.Ico_subset_Ico (by rw [sizeField]; omega)
        (by simp only [sizeField]; omega)))
  refine ⟨(hword b hhead).1.trans h.home, (hword b hhead).2.trans h.size, h.plain, fun a ha => ?_⟩
  obtain ⟨hroom, hal, hoff⟩ := h.fake a ha
  have hu := hfake (by rw [Option.isSome_iff_exists]; exact ⟨a, ha⟩)
  exact ⟨hroom, (hword _ hu).1.trans hal, (hword _ hu).2.trans hoff⟩

theorem Encodes.setSize (h : Encodes m b n u v) {size : ℕ} (hsize : size < 2 ^ 64) :
    Encodes (m.setWord (sizeField b) size) b n u { v with size := size } := by
  refine ⟨?_, Memory.word_setWord_self hsize, h.plain, fun a ha => ?_⟩
  · rw [Memory.word_setWord_of_disjoint (by rw [sizeField]; omega)]
    exact h.home
  · obtain ⟨hroom, hal, hoff⟩ := h.fake a ha
    rw [sizeofStorage] at hroom
    refine ⟨hroom, ?_, ?_⟩ <;>
      rw [Memory.word_setWord_of_disjoint (by simp only [headerAddr, sizeField, sizeofStorage]; omega)]
    · exact hal
    · exact hoff

theorem Encodes.setHome (h : Encodes m b n u v) {w : View} (hw : w.Taggable n)
    (hsize : w.size = v.size) (halign : w.alignment = v.alignment) :
    Encodes (m.setWord b (w.word n)) b n u w := by
  refine ⟨Memory.word_setWord_self (View.word_lt hw), ?_, fun ha => h.plain (halign ▸ ha),
    fun a ha => ?_⟩
  · rw [Memory.word_setWord_of_disjoint (by rw [sizeField]; omega), hsize]
    exact h.size
  · obtain ⟨hroom, hal, hoff⟩ := h.fake a (halign ▸ ha)
    rw [sizeofStorage] at hroom
    refine ⟨hroom, ?_, ?_⟩ <;>
      rw [Memory.word_setWord_of_disjoint (by simp only [headerAddr, sizeField, sizeofStorage]; omega)]
    · exact hal
    · exact hoff

theorem View.Taggable.withZeroFill (hv : v.Taggable n) (z : Bool) :
    { v with zeroFill := z }.Taggable n :=
  ⟨hv.word_dvd, hv.word_lt, hv.size_lt, hv.alignment_dvd, hv.alignment_lt⟩

theorem View.Taggable.withSize (hv : v.Taggable n) {size : ℕ} (hsize : size < 2 ^ 64) :
    { v with size := size }.Taggable n :=
  ⟨hv.word_dvd, hv.word_lt, hsize, hv.alignment_dvd, hv.alignment_lt⟩

theorem View.Taggable.withAlignment (hv : v.Taggable n) {a : ℕ} (hdvd : 8 ∣ a) (hlt : a < 2 ^ 64) :
    { v with alignment := some a }.Taggable n :=
  ⟨hv.word_dvd, hv.word_lt, hv.size_lt, fun _ ha => Option.some.inj ha ▸ hdvd,
    fun _ ha => Option.some.inj ha ▸ hlt⟩

theorem Encodes.markZeroFilled (h : Encodes m b n u v) (hv : v.Taggable n) :
    Encodes (m.setWord b (markZeroFilledBit (m.word b))) b n u { v with zeroFill := true } := by
  rw [h.home, View.markZeroFilledBit hv]
  exact h.setHome (hv.withZeroFill true) rfl rfl

theorem Encodes.clearZeroFill (h : Encodes m b n u v) (hv : v.Taggable n) :
    Encodes (m.setWord b (clearZeroFillBit (m.word b))) b n u { v with zeroFill := false } := by
  rw [h.home, View.clearZeroFillBit hv]
  exact h.setHome (hv.withZeroFill false) rfl rfl

theorem Encodes.setAlignment (h : Encodes m b n u v) {a₀ a : ℕ} (hfake : v.alignment = some a₀)
    (hdvd : 8 ∣ a) (hlt : a < 2 ^ 64) :
    Encodes (m.setWord (headerAddr u) (markAlignmentBit a)) b n u { v with alignment := some a } := by
  obtain ⟨hroom, _, hoff⟩ := h.fake a₀ hfake
  rw [sizeofStorage] at hroom
  have hword : a + 1 < 2 ^ 64 := by omega
  rw [markAlignmentBit_eq hdvd]
  refine ⟨?_, ?_, nofun, fun c hc => ?_⟩
  · rw [Memory.word_setWord_of_disjoint (by simp only [headerAddr, sizeofStorage]; omega)]
    exact h.home
  · rw [Memory.word_setWord_of_disjoint (by simp only [headerAddr, sizeField, sizeofStorage]; omega)]
    exact h.size
  · cases hc
    refine ⟨hroom, Memory.word_setWord_self hword, ?_⟩
    rw [Memory.word_setWord_of_disjoint (by rw [sizeField]; omega)]
    exact hoff

theorem setHeader_encodes {w : View} (hw : w.Taggable n) (hplain : w.alignment = none) :
    Encodes (setHeader b (w.word n) w.size s).mem b n (b + sizeofStorage) w := by
  refine ⟨?_, Memory.word_setWord_self hw.size_lt, fun _ => rfl, fun a ha => ?_⟩
  · rw [setHeader, Memory.word_setWord_of_disjoint (by rw [sizeField]; omega)]
    exact Memory.word_setWord_self (View.word_lt hw)
  · rw [hplain] at ha
    cases ha

theorem markMmappedBit_eq (hn : 8 ∣ n) (z : ℕ) :
    markMmappedBit n = View.word ⟨.mapped, false, z, none⟩ n :=
  tagged_or (r := 0) hn (by decide) (by decide)

theorem setHeader_encodes_bucket {f size : ℕ} (hv : View.Taggable ⟨.bucket f, false, size, none⟩ n) :
    Encodes (setHeader b f size s).mem b n (b + sizeofStorage) ⟨.bucket f, false, size, none⟩ := by
  have henc := setHeader_encodes (b := b) (s := s) hv rfl
  exact henc

theorem setHeader_encodes_mapped {size : ℕ} (hn : 8 ∣ n)
    (hv : View.Taggable ⟨.mapped, false, size, none⟩ n) :
    Encodes (setHeader b (markMmappedBit n) size s).mem b n (b + sizeofStorage)
      ⟨.mapped, false, size, none⟩ := by
  rw [markMmappedBit_eq hn size]
  exact setHeader_encodes hv rfl

theorem setHeader_mem_of_outside {home size x : ℕ} (hx : x < b ∨ b + 16 ≤ x) :
    (setHeader b home size s).mem x = s.mem x := by
  rw [setHeader]
  dsimp only
  rw [Memory.setWord_apply_of_outside (by rw [sizeField]; omega),
    Memory.setWord_apply_of_outside (by omega)]

/-- The headers that `memalignNoStats` leaves. -/
theorem setFakeHeader_encodes {addr user a size : ℕ} (h : Encodes s.mem b n addr v)
    (hplain : v.alignment = none) (huser : addr + sizeofStorage ≤ user) (hlt : user < 2 ^ 64)
    (hdvd : 8 ∣ a) (ha : a < 2 ^ 64) (hsize : size < 2 ^ 64) :
    Encodes (setFakeHeader addr user a size s).mem b n user
      { v with size := size, alignment := some a } := by
  have haddr := h.plain hplain
  have hb : headerAddr addr = b := by rw [haddr, headerAddr, Nat.add_sub_cancel]
  rw [sizeofStorage] at huser haddr
  have hword : a + 1 < 2 ^ 64 := by omega
  have hfar : b + 16 ≤ headerAddr user := by rw [headerAddr, sizeofStorage]; omega
  rw [setFakeHeader, hb, markAlignmentBit_eq hdvd]
  refine ⟨?_, ?_, nofun, fun c hc => ?_⟩ <;> dsimp only
  · rw [Memory.word_setWord_of_disjoint (by omega),
      Memory.word_setWord_of_disjoint (by rw [sizeField]; omega),
      Memory.word_setWord_of_disjoint (by rw [sizeField]; omega)]
    exact h.home
  · rw [Memory.word_setWord_of_disjoint (by rw [sizeField]; omega),
      Memory.word_setWord_of_disjoint (by simp only [sizeField]; omega),
      Memory.word_setWord_self hsize]
  · cases hc
    refine ⟨by simp only [sizeofStorage]; omega, Memory.word_setWord_self hword, ?_⟩
    rw [Memory.word_setWord_of_disjoint (by rw [sizeField]; omega),
      Memory.word_setWord_self (by rw [headerAddr, sizeofStorage]; omega)]

theorem setFakeHeader_mem_of_outside {addr user a size x : ℕ} (haddr : addr = b + sizeofStorage)
    (huser : addr + sizeofStorage ≤ user) (hx : x < b ∨ user ≤ x) :
    (setFakeHeader addr user a size s).mem x = s.mem x := by
  rw [sizeofStorage] at haddr huser
  rw [setFakeHeader]
  simp only [headerAddr, sizeofStorage, sizeField]
  rw [Memory.setWord_apply_of_outside (by omega), Memory.setWord_apply_of_outside (by omega),
    Memory.setWord_apply_of_outside (by omega)]

end Llheap
