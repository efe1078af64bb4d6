import Llheap.Base.Rounding

/-!
# Size arithmetic and the bucket table

The 64-bit arithmetic of `llheap.cc`, the table of bucket sizes for a 16-byte header, and the two ways a request is mapped to a bucket: the lookup table built at start-up and the binary search.
-/

namespace Llheap

/-- `sizeof(Heap::Storage)` -/
@[simp] def sizeofStorage : ℕ := 16

/-- `__ALIGN__` -/
@[simp] def libAlign : ℕ := 16

theorem align_dvd_of_le {a : ℕ} (ha : a.isPowerOfTwo) (hle : libAlign ≤ a) : 16 ∣ a :=
  Rounding.dvd_of_isPowerOfTwo ⟨4, rfl⟩ ha hle

theorem word_dvd_of_le {a : ℕ} (ha : a.isPowerOfTwo) (hle : libAlign ≤ a) : 8 ∣ a :=
  Rounding.dvd_of_isPowerOfTwo ⟨3, rfl⟩ ha (Nat.le_trans (by decide) hle)

/-- Subtraction of two `size_t` values. -/
def sub64 (x y : ℕ) : ℕ := (x + (2 ^ 64 - y)) % 2 ^ 64

/-- A 64-bit word read as a `ptrdiff_t` is below zero. -/
def negative (x : ℕ) : Prop := 2 ^ 63 ≤ x

instance (x : ℕ) : Decidable (negative x) := inferInstanceAs (Decidable (_ ≤ _))

def floor (value alignment : ℕ) : ℕ := value &&& (2 ^ 64 - alignment) % 2 ^ 64

def ceiling (value alignment : ℕ) : ℕ :=
  (2 ^ 64 - floor ((2 ^ 64 - value) % 2 ^ 64) alignment) % 2 ^ 64

theorem sub64_of_le {x y : ℕ} (hx : x < 2 ^ 64) (h : y ≤ x) : sub64 x y = x - y := by
  unfold sub64
  omega

theorem sub64_of_lt {x y : ℕ} (hy : y < 2 ^ 64) (h : x < y) : sub64 x y = 2 ^ 64 - (y - x) := by
  unfold sub64
  omega

theorem ceiling_eq {v k : ℕ} (hv : v < 2 ^ 64) (hk : k < 64) :
    ceiling v (2 ^ k) = (v + (2 ^ k - 1)) / 2 ^ k * 2 ^ k % 2 ^ 64 := by
  have hneg : (2 ^ 64 - v) % 2 ^ 64 < 2 ^ 64 := Nat.mod_lt _ (by decide)
  rw [ceiling, floor, Rounding.and_neg_two_pow hk hneg, Rounding.neg_roundDown_neg hk hv]

theorem lt_64_of_two_pow_lt {k : ℕ} (h : 2 ^ k < 2 ^ 64) : k < 64 :=
  (Nat.pow_lt_pow_iff_right (by decide)).mp h

theorem ceiling_dvd {v a : ℕ} (hv : v < 2 ^ 64) (ha : a.isPowerOfTwo) (ha64 : a < 2 ^ 64) :
    a ∣ ceiling v a := by
  obtain ⟨k, rfl⟩ := ha
  have hk := lt_64_of_two_pow_lt ha64
  rw [ceiling_eq hv hk]
  exact (Nat.dvd_mod_iff (pow_dvd_pow 2 hk.le)).mpr (dvd_mul_left _ _)

theorem ceiling_bounds {v a : ℕ} (ha : a.isPowerOfTwo) (h : v + a ≤ 2 ^ 64) :
    v ≤ ceiling v a ∧ ceiling v a < v + a := by
  obtain ⟨k, rfl⟩ := ha
  have hpos : 0 < 2 ^ k := Nat.two_pow_pos k
  obtain ⟨hle, hlt⟩ := Rounding.roundUp_bounds (v := v) hpos
  rcases Nat.lt_or_ge v (2 ^ 64) with hv | hv
  · rcases Nat.lt_or_ge k 64 with hk | hk
    · rw [ceiling_eq hv hk, Nat.mod_eq_of_lt (by omega)]
      exact ⟨hle, hlt⟩
    · have : 2 ^ 64 ≤ 2 ^ k := Nat.pow_le_pow_right (by decide) hk
      have hzero : v = 0 := by omega
      subst hzero
      simp [ceiling, floor]
  · omega

theorem ceiling_of_dvd {v a : ℕ} (ha : a.isPowerOfTwo) (ha64 : a < 2 ^ 64) (hdvd : a ∣ v)
    (h : v + a ≤ 2 ^ 64) : ceiling v a = v := by
  have hapos : 0 < a := Nat.pos_of_isPowerOfTwo ha
  obtain ⟨hle, hlt⟩ := ceiling_bounds ha h
  have hceil : a ∣ ceiling v a := ceiling_dvd (by omega) ha ha64
  obtain ⟨d, hd⟩ := (Nat.dvd_sub hceil hdvd : a ∣ ceiling v a - v)
  have hd0 : d = 0 := by
    by_contra hne
    have : a * 1 ≤ a * d := Nat.mul_le_mul_left a (by omega)
    omega
  subst hd0
  omega

theorem ceiling_wraps {v a : ℕ} (ha : a.isPowerOfTwo) (ha64 : a < 2 ^ 64) (hv : v < 2 ^ 64)
    (h : 2 ^ 64 < v + a) : ceiling v a = 0 := by
  obtain ⟨k, rfl⟩ := ha
  have hk := lt_64_of_two_pow_lt ha64
  have hpow : 2 ^ (64 - k) * 2 ^ k = 2 ^ 64 := by rw [← pow_add, Nat.sub_add_cancel hk.le]
  have hquot : (v + (2 ^ k - 1)) / 2 ^ k = 2 ^ (64 - k) := by
    rw [Nat.div_eq_iff (Nat.two_pow_pos k)]
    rw [hpow]
    omega
  rw [ceiling_eq hv hk, hquot, hpow, Nat.mod_self]

/-! ### The table -/

/-- `bucketSizes[]` for `sizeof(Heap::Storage) = 16` -/
def bucketSizes : List ℕ := [
  16 + 16, 32 + 16, 48 + 16, 64 + 16,
  96 + 16, 128 + 16,
  160, 192, 224, 256 + 16,
  320, 384, 448, 512 + 16,
  640, 768, 896, 1024 + 16,
  1536, 2048 + 16,
  2560, 3072, 3584, 4096 + 16,
  6144, 8192 + 16,
  10240, 12288, 14336, 16384 + 16,
  20480, 24576, 28672, 32768 + 16,
  40960, 49152, 57344, 65536 + 16,
  81920, 98304, 114688, 131072 + 16,
  163840, 196608, 229376, 262144 + 16,
  327680, 393216, 458752, 524288 + 16,
  786432, 1048576 + 16,
  1572864, 2097152 + 16,
  3145728, 4194304 + 16,
  6291456, 8388608 + 16, 12582912, 16777216 + 16,
  25165824 + 16, 33554432 + 16,
  50331648 + 16, 67108864 + 16]

/-- `Heap::NoBucketSizes` -/
@[simp] def noBucketSizes : ℕ := 64

/-- `LookupSizes` -/
@[simp] def lookupSizes : ℕ := 65536 + 16

def bucketSize (i : ℕ) : ℕ := bucketSizes.getD i 0

private theorem bucketSize_lt_succ : ∀ i < 63, bucketSize i < bucketSize (i + 1) := by decide

theorem bucketSize_lt {i j : ℕ} (hij : i < j) (hj : j < noBucketSizes) :
    bucketSize i < bucketSize j := by
  rw [noBucketSizes] at hj
  induction j, hij using Nat.le_induction with
  | base => exact bucketSize_lt_succ i (by omega)
  | succ j hij ih => exact (ih (by omega)).trans (bucketSize_lt_succ j (by omega))

theorem bucketSize_le {i j : ℕ} (hij : i ≤ j) (hj : j < noBucketSizes) :
    bucketSize i ≤ bucketSize j := by
  rcases Nat.lt_or_eq_of_le hij with hlt | rfl
  · exact (bucketSize_lt hlt hj).le
  · exact le_rfl

theorem le_bucketSize {i : ℕ} (hi : i < noBucketSizes) : 32 ≤ bucketSize i :=
  (by decide : 32 ≤ bucketSize 0).trans (bucketSize_le (Nat.zero_le i) hi)

theorem bucketSize_le_last {i : ℕ} (hi : i < noBucketSizes) : bucketSize i ≤ 67108880 :=
  bucketSize_le (j := 63) (by rw [noBucketSizes] at hi; omega) (by decide)

theorem align_dvd_bucketSize {i : ℕ} (hi : i < noBucketSizes) : 16 ∣ bucketSize i := by
  revert i
  decide

/-! ### Binary search -/

def bsearchlLoop (key : ℕ) (vals : ℕ → ℕ) (l h : ℕ) : ℕ :=
  if l < h then
    let m := (l + h) / 2
    if vals m < key then bsearchlLoop key vals (m + 1) h else bsearchlLoop key vals l m
  else l
termination_by h - l

/-- `Bsearchl`. The key is an `unsigned int`, so a larger argument is truncated to 32 bits. -/
def bsearchl (key : ℕ) (vals : ℕ → ℕ) (dimension : ℕ) : ℕ :=
  bsearchlLoop (key % 2 ^ 32) vals 0 dimension

/-- The loop keeps everything left of `l` below the key and everything from `h` on at or above it. -/
private theorem bsearchlLoop_spec {key dimension : ℕ} {vals : ℕ → ℕ}
    (hmono : ∀ i j, i ≤ j → j < dimension → vals i ≤ vals j) (l h : ℕ) (hlh : l ≤ h)
    (hh : h ≤ dimension) (hleft : ∀ i < l, vals i < key)
    (hright : ∀ i, h ≤ i → i < dimension → key ≤ vals i) :
    bsearchlLoop key vals l h ≤ dimension ∧ (∀ i < bsearchlLoop key vals l h, vals i < key) ∧
      ∀ i, bsearchlLoop key vals l h ≤ i → i < dimension → key ≤ vals i := by
  induction l, h using bsearchlLoop.induct key vals with
  | case1 l h hlt m hm ih =>
    rw [bsearchlLoop, if_pos hlt, if_pos hm]
    have hmh : m < h := by omega
    refine ih hmh hh (fun i hi => ?_) hright
    exact (hmono i m (by omega) (by omega)).trans_lt hm
  | case2 l h hlt m hm ih =>
    rw [bsearchlLoop, if_pos hlt, if_neg hm]
    refine ih (by omega) (by omega) hleft fun i hi hid => ?_
    exact (not_lt.mp hm).trans (hmono m i hi hid)
  | case3 l h hge =>
    rw [bsearchlLoop, if_neg hge]
    exact ⟨by omega, hleft, fun i hi => hright i (by omega)⟩

/-- `Bsearchl` finds the least index whose value reaches the key, or `dimension` when none does. -/
theorem bsearchl_spec (key dimension : ℕ) (vals : ℕ → ℕ) (hkey : key < 2 ^ 32)
    (hmono : ∀ i j, i ≤ j → j < dimension → vals i ≤ vals j) :
    bsearchl key vals dimension ≤ dimension ∧ (∀ i < bsearchl key vals dimension, vals i < key) ∧
      ∀ i, bsearchl key vals dimension ≤ i → i < dimension → key ≤ vals i := by
  rw [bsearchl, Nat.mod_eq_of_lt hkey]
  exact bsearchlLoop_spec hmono 0 dimension (Nat.zero_le _) le_rfl (by simp) (by omega)

/-! ### The lookup table -/

/-- The bucket index of the start-up loop after its step for `i`. -/
def lookupIdx (vals : ℕ → ℕ) : ℕ → ℕ
  | 0 => if 0 > vals 0 then 1 else 0
  | i + 1 =>
    let idx := lookupIdx vals i
    if i + 1 > vals idx then idx + 1 else idx

/-- The assertion of the loop's step for `i`. -/
def lookupAssert (vals : ℕ → ℕ) (i : ℕ) : Prop :=
  i ≤ vals (lookupIdx vals i) ∨ i > vals (lookupIdx vals i - 1)

/-- `lookup[i]`, an `unsigned char` -/
def lookup (i : ℕ) : ℕ := lookupIdx bucketSize i % 256

theorem lookupIdx_spec {i : ℕ} (hi : i ≤ 67108880) :
    lookupIdx bucketSize i < noBucketSizes ∧ i ≤ bucketSize (lookupIdx bucketSize i) ∧
      ∀ j < lookupIdx bucketSize i, bucketSize j < i := by
  induction i with
  | zero =>
    have hzero : lookupIdx bucketSize 0 = 0 := by decide
    rw [hzero]
    exact ⟨by decide, Nat.zero_le _, by simp⟩
  | succ i ih =>
    obtain ⟨hidx, hle, hbelow⟩ := ih (by omega)
    rw [lookupIdx]
    rw [noBucketSizes] at hidx
    split
    · next hpast =>
      have hlast : lookupIdx bucketSize i < 63 := by
        by_contra hge
        have hidx63 : lookupIdx bucketSize i = 63 := by omega
        rw [hidx63] at hpast
        have : bucketSize 63 = 67108880 := by decide
        omega
      have hnext := bucketSize_lt (Nat.lt_add_one (lookupIdx bucketSize i)) (by rw [noBucketSizes]; omega)
      refine ⟨by rw [noBucketSizes]; omega, by omega, fun j hj => ?_⟩
      have := bucketSize_le (i := j) (j := lookupIdx bucketSize i) (by omega) (by rw [noBucketSizes]; omega)
      omega
    · next hin =>
      exact ⟨hidx, by omega, fun j hj => (hbelow j hj).trans (Nat.lt_succ_self i)⟩

theorem lookup_eq {i : ℕ} (hi : i ≤ 67108880) : lookup i = lookupIdx bucketSize i := by
  have hlt := (lookupIdx_spec hi).1
  rw [noBucketSizes] at hlt
  exact Nat.mod_eq_of_lt (by omega)

theorem lookupAssert_bucketSize {i : ℕ} (hi : i < lookupSizes) : lookupAssert bucketSize i := by
  rw [lookupSizes] at hi
  exact Or.inl (lookupIdx_spec (by omega)).2.1

/-- The bucket for a request of `tsize` bytes, header included. -/
def selectBucket (maxBucketsUsed tsize : ℕ) : ℕ :=
  if tsize < lookupSizes then lookup tsize else bsearchl tsize bucketSize maxBucketsUsed

end Llheap
