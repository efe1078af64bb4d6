import Llheap.Model.Buckets
import Mathlib.Algebra.Order.SuccPred
import Mathlib.Order.Interval.Set.OrdConnected

/-!
# The lookup table for any bucket sizes

The loop at start-up fills `lookup` for whatever table the header size leads to. Its assertion never fails: it asks that `i` is not above the bucket, or above the one before it, and the index moves exactly when `i` passes a bucket. So the table is right for some bucket sizes only, and start-up accepts all of them.
-/

namespace Llheap.LookupTable

/-- `bucketSizes[]` for a header of `storage` bytes -/
def bucketSizesOf (storage : ℕ) : List ℕ := [
  16 + storage, 32 + storage, 48 + storage, 64 + storage,
  96 + storage, 128 + storage,
  160, 192, 224, 256 + storage,
  320, 384, 448, 512 + storage,
  640, 768, 896, 1024 + storage,
  1536, 2048 + storage,
  2560, 3072, 3584, 4096 + storage,
  6144, 8192 + storage,
  10240, 12288, 14336, 16384 + storage,
  20480, 24576, 28672, 32768 + storage,
  40960, 49152, 57344, 65536 + storage,
  81920, 98304, 114688, 131072 + storage,
  163840, 196608, 229376, 262144 + storage,
  327680, 393216, 458752, 524288 + storage,
  786432, 1048576 + storage,
  1572864, 2097152 + storage,
  3145728, 4194304 + storage,
  6291456, 8388608 + storage, 12582912, 16777216 + storage,
  25165824 + storage, 33554432 + storage,
  50331648 + storage, 67108864 + storage]

example : bucketSizesOf sizeofStorage = bucketSizes := rfl

/-- `lookup[i]` after the loop, for the table `vals` -/
def entry (vals : ℕ → ℕ) (i : ℕ) : ℕ := lookupIdx vals i % 256

/-- The loop runs to its end: no assertion fails. -/
def Completes (vals : ℕ → ℕ) (sizes : ℕ) : Prop := ∀ i < sizes, lookupAssert vals i

/-- Every entry is the least bucket that reaches its size, as a binary search of the `n` buckets finds it, and the buckets up to it increase. -/
def Sound (vals : ℕ → ℕ) (n sizes : ℕ) : Prop :=
  ∀ i < sizes, i ≤ vals (entry vals i) ∧ (∀ j < entry vals i, vals j < i) ∧
    entry vals i = bsearchl i vals n ∧ StrictMonoOn vals (Set.Iic (entry vals i))

variable {vals : ℕ → ℕ} {n sizes first i j p p' q l h key : ℕ}

/-! ### The loop -/

theorem lookupIdx_zero : lookupIdx vals 0 = 0 := if_neg (Nat.not_lt_zero _)

theorem lookupIdx_succ (vals : ℕ → ℕ) (i : ℕ) :
    lookupIdx vals (i + 1) = lookupIdx vals i ∧ i + 1 ≤ vals (lookupIdx vals i) ∨
    lookupIdx vals (i + 1) = lookupIdx vals i + 1 ∧ vals (lookupIdx vals i) < i + 1 := by
  rw [lookupIdx]
  split
  · next hpast => exact .inr ⟨rfl, hpast⟩
  · next hin => exact .inl ⟨rfl, not_lt.mp hin⟩

/-- Whatever the bucket sizes are, the assertion holds. -/
theorem lookupAssert_holds (vals : ℕ → ℕ) (i : ℕ) : lookupAssert vals i := by
  cases i with
  | zero => exact .inl (Nat.zero_le _)
  | succ i =>
    unfold lookupAssert
    rcases lookupIdx_succ vals i with ⟨hstay, hle⟩ | ⟨hmove, hlt⟩
    · rw [hstay]
      exact .inl hle
    · rw [hmove]
      exact .inr hlt

theorem lookupIdx_le (hreach : sizes - 1 ≤ vals first) (hi : i < sizes) : lookupIdx vals i ≤ first := by
  induction i with
  | zero =>
    rw [lookupIdx_zero]
    exact Nat.zero_le first
  | succ i ih =>
    have hle := ih (by omega)
    rcases lookupIdx_succ vals i with ⟨hstay, _⟩ | ⟨hmove, hlt⟩
    · rwa [hstay]
    · have hne : lookupIdx vals i ≠ first := by
        intro heq
        rw [heq] at hlt
        omega
      omega

theorem lookupIdx_least (hstrict : StrictMonoOn vals (Set.Iic first)) (hreach : sizes - 1 ≤ vals first)
    (hi : i < sizes) : i ≤ vals (lookupIdx vals i) ∧ ∀ j < lookupIdx vals i, vals j < i := by
  induction i with
  | zero =>
    rw [lookupIdx_zero]
    exact ⟨Nat.zero_le _, by simp⟩
  | succ i ih =>
    obtain ⟨hle, hbelow⟩ := ih (by omega)
    have hin := lookupIdx_le hreach hi
    rcases lookupIdx_succ vals i with ⟨hstay, hle'⟩ | ⟨hmove, hlt⟩
    · rw [hstay]
      exact ⟨hle', fun j hj => (hbelow j hj).trans (Nat.lt_succ_self i)⟩
    · rw [hmove] at hin ⊢
      have hnext := hstrict (Set.mem_Iic.mpr (by omega)) (Set.mem_Iic.mpr hin) (Nat.lt_succ_self _)
      refine ⟨by omega, fun j hj => ?_⟩
      rcases Nat.lt_succ_iff_lt_or_eq.mp hj with hj | rfl
      · exact (hbelow j hj).trans (Nat.lt_succ_self i)
      · exact hlt

theorem exists_move (hj : j < lookupIdx vals i) : ∃ m < i, lookupIdx vals m = j ∧
    lookupIdx vals (m + 1) = j + 1 ∧ vals j < m + 1 := by
  induction i with
  | zero =>
    rw [lookupIdx_zero] at hj
    exact absurd hj (Nat.not_lt_zero j)
  | succ i ih =>
    by_cases hbefore : j < lookupIdx vals i
    · obtain ⟨m, hm, hrest⟩ := ih hbefore
      exact ⟨m, by omega, hrest⟩
    · rcases lookupIdx_succ vals i with ⟨hstay, _⟩ | ⟨hmove, hlt⟩
      · rw [hstay] at hj
        exact absurd hj hbefore
      · obtain rfl : j = lookupIdx vals i := by omega
        exact ⟨i, Nat.lt_succ_self i, rfl, hmove, hlt⟩

/-! ### The binary search -/

/-- The indices that the search of `[l, h)` compares on its way to `p`. -/
def bsearchlVisits (p l h : ℕ) : List ℕ :=
  if l < h then
    let m := (l + h) / 2
    m :: if m < p then bsearchlVisits p (m + 1) h else bsearchlVisits p l m
  else []
termination_by h - l

theorem bsearchlLoop_mem (hlh : l ≤ h) : l ≤ bsearchlLoop key vals l h ∧ bsearchlLoop key vals l h ≤ h := by
  induction l, h using bsearchlLoop.induct key vals with
  | case1 l h hlt m hm ih =>
    rw [bsearchlLoop, if_pos hlt, if_pos hm]
    obtain ⟨hlow, hhigh⟩ := ih (by omega)
    have hlm : l ≤ m + 1 := by omega
    exact ⟨hlm.trans hlow, hhigh⟩
  | case2 l h hlt m hm ih =>
    rw [bsearchlLoop, if_pos hlt, if_neg hm]
    obtain ⟨hlow, hhigh⟩ := ih (by omega)
    have hmh : m ≤ h := by omega
    exact ⟨hlow, hhigh.trans hmh⟩
  | case3 l h hge =>
    rw [bsearchlLoop, if_neg hge]
    exact ⟨le_rfl, hlh⟩

/-- The search ends at `p` exactly when each comparison on the way leads there. -/
theorem bsearchlLoop_eq_iff (hlp : l ≤ p) (hph : p ≤ h) :
    bsearchlLoop key vals l h = p ↔ ∀ q ∈ bsearchlVisits p l h, (vals q < key ↔ q < p) := by
  induction l, h using bsearchlLoop.induct key vals with
  | case1 l h hlt m hm ih =>
    rw [bsearchlLoop, if_pos hlt, if_pos hm, bsearchlVisits, if_pos hlt, List.forall_mem_cons]
    by_cases hmp : m < p
    · rw [if_pos hmp, ih hmp hph]
      exact ⟨fun hrest => ⟨iff_of_true hm hmp, hrest⟩, fun hall => hall.2⟩
    · have hpast : m + 1 ≤ bsearchlLoop key vals ((l + h) / 2 + 1) h := (bsearchlLoop_mem (by omega)).1
      exact iff_of_false (by omega) fun hall => hmp (hall.1.mp hm)
  | case2 l h hlt m hm ih =>
    rw [bsearchlLoop, if_pos hlt, if_neg hm, bsearchlVisits, if_pos hlt, List.forall_mem_cons]
    by_cases hmp : m < p
    · have hshort : bsearchlLoop key vals l ((l + h) / 2) ≤ m := (bsearchlLoop_mem (by omega)).2
      exact iff_of_false (by omega) fun hall => hm (hall.1.mpr hmp)
    · rw [if_neg hmp, ih hlp (not_lt.mp hmp)]
      exact ⟨fun hrest => ⟨iff_of_false hm hmp, hrest⟩, fun hall => hall.2⟩
  | case3 l h hge =>
    rw [bsearchlLoop, if_neg hge, bsearchlVisits, if_neg hge]
    exact iff_of_true (by omega) (by simp)

theorem lt_of_mem_visits (hq : q ∈ bsearchlVisits p l h) : q < h := by
  induction l, h using bsearchlVisits.induct p with
  | case1 l h hlt m ih ih' =>
    rw [bsearchlVisits, if_pos hlt] at hq
    rcases List.mem_cons.mp hq with rfl | hq
    · omega
    · split at hq
      · exact ih hq
      · exact (ih' hq).trans (by omega)
  | case2 l h hge =>
    rw [bsearchlVisits, if_neg hge] at hq
    cases hq

theorem mem_visits_of_le (hpp : p ≤ p') (hq : p' < q) (hmem : q ∈ bsearchlVisits p l h) :
    q ∈ bsearchlVisits p' l h := by
  induction l, h using bsearchlVisits.induct p with
  | case1 l h hlt m ih ih' =>
    rw [bsearchlVisits, if_pos hlt] at hmem ⊢
    dsimp only at hmem ⊢
    rcases List.mem_cons.mp hmem with rfl | hmem
    · exact List.mem_cons_self
    · refine List.mem_cons_of_mem _ ?_
      split at hmem
      · next hm =>
        rw [if_pos (by omega)]
        exact ih hmem
      · next hm =>
        have hqm := lt_of_mem_visits hmem
        rw [if_neg (by omega)]
        exact ih' hmem
  | case2 l h hge =>
    rw [bsearchlVisits, if_neg hge] at hmem
    cases hmem

/-! ### The table -/

theorem lookupIdx_last (hfirst : IsLeast { j | j < n ∧ sizes - 1 ≤ vals j } first) (hpos : 0 < sizes)
    (hreach : sizes - 1 ≤ vals (lookupIdx vals (sizes - 1))) : lookupIdx vals (sizes - 1) = first := by
  obtain ⟨⟨hn, hfirst⟩, hleast⟩ := hfirst
  have hin := lookupIdx_le hfirst (Nat.sub_lt hpos Nat.one_pos)
  exact le_antisymm hin (hleast ⟨hin.trans_lt hn, hreach⟩)

/-- The loop finds the least bucket for every size exactly when the buckets increase up to the first that reaches the last size. -/
theorem least_iff_strict (hfirst : IsLeast { j | j < n ∧ sizes - 1 ≤ vals j } first) :
    (∀ i < sizes, i ≤ vals (lookupIdx vals i) ∧ ∀ j < lookupIdx vals i, vals j < i) ↔
      StrictMonoOn vals (Set.Iic first) := by
  refine ⟨fun hall => ?_, fun hstrict i hi => lookupIdx_least hstrict hfirst.1.2 hi⟩
  refine strictMonoOn_of_lt_add_one Set.ordConnected_Iic fun j _ _ hj => ?_
  rw [Set.mem_Iic] at hj
  have hpos : 0 < sizes := by
    by_contra hzero
    have := hfirst.2 ⟨show 0 < n from hfirst.1.1.pos, show sizes - 1 ≤ vals 0 by omega⟩
    omega
  have hlast := lookupIdx_last hfirst hpos (hall _ (Nat.sub_lt hpos Nat.one_pos)).1
  have hpassed : j < lookupIdx vals (sizes - 1) := by omega
  obtain ⟨m, hm, _, hnext, hlt⟩ := exists_move hpassed
  have hreach := (hall (m + 1) (by omega)).1
  rw [hnext] at hreach
  omega

theorem sound_of_strict (hfirst : IsLeast { j | j < n ∧ sizes - 1 ≤ vals j } first) (hsizes : sizes ≤ 2 ^ 32)
    (hstrict : StrictMonoOn vals (Set.Iic first)) (hbyte : first < 256)
    (hvisits : ∀ q ∈ bsearchlVisits first 0 n, first < q → sizes - 1 ≤ vals q) : Sound vals n sizes := by
  intro i hi
  obtain ⟨⟨hn, hreach⟩, _⟩ := hfirst
  obtain ⟨hle, hbelow⟩ := lookupIdx_least hstrict hreach hi
  have hin := lookupIdx_le hreach hi
  have hentry : entry vals i = lookupIdx vals i := Nat.mod_eq_of_lt (by omega)
  rw [hentry]
  refine ⟨hle, hbelow, ?_, hstrict.mono (Set.Iic_subset_Iic.mpr hin)⟩
  rw [bsearchl, Nat.mod_eq_of_lt (by omega)]
  refine ((bsearchlLoop_eq_iff (Nat.zero_le _) (by omega)).mpr fun q hq => ?_).symm
  rcases Nat.lt_or_ge q (lookupIdx vals i) with hlt | hge
  · exact iff_of_true (hbelow q hlt) hlt
  · refine iff_of_false (not_lt.mpr ?_) (not_lt.mpr hge)
    rcases Nat.lt_or_ge first q with hpast | hpre
    · have := hvisits q (mem_visits_of_le hin hpast hq) hpast
      omega
    · exact hle.trans (hstrict.monotoneOn (Set.mem_Iic.mpr hin) (Set.mem_Iic.mpr hpre) hge)

/-- No index is cut to a byte in a sound table: the entry would be the first bucket again. -/
theorem Sound.entry_eq (hsound : Sound vals n sizes) (hi : i < sizes) :
    lookupIdx vals i < 256 ∧ entry vals i = lookupIdx vals i := by
  induction i with
  | zero =>
    rw [entry, lookupIdx_zero]
    exact ⟨by decide, rfl⟩
  | succ i ih =>
    obtain ⟨hlt, heq⟩ := ih (by omega)
    rcases lookupIdx_succ vals i with ⟨hstay, _⟩ | ⟨hmove, _⟩
    · rw [entry, hstay]
      exact ⟨hlt, Nat.mod_eq_of_lt hlt⟩
    · have hne : lookupIdx vals i ≠ 255 := by
        intro hfull
        have hwrapped : entry vals (i + 1) = 0 := by rw [entry, hmove, hfull]
        have hreach := (hsound (i + 1) hi).1
        have hbelow := (hsound i (by omega)).2.1 0 (by omega)
        rw [hwrapped] at hreach
        omega
      rw [entry, hmove]
      exact ⟨by omega, Nat.mod_eq_of_lt (by omega)⟩

theorem strict_of_sound (hfirst : IsLeast { j | j < n ∧ sizes - 1 ≤ vals j } first) (hsizes : sizes ≤ 2 ^ 32)
    (hsound : Sound vals n sizes) : StrictMonoOn vals (Set.Iic first) ∧ first < 256 ∧
      ∀ q ∈ bsearchlVisits first 0 n, first < q → sizes - 1 ≤ vals q := by
  refine ⟨(least_iff_strict hfirst).mp fun i hi => ?_, ?_⟩
  · rw [← (hsound.entry_eq hi).2]
    exact ⟨(hsound i hi).1, (hsound i hi).2.1⟩
  rcases Nat.eq_zero_or_pos sizes with rfl | hpos
  · have := hfirst.2 ⟨show 0 < n from hfirst.1.1.pos, Nat.zero_le (vals 0)⟩
    exact ⟨by omega, fun q _ _ => Nat.zero_le _⟩
  have hi : sizes - 1 < sizes := Nat.sub_lt hpos Nat.one_pos
  obtain ⟨hbyte, hentry⟩ := hsound.entry_eq hi
  obtain ⟨hreach, _, hsearch, _⟩ := hsound _ hi
  rw [hentry] at hreach hsearch
  have hlast := lookupIdx_last hfirst hpos hreach
  rw [hlast] at hbyte hsearch
  refine ⟨hbyte, fun q hq hpast => ?_⟩
  rw [bsearchl, Nat.mod_eq_of_lt (by omega)] at hsearch
  have hvisit := (bsearchlLoop_eq_iff (Nat.zero_le _) hfirst.1.1.le).mp hsearch.symm q hq
  exact not_lt.mp fun hshort => absurd (hvisit.mp hshort) (by omega)

/-- The loop always completes, and leaves a sound table exactly when the buckets increase up to the first that reaches the last size, have a byte for an index, and none behind it that the search for it compares is smaller. -/
theorem completes_sound_iff (hfirst : IsLeast { j | j < n ∧ sizes - 1 ≤ vals j } first) (hsizes : sizes ≤ 2 ^ 32) :
    (Completes vals sizes → Sound vals n sizes) ↔ StrictMonoOn vals (Set.Iic first) ∧ first < 256 ∧
      ∀ q ∈ bsearchlVisits first 0 n, first < q → sizes - 1 ≤ vals q := by
  constructor
  · intro hall
    exact strict_of_sound hfirst hsizes (hall fun i _ => lookupAssert_holds vals i)
  · rintro ⟨hstrict, hbyte, hvisits⟩ _
    exact sound_of_strict hfirst hsizes hstrict hbyte hvisits

/-- The table for a 16-byte header is sound. -/
theorem sound_sixteen : Sound bucketSize noBucketSizes lookupSizes := by
  have hfirst : IsLeast { j | j < noBucketSizes ∧ lookupSizes - 1 ≤ bucketSize j } 37 := by
    refine ⟨by decide, fun j hj => ?_⟩
    by_contra hlt
    have hle := bucketSize_le (show j ≤ 36 by omega) (by decide)
    have hshort : bucketSize 36 < lookupSizes - 1 := by decide
    exact absurd (hj.2.trans hle) (not_le.mpr hshort)
  refine (completes_sound_iff hfirst (by decide)).mpr ⟨fun i hi j hj hij => ?_, by decide, fun q hq hpast => ?_⟩
    fun i _ => lookupAssert_holds bucketSize i
  · exact bucketSize_lt hij (lt_of_le_of_lt (Set.mem_Iic.mp hj) (by decide))
  · exact hfirst.1.2.trans (bucketSize_le hpast.le (lt_of_mem_visits hq))

/-- With a 32-byte header two buckets have 160 bytes, and start-up accepts the table: the entry for 161 bytes is the second of them. -/
theorem completes_not_sound : (∀ j < noBucketSizes, 0 < (bucketSizesOf 32).getD j 0) ∧
    (∃ j < noBucketSizes, 65536 + 32 - 1 ≤ (bucketSizesOf 32).getD j 0) ∧
    Completes (fun j => (bucketSizesOf 32).getD j 0) (65536 + 32) ∧
    ¬ Sound (fun j => (bucketSizesOf 32).getD j 0) noBucketSizes (65536 + 32) := by
  refine ⟨by decide, ⟨63, by decide⟩, fun i _ => lookupAssert_holds _ i, fun hsound => ?_⟩
  have hshort : ¬ 161 ≤ (bucketSizesOf 32).getD (entry (fun j => (bucketSizesOf 32).getD j 0) 161) 0 := by
    decide +kernel
  exact hshort (hsound 161 (by decide)).1

end Llheap.LookupTable
