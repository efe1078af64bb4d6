import Llheap.Proof.Exhaustion
import Llheap.Proof.Refusal

/-!
# Array routines

Ten routines multiply a dimension by an element size in `size_t` and hand the product to a routine that takes a size. A product that does not fit in a machine word is cut down to one before anything looks at it, so the routine goes on with another size: the array is too big only for the caller.
-/

namespace Llheap

open Separation

/-- The routines that take an array, with their arguments. -/
inductive ArrayCall
  | aalloc (dimension elemSize : ℕ)
  | calloc (dimension elemSize : ℕ)
  | amemalign (alignment dimension elemSize : ℕ)
  | cmemalign (alignment dimension elemSize : ℕ)
  | resizearray (oaddr : Option ℕ) (dimension elemSize : ℕ)
  | reallocarray (oaddr : Option ℕ) (dimension elemSize : ℕ)
  | posixReallocarray (oaddrp : Option ℕ) (dimension elemSize : ℕ)
  | alignedResizearray (oaddr : Option ℕ) (nalignment dimension elemSize : ℕ)
  | alignedReallocarray (oaddr : Option ℕ) (nalignment dimension elemSize : ℕ)
  | posixAlignedReallocarray (oaddrp : Option ℕ) (nalignment dimension elemSize : ℕ)
deriving DecidableEq

/-- A refusal leaves the old allocation live and as it was. -/
def Call.Keeps (s : State) : Call → Prop
  | .resize oaddr _ | .alignedResize oaddr _ _ => oaddr = none
  | .alignedRealloc (some oaddr) nalignment size =>
    ¬ (Reallocation.alignedRealloc nalignment size).EditsFirst s oaddr
  | _ => True

namespace ArrayCall

variable {cfg : Config}

/-- What the caller gets out of a routine that returns a code and stores a pointer. -/
def stored : Result (ℕ × Option ℕ × State) → Result (Option ℕ × State)
  | .ok (code, oaddrp, s) => .ok (if code = 0 then oaddrp else none, s)
  | .error e => .error e

def run (k : Kernel cfg) (t : Tid) (s : State) : ArrayCall → Result (Option ℕ × State)
  | .aalloc dimension elemSize => Llheap.aalloc k t dimension elemSize s
  | .calloc dimension elemSize => Llheap.calloc k t dimension elemSize s
  | .amemalign alignment dimension elemSize => Llheap.amemalign k t alignment dimension elemSize s
  | .cmemalign alignment dimension elemSize => Llheap.cmemalign k t alignment dimension elemSize s
  | .resizearray oaddr dimension elemSize => Llheap.resizearray k t oaddr dimension elemSize s
  | .reallocarray oaddr dimension elemSize => Llheap.reallocarray k t oaddr dimension elemSize s
  | .posixReallocarray oaddrp dimension elemSize =>
    stored (Llheap.posixReallocarray k t oaddrp dimension elemSize s)
  | .alignedResizearray oaddr nalignment dimension elemSize =>
    Llheap.alignedResizearray k t oaddr nalignment dimension elemSize s
  | .alignedReallocarray oaddr nalignment dimension elemSize =>
    Llheap.alignedReallocarray k t oaddr nalignment dimension elemSize s
  | .posixAlignedReallocarray oaddrp nalignment dimension elemSize =>
    stored (Llheap.posixAlignedReallocarray k t oaddrp nalignment dimension elemSize s)

def dimension : ArrayCall → ℕ
  | .aalloc dimension _ | .calloc dimension _ | .amemalign _ dimension _ | .cmemalign _ dimension _
  | .resizearray _ dimension _ | .reallocarray _ dimension _ | .posixReallocarray _ dimension _
  | .alignedResizearray _ _ dimension _ | .alignedReallocarray _ _ dimension _
  | .posixAlignedReallocarray _ _ dimension _ => dimension

def elemSize : ArrayCall → ℕ
  | .aalloc _ elemSize | .calloc _ elemSize | .amemalign _ _ elemSize | .cmemalign _ _ elemSize
  | .resizearray _ _ elemSize | .reallocarray _ _ elemSize | .posixReallocarray _ _ elemSize
  | .alignedResizearray _ _ _ elemSize | .alignedReallocarray _ _ _ elemSize
  | .posixAlignedReallocarray _ _ _ elemSize => elemSize

/-- The size of the array. -/
def total (c : ArrayCall) : ℕ := c.dimension * c.elemSize

/-- The alignment that is asked for, if any. -/
def alignment : ArrayCall → Option ℕ
  | .amemalign alignment _ _ | .cmemalign alignment _ _ => some alignment
  | .alignedResizearray _ nalignment _ _ | .alignedReallocarray _ nalignment _ _
  | .posixAlignedReallocarray _ nalignment _ _ => some nalignment
  | _ => none

/-- The call with a size that the routine comes down to. -/
def call : ArrayCall → Call
  | .aalloc dimension elemSize => .malloc (dimension * elemSize % 2 ^ 64)
  | .calloc dimension elemSize => .calloc dimension elemSize
  | .amemalign alignment dimension elemSize => .memalign alignment (dimension * elemSize % 2 ^ 64)
  | .cmemalign alignment dimension elemSize => .cmemalign alignment dimension elemSize
  | .resizearray oaddr dimension elemSize => .resize oaddr (dimension * elemSize % 2 ^ 64)
  | .reallocarray oaddr dimension elemSize | .posixReallocarray oaddr dimension elemSize =>
    .realloc oaddr (dimension * elemSize % 2 ^ 64)
  | .alignedResizearray oaddr nalignment dimension elemSize =>
    .alignedResize oaddr nalignment (dimension * elemSize % 2 ^ 64)
  | .alignedReallocarray oaddr nalignment dimension elemSize
  | .posixAlignedReallocarray oaddr nalignment dimension elemSize =>
    .alignedRealloc oaddr nalignment (dimension * elemSize % 2 ^ 64)

/-- Both numbers are of type `size_t`, and an alignment is a power of two. -/
structure Valid (c : ArrayCall) : Prop where
  dimension_lt : c.dimension < 2 ^ 64
  elemSize_lt : c.elemSize < 2 ^ 64
  alignment : ∀ a ∈ c.alignment, a.isPowerOfTwo ∧ a < 2 ^ 64

/-- There is no storage for what is left of the product, and the refusal leaves the old allocation alone. -/
def Refused (k : Kernel cfg) (t : Tid) (s : State) (c : ArrayCall) : Prop :=
  c.call.Keeps s ∧ ∃ n ∈ c.call.request s, OutOfMemory k t (n % 2 ^ 64) s

end ArrayCall

/-- A block of the array's size, or a failure; an array that no word can hold the size of is a failure that leaves the old block live and untouched. -/
def Sized (s s' : State) (live' : Set ℕ) (oaddr : Option ℕ) (total : ℕ) : Option ℕ → Prop
  | some user => mallocRequestSize s' (some user) = total
  | none => 2 ^ 64 ≤ total → ∀ u ∈ oaddr, u ∈ live' ∧ Untouched s s' u

variable {cfg : Config} {main : Tid} {k : Kernel cfg} {t : Tid} {s s' : State} {w : World}
  {status : Tid → Status} {A : Arena Tag} {idle : List ℕ} {b size nalignment n user : ℕ} {l : Live}
  {c : Call} {a : ArrayCall} {r : Option ℕ}

namespace ArrayCall

theorem call_valid (ha : a.Valid) : a.call.Valid := by
  have hmod : ∀ m : ℕ, m % 2 ^ 64 < 2 ^ 64 := fun m => Nat.mod_lt m (by decide)
  obtain ⟨hdim, helem, halign⟩ := ha
  cases a with
  | aalloc | resizearray | reallocarray | posixReallocarray => exact hmod _
  | calloc => exact ⟨hdim, helem⟩
  | amemalign | alignedResizearray | alignedReallocarray | posixAlignedReallocarray =>
    exact ⟨hmod _, halign _ rfl⟩
  | cmemalign => exact ⟨⟨hdim, helem⟩, halign _ rfl⟩

theorem call_size : a.call.size = a.total % 2 ^ 64 := by
  cases a <;> rfl

theorem stored_posix {x : Result (Option ℕ × State)} {oaddrp : Option ℕ} :
    stored (do
      let (ret, s) ← x
      if ret = none ∧ s.errno t = ENOMEM then .ok (ENOMEM, oaddrp, s) else .ok (0, ret, s)) = x := by
  rcases x with e | ⟨ret, s⟩
  · rfl
  · change stored (if ret = none ∧ s.errno t = ENOMEM then .ok (ENOMEM, oaddrp, s) else .ok (0, ret, s)) = _
    split
    · next href => rw [href.1, stored, if_neg (by decide)]
    · rw [stored, if_pos rfl]

theorem run_eq : a.run k t s = a.call.run k t s := by
  cases a with
  | posixReallocarray | posixAlignedReallocarray => exact stored_posix
  | _ => rfl

end ArrayCall

/-! ### Calls without an old address -/

theorem Call.run_fresh (hvalid : c.Valid) (hnone : c.oaddr = none) (h : c.run k t s = .ok (r, s')) :
    ∃ n, c.request s = some n ∧ (r = none ↔ OutOfMemory k t (n % 2 ^ 64) s) := by
  have hplain : ∀ {m : ℕ} {r₁ : Option ℕ} {s₁ : State}, m < 2 ^ 64 → doMalloc k t m s = .ok (r₁, s₁) →
      (r₁ = none ↔ OutOfMemory k t (m % 2 ^ 64) s) := fun hm h₁ => by
    rw [Nat.mod_eq_of_lt hm]
    exact doMalloc_eq_none h₁
  cases c with
  | malloc size => exact ⟨_, rfl, hplain hvalid h⟩
  | calloc dimension elemSize =>
    obtain ⟨⟨r₁, s₁⟩, hm, h⟩ := Result.bind_eq_ok.mp h
    refine ⟨_, rfl, Iff.trans ?_ (hplain (Nat.mod_lt _ (by decide)) hm)⟩
    cases r₁ <;> cases h <;> simp
  | memalign alignment size => exact ⟨_, rfl, memalignNoStats_eq_none hvalid.1 h⟩
  | cmemalign alignment dimension elemSize =>
    obtain ⟨⟨r₁, s₁⟩, hm, h⟩ := Result.bind_eq_ok.mp h
    refine ⟨_, rfl, Iff.trans ?_ (memalignNoStats_eq_none (Nat.mod_lt _ (by decide)) hm)⟩
    cases r₁ <;> cases h <;> simp
  | resize oaddr size | realloc oaddr size =>
    obtain rfl : oaddr = none := hnone
    exact ⟨_, rfl, hplain hvalid h⟩
  | alignedResize oaddr nalignment size | alignedRealloc oaddr nalignment size =>
    obtain rfl : oaddr = none := hnone
    exact ⟨_, rfl, memalignNoStats_eq_none hvalid.1 h⟩

/-- The block that is returned records the size of the call, whether or not it is that long. -/
theorem Refines.fresh_size (hr : Refines cfg main s status A idle) (hmay : MayCall main s status t)
    (hpage : sizeofStorage < cfg.pageSize) (hvalid : c.Valid) (hnone : c.oaddr = none)
    (h : c.run k t s = .ok (some user, s')) : mallocRequestSize s' (some user) = c.size := by
  have hmod : ∀ m : ℕ, m % 2 ^ 64 < 2 ^ 64 := fun m => Nat.mod_lt m (by decide)
  cases c with
  | malloc size => exact (hr.doMalloc_obtained hmay hvalid h).requestSize
  | calloc dimension elemSize =>
    obtain ⟨⟨r₁, s₁⟩, hm, h⟩ := Result.bind_eq_ok.mp h
    cases r₁ <;> cases h
    exact ((hr.doMalloc_obtained hmay (hmod _) hm).zeroFill _).requestSize
  | memalign alignment size =>
    obtain ⟨hsize, hpow, halign⟩ := hvalid
    obtain ⟨b, hb⟩ := hr.memalignNoStats_obtained hmay hpage hsize hpow halign h
    exact hb.requestSize
  | cmemalign alignment dimension elemSize =>
    obtain ⟨_, hpow, halign⟩ := hvalid
    obtain ⟨⟨r₁, s₁⟩, hm, h⟩ := Result.bind_eq_ok.mp h
    cases r₁ <;> cases h
    obtain ⟨b, hb⟩ := hr.memalignNoStats_obtained hmay hpage (hmod _) hpow halign hm
    rw [hb.header.1]
    exact (hb.zeroFill _).requestSize
  | resize oaddr size | realloc oaddr size =>
    obtain rfl : oaddr = none := hnone
    exact (hr.doMalloc_obtained hmay hvalid h).requestSize
  | alignedResize oaddr nalignment size | alignedRealloc oaddr nalignment size =>
    obtain rfl : oaddr = none := hnone
    obtain ⟨hsize, hpow, halign⟩ := hvalid
    obtain ⟨b, hb⟩ := hr.memalignNoStats_obtained hmay hpage hsize hpow halign h
    exact hb.requestSize

/-! ### Calls with an old address -/

theorem realloc_eq_none {oaddr nsize : ℕ} (hne : nsize ≠ 0) (hlt : nsize < 2 ^ 64)
    (h : realloc k t (some oaddr) nsize s = .ok (r, s')) :
    r = none ↔ ∃ n ∈ reallocRequest s oaddr nsize, OutOfMemory k t (n % 2 ^ 64) s := by
  unfold reallocRequest
  dsimp only
  rcases realloc_cases hne h with ⟨hreuse, rfl, _⟩ | ⟨hreuse, r₁, s₁, hm, hcases⟩
  · rw [if_pos (.inr hreuse)]
    simp
  · rw [if_neg (not_or.mpr ⟨hne, hreuse⟩)]
    have hnone := memalignNoStats_eq_none hlt hm
    rcases hcases with ⟨rfl, rfl, _⟩ | ⟨naddr, rfl, rfl, _⟩ <;> simpa using hnone

theorem alignedReallocMove_eq_none {oaddr nsize : ℕ} (hlt : nsize < 2 ^ 64)
    (h : alignedReallocMove k t oaddr nalignment nsize s = .ok (r, s')) :
    r = none ↔ OutOfMemory k t (memalignRequest nalignment nsize % 2 ^ 64) s := by
  unfold alignedReallocMove at h
  obtain ⟨⟨r₁, s₁⟩, hm, h⟩ := Result.bind_eq_ok.mp h
  have hnone := memalignNoStats_eq_none hlt hm
  rcases moveContents_cases h with ⟨rfl, rfl, _⟩ | ⟨naddr, rfl, rfl, _⟩ <;> simpa using hnone

theorem Refines.updateAlignment_same {al : ℕ} (hr : Refines cfg main s status A idle)
    (hb : liveAt A b = some l) (hal : l.view.alignment = some al) : Llheap.updateAlignment l.user al s = s := by
  obtain ⟨hblock, _⟩ := hr.liveBlock hb
  have hword := (hblock.encodes.fake al hal).2.1
  rw [Llheap.updateAlignment, markAlignmentBit_eq (hblock.taggable.alignment_dvd al hal), ← hword,
    Memory.setWord_word]

/-- A reallocation that does not edit the block first is refused exactly if there is no storage for its request. -/
theorem Refines.reallocation_none {c : Reallocation} (hr : Refines cfg main s status A idle)
    (hb : liveAt A b = some l) (hpos : 0 < c.size) (hlt : c.size < 2 ^ 64) (hkeeps : ¬ c.EditsFirst s l.user)
    (h : (c.call (some l.user)).run k t s = .ok (r, s')) :
    r = none ↔ ∃ n ∈ (c.call (some l.user)).request s, OutOfMemory k t (n % 2 ^ 64) s := by
  cases c with
  | realloc size => exact realloc_eq_none hpos.ne' hlt h
  | alignedRealloc nalignment size =>
    have hne : size ≠ 0 := hpos.ne'
    have hlt : size < 2 ^ 64 := hlt
    obtain ⟨hblock, _⟩ := hr.liveBlock hb
    obtain ⟨hbit, hclear⟩ := hblock.encodes.fakeWord hblock.taggable
    change Llheap.alignedRealloc k t (some l.user) nalignment size s = .ok (r, s') at h
    change _ ↔ ∃ n ∈ alignedReallocRequest s l.user nalignment size, _
    unfold Llheap.alignedRealloc at h
    unfold alignedReallocRequest
    dsimp only at h ⊢
    rw [if_neg hne] at h ⊢
    cases hal : l.view.alignment with
    | none =>
      rw [if_neg (not_not.mpr (hbit.mpr hal))] at h ⊢
      split at h
      · next hsame =>
        rw [if_pos hsame]
        exact realloc_eq_none hne hlt h
      · next hdiff =>
        rw [if_neg hdiff]
        simpa using alignedReallocMove_eq_none hlt h
    | some al =>
      have hfake : alignmentBit (s.mem.word (headerAddr l.user)) ≠ 0 := by
        rw [ne_eq, hbit, hal]
        exact Option.some_ne_none al
      rw [if_pos hfake] at h ⊢
      split at h
      · next hlucky =>
        rw [if_pos hlucky]
        have hsame : al = max nalignment libAlign := by
          by_contra hdiff
          refine hkeeps ⟨hfake, hlucky, ?_⟩
          rwa [hclear al hal]
        rw [← hsame, hr.updateAlignment_same hb hal] at h ⊢
        exact realloc_eq_none hne hlt h
      · next hmiss =>
        rw [if_neg hmiss]
        simpa using alignedReallocMove_eq_none hlt h

theorem Refines.reallocation_sized {c : Reallocation} {live : Set ℕ} {total : ℕ}
    (hr : Refines cfg main s status A idle) (hmay : MayCall main s status t) (hb : liveAt A b = some l)
    (hlive : l.user ∈ live) (hvalid : (c.call (some l.user)).Valid) (hlt : c.size < total)
    (hbig : 2 ^ 64 ≤ total)
    (hfits : r ≠ none → ∀ n ∈ (c.call (some l.user)).request s, Fits s.heapMaster n)
    (h : (c.call (some l.user)).run k t s = .ok (r, s')) :
    Sized s s' (liveAfter (some l.user) ((c.call (some l.user)).gives r) r live) (some l.user) total r ↔
      (c.call (some l.user)).Keeps s ∧
        ∃ n ∈ (c.call (some l.user)).request s, OutOfMemory k t (n % 2 ^ 64) s := by
  have hkeeps : (c.call (some l.user)).Keeps s ↔ ¬ c.EditsFirst s l.user := by
    cases c with
    | realloc size => exact iff_of_true trivial id
    | alignedRealloc nalignment size => exact Iff.rfl
  have hgives : (c.call (some l.user)).gives r = (r.isSome || c.size == 0) := by cases c <;> rfl
  have hsize : c.size < 2 ^ 64 := by
    cases c with
    | realloc size => exact hvalid
    | alignedRealloc nalignment size => exact hvalid.1
  rw [hkeeps, hgives]
  rcases Nat.eq_zero_or_pos c.size with hzero | hpos
  · -- the old block is freed
    refine iff_of_false (fun hsized => ?_) ?_
    · cases r with
      | none =>
        obtain ⟨hin, _⟩ := hsized hbig _ rfl
        rw [hzero] at hin
        simp [liveAfter] at hin
      | some user =>
        obtain ⟨s₁, _, h⟩ : ∃ s₁, Llheap.doFree t l.user s = .ok s₁ ∧
            (.ok (none, s₁) : Result (Option ℕ × State)) = .ok (some user, s') := by
          cases c with
          | realloc size =>
            obtain rfl : size = 0 := hzero
            exact Result.bind_eq_ok.mp h
          | alignedRealloc nalignment size =>
            obtain rfl : size = 0 := hzero
            exact Result.bind_eq_ok.mp h
        cases h
    · rintro ⟨_, n, hn, _⟩
      cases c with
      | realloc size =>
        obtain rfl : size = 0 := hzero
        cases hn
      | alignedRealloc nalignment size =>
        obtain rfl : size = 0 := hzero
        cases hn
  · obtain ⟨A', idle', hr', hout⟩ := hr.reallocation hmay hb hvalid hpos hfits h
    cases r with
    | some user =>
      obtain ⟨b', l', rfl, hlive', _, _, _, hrecord, _⟩ := hout
      have hb' : liveAt A' b' = some l' := by rw [hlive', Function.update_self]
      refine iff_of_false (fun hsized => ?_) ?_
      · have hrequest := ((hr'.queries hb').1.symm.trans hsized).symm
        omega
      · rintro ⟨hkeep, hrefused⟩
        exact Option.some_ne_none _ ((hr.reallocation_none hb hpos hsize hkeep h).mpr hrefused)
    | none =>
      obtain ⟨hlive', hcontents, _⟩ := hout
      have hb' := congrFun hlive' b
      rw [Function.update_self] at hb'
      have huntouched : Untouched s s' l.user ↔ ¬ c.EditsFirst s l.user := by
        rw [hr.editsFirst_iff hb, not_not]
        exact hr.untouched_iff hr' hb hb' hcontents
      have hin : l.user ∈ liveAfter (some l.user) ((none : Option ℕ).isSome || c.size == 0) none live := by
        rw [beq_false_of_ne hpos.ne']
        exact .inr ⟨hlive, fun hgone => absurd hgone.1 (by decide)⟩
      constructor
      · intro hsized
        have hkeep := huntouched.mp (hsized hbig _ rfl).2
        exact ⟨hkeep, (hr.reallocation_none hb hpos hsize hkeep h).mp rfl⟩
      · rintro ⟨hkeep, _⟩ _ u hu
        obtain rfl := Option.some.inj hu
        exact ⟨hin, huntouched.mpr hkeep⟩

theorem Refines.resize_size (hr : Refines cfg main s status A idle) (hmay : MayCall main s status t)
    (hb : liveAt A b = some l) (hvalid : c.Valid)
    (hcase : c = .resize (some l.user) size ∨ ∃ nalignment, c = .alignedResize (some l.user) nalignment size)
    (hfits : ∀ n ∈ c.request s, Fits s.heapMaster n) (h : c.run k t s = .ok (some user, s')) :
    mallocRequestSize s' (some user) = size := by
  have hfreed : ∀ {x : Result State}, (do
      let s₁ ← x
      .ok (none, s₁) : Result (Option ℕ × State)) ≠ .ok (some user, s') := by
    intro x hx
    obtain ⟨s₁, _, hx⟩ := Result.bind_eq_ok.mp hx
    cases hx
  have hout : ∃ A' idle', Refines cfg main s' status A' idle' ∧
      ResizeOutcome (liveAt A) (liveAt A') t s' b size (some user) := by
    rcases hcase with rfl | ⟨nalignment, rfl⟩
    · by_cases hzero : size = 0
      · rw [Call.run, Llheap.resize] at h
        dsimp only at h
        rw [if_pos hzero] at h
        exact absurd h hfreed
      · obtain ⟨A', idle', hr', _, _, hout⟩ := hr.resize hmay hb hzero hvalid (fun _ => hfits) h
        exact ⟨A', idle', hr', hout⟩
    · obtain ⟨hsize, hpow, halign⟩ := hvalid
      by_cases hzero : size = 0
      · rw [Call.run, Llheap.alignedResize] at h
        dsimp only at h
        rw [if_pos hzero] at h
        exact absurd h hfreed
      · obtain ⟨A', idle', hr', _, _, hout⟩ :=
          hr.alignedResize hmay hb hzero hsize hpow halign (fun _ => hfits) h
        exact ⟨A', idle', hr', hout⟩
  obtain ⟨A', idle', hr', b', l', rfl, rfl, hlive, _⟩ := hout
  exact (hr'.queries (b := b') (by rw [hlive, Function.update_self])).1

theorem Refines.reallocation_size {c : Reallocation} (hr : Refines cfg main s status A idle)
    (hmay : MayCall main s status t) (hb : liveAt A b = some l) (hvalid : (c.call (some l.user)).Valid)
    (hfits : ∀ n ∈ (c.call (some l.user)).request s, Fits s.heapMaster n)
    (h : (c.call (some l.user)).run k t s = .ok (some user, s')) :
    mallocRequestSize s' (some user) = c.size := by
  have hpos : 0 < c.size := by
    by_contra hzero
    have hfreed : ∃ s₁, Llheap.doFree t l.user s = .ok s₁ ∧
        (.ok (none, s₁) : Result (Option ℕ × State)) = .ok (some user, s') := by
      cases c with
      | realloc size =>
        obtain rfl : size = 0 := Nat.eq_zero_of_not_pos hzero
        exact Result.bind_eq_ok.mp h
      | alignedRealloc nalignment size =>
        obtain rfl : size = 0 := Nat.eq_zero_of_not_pos hzero
        exact Result.bind_eq_ok.mp h
    obtain ⟨s₁, _, h⟩ := hfreed
    cases h
  obtain ⟨A', idle', hr', b', l', rfl, hlive, _, _, _, hsize, _⟩ :=
    hr.reallocation hmay hb hvalid hpos (fun _ => hfits) h
  exact (hr'.queries (b := b') (by rw [hlive, Function.update_self])).1.trans hsize

theorem Refines.recall_size {u : ℕ} (hr : Refines cfg main s status A idle) (hmay : MayCall main s status t)
    (hvalid : c.Valid) (haddr : c.oaddr = some u) (hold : u ∈ users (liveAt A))
    (hfits : ∀ n ∈ c.request s, Fits s.heapMaster n) (h : c.run k t s = .ok (some user, s')) :
    mallocRequestSize s' (some user) = c.size := by
  obtain ⟨b, l, hb, rfl⟩ := hold
  cases c with
  | malloc | calloc | memalign | cmemalign => cases haddr
  | resize oaddr size =>
    cases haddr
    exact hr.resize_size hmay hb hvalid (.inl rfl) hfits h
  | alignedResize oaddr nalignment size =>
    cases haddr
    exact hr.resize_size hmay hb hvalid (.inr ⟨_, rfl⟩) hfits h
  | realloc oaddr size =>
    cases haddr
    exact hr.reallocation_size (c := .realloc size) hmay hb hvalid hfits h
  | alignedRealloc oaddr nalignment size =>
    cases haddr
    exact hr.reallocation_size (c := .alignedRealloc nalignment size) hmay hb hvalid hfits h

/-- Every call that returns an address has recorded its size there. -/
theorem Refines.call_size (hr : Refines cfg main s status A idle) (hmay : MayCall main s status t)
    (hpage : sizeofStorage < cfg.pageSize) (hvalid : c.Valid) (hold : ∀ u ∈ c.oaddr, u ∈ users (liveAt A))
    (hfits : c.oaddr ≠ none → ∀ n ∈ c.request s, Fits s.heapMaster n)
    (h : c.run k t s = .ok (some user, s')) : mallocRequestSize s' (some user) = c.size := by
  cases haddr : c.oaddr with
  | none => exact hr.fresh_size hmay hpage hvalid haddr h
  | some u => exact hr.recall_size hmay hvalid haddr (hold u haddr) (hfits (by rw [haddr]; simp)) h

theorem Refines.overflow_sized {live : Set ℕ} {total : ℕ} (hr : Refines cfg main s status A idle)
    (hmay : MayCall main s status t) (hpage : sizeofStorage < cfg.pageSize) (hvalid : c.Valid)
    (hlive : live = users (liveAt A)) (hold : ∀ u ∈ c.oaddr, u ∈ live) (hlt : c.size < total)
    (hbig : 2 ^ 64 ≤ total) (hfits : c.oaddr ≠ none → r ≠ none → ∀ n ∈ c.request s, Fits s.heapMaster n)
    (h : c.run k t s = .ok (r, s')) :
    Sized s s' (liveAfter c.oaddr (c.gives r) r live) c.oaddr total r ↔
      c.Keeps s ∧ ∃ n ∈ c.request s, OutOfMemory k t (n % 2 ^ 64) s := by
  have hshort : ∀ user, r = some user → ¬ Sized s s' (liveAfter c.oaddr (c.gives r) r live) c.oaddr total r := by
    rintro user rfl hsized
    have hsize := hr.call_size hmay hpage hvalid (hlive ▸ hold) (fun hne => hfits hne (Option.some_ne_none _)) h
    have hsame : c.size = total := hsize.symm.trans hsized
    omega
  by_cases hnone : c.oaddr = none
  · have hkeeps : c.Keeps s := by
      cases c with
      | resize | alignedResize => exact hnone
      | alignedRealloc oaddr nalignment size =>
        obtain rfl : oaddr = none := hnone
        exact trivial
      | _ => exact trivial
    obtain ⟨n, hrequest, hiff⟩ := Call.run_fresh hvalid hnone h
    rw [hrequest, and_iff_right hkeeps]
    simp only [Option.mem_some_iff, exists_eq_left']
    rw [← hiff]
    cases r with
    | some user => exact iff_of_false (hshort user rfl) (Option.some_ne_none _)
    | none => exact iff_of_true (fun _ u hu => by rw [hnone] at hu; cases hu) rfl
  · have hresize : ∀ oaddr, c.oaddr = some oaddr → c.gives r = true → ¬ c.Keeps s →
        (Sized s s' (liveAfter c.oaddr (c.gives r) r live) c.oaddr total r ↔
          c.Keeps s ∧ ∃ n ∈ c.request s, OutOfMemory k t (n % 2 ^ 64) s) := by
      intro oaddr hoaddr hgives hkeeps
      refine iff_of_false (fun hsized => ?_) fun hboth => hkeeps hboth.1
      cases r with
      | some user => exact hshort user rfl hsized
      | none =>
        have hin := (hsized hbig oaddr hoaddr).1
        rw [hgives, hoaddr] at hin
        simp [liveAfter] at hin
    cases c with
    | malloc | calloc | memalign | cmemalign => exact absurd rfl hnone
    | resize oaddr size =>
      obtain ⟨u, rfl⟩ := Option.ne_none_iff_exists'.mp hnone
      exact hresize u rfl rfl (Option.some_ne_none u)
    | alignedResize oaddr nalignment size =>
      obtain ⟨u, rfl⟩ := Option.ne_none_iff_exists'.mp hnone
      exact hresize u rfl rfl (Option.some_ne_none u)
    | realloc oaddr size =>
      obtain ⟨u, rfl⟩ := Option.ne_none_iff_exists'.mp hnone
      have hu := hold u rfl
      obtain ⟨b, l, hb, rfl⟩ : u ∈ users (liveAt A) := hlive ▸ hu
      exact hr.reallocation_sized (c := .realloc size) hmay hb hu hvalid hlt hbig (hfits hnone) h
    | alignedRealloc oaddr nalignment size =>
      obtain ⟨u, rfl⟩ := Option.ne_none_iff_exists'.mp hnone
      have hu := hold u rfl
      obtain ⟨b, l, hb, rfl⟩ : u ∈ users (liveAt A) := hlive ▸ hu
      exact hr.reallocation_sized (c := .alignedRealloc nalignment size) hmay hb hu hvalid hlt hbig
        (hfits hnone) h

/-- In every reachable state: an array routine does what it should if and only if the product fits in a word, or there happens to be no storage for what is left of it. -/
theorem array_sized_iff (hpage : sizeofStorage < cfg.pageSize) (h : (system cfg main).Reachable w)
    (hmay : MayCall main w.st w.status t) (hvalid : a.Valid) (hold : ∀ u ∈ a.call.oaddr, u ∈ w.live)
    (hfits : a.call.oaddr ≠ none → r ≠ none → ∀ n ∈ a.call.request w.st, Fits w.st.heapMaster n)
    (hrun : a.run k t w.st = .ok (r, s')) :
    Sized w.st s' (liveAfter a.call.oaddr (a.call.gives r) r w.live) a.call.oaddr a.total r ↔
      a.total < 2 ^ 64 ∨ a.Refused k t w.st := by
  obtain ⟨A, idle, hr, hlive⟩ := reachable_inv h
  have hcall := ArrayCall.call_valid hvalid
  have hsize := a.call_size
  rw [ArrayCall.run_eq] at hrun
  rcases Nat.lt_or_ge a.total (2 ^ 64) with hlt | hbig
  · refine iff_of_true ?_ (.inl hlt)
    cases r with
    | none => exact fun hbig => absurd hbig (not_le.mpr hlt)
    | some user =>
      rw [Nat.mod_eq_of_lt hlt] at hsize
      exact (hr.call_size hmay hpage hcall (hlive ▸ hold)
        (fun hne => hfits hne (Option.some_ne_none _)) hrun).trans hsize
  · rw [or_iff_right (not_lt.mpr hbig)]
    have hshort : a.call.size < a.total := by
      rw [hsize]
      exact (Nat.mod_lt _ (by decide)).trans_le hbig
    exact hr.overflow_sized hmay hpage hcall hlive hold hshort hbig hfits hrun

private def threeSevens : State :=
  ((aalloc (.above defaultConfig) 0 3 7 World.booted.st).getD (none, State.unbooted)).2

theorem array_sized_iff_default : ∃ s', aalloc (.above defaultConfig) 0 3 7 World.booted.st =
    .ok (some 134488080, s') ∧ mallocRequestSize s' (some 134488080) = 21 := by
  have hok : (aalloc (.above defaultConfig) 0 3 7 World.booted.st).isOk = true := by decide +kernel
  have hrun : (ArrayCall.aalloc 3 7).run (.above defaultConfig) 0 World.booted.st =
      .ok (some 134488080, threeSevens) := Result.eq_ok_pair hok (by decide +kernel)
  have hvalid : (ArrayCall.aalloc 3 7).Valid := ⟨by decide, by decide, by simp [ArrayCall.alignment]⟩
  refine ⟨threeSevens, hrun, ?_⟩
  exact (array_sized_iff (by decide) World.booted_reachable World.booted_may hvalid
    (by simp [ArrayCall.call, Call.oaddr]) (fun hne => absurd rfl hne) hrun).mpr (.inl (by decide))

private def hundred : World := World.booted.call (.above defaultConfig) 0 (.malloc 100)

private theorem hundred_reachable : (system defaultConfig 0).Reachable hundred := by
  have hvalid : (Call.malloc 100).Valid := (by decide : 100 < 2 ^ 64)
  exact .next World.booted_reachable (World.booted_call hvalid rfl (by decide +kernel) (by decide +kernel))

/-- An array of `2 ^ 60 + 1` elements of 16 bytes gets a block for 16 bytes, and `reallocarray` to `2 ^ 61` elements of 8 bytes frees the old array and reports nothing. -/
theorem array_overflow :
    (∃ s', aalloc (.above defaultConfig) 0 (2 ^ 60 + 1) 16 World.booted.st = .ok (some 134488080, s') ∧
      mallocRequestSize s' (some 134488080) = 16 ∧
      ¬ Sized World.booted.st s' (liveAfter none false (some 134488080) World.booted.live) none
        ((2 ^ 60 + 1) * 16) (some 134488080)) ∧
    ∃ w s', (system defaultConfig 0).Reachable w ∧ 134488080 ∈ w.live ∧
      reallocarray (.above defaultConfig) 0 (some 134488080) (2 ^ 61) 8 w.st = .ok (none, s') ∧
      s'.errno 0 = 0 ∧ Freed w.st s' 134488080 ∧
      ¬ Sized w.st s' (liveAfter (some 134488080) true none w.live) (some 134488080) (2 ^ 61 * 8) none := by
  constructor
  · have hok : (aalloc (.above defaultConfig) 0 (2 ^ 60 + 1) 16 World.booted.st).isOk = true := by
      decide +kernel
    have hsize : mallocRequestSize ((aalloc (.above defaultConfig) 0 (2 ^ 60 + 1) 16
        World.booted.st).getD (none, State.unbooted)).2 (some 134488080) = 16 := by decide +kernel
    refine ⟨_, Result.eq_ok_pair hok (d := (none, State.unbooted)) (by decide +kernel), hsize, fun hsized => ?_⟩
    exact absurd (hsize.symm.trans hsized) (by decide)
  · have hok : (reallocarray (.above defaultConfig) 0 (some 134488080) (2 ^ 61) 8 hundred.st).isOk = true := by
      decide +kernel
    have hfreed : ¬ (headers hundred.st 134488080).mapped ∧
        (((reallocarray (.above defaultConfig) 0 (some 134488080) (2 ^ 61) 8 hundred.st).getD
          (none, State.unbooted)).2.freeHeader (headers hundred.st 134488080).freeHead).freeList =
          (headers hundred.st 134488080).header := by decide +kernel
    have hlive : 134488080 ∈ hundred.live := by
      refine .inl ?_
      decide +kernel
    refine ⟨hundred, _, hundred_reachable, hlive,
      Result.eq_ok_pair hok (d := (none, State.unbooted)) (by decide +kernel), by decide +kernel, ?_, fun hsized => ?_⟩
    · rw [Freed, if_neg hfreed.1]
      exact ⟨.freeList, hfreed.2⟩
    · have hin := (hsized (by decide) _ rfl).1
      simp [liveAfter] at hin

end Llheap
