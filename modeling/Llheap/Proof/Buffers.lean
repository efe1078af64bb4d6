import Llheap.Proof.Primitives

/-!
# Buffers

A thread's buffer is one piece. Blocks are cut off its start; when it is too short it gives way to a new one, and as much of the rest as a bucket holds goes on that bucket's list.
-/

namespace Llheap

variable {cfg : Config} {main : Tid} {k : Kernel cfg} {t : Tid} {s s' : State}
  {status : Tid → Status} {A A' : Arena Tag} {idle : List ℕ} {a b n m u f h start rem : ℕ} {p : Piece Tag}

/-- Every block stays what it is, and no block becomes live. -/
structure KeepsBlocks (A A' : Arena Tag) : Prop where
  block : ∀ c p, p.tag.IsBlock → A.at? c = some p → A'.at? c = some p
  liveAt : liveAt A' = liveAt A

theorem KeepsBlocks.trans {A'' : Arena Tag} (hA : KeepsBlocks A A') (hA' : KeepsBlocks A' A'') :
    KeepsBlocks A A'' :=
  ⟨fun c p hp hc => hA'.block c p hp (hA.block c p hp hc), hA'.liveAt.trans hA.liveAt⟩

/-- Every block stays what it is, with its bytes. -/
structure Undisturbed (s s' : State) (A A' : Arena Tag) : Prop where
  keeps : KeepsBlocks A A'
  bytes : ∀ c p, p.tag.IsBlock → A.at? c = some p → Set.EqOn s'.mem s.mem (Set.Ico c (c + p.len))

theorem Undisturbed.of_mem (hA : KeepsBlocks A A') (hmem : s'.mem = s.mem) : Undisturbed s s' A A' :=
  ⟨hA, fun _ _ _ _ => by rw [hmem]; exact Set.eqOn_refl _ _⟩

theorem Undisturbed.trans {s'' : State} {A'' : Arena Tag} (hs : Undisturbed s s' A A')
    (hs' : Undisturbed s' s'' A' A'') : Undisturbed s s'' A A'' :=
  ⟨hs.keeps.trans hs'.keeps, fun c p hp hc => (hs'.bytes c p hp (hs.keeps.block c p hp hc)).trans (hs.bytes c p hp hc)⟩

theorem Refines.grown_undisturbed (hr : Refines cfg main s status A idle) (hg : Grown s s') : Undisturbed s s' A A :=
  ⟨⟨fun _ _ _ hc => hc, rfl⟩, fun c _ _ hc => hg.eqOn (hr.heaps.laid.covered c _ hc)⟩

theorem Tag.IsBlock.ne_of_bump {c : ℕ} (hp : p.tag.IsBlock) (hc : A.at? c = some p)
    (hb : A.at? b = some ⟨n, .bump h⟩) : c ≠ b := by
  rintro rfl
  exact hp.ne_bump (congrArg Piece.tag (Option.some.inj (hb.symm.trans hc)))

/-- The heap `h` has the buffer `[start, start + rem)`. -/
def setBuffer (h start rem : ℕ) (s : State) : State :=
  { s with heap := Function.update s.heap h { s.heap h with bufStart := start, bufRemaining := rem } }

theorem Refines.rebuffer (hr : Refines cfg main s status A idle)
    (hh : h ∈ s.heapMaster.heapManagersList) (hlaid : Laid s.mappings A')
    (hA : ∀ b p, p.tag ≠ .bump h → p.tag ≠ .held → (A'.at? b = some p ↔ A.at? b = some p))
    (hbump : ∀ b n, A'.at? b = some ⟨n, .bump h⟩ ↔ b = start ∧ n = rem ∧ 0 < n) :
    Refines cfg main (setBuffer h start rem s) status A' idle := by
  have hsame : SameHeaps s (setBuffer h start rem s) := .of_storage next_update
  refine ⟨hr.booted, hr.ready, ⟨hlaid, hr.heaps.pieces.congr fun b p hp => hA b p ?_ ?_, hr.heaps.owned.of_same hsame⟩,
    ⟨hr.blocks.page, hr.blocks.crossover, hr.blocks.threadBlock, hr.blocks.inUser,
      fun h' f n hf => ?_, fun b n f hb => ?_, fun b n h' => ?_, fun b n u v hb => ?_⟩⟩
  · rcases hp with hp | hp <;> rw [hp] <;> nofun
  · rcases hp with hp | hp <;> rw [hp] <;> nofun
  · have hlen := hf.le_len
    exact (hr.blocks.bucket h' f n hf).congr (by omega) rfl (fun _ _ => Set.eqOn_refl _ _)
      fun b => hA b ⟨n, .free f⟩ nofun nofun
  · exact hr.blocks.free b n f ((hA b ⟨n, .free f⟩ nofun nofun).mp hb)
  · by_cases hne : h' = h
    · subst h'
      rw [hbump]
      simp [setBuffer, hh]
    · have hother : (setBuffer h start rem s).heap h' = s.heap h' := Function.update_of_ne hne _ _
      rw [hother, hA b ⟨n, .bump h'⟩ (fun heq => hne (Tag.bump.inj heq)) nofun]
      exact hr.blocks.bump b n h'
  · exact (hr.blocks.live b n u v ((hA b ⟨n, .live u v⟩ nofun nofun).mp hb)).congr (Set.eqOn_refl _ _)
      fun _ hh => hh

theorem Refines.buffer (hr : Refines cfg main s status A idle)
    (hh : h ∈ s.heapMaster.heapManagersList) (hpos : 0 < (s.heap h).bufRemaining) :
    A.at? (s.heap h).bufStart = some ⟨(s.heap h).bufRemaining, .bump h⟩ :=
  (hr.blocks.bump _ _ h).mpr ⟨hh, rfl, rfl, hpos⟩

theorem Refines.cut (hr : Refines cfg main s status A idle) (hh : h ∈ s.heapMaster.heapManagersList)
    (hn : 0 < n) (halign : 16 ∣ n) (hle : n ≤ (s.heap h).bufRemaining) :
    ∃ A', Refines cfg main
        (setBuffer h ((s.heap h).bufStart + n) ((s.heap h).bufRemaining - n) s) status A' idle ∧
      A'.at? (s.heap h).bufStart = some ⟨n, .held⟩ ∧ KeepsBlocks A A' := by
  have hpiece := hr.buffer hh (by omega)
  have hA : ∀ b p, p.tag ≠ .bump h → p.tag ≠ .held →
      ((A.carve _ n .held (.bump h) hpiece hn hle).at? b = some p ↔ A.at? b = some p) :=
    fun b p hbump hheld => Arena.at?_carve_of_tag hbump hheld hbump
  refine ⟨A.carve _ n .held (.bump h) hpiece hn hle,
    hr.rebuffer hh (hr.heaps.laid.carve halign) hA fun b m => ?_,
    Arena.at?_carve_eq_some.mpr (.inl ⟨rfl, rfl⟩),
    fun c p hp hc => Arena.at?_carve_eq_some.mpr (.inr (.inr ⟨hp.ne_of_bump hc hpiece, hc⟩)),
    liveAt_eq fun b l => (hA b ⟨l.len, .live l.user l.view⟩ nofun nofun).trans liveAt_eq_some.symm⟩
  rw [Arena.at?_carve_eq_some]
  dsimp only
  constructor
  · rintro (⟨_, heq⟩ | ⟨hb, hlt, heq⟩ | ⟨hne, hb⟩)
    · cases heq
    · have hm := (Piece.mk.inj heq).1
      exact ⟨hb, hm, by omega⟩
    · exact absurd ((hr.blocks.bump b m h).mp hb).2.1 hne
  · rintro ⟨rfl, rfl, hpos⟩
    exact .inr (.inl ⟨rfl, by omega, rfl⟩)

/-- A new buffer in free storage takes the place of the old one, of which the first `n` bytes are kept as a block. -/
theorem Refines.renewKeeping (hr : Refines cfg main s status A idle)
    (hh : h ∈ s.heapMaster.heapManagersList) (hn : 0 < n) (hle : n ≤ (s.heap h).bufRemaining)
    (hfree : A.Free a m) (hcov : Covered s.mappings a m) (halign : 16 ∣ a) (ha : 0 < a) (hm : 0 < m) :
    ∃ A', Refines cfg main (setBuffer h a m s) status A' idle ∧
      A'.at? (s.heap h).bufStart = some ⟨n, .held⟩ ∧ KeepsBlocks A A' := by
  have hpiece := hr.buffer hh (by omega)
  have hfree' : (A.shrink _ n .held hpiece hn hle).Free a m := by
    refine hfree.shrink ?_
    have := hfree _ _ hpiece
    dsimp only at this
    omega
  have hA : ∀ b p, p.tag ≠ .bump h → p.tag ≠ .held →
      (((A.shrink _ n .held hpiece hn hle).insert a m (.bump h) hm hfree').at? b = some p ↔
        A.at? b = some p) :=
    fun b p hbump hheld => (Arena.at?_insert_of_tag hbump).trans (Arena.at?_shrink_of_tag hbump hheld)
  refine ⟨_, hr.rebuffer hh (hr.heaps.laid.shrink.insert hcov halign ha) hA fun b l => ?_, ?_,
    fun c p hp hc => Arena.at?_insert_eq_some.mpr
      (.inr (Arena.at?_shrink_eq_some.mpr (.inr ⟨hp.ne_of_bump hc hpiece, hc⟩))),
    liveAt_eq fun b l => (hA b ⟨l.len, .live l.user l.view⟩ nofun nofun).trans liveAt_eq_some.symm⟩
  · rw [Arena.at?_insert_eq_some, Arena.at?_shrink_eq_some]
    constructor
    · rintro (⟨rfl, heq⟩ | ⟨_, heq⟩ | ⟨hne, hb⟩)
      · obtain ⟨rfl, _⟩ := Piece.mk.inj heq
        exact ⟨rfl, rfl, hm⟩
      · cases heq
      · exact absurd ((hr.blocks.bump b l h).mp hb).2.1 hne
    · rintro ⟨rfl, rfl, _⟩
      exact .inl ⟨rfl, rfl⟩
  · exact Arena.at?_insert_eq_some.mpr (.inr (Arena.at?_shrink_eq_some.mpr (.inl ⟨rfl, rfl⟩)))

theorem Refines.renew (hr : Refines cfg main s status A idle) (hh : h ∈ s.heapMaster.heapManagersList)
    (hfree : A.Free a m) (hcov : Covered s.mappings a m) (halign : 16 ∣ a) (ha : 0 < a) (hm : 0 < m) :
    ∃ A', Refines cfg main (setBuffer h a m s) status A' idle ∧ KeepsBlocks A A' := by
  have hold : ∃ B : Arena Tag, B.Free a m ∧ Laid s.mappings B ∧
      (∀ b p, p.tag ≠ .bump h → (B.at? b = some p ↔ A.at? b = some p)) ∧
      ∀ b n, B.at? b ≠ some ⟨n, .bump h⟩ := by
    rcases Nat.eq_zero_or_pos (s.heap h).bufRemaining with hzero | hpos
    · refine ⟨A, hfree, hr.heaps.laid, fun _ _ _ => Iff.rfl, fun b n hb => ?_⟩
      have := (hr.blocks.bump b n h).mp hb
      omega
    · have hpiece := hr.buffer hh hpos
      refine ⟨A.erase (s.heap h).bufStart, hfree.erase, hr.heaps.laid.erase _,
        fun b p hp => Arena.at?_erase_of_tag hpiece hp, fun b n hb => ?_⟩
      obtain ⟨hne, hb⟩ := Arena.at?_erase_eq_some.mp hb
      exact hne ((hr.blocks.bump b n h).mp hb).2.1
  obtain ⟨B, hfreeB, hlaidB, hsame, hnone⟩ := hold
  have hA : ∀ b p, p.tag ≠ .bump h → p.tag ≠ .held →
      ((B.insert a m (.bump h) hm hfreeB).at? b = some p ↔ A.at? b = some p) :=
    fun b p hbump _ => (Arena.at?_insert_of_tag hbump).trans (hsame b p hbump)
  refine ⟨_, hr.rebuffer hh (hlaidB.insert hcov halign ha) hA fun b l => ?_,
    fun c p hp hc => Arena.at?_insert_eq_some.mpr (.inr ((hsame c p hp.ne_bump.symm).mpr hc)),
    liveAt_eq fun b l => (hA b ⟨l.len, .live l.user l.view⟩ nofun nofun).trans liveAt_eq_some.symm⟩
  rw [Arena.at?_insert_eq_some]
  constructor
  · rintro (⟨rfl, heq⟩ | hb)
    · obtain ⟨rfl, _⟩ := Piece.mk.inj heq
      exact ⟨rfl, rfl, hm⟩
    · exact absurd hb (hnone b l)
  · rintro ⟨rfl, rfl, _⟩
    exact .inl ⟨rfl, rfl⟩

/-! ### The rest of an old buffer -/

/-- The bucket for a left-over, or the one before it, holds no more than the left-over. -/
theorem remainderBucket_spec {max : ℕ} (hmax : max < noBucketSizes) (hrem : bucketSize 0 ≤ rem % 2 ^ 32) :
    remainderBucket max rem < noBucketSizes ∧ (rem < bucketSize (remainderBucket max rem) →
      0 < remainderBucket max rem ∧ bucketSize (remainderBucket max rem - 1) ≤ rem) := by
  have hmod : rem % 2 ^ 32 ≤ rem := Nat.mod_le _ _
  have hbelow : ∀ j, (∀ i < j, bucketSize i < rem % 2 ^ 32 ∨ bucketSize i ≤ rem) → rem < bucketSize j →
      0 < j ∧ bucketSize (j - 1) ≤ rem := by
    intro j hleast hlt
    have hpos : 0 < j := by
      rcases Nat.eq_zero_or_pos j with rfl | hpos
      · omega
      · exact hpos
    have := hleast (j - 1) (by omega)
    exact ⟨hpos, by omega⟩
  unfold remainderBucket
  split
  · next hsmall =>
    rw [lookupSizes] at hsmall
    have hbound : rem ≤ 67108880 := by omega
    rw [lookup_eq hbound]
    obtain ⟨hlt, _, hleast⟩ := lookupIdx_spec hbound
    exact ⟨hlt, hbelow _ fun i hi => .inr (hleast i hi).le⟩
  · have hkey : bsearchl rem bucketSize max = bsearchl (rem % 2 ^ 32) bucketSize max := by
      rw [bsearchl, bsearchl, Nat.mod_mod]
    obtain ⟨hle, hleast, _⟩ := bsearchl_spec (rem % 2 ^ 32) max bucketSize (Nat.mod_lt _ (by decide))
      fun i j hij hj => bucketSize_le hij (hj.trans hmax)
    rw [hkey]
    exact ⟨hle.trans_lt hmax, hbelow _ fun i hi => .inl (hleast i hi)⟩

theorem freeListsAddr_pred {i : ℕ} (hi : 0 < i) :
    freeListsAddr h i - sizeofFreeHeader = freeListsAddr h (i - 1) := by
  rw [freeListsAddr, freeListsAddr, sizeofFreeHeader]
  omega

theorem Blocks.chainRemainder_cases (hb : Blocks cfg s A) (hh : h ∈ s.heapMaster.heapManagersList) :
    chainRemainder h s = s ∨ ∃ f n, IsBucket s.heapMaster h f n ∧ n ≤ (s.heap h).bufRemaining ∧
      chainRemainder h s = s.push .freeList f (s.heap h).bufStart := by
  unfold chainRemainder
  dsimp only
  split
  · next hrem =>
    obtain ⟨hlt, hdown⟩ := remainderBucket_spec hb.crossover.used_lt hrem
    have hsize : ∀ i < noBucketSizes, (s.freeHeader (freeListsAddr h i)).blockSize = bucketSize i :=
      fun i hi => (hb.bucket h _ _ ⟨hh, i, hi, rfl, rfl⟩).blockSize
    refine .inr ?_
    rw [hsize _ hlt]
    split
    · next hshort =>
      obtain ⟨hpos, hle⟩ := hdown hshort
      rw [freeListsAddr_pred hpos]
      exact ⟨_, _, ⟨hh, _, by omega, rfl, rfl⟩, hle, rfl⟩
    · next hfits => exact ⟨_, _, ⟨hh, _, hlt, rfl, rfl⟩, not_lt.mp hfits, rfl⟩
  · exact .inl rfl

theorem Refines.replaceBuffer (hr : Refines cfg main s status A idle)
    (hh : s.heapManager t ∈ s.heapMaster.heapManagersList) (hn : 0 < n) (hdvd : 16 ∣ n) (hle : n ≤ m)
    (hfree : A.Free a m) (hcov : Covered s.mappings a m) (halign : 16 ∣ a) (ha : 0 < a) :
    ∃ A', Refines cfg main (replaceBuffer t a n (m - n) s) status A' idle ∧
      A'.at? a = some ⟨n, .held⟩ ∧ Undisturbed s (replaceBuffer t a n (m - n) s) A A' := by
  have hm : 0 < m := by omega
  -- the block is cut off the new buffer once the old one is gone
  have hcut : ∀ {s₁ : State} {B : Arena Tag}, Refines cfg main s₁ status B idle →
      s₁.heapMaster.heapManagersList = s.heapMaster.heapManagersList →
      (s₁.heap (s.heapManager t)).bufStart = a ∧ (s₁.heap (s.heapManager t)).bufRemaining = m →
      KeepsBlocks A B → ∃ A', Refines cfg main (setBuffer (s.heapManager t) (a + n) (m - n) s₁)
        status A' idle ∧ A'.at? a = some ⟨n, .held⟩ ∧ KeepsBlocks A A' := by
    intro s₁ B hrB hlist hbuf hkeepsB
    obtain ⟨hstart, hrem⟩ := hbuf
    obtain ⟨A', hr', hheld, hkeeps⟩ := hrB.cut (h := s.heapManager t) (by rw [hlist]; exact hh) hn hdvd
      (by rw [hrem]; exact hle)
    rw [hstart, hrem] at hr'
    rw [hstart] at hheld
    exact ⟨A', hr', hheld, hkeepsB.trans hkeeps⟩
  by_cases hpush : a ≠ (s.heap (s.heapManager t)).bufStart + (s.heap (s.heapManager t)).bufRemaining ∧
      chainRemainder (s.heapManager t) s ≠ s
  · obtain ⟨hnew, hchain⟩ := hpush
    obtain ⟨f, l, hf, hfl, heq⟩ := (hr.blocks.chainRemainder_cases hh).resolve_left hchain
    have hl := hf.le_len
    have hpiece := hr.buffer hh (by omega)
    obtain ⟨B, hrB, hheldB, hkeepsB⟩ := hr.renewKeeping hh (by omega) hfl hfree hcov halign ha hm
    have hrC := hrB.push (f := f) hf hheldB .held nofun .freeList
    have hliveC : liveAt (B.retag (s.heap (s.heapManager t)).bufStart (.free f)) = liveAt B :=
      liveAt_retag_same hheldB nofun nofun
    have hkeepsC : KeepsBlocks A (B.retag (s.heap (s.heapManager t)).bufStart (.free f)) := by
      refine ⟨fun c p hp hc => ?_, hliveC.trans hkeepsB.liveAt⟩
      exact (Arena.at?_retag_eq_some hheldB).mpr (.inr ⟨hp.ne_of_bump hc hpiece, hkeepsB.block c p hp hc⟩)
    obtain ⟨A', hr', hheld, hkeeps⟩ := hcut hrC rfl (by simp [State.push, setBuffer]) hkeepsC
    have hstate : Llheap.replaceBuffer t a n (m - n) s = setBuffer (s.heapManager t) (a + n) (m - n)
        ((setBuffer (s.heapManager t) a m s).push .freeList f (s.heap (s.heapManager t)).bufStart) := by
      rw [Llheap.replaceBuffer]
      dsimp only
      rw [if_pos hnew, heq]
      simp [setBuffer, State.push]
    rw [hstate]
    refine ⟨A', hr', hheld, hkeeps, fun c p hp hc => ?_⟩
    refine eqOn_of_outside hpiece (fun x hx => ?_) hc (hp.ne_of_bump hc hpiece)
    dsimp only at hx
    exact Memory.setWord_apply_of_outside (by omega)
  · obtain ⟨B, hrB, hkeepsB⟩ := hr.renew hh hfree hcov halign ha hm
    obtain ⟨A', hr', hheld, hkeeps⟩ := hcut hrB rfl (by simp [setBuffer]) hkeepsB
    have hstate : Llheap.replaceBuffer t a n (m - n) s = setBuffer (s.heapManager t) (a + n) (m - n)
        (setBuffer (s.heapManager t) a m s) := by
      have hsame : (if a ≠ (s.heap (s.heapManager t)).bufStart + (s.heap (s.heapManager t)).bufRemaining
          then chainRemainder (s.heapManager t) s else s) = s := by
        split
        · next hnew =>
          by_contra hchain
          exact hpush ⟨hnew, hchain⟩
        · rfl
      rw [Llheap.replaceBuffer]
      dsimp only
      rw [hsame]
      simp [setBuffer]
    rw [hstate]
    exact ⟨A', hr', hheld, .of_mem hkeeps rfl⟩

end Llheap
