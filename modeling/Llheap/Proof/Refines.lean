import Llheap.Proof.BucketFit
import Llheap.Proof.Encoding
import Llheap.Proof.Owners

/-!
# The state behind an arena

An arena says what all storage is in use as; the state says it with free lists, buffers and headers. `Refines` relates the two, and each primitive of the allocator moves one piece: taking a free block, cutting a block off a buffer, putting a block on a list, writing a header.
-/

namespace Llheap

variable {cfg : Config}

/-- `f` is a bucket of the heap `h`, of blocks of `n` bytes. -/
def IsBucket (m : HeapMaster) (h f n : ℕ) : Prop :=
  h ∈ m.heapManagersList ∧ ∃ i < noBucketSizes, f = freeListsAddr h i ∧ n = bucketSize i

/-- What a bucket's fields say: the two lists hold its free blocks, each once. -/
structure Bucket (s : State) (A : Arena Tag) (h f n : ℕ) : Prop where
  home : (s.freeHeader f).homeManager = h
  blockSize : (s.freeHeader f).blockSize = n
  listed : ∃ own remote, Chain s.mem.word (s.freeHeader f).freeList own ∧
    Chain s.mem.word (s.freeHeader f).remoteList remote ∧ (own ++ remote).Nodup ∧
    ∀ b, b ∈ own ++ remote ↔ A.at? b = some ⟨n, .free f⟩

/-- A live allocation: the block `[b, b + n)`, the program's address `u`, and what the headers record. -/
structure LiveBlock (cfg : Config) (s : State) (b n u : ℕ) (v : View) : Prop where
  encodes : Encodes s.mem b n u v
  taggable : v.Taggable n
  room : u + v.size ≤ b + n
  aligned : ∀ a ∈ v.alignment, a.isPowerOfTwo ∧ libAlign ≤ a ∧ a ∣ u
  bucket : ∀ f, v.origin = .bucket f → ∃ h, IsBucket s.heapMaster h f n
  mapped : v.origin = .mapped → cfg.pageSize ∣ b ∧ cfg.pageSize ∣ n

/-- Free lists, buffers and headers are the pieces of the arena. -/
structure Blocks (cfg : Config) (s : State) (A : Arena Tag) : Prop where
  page : s.heapMaster.pageSize = cfg.pageSize
  crossover : CrossoverOk s.heapMaster
  threadBlock : cfg.mallocThreadBlock + libAlign ≤ 2 ^ 64
  inUser : ∀ m ∈ s.mappings, InUser m
  bucket : ∀ h f n, IsBucket s.heapMaster h f n → Bucket s A h f n
  free : ∀ b n f, A.at? b = some ⟨n, .free f⟩ → ∃ h, IsBucket s.heapMaster h f n
  bump : ∀ b n h, A.at? b = some ⟨n, .bump h⟩ ↔ h ∈ s.heapMaster.heapManagersList ∧
    b = (s.heap h).bufStart ∧ n = (s.heap h).bufRemaining ∧ 0 < n
  live : ∀ b n u v, A.at? b = some ⟨n, .live u v⟩ → LiveBlock cfg s b n u v

structure Refines (cfg : Config) (main : Tid) (s : State) (status : Tid → Status) (A : Arena Tag)
    (idle : List ℕ) : Prop where
  booted : s.heapMasterBootFlag ≠ 0
  ready : s.heapMasterBootFlag = 1 → s.heapManager main ≠ 1
  heaps : Heaps main s status A idle
  blocks : Blocks cfg s A

variable {main : Tid} {k : Kernel cfg} {t : Tid} {s s' : State} {status : Tid → Status}
  {A A' : Arena Tag} {idle : List ℕ} {b n u f h : ℕ} {v : View}

theorem IsBucket.le_len {m : HeapMaster} (hf : IsBucket m h f n) : 32 ≤ n := by
  obtain ⟨_, i, hi, _, rfl⟩ := hf
  exact le_bucketSize hi

theorem IsBucket.inside {m : HeapMaster} (hf : IsBucket m h f n) : h ≤ f ∧ f + 64 ≤ h + sizeofHeap := by
  obtain ⟨_, i, hi, rfl, _⟩ := hf
  rw [noBucketSizes] at hi
  rw [freeListsAddr, sizeofFreeHeader, sizeofHeap]
  omega

/-- Heaps do not overlap, so a bucket belongs to one heap. -/
theorem IsBucket.unique {m : HeapMaster} {h' n' : ℕ} (hp : HeapPieces m A) (hf : IsBucket m h f n)
    (hf' : IsBucket m h' f n') : h = h' ∧ n = n' := by
  have hin := hf.inside
  have hin' := hf'.inside
  obtain rfl : h = h' := Arena.eq_of_overlap (x := f) ((hp.heap h _).mpr ⟨hf.1, rfl⟩)
    ((hp.heap h' _).mpr ⟨hf'.1, rfl⟩) ⟨hin.1, by dsimp only; omega⟩ ⟨hin'.1, by dsimp only; omega⟩
  refine ⟨rfl, ?_⟩
  obtain ⟨_, i, _, hi, rfl⟩ := hf
  obtain ⟨_, j, _, hj, rfl⟩ := hf'
  simp only [freeListsAddr, sizeofFreeHeader] at hi hj
  rw [show i = j by omega]

theorem Blocks.end_le (hb : Blocks cfg s A) (hlaid : Laid s.mappings A) {p : Piece Tag}
    (hp : A.at? b = some p) : b + p.len ≤ 2 ^ 63 := by
  obtain ⟨m, hm, hlow, hhigh⟩ := hlaid.covered b p hp
  have := (hb.inUser m hm).2
  omega

theorem Blocks.bufRemaining_lt (hb : Blocks cfg s A) (hlaid : Laid s.mappings A)
    (hh : h ∈ s.heapMaster.heapManagersList) : (s.heap h).bufRemaining < 2 ^ 63 := by
  rcases Nat.eq_zero_or_pos (s.heap h).bufRemaining with hzero | hpos
  · omega
  · have hpiece := (hb.bump _ _ h).mpr ⟨hh, rfl, rfl, hpos⟩
    have := hb.end_le hlaid hpiece
    have := hlaid.pos _ _ hpiece
    dsimp only at *
    omega

/-! ### What depends on what -/

theorem HeapPieces.congr {m : HeapMaster} (hp : HeapPieces m A)
    (hA : ∀ b p, p.tag = .heap ∨ p.tag = .spare → (A'.at? b = some p ↔ A.at? b = some p)) :
    HeapPieces m A' where
  heap b n := (hA b _ (.inl rfl)).trans (hp.heap b n)
  spare b n := (hA b _ (.inr rfl)).trans (hp.spare b n)
  whole := hp.whole

theorem Bucket.congr (hbucket : Bucket s A h f n) (hlen : 8 ≤ n) (hfree : s'.freeHeader f = s.freeHeader f)
    (hmem : ∀ b, A.at? b = some ⟨n, .free f⟩ → Set.EqOn s'.mem s.mem (Set.Ico b (b + n)))
    (hA : ∀ b, A'.at? b = some ⟨n, .free f⟩ ↔ A.at? b = some ⟨n, .free f⟩) : Bucket s' A' h f n := by
  obtain ⟨own, remote, hown, hremote, hnodup, hmemIff⟩ := hbucket.listed
  have hlink : ∀ c ∈ own ++ remote, s'.mem.word c = s.mem.word c := fun c hc =>
    Memory.word_congr ((hmem c ((hmemIff c).mp hc)).mono (Set.Ico_subset_Ico le_rfl (by omega)))
  refine ⟨by rw [hfree]; exact hbucket.home, by rw [hfree]; exact hbucket.blockSize, own, remote, ?_, ?_,
    hnodup, fun c => (hmemIff c).trans (hA c).symm⟩
  · rw [hfree]
    exact hown.congr fun c hc => hlink c (List.mem_append_left _ hc)
  · rw [hfree]
    exact hremote.congr fun c hc => hlink c (List.mem_append_right _ hc)

theorem LiveBlock.congr (hl : LiveBlock cfg s b n u v)
    (hmem : Set.EqOn s'.mem s.mem (Set.Ico b (b + n)))
    (hlist : ∀ h ∈ s.heapMaster.heapManagersList, h ∈ s'.heapMaster.heapManagersList) :
    LiveBlock cfg s' b n u v := by
  have hroom := hl.room
  obtain ⟨hafter, hfake⟩ := hl.encodes.user_after
  refine ⟨hl.encodes.congr (hmem.mono (Set.Ico_subset_Ico le_rfl (by omega))) fun hs =>
    hmem.mono (Set.Ico_subset_Ico ?_ ?_), hl.taggable, hl.room, hl.aligned, fun f hf => ?_, hl.mapped⟩
  · have := hfake hs
    obtain ⟨a, ha⟩ := Option.isSome_iff_exists.mp hs
    have := (hl.encodes.fake a ha).1
    simp only [sizeofStorage] at this
    omega
  · have := hfake hs
    omega
  · obtain ⟨h, hmem, hi⟩ := hl.bucket f hf
    exact ⟨h, hlist h hmem, hi⟩

/-- The two arenas have the same free blocks, buffers and live blocks. -/
def SameStorage (A A' : Arena Tag) : Prop :=
  ∀ b p, p.tag ≠ .heap → p.tag ≠ .spare → p.tag ≠ .held → (A'.at? b = some p ↔ A.at? b = some p)

theorem SameBlocks.sameStorage (hA : SameBlocks A A') : SameStorage A A' :=
  fun b p hheap hspare _ => hA b p hheap hspare

theorem SameStorage.refl (A : Arena Tag) : SameStorage A A := fun _ _ _ _ _ => Iff.rfl

theorem SameStorage.free (hA : SameStorage A A') :
    A'.at? b = some ⟨n, .free f⟩ ↔ A.at? b = some ⟨n, .free f⟩ := by
  apply hA <;> simp

theorem SameStorage.bump (hA : SameStorage A A') :
    A'.at? b = some ⟨n, .bump h⟩ ↔ A.at? b = some ⟨n, .bump h⟩ := by
  apply hA <;> simp

theorem SameStorage.live (hA : SameStorage A A') :
    A'.at? b = some ⟨n, .live u v⟩ ↔ A.at? b = some ⟨n, .live u v⟩ := by
  apply hA <;> simp

theorem Blocks.of_same (hb : Blocks cfg s A) (hA : SameStorage A A')
    (hcross : CrossoverOk s'.heapMaster) (hpage : s'.heapMaster.pageSize = s.heapMaster.pageSize)
    (huser : ∀ m ∈ s'.mappings, InUser m)
    (hmem : ∀ b p, A.at? b = some p → Set.EqOn s'.mem s.mem (Set.Ico b (b + p.len)))
    (hfree : s'.freeHeader = s.freeHeader)
    (hlist : s'.heapMaster.heapManagersList = s.heapMaster.heapManagersList)
    (hbuf : ∀ h, (s'.heap h).bufStart = (s.heap h).bufStart ∧
      (s'.heap h).bufRemaining = (s.heap h).bufRemaining) : Blocks cfg s' A' where
  page := hpage.trans hb.page
  crossover := hcross
  threadBlock := hb.threadBlock
  inUser := huser
  bucket h f n hf := by
    rw [IsBucket, hlist] at hf
    have hlen : 32 ≤ n := IsBucket.le_len (m := s.heapMaster) hf
    exact (hb.bucket h f n hf).congr (by omega) (congrFun hfree f) (fun b hb => hmem b _ hb)
      fun _ => hA.free
  free b n f hbf := by
    obtain ⟨h, hf⟩ := hb.free b n f (hA.free.mp hbf)
    exact ⟨h, by rw [IsBucket, hlist]; exact hf⟩
  bump b n h := by
    rw [hA.bump, hlist, (hbuf h).1, (hbuf h).2]
    exact hb.bump b n h
  live b n u v hl := by
    have hl := hA.live.mp hl
    exact (hb.live b n u v hl).congr (hmem b _ hl) fun h hh => hlist ▸ hh

theorem CrossoverOk.of_same {m m' : HeapMaster} (hm : CrossoverOk m) (hs : SameMaster m m') :
    CrossoverOk m' :=
  ⟨by rw [hs.pageSize, hs.mmapStart]; exact hm.lower, by rw [hs.mmapStart]; exact hm.upper,
    by rw [hs.maxBucketsUsed, hs.mmapStart]; exact hm.used⟩

theorem Refines.of_grown (hr : Refines cfg main s status A idle) (hg : Grown s s') :
    Refines cfg main s' status A idle where
  booted := by rw [hg.bootFlag]; exact hr.booted
  ready := by rw [hg.bootFlag, hg.heapManager]; exact hr.ready
  heaps := hr.heaps.of_same hg.sameHeaps
  blocks := hr.blocks.of_same (.refl A) (hr.blocks.crossover.of_same hg.master) hg.master.pageSize
    (hg.inUser hr.blocks.inUser) (fun b p hp => hg.eqOn (hr.heaps.laid.covered b p hp)) hg.freeHeader
    hg.master.heapManagersList fun h => by rw [hg.heap]; exact ⟨rfl, rfl⟩

/-! ### Live allocations -/

/-- What an arena says about a live block. -/
structure Live where
  len : ℕ
  user : ℕ
  view : View
deriving DecidableEq

/-- The live allocations, by the addresses of their blocks. -/
def liveAt (A : Arena Tag) (b : ℕ) : Option Live :=
  match A.at? b with
  | some ⟨n, .live u v⟩ => some ⟨n, u, v⟩
  | _ => none

theorem liveAt_eq_some {l : Live} : liveAt A b = some l ↔ A.at? b = some ⟨l.len, .live l.user l.view⟩ := by
  obtain ⟨n, u, v⟩ := l
  unfold liveAt
  split
  · next n' u' v' hb =>
    rw [hb]
    simp
  · next hb => simpa using fun hsome => hb n u v hsome

theorem liveAt_eq {L : ℕ → Option Live}
    (h : ∀ b l, A.at? b = some ⟨l.len, .live l.user l.view⟩ ↔ L b = some l) : liveAt A = L :=
  funext fun b => Option.ext fun l => liveAt_eq_some.trans (h b l)

theorem liveAt_congr (hA : SameStorage A A') : liveAt A' = liveAt A :=
  liveAt_eq fun _ _ => hA.live.trans liveAt_eq_some.symm

theorem liveAt_eq_none {p : Piece Tag} (hb : A.at? b = some p) (hp : ∀ u v, p.tag ≠ .live u v) :
    liveAt A b = none := by
  by_contra hsome
  obtain ⟨l, hl⟩ := Option.ne_none_iff_exists'.mp hsome
  rw [liveAt_eq_some, hb] at hl
  exact hp _ _ (congrArg Piece.tag (Option.some.inj hl))

theorem liveAt_retag_live {p : Piece Tag} (hb : A.at? b = some p) :
    liveAt (A.retag b (.live u v)) = Function.update (liveAt A) b (some ⟨p.len, u, v⟩) := by
  refine liveAt_eq fun c l => ?_
  rw [Arena.at?_retag_eq_some hb]
  by_cases hc : c = b
  · subst c
    rw [Function.update_self, Option.some.injEq]
    constructor
    · rintro (⟨_, heq⟩ | ⟨hne, _⟩)
      · obtain ⟨hlen, htag⟩ := Piece.mk.inj heq
        obtain ⟨hu, hv⟩ := Tag.live.inj htag
        rw [← hlen, ← hu, ← hv]
      · exact absurd rfl hne
    · rintro rfl
      exact .inl ⟨rfl, rfl⟩
  · rw [Function.update_of_ne hc, liveAt_eq_some]
    constructor
    · exact fun h => h.elim (fun h => absurd h.1 hc) And.right
    · exact fun h => .inr ⟨hc, h⟩

theorem liveAt_retag {p : Piece Tag} {tag : Tag} (hb : A.at? b = some p) (htag : ∀ u v, tag ≠ .live u v) :
    liveAt (A.retag b tag) = Function.update (liveAt A) b none := by
  refine liveAt_eq fun c l => ?_
  rw [Arena.at?_retag_eq_some hb]
  by_cases hc : c = b
  · subst c
    rw [Function.update_self]
    constructor
    · rintro (⟨_, heq⟩ | ⟨hne, _⟩)
      · exact absurd (Piece.mk.inj heq).2.symm (htag _ _)
      · exact absurd rfl hne
    · exact nofun
  · rw [Function.update_of_ne hc, liveAt_eq_some]
    constructor
    · exact fun h => h.elim (fun h => absurd h.1 hc) And.right
    · exact fun h => .inr ⟨hc, h⟩

theorem liveAt_retag_same {p : Piece Tag} {tag : Tag} (hb : A.at? b = some p)
    (hp : ∀ u v, p.tag ≠ .live u v) (htag : ∀ u v, tag ≠ .live u v) :
    liveAt (A.retag b tag) = liveAt A := by
  rw [liveAt_retag hb htag, ← liveAt_eq_none hb hp, Function.update_eq_self]

/-- The bytes of the live blocks are the same. -/
def Frame (L : ℕ → Option Live) (s s' : State) : Prop :=
  ∀ b l, L b = some l → Set.EqOn s'.mem s.mem (Set.Ico b (b + l.len))

theorem Frame.trans {s'' : State} {L : ℕ → Option Live} (hs : Frame L s s') (hs' : Frame L s' s'') :
    Frame L s s'' :=
  fun b l hl => (hs' b l hl).trans (hs b l hl)

theorem Frame.of_mem {L : ℕ → Option Live} (h : s'.mem = s.mem) : Frame L s s' :=
  fun _ _ _ => by rw [h]; exact Set.eqOn_refl _ _

theorem Frame.of_outside {p : Piece Tag} (hb : A.at? b = some p)
    (hmem : ∀ x, x < b ∨ b + p.len ≤ x → s'.mem x = s.mem x) :
    Frame (Function.update (liveAt A) b none) s s' := by
  intro c l hl x hx
  have hne : c ≠ b := by
    rintro rfl
    rw [Function.update_self] at hl
    cases hl
  rw [Function.update_of_ne hne, liveAt_eq_some] at hl
  have := A.separate c _ b p hl hb hne
  dsimp only at this
  exact hmem x (by have := hx.1; have := hx.2; omega)

theorem Refines.grown_frame (hr : Refines cfg main s status A idle) (hg : Grown s s') :
    Frame (liveAt A) s s' :=
  fun b _ hl => hg.eqOn (hr.heaps.laid.covered b _ (liveAt_eq_some.mp hl))

end Llheap
