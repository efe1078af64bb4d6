import Llheap.Proof.RemoteAtomic
import Llheap.Proof.Reuse

/-!
# Whole calls at one bucket

In the runs of `Llheap.Reuse` a call is one step; in those of `Llheap.Remote` every access to a bucket is. Seen at one bucket, whole calls are operations on the two stacks that the accesses take effect on, so both descriptions of the code meet one specification.
-/

namespace Llheap.Reuse

open TransitionSystem
open Remote (AtomicBucket Operation)

variable {cfg : Config} {main : Tid} {k : Kernel cfg} {t : Tid} {s s' : State} {w w' : World}
  {status counted counted' : Tid → Status} {A A' : Arena Tag} {idle idle' : List ℕ} {L L' : ℕ → Option Live}
  {B : AtomicBucket Tid} {b c f g h n u addr size : ℕ} {l : Live} {r : Option ℕ} {own returned : List ℕ}
  {p : Piece Tag} {U : Set ℕ}

/-- What the search for a block of the bucket `g` is at the bucket `f`. -/
def searching (k : Kernel cfg) (t : Tid) (g : ℕ) (s : State) (f : ℕ) : List (Operation Tid) :=
  match allocateBlock k t g s with
  | .error _ => []
  | .ok (r, s') =>
    if g = f then
      if (s.freeHeader f).Empty then [.take none, r.elim .refuse .carve] else [.take r]
    -- the rest of a buffer goes on the list of another bucket
    else if (s'.freeHeader f).freeList = (s.freeHeader f).freeList then []
    else [.chain (s'.freeHeader f).freeList]

/-- What a step is at the bucket `f`. -/
def atBucket (f : ℕ) (w : World) : Label cfg → World → List (Operation Tid)
  | .doMalloc k t size, _ =>
    match bootHeapManager k t w.st with
    | .error _ => []
    | .ok s => if size < s.heapMaster.mmapStart then searching k t (requestBucket t size s) s f else []
  | .doFree t addr, _ =>
    let block := (headers w.st addr).header
    if home w.st addr ≠ some f then []
    else if w.st.heapManager t = (w.st.freeHeader f).homeManager then [.push block]
    else [.release t block, .give t block]
  | _, _ => []

def HasBucket (s : State) (f : ℕ) : Prop := ∃ h n, IsBucket s.heapMaster h f n

/-- The lists of the bucket `f`, which has none before its heap exists. -/
structure Lists (s : State) (f : ℕ) (own returned : List ℕ) : Prop where
  freeList : HasBucket s f → Chain s.mem.word (s.freeHeader f).freeList own
  remoteList : HasBucket s f → Chain s.mem.word (s.freeHeader f).remoteList returned
  empty : ¬ HasBucket s f → own = [] ∧ returned = []

/-- The bucket `f` has the blocks `U` in use, and between calls no thread has one in its hands. -/
structure Stands (s : State) (U : Set ℕ) (f : ℕ) (B : AtomicBucket Tid) : Prop where
  lists : Lists s f B.own B.returned
  live : ∀ b, b ∈ B.live ↔ b ∈ U
  blocks : ∀ b, b ∈ B.blocks ↔ b ∈ B.own ∨ b ∈ B.returned ∨ b ∈ B.live
  hands : ∀ t, B.hands t = none
  missed : B.missed = false

/-! ### Lists -/

theorem hasBucket_congr (hlist : s'.heapMaster.heapManagersList = s.heapMaster.heapManagersList) :
    HasBucket s' f ↔ HasBucket s f := by
  rw [HasBucket, HasBucket]
  unfold IsBucket
  rw [hlist]

theorem mem_lists (hr : Refines cfg main s status A idle) (hl : Lists s f own returned) :
    b ∈ own ∨ b ∈ returned ↔ b ∈ stock A f := by
  by_cases hhas : HasBucket s f
  · obtain ⟨h, n, hf⟩ := id hhas
    obtain ⟨own', remote, hown, hremote, _, hmem⟩ := (hr.blocks.bucket h f n hf).listed
    rw [(hl.freeList hhas).unique hown, (hl.remoteList hhas).unique hremote, ← List.mem_append, hmem]
    constructor
    · intro hb
      exact ⟨n, hb⟩
    · intro ⟨m, hb⟩
      obtain ⟨h', hf'⟩ := hr.blocks.free b m f hb
      rwa [(hf.unique hr.heaps.pieces hf').2]
  · obtain ⟨rfl, rfl⟩ := hl.empty hhas
    constructor
    · simp
    · intro ⟨n, hb⟩
      exact absurd ⟨_, n, (hr.blocks.free b n f hb).choose_spec⟩ hhas

theorem stock_len (hr : Refines cfg main s status A idle) (hb : A.at? b = some ⟨n, .free f⟩) : 32 ≤ n := by
  obtain ⟨h, hf⟩ := hr.blocks.free b n f hb
  exact hf.le_len

theorem word_kept (hr : Refines cfg main s status A idle) (hothers : OthersUndisturbed b s s' A A')
    (hb : b ∉ stock A f) : ∀ c ∈ stock A f, s'.mem.word c = s.mem.word c := by
  intro c ⟨n, hc⟩
  have hlen := stock_len hr hc
  have hne : c ≠ b := by
    rintro rfl
    exact hb ⟨n, hc⟩
  exact Memory.word_congr ((hothers c _ .free hne hc).2.mono (Set.Ico_subset_Ico le_rfl (by dsimp only; omega)))

theorem lists_kept (hr : Refines cfg main s status A idle) (hl : Lists s f own returned)
    (hlist : s'.heapMaster.heapManagersList = s.heapMaster.heapManagersList)
    (hfree : s'.freeHeader f = s.freeHeader f) (hword : ∀ c ∈ stock A f, s'.mem.word c = s.mem.word c) :
    Lists s' f own returned := by
  have hhas := hasBucket_congr (f := f) hlist
  refine ⟨fun h => ?_, fun h => ?_, fun h => hl.empty (mt hhas.mpr h)⟩
  · rw [hfree]
    exact (hl.freeList (hhas.mp h)).congr fun c hc => hword c ((mem_lists hr hl).mp (.inl hc))
  · rw [hfree]
    exact (hl.remoteList (hhas.mp h)).congr fun c hc => hword c ((mem_lists hr hl).mp (.inr hc))

/-! ### The thread's heap -/

theorem carveHeap_lists (hpieces : HeapPieces (carveHeap s).2.heapMaster A')
    (hnew : s.heapMaster.heapManagersStorage ∉ s.heapMaster.heapManagersList) :
    (HasBucket s f → (carveHeap s).2.freeHeader f = s.freeHeader f) ∧
      (HasBucket (carveHeap s).2 f → ¬ HasBucket s f → ((carveHeap s).2.freeHeader f).Empty) := by
  constructor
  · intro ⟨h, n, hf⟩
    exact carveHeap_freeHeader hpieces hnew hf
  · intro ⟨h, n, hlisted, i, hi, hfi, hn⟩ hnot
    rcases List.mem_cons.mp hlisted with rfl | hold
    · have hempty : (carveHeap s).2.freeHeader f = ⟨0, s.heapMaster.heapManagersStorage, bucketSize i, 0⟩ :=
        hfi ▸ initFreeLists_at hi
      rw [hempty]
      exact ⟨rfl, rfl⟩
    · exact absurd ⟨h, n, hold, i, hi, hfi, hn⟩ hnot

theorem boot_lists (hr : Refines cfg main s status A idle) (hr' : Refines cfg main s' counted A' idle')
    (hboot : bootHeapManager k t s = .ok s') :
    (HasBucket s f → HasBucket s' f ∧ s'.freeHeader f = s.freeHeader f) ∧
      (HasBucket s' f → ¬ HasBucket s f → (s'.freeHeader f).Empty) := by
  have hkept : HasBucket s f → HasBucket s' f := by
    intro ⟨h, n, hlisted, hf⟩
    exact ⟨h, n, (bootHeapManager_keeps hr.booted hboot).1 h hlisted, hf⟩
  have hsame : s'.heapMaster.heapManagersList = s.heapMaster.heapManagersList → s'.freeHeader = s.freeHeader →
      (HasBucket s f → HasBucket s' f ∧ s'.freeHeader f = s.freeHeader f) ∧
        (HasBucket s' f → ¬ HasBucket s f → (s'.freeHeader f).Empty) := by
    intro hlist hfree
    exact ⟨fun h => ⟨hkept h, congrFun hfree f⟩, fun h hnot => absurd ((hasBucket_congr hlist).mp h) hnot⟩
  have hnew : ∀ {s₀ : State} {heap : ℕ}, s' = assignHeap t heap (carveHeap s₀).2 →
      s₀.heapMaster.heapManagersStorage ∉ s₀.heapMaster.heapManagersList →
      s₀.heapMaster.heapManagersList = s.heapMaster.heapManagersList → s₀.freeHeader = s.freeHeader →
      (HasBucket s f → HasBucket s' f ∧ s'.freeHeader f = s.freeHeader f) ∧
        (HasBucket s' f → ¬ HasBucket s f → (s'.freeHeader f).Empty) := by
    intro s₀ heap hs' hunused hlist hfree
    have hpieces := hr'.heaps.pieces
    rw [hs', assignHeap_heapMaster] at hpieces
    obtain ⟨hold, hempty⟩ := carveHeap_lists (f := f) hpieces hunused
    have hhas : HasBucket s' f ↔ HasBucket (carveHeap s₀).2 f :=
      hasBucket_congr (by rw [hs', assignHeap_heapMaster])
    have hbucket : HasBucket s₀ f ↔ HasBucket s f := hasBucket_congr hlist
    rw [← hbucket] at hkept ⊢
    rw [hs', assignHeap_freeHeader, ← hfree, ← hs']
    exact ⟨fun h => ⟨hkept h, hold h⟩, fun h hnot => hempty (hhas.mp h) hnot⟩
  obtain ⟨_, rfl⟩ | ⟨_, heap, s₁, hget, hs'⟩ := bootHeapManager_cases hr.booted hboot
  · exact hsame rfl rfl
  rcases getHeap_cases hget with ⟨_, _, rfl⟩ | ⟨_, hne, hroom, rfl, rfl⟩ | ⟨_, hspare, a, hfresh, rfl, rfl⟩
  · exact hsame (by rw [hs', assignHeap_heapMaster]; rfl) (by rw [hs', assignHeap_freeHeader]; rfl)
  · exact hnew hs' (carveHeap_pieces hr.heaps.laid hr.heaps.pieces hne hroom).1 rfl rfl
  · obtain ⟨A₁, hlaid₁, hpieces₁, _⟩ := superblock_pieces hr.heaps.laid hr.heaps.pieces hspare hfresh
    exact hnew hs' (carveHeap_pieces hlaid₁ hpieces₁ hfresh.pos.ne' (superblock_room hfresh)).1 rfl rfl

theorem lists_boot (hr : Refines cfg main s status A idle) (hr' : Refines cfg main s' counted A' idle')
    (hothers : ∀ b, OthersUndisturbed b s s' A A') (hboot : bootHeapManager k t s = .ok s')
    (hl : Lists s f own returned) : Lists s' f own returned := by
  obtain ⟨hold, hnew⟩ := boot_lists (f := f) hr hr' hboot
  by_cases hhas : HasBucket s f
  · obtain ⟨hhas', hfree⟩ := hold hhas
    have hzero : 0 ∉ stock A f := by
      intro ⟨n, hn⟩
      exact (hr.heaps.laid.pos 0 _ hn).false
    have hword := word_kept hr (hothers 0) hzero
    refine ⟨fun _ => ?_, fun _ => ?_, fun hnot => absurd hhas' hnot⟩
    · rw [hfree]
      exact (hl.freeList hhas).congr fun c hc => hword c ((mem_lists hr hl).mp (.inl hc))
    · rw [hfree]
      exact (hl.remoteList hhas).congr fun c hc => hword c ((mem_lists hr hl).mp (.inr hc))
  · obtain ⟨rfl, rfl⟩ := hl.empty hhas
    exact ⟨fun h => (hnew h hhas).1, fun h => (hnew h hhas).2, fun _ => ⟨rfl, rfl⟩⟩

/-! ### Putting a block on a list -/

theorem push_word (hr : Refines cfg main s status A idle) (hc : A.at? c = some p) (hlen : 8 ≤ p.len)
    (htag : p.tag ≠ .free f) (l : ListField) : ∀ d ∈ stock A f, (s.push l g c).mem.word d = s.mem.word d := by
  intro d ⟨n, hd⟩
  have hn := stock_len hr hd
  have hne : d ≠ c := by
    rintro rfl
    exact htag (congrArg Piece.tag (Option.some.inj (hc.symm.trans hd)))
  have hapart := A.separate d _ c _ hd hc hne
  dsimp only at hapart
  exact Memory.word_setWord_of_disjoint (by omega)

theorem lists_push_other (hr : Refines cfg main s status A idle) (hc : A.at? c = some p) (hlen : 8 ≤ p.len)
    (htag : p.tag ≠ .free f) (hl : Lists s f own returned) (hne : f ≠ g) (l : ListField) :
    Lists (s.push l g c) f own returned :=
  lists_kept hr hl rfl (Function.update_of_ne hne ..) (push_word hr hc hlen htag l)

/-- A bucket's lists start with null or with one of its free blocks. -/
theorem top_lt (hr : Refines cfg main s status A idle) (hl : Lists s f own returned) (hhas : HasBucket s f)
    (l : ListField) : (s.freeHeader f).top l < 2 ^ 64 := by
  have hstock : ∀ {a}, a ∈ own ∨ a ∈ returned → a < 2 ^ 64 := by
    intro a ha
    obtain ⟨n, hn⟩ := (mem_lists hr hl).mp ha
    have hend := hr.blocks.end_le hr.heaps.laid hn
    dsimp only at hend
    omega
  have hchain : ∀ {a : ℕ} {L : List ℕ}, Chain s.mem.word a L → (∀ d ∈ L, d ∈ own ∨ d ∈ returned) → a < 2 ^ 64 := by
    intro a L hchain hsub
    by_cases ha : a = 0
    · omega
    · obtain ⟨rest, rfl, _⟩ := hchain.exists_cons ha
      exact hstock (hsub a List.mem_cons_self)
  cases l with
  | freeList => exact hchain (hl.freeList hhas) fun d => .inl
  | remoteList => exact hchain (hl.remoteList hhas) fun d => .inr

theorem lists_push (hr : Refines cfg main s status A idle) (hc : A.at? c = some p) (hlen : 8 ≤ p.len)
    (htag : p.tag ≠ .free f) (hl : Lists s f own returned) (hhas : HasBucket s f) :
    Lists (s.push .freeList f c) f (c :: own) returned ∧ Lists (s.push .remoteList f c) f own (c :: returned) := by
  have hc0 : c ≠ 0 := (hr.heaps.laid.pos c _ hc).ne'
  have hown : ∀ l, ∀ d ∈ own, (s.push l f c).mem.word d = s.mem.word d :=
    fun l d hd => push_word hr hc hlen htag l d ((mem_lists hr hl).mp (.inl hd))
  have hreturned : ∀ l, ∀ d ∈ returned, (s.push l f c).mem.word d = s.mem.word d :=
    fun l d hd => push_word hr hc hlen htag l d ((mem_lists hr hl).mp (.inr hd))
  have hlink : ∀ l, (s.push l f c).mem.word c = (s.freeHeader f).top l :=
    fun l => Memory.word_setWord_self (top_lt hr hl hhas l)
  have hhead : ∀ l, (s.push l f c).freeHeader f = (s.freeHeader f).setTop l c := fun l => Function.update_self ..
  refine ⟨⟨fun _ => ?_, fun _ => ?_, fun hnot => absurd hhas hnot⟩,
    ⟨fun _ => ?_, fun _ => ?_, fun hnot => absurd hhas hnot⟩⟩ <;> rw [hhead]
  · exact (hl.freeList hhas).push hc0 (hlink .freeList) (hown .freeList)
  · exact (hl.remoteList hhas).congr (hreturned .freeList)
  · exact (hl.freeList hhas).congr (hown .remoteList)
  · exact (hl.remoteList hhas).push hc0 (hlink .remoteList) (hreturned .remoteList)

/-! ### Searching a bucket -/

theorem extended_cases (hr : Refines cfg main s status A idle)
    (hh : s.heapManager t ∈ s.heapMaster.heapManagersList) (h : managerExtend k t n s = .ok (r, s')) :
    ∃ s₁, Grown s s₁ ∧ s'.heapMaster = s₁.heapMaster ∧ ((s'.freeHeader = s₁.freeHeader ∧ s'.mem = s₁.mem) ∨
      ∃ g m, IsBucket s.heapMaster (s.heapManager t) g m ∧ m ≤ (s.heap (s.heapManager t)).bufRemaining ∧
        s'.freeHeader = (s₁.push .freeList g (s.heap (s.heapManager t)).bufStart).freeHeader ∧
        s'.mem = (s₁.push .freeList g (s.heap (s.heapManager t)).bufStart).mem) := by
  rcases managerExtend_cases h with ⟨_, hmaster⟩ | ⟨newblock, s₁, _, hmaster, rfl⟩
  · obtain ⟨hgrown, _⟩ := masterExtend_grown hmaster
    exact ⟨s', hgrown, rfl, .inl ⟨rfl, rfl⟩⟩
  · obtain ⟨hgrown, _⟩ := masterExtend_grown hmaster
    have hlist := hgrown.master.heapManagersList
    refine ⟨s₁, hgrown, ?_, ?_⟩
    · unfold replaceBuffer chainRemainder
      dsimp only
      split
      · split <;> rfl
      · rfl
    rw [← hgrown.heap, ← hgrown.heapManager]
    rw [← hgrown.heapManager, ← hlist] at hh
    have hkept : (if newblock ≠ (s₁.heap (s₁.heapManager t)).bufStart + (s₁.heap (s₁.heapManager t)).bufRemaining
        then chainRemainder (s₁.heapManager t) s₁ else s₁) = s₁ ∨
        ∃ g m, IsBucket s₁.heapMaster (s₁.heapManager t) g m ∧ m ≤ (s₁.heap (s₁.heapManager t)).bufRemaining ∧
          (if newblock ≠ (s₁.heap (s₁.heapManager t)).bufStart + (s₁.heap (s₁.heapManager t)).bufRemaining
            then chainRemainder (s₁.heapManager t) s₁ else s₁) =
            s₁.push .freeList g (s₁.heap (s₁.heapManager t)).bufStart := by
      split
      · exact (hr.of_grown hgrown).blocks.chainRemainder_cases hh
      · exact .inl rfl
    unfold replaceBuffer
    dsimp only
    rcases hkept with hsame | ⟨g, m, hg, hm, hpush⟩
    · rw [hsame]
      exact .inl ⟨rfl, rfl⟩
    · rw [hpush]
      exact .inr ⟨g, m, by rwa [IsBucket, ← hlist], hm, rfl, rfl⟩

/-- A search takes the first block of the list, or of the remote list, or leaves both lists empty. -/
theorem lists_searched (hr : Refines cfg main s status A idle) (hf : IsBucket s.heapMaster (s.heapManager t) f n)
    (hl : Lists s f own returned) (h : allocateBlock k t f s = .ok (r, s')) :
    (¬ (s.freeHeader f).Empty ∧ ∃ b rest, own = b :: rest ∧ r = some b ∧ Lists s' f rest returned) ∨
    (¬ (s.freeHeader f).Empty ∧ ∃ b rest, own = [] ∧ returned = b :: rest ∧ r = some b ∧ Lists s' f rest []) ∨
    ((s.freeHeader f).Empty ∧ own = [] ∧ returned = [] ∧ Lists s' f [] []) := by
  have hhas : HasBucket s f := ⟨_, n, hf⟩
  have hown := hl.freeList hhas
  have hremote := hl.remoteList hhas
  have hsame := allocateBlock_sameHeaps h
  have hhas' : HasBucket s' f := (hasBucket_congr hsame.heapManagersList).mpr hhas
  have hempty : (s.freeHeader f).Empty → s'.freeHeader f = s.freeHeader f →
      (s.freeHeader f).Empty ∧ own = [] ∧ returned = [] ∧ Lists s' f [] [] := by
    intro hempty hfree
    obtain ⟨hfreeList, hremoteList⟩ := id hempty
    rw [hfreeList] at hown
    rw [hremoteList] at hremote
    refine ⟨hempty, hown.of_null, hremote.of_null, fun _ => ?_, fun _ => ?_, fun hnot => absurd hhas' hnot⟩
    · rw [hfree]
      exact hfreeList
    · rw [hfree]
      exact hremoteList
  rcases allocateBlock_cases h with ⟨hne, rfl, rfl⟩ | ⟨hfree, hne, rfl, rfl⟩ | ⟨hfree, hnone, _, _, rfl⟩ |
    ⟨hfree, hnone, hshort, hext⟩
  · obtain ⟨rest, rfl, hrest⟩ := hown.exists_cons hne
    refine .inl ⟨fun hempty => hne hempty.1, _, rest, rfl, rfl, fun _ => ?_, fun _ => ?_,
      fun hnot => absurd hhas' hnot⟩ <;> simp only [popped, Function.update_self]
    · exact hrest
    · exact hremote
  · obtain ⟨rest, rfl, hrest⟩ := hremote.exists_cons hne
    rw [hfree] at hown
    refine .inr (.inl ⟨fun hempty => hne hempty.2, _, rest, hown.of_null, rfl, rfl, fun _ => ?_, fun _ => ?_,
      fun hnot => absurd hhas' hnot⟩) <;> simp only [popped, Function.update_self]
    · exact hrest
    · exact rfl
  · exact .inr (.inr (hempty ⟨hfree, hnone⟩ rfl))
  · refine .inr (.inr (hempty ⟨hfree, hnone⟩ ?_))
    obtain ⟨s₁, hgrown, _, ⟨hsame, _⟩ | ⟨g, m, hg, hm, hpush, _⟩⟩ := extended_cases hr hf.1 hext
    · rw [hsame, hgrown.freeHeader]
    -- the rest of the buffer is too short for a block of the bucket itself
    · have hne : f ≠ g := by
        rintro rfl
        have hlen := hf.le_len
        have hbound := hr.blocks.bufRemaining_lt hr.heaps.laid hf.1
        obtain rfl := (hg.unique hr.heaps.pieces hf).2
        rw [(hr.blocks.bucket _ f m hf).blockSize, negative, sub64_of_le (by omega) hm] at hshort
        omega
      rw [hpush, ← hgrown.freeHeader]
      exact Function.update_of_ne hne ..

theorem lists_elsewhere (hr : Refines cfg main s status A idle) (hf : IsBucket s.heapMaster (s.heapManager t) g n)
    (hl : Lists s f own returned) (hne : f ≠ g) (h : allocateBlock k t g s = .ok (r, s')) :
    ((s'.freeHeader f).freeList = (s.freeHeader f).freeList ∧ Lists s' f own returned) ∨
    ((s'.freeHeader f).freeList ≠ (s.freeHeader f).freeList ∧ (s'.freeHeader f).freeList ≠ 0 ∧
      (∀ p, A.at? (s'.freeHeader f).freeList = some p → ¬ p.tag.IsBlock) ∧
      Lists s' f ((s'.freeHeader f).freeList :: own) returned) := by
  have hlist := (allocateBlock_sameHeaps h).heapManagersList
  have hkept : s'.mem = s.mem → s'.freeHeader f = s.freeHeader f →
      (s'.freeHeader f).freeList = (s.freeHeader f).freeList ∧ Lists s' f own returned := by
    intro hmem hfree
    exact ⟨by rw [hfree], lists_kept hr hl hlist hfree fun c _ => by rw [hmem]⟩
  rcases allocateBlock_cases h with ⟨_, _, rfl⟩ | ⟨_, _, _, rfl⟩ | ⟨_, _, _, _, rfl⟩ | ⟨_, _, _, hext⟩
  · exact .inl (hkept rfl (Function.update_of_ne hne ..))
  · exact .inl (hkept rfl (Function.update_of_ne hne ..))
  · exact .inl (hkept rfl rfl)
  obtain ⟨s₁, hgrown, hmaster, hcases⟩ := extended_cases hr hf.1 hext
  have hr₁ := hr.of_grown hgrown
  have hzero : 0 ∉ stock A f := by
    intro ⟨n, hn⟩
    exact (hr.heaps.laid.pos 0 _ hn).false
  have hl₁ : Lists s₁ f own returned := lists_kept hr hl hgrown.master.heapManagersList
    (congrFun hgrown.freeHeader f) (word_kept hr (hr.grown_undisturbed hgrown).others hzero)
  have hmoved : ∀ {s₂ : State} {own' : List ℕ}, Lists s₂ f own' returned → s'.heapMaster = s₂.heapMaster →
      s'.freeHeader = s₂.freeHeader → s'.mem = s₂.mem → Lists s' f own' returned := by
    intro s₂ own' ⟨hown, hremote, hempty⟩ hmaster hfree hmem
    have hhas := hasBucket_congr (f := f) (congrArg HeapMaster.heapManagersList hmaster)
    rw [← hfree, ← hmem, ← hhas] at hown hremote
    rw [← hhas] at hempty
    exact ⟨hown, hremote, hempty⟩
  rcases hcases with ⟨hfree, hmem⟩ | ⟨g', m, hg, hm, hfree, hmem⟩
  · refine .inl ⟨?_, hmoved hl₁ hmaster hfree hmem⟩
    rw [hfree, hgrown.freeHeader]
  have hlen := hg.le_len
  have hpiece := hr.buffer hf.1 (by omega)
  by_cases hfg : f = g'
  · subst g'
    have htop : (s'.freeHeader f).freeList = (s.heap (s.heapManager t)).bufStart := by
      rw [hfree]
      simp [State.push, FreeHeader.setTop]
    have hhas : HasBucket s₁ f := (hasBucket_congr hgrown.master.heapManagersList).mpr ⟨_, m, hg⟩
    obtain ⟨hpushed, _⟩ := lists_push hr₁ hpiece (by dsimp only; omega) (by simp) hl₁ hhas
    rw [htop]
    refine .inr ⟨?_, (hr.heaps.laid.pos _ _ hpiece).ne', ?_, hmoved hpushed hmaster hfree hmem⟩
    · intro hsame
      have hpos := (hr.heaps.laid.pos _ _ hpiece).ne'
      obtain ⟨rest, rfl, _⟩ := (hl.freeList ⟨_, m, hg⟩).exists_cons (hsame ▸ hpos)
      obtain ⟨n', hn'⟩ := (mem_lists hr hl).mp (.inl List.mem_cons_self)
      rw [← hsame, hpiece] at hn'
      cases hn'
    · intro p hp hblock
      exact hblock.ne_of_bump hp hpiece rfl
  · have hother : Lists (s₁.push .freeList g' (s.heap (s.heapManager t)).bufStart) f own returned :=
      lists_push_other hr₁ hpiece (by dsimp only; omega) (by simp) hl₁ hfg _
    refine .inl ⟨?_, hmoved hother hmaster hfree hmem⟩
    have hheader : s'.freeHeader f = s₁.freeHeader f := by
      rw [hfree]
      exact Function.update_of_ne hfg ..
    rw [hheader, hgrown.freeHeader]

theorem Stands.not_mem_blocks (h : Stands s U f B) (hr : Refines cfg main s status A idle)
    (hU : ∀ c ∈ U, ∃ m, A.at? c = some ⟨m, .held⟩) (hb : ∀ p, A.at? b = some p → ¬ p.tag.IsBlock) : b ∉ B.blocks := by
  intro hmem
  rcases (h.blocks b).mp hmem with hown | hreturned | hlive
  · obtain ⟨m, hm⟩ := (mem_lists hr h.lists).mp (.inl hown)
    exact hb _ hm .free
  · obtain ⟨m, hm⟩ := (mem_lists hr h.lists).mp (.inr hreturned)
    exact hb _ hm .free
  · obtain ⟨m, hm⟩ := hU b ((h.live b).mp hlive)
    exact hb _ hm .held

/-- The search for a block is a take from the two stacks; if that finds nothing, a block is carved. -/
theorem searching_stands (hr : Refines cfg main s status A idle)
    (hU : ∀ c ∈ U, ∃ m, A.at? c = some ⟨m, .held⟩) (hg : IsBucket s.heapMaster (s.heapManager t) g n)
    (hstands : Stands s U f B) (h : allocateBlock k t g s = .ok (r, s')) :
    ∃ B', (AtomicBucket.system Tid).Run labels B (searching k t g s f) B' ∧
      Stands s' { c | c ∈ U ∨ g = f ∧ c ∈ r } f B' := by
  obtain ⟨hlists, hlive, hblocks, hhands, hmissed⟩ := id hstands
  unfold searching
  rw [h]
  dsimp only
  by_cases hgf : g = f
  · subst g
    rw [if_pos rfl]
    rcases lists_searched hr hg hlists h with ⟨hsome, b, rest, hown, rfl, hlists'⟩ |
      ⟨hsome, b, rest, hown, hreturned, rfl, hlists'⟩ | ⟨hempty, hown, hreturned, hlists'⟩
    · rw [if_neg hsome]
      have htake : B.take = (some b, { B with own := rest, live := insert b B.live }) := by
        rw [AtomicBucket.take, hown]
      refine ⟨_, .single labels ⟨hmissed, htake⟩, hlists', fun c => ?_, fun c => ?_, hhands, hmissed⟩
      · simp [hlive, or_comm, eq_comm]
      · rw [hblocks, hown]
        simp
        tauto
    · rw [if_neg hsome]
      have htake : B.take = (some b, { B with own := rest, returned := [], live := insert b B.live }) := by
        rw [AtomicBucket.take, hown, hreturned]
      refine ⟨_, .single labels ⟨hmissed, htake⟩, hlists', fun c => ?_, fun c => ?_, hhands, hmissed⟩
      · simp [hlive, or_comm, eq_comm]
      · rw [hblocks, hown, hreturned]
        simp
        tauto
    · rw [if_pos hempty]
      have htake : B.take = (none, { B with missed := true }) := by
        rw [AtomicBucket.take, hown, hreturned]
      have hmiss : (AtomicBucket.system Tid).step B (.take none) { B with missed := true } := ⟨hmissed, htake⟩
      cases r with
      | none =>
        have hrefuse : (AtomicBucket.system Tid).step { B with missed := true } .refuse { B with missed := false } :=
          ⟨rfl, rfl⟩
        refine ⟨_, (Run.single labels hmiss).append (.single labels hrefuse), ?_, fun c => ?_, hblocks, hhands, rfl⟩
        · dsimp only
          rwa [hown, hreturned]
        · simp [hlive]
      | some b =>
        obtain ⟨A', hr', hheld, hsupplies, _⟩ := hr.allocateBlock_supplied hg h
        rw [Supplies, if_pos hempty] at hsupplies
        have hpos := (hr'.heaps.laid.pos b _ hheld).ne'
        have hnew := hstands.not_mem_blocks hr hU hsupplies.2
        have hcarve : (AtomicBucket.system Tid).step { B with missed := true } (.carve b)
            { B with blocks := insert b B.blocks, live := insert b B.live, missed := false } :=
          ⟨rfl, hpos, hnew, rfl⟩
        refine ⟨_, (Run.single labels hmiss).append (.single labels hcarve), ?_, fun c => ?_, fun c => ?_, hhands, rfl⟩
        · dsimp only
          rwa [hown, hreturned]
        · simp [hlive, or_comm, eq_comm]
        · simp [hblocks, hown, hreturned]
  · rw [if_neg hgf]
    have hsame : { c | c ∈ U ∨ g = f ∧ c ∈ r } = U := by simp [hgf]
    rw [hsame]
    rcases lists_elsewhere hr hg hlists (Ne.symm hgf) h with ⟨htop, hlists'⟩ | ⟨htop, hne, hnone, hlists'⟩
    · rw [if_pos htop]
      exact ⟨B, .refl B, hlists', hlive, hblocks, hhands, hmissed⟩
    · rw [if_neg htop]
      have hnew := hstands.not_mem_blocks hr hU hnone
      refine ⟨_, .single labels ⟨hne, hnew, rfl⟩, hlists', hlive, fun c => ?_, hhands, hmissed⟩
      simp [hblocks]
      tauto

/-! ### Calls -/

theorem mem_used_update {x : Option Live} : c ∈ used (Function.update L b x) f ↔
    (c = b ∧ ∃ l ∈ x, l.view.origin = .bucket f) ∨ (c ≠ b ∧ c ∈ used L f) := by
  by_cases hcb : c = b
  · subst c
    simp [used]
  · simp [used, hcb]

theorem tenant_unique {m b' : ℕ} {v v' : View} (ht : Tenant s A b n u v) (ht' : Tenant s A' b' m u v') :
    b = b' ∧ v.origin = v'.origin := by
  refine ⟨by rw [← ht.header, ht'.header], ?_⟩
  have hhome := ht.home.symm.trans ht'.home
  cases hv : v.origin with
  | bucket f =>
    cases hv' : v'.origin with
    | bucket g =>
      rw [hv, hv'] at hhome
      exact congrArg Origin.bucket (Option.some.inj hhome)
    | mapped =>
      rw [hv, hv'] at hhome
      cases hhome
  | mapped =>
    cases hv' : v'.origin with
    | bucket g =>
      rw [hv, hv'] at hhome
      cases hhome
    | mapped => rfl

theorem Behind.held (h : Behind cfg main w A idle counted L) (hb : b ∈ used L f) :
    ∃ m, A.at? b = some ⟨m, .held⟩ := by
  obtain ⟨l, hl, _⟩ := hb
  exact ⟨l.len, (h.tenants b l hl).held⟩

theorem Stands.moved (h : Stands s U f B) {U' : Set ℕ} (hl : Lists s' f B.own B.returned) (hU : U' = U) :
    Stands s' U' f B :=
  ⟨hl, hU ▸ h.live, h.blocks, h.hands, h.missed⟩

theorem used_obtained {origin : Origin} (hfresh : L b = none) {z : Bool} {al : Option ℕ} :
    used (Function.update L b (some ⟨n, u, ⟨origin, z, size, al⟩⟩)) f =
      { c | c ∈ used L f ∨ origin = .bucket f ∧ c = b } := by
  have hunused : b ∉ used L f := by
    intro ⟨l, hl, _⟩
    rw [hfresh] at hl
    cases hl
  ext c
  rw [mem_used_update]
  by_cases hc : c = b
  · subst c
    simp [hunused]
  · simp [hc]

theorem doMalloc_stands (h : Behind cfg main w A idle counted L) (hstands : Stands w.st (used L f) f B)
    (hrun : w.status t ≠ .terminated) (hstarted : w.st.heapMasterBootFlag = 2 ∨ t = main) (hsize : size < 2 ^ 64)
    (hok : doMalloc k t size w.st = .ok (r, s')) : ∃ A' idle' counted' L',
      Behind cfg main (w.next s' w.status (w.live ∪ r.toFinset)
        (if r = none then w.carved else tally w.carved (carves k t size w.st))) A' idle' counted' L' ∧
      ∃ B', (AtomicBucket.system Tid).Run labels B (atBucket f w (.doMalloc k t size) w') B' ∧
        Stands s' (used L' f) f B' := by
  obtain ⟨A', idle', counted', L', h', hnone, hsome⟩ := doMalloc_behind h hrun hstarted hsize hok
  refine ⟨A', idle', counted', L', h', ?_⟩
  obtain ⟨s₁, hboot, hcases⟩ := doMalloc_cases hok
  obtain ⟨A₁, idle₁, counted₁, h₁, hothers₁, hheap⟩ := boot_behind h hrun hstarted hboot
  have hr₁ : Refines cfg main s₁ counted₁ A₁ idle₁ := h₁.refines
  have hstands₁ : Stands s₁ (used L f) f B :=
    hstands.moved (lists_boot h.refines hr₁ hothers₁ hboot hstands.lists) rfl
  rw [atBucket, hboot]
  dsimp only
  rcases hcases with ⟨hsmall, rfl, hblock⟩ | ⟨hsmall, block, s₂, rfl, hblock, rfl⟩ | ⟨hlarge, hmap⟩
  · obtain ⟨rfl, _⟩ := hnone rfl
    rw [if_pos hsmall]
    obtain ⟨B', hrunB, hB'⟩ := searching_stands hr₁ (fun c => h₁.held) (hr₁.requestBucket hheap hsmall) hstands₁ hblock
    refine ⟨B', hrunB, hB'.moved hB'.lists ?_⟩
    simp
  · obtain ⟨b, n, origin, rfl, _, hobtains⟩ := hsome _ rfl
    have hfresh := h.fresh hobtains
    have hf := hr₁.requestBucket hheap hsmall
    rw [if_pos hsmall]
    obtain ⟨B', hrunB, hB'⟩ := searching_stands hr₁ (fun c => h₁.held) hf hstands₁ hblock
    obtain ⟨A₂, hr₂, hheld, _, _, _, hmaster⟩ := hr₁.allocateBlock_supplied hf hblock
    have hf₂ : IsBucket s₂.heapMaster _ _ _ := ⟨by rw [hmaster.heapManagersList]; exact hf.1, hf.2⟩
    obtain ⟨_, htenant, hothers₂⟩ := hr₂.tenant_of_bucket hf₂ hheld hsize
    obtain ⟨rfl, horigin⟩ := tenant_unique htenant (h'.tenants b _ (Function.update_self ..))
    dsimp only at horigin
    have hnot : block ∉ stock A₂ f := by
      intro ⟨m, hm⟩
      rw [hheld] at hm
      cases hm
    refine ⟨B', hrunB, hB'.moved (lists_kept hr₂ hB'.lists rfl rfl (word_kept hr₂ hothers₂ hnot)) ?_⟩
    rw [used_obtained hfresh, ← horigin]
    ext c
    simp [eq_comm]
  · rw [if_neg (not_lt.mpr hlarge)]
    refine ⟨B, .refl B, ?_⟩
    cases r with
    | none =>
      obtain ⟨rfl, _⟩ := hnone rfl
      rcases mapLarge_cases hmap with ⟨_, rfl⟩ | ⟨_, hsome', _⟩
      · exact hstands₁.moved (lists_kept hr₁ hstands₁.lists rfl rfl fun _ _ => rfl) rfl
      · cases hsome'
    | some u =>
      obtain ⟨b, n, origin, rfl, hothers, hobtains⟩ := hsome u rfl
      obtain ⟨A₂, b', m, _, htenant, hnone', hothers₂, hmaps⟩ := hr₁.tenant_of_mapping hsize hmap
      obtain ⟨rfl, horigin⟩ := tenant_unique htenant (h'.tenants b _ (Function.update_self ..))
      dsimp only at horigin
      have hnot : b' ∉ stock A₁ f := by
        intro ⟨m, hm⟩
        rw [hnone'] at hm
        cases hm
      have hfree : s'.freeHeader = s₁.freeHeader := by
        rcases mapLarge_cases hmap with ⟨hnone'', _⟩ | ⟨_, _, _, rfl⟩
        · cases hnone''
        · rfl
      refine hstands₁.moved (lists_kept hr₁ hstands₁.lists (by rw [hmaps.heapMaster]) (congrFun hfree f)
        (word_kept hr₁ hothers₂ hnot)) ?_
      rw [used_obtained (h.fresh hobtains), ← horigin]
      simp

theorem used_freed (hb : L b = some l) (horigin : l.view.origin ≠ .bucket f) :
    used (Function.update L b none) f = used L f := by
  ext c
  rw [mem_used_update]
  by_cases hc : c = b
  · subst c
    simp [used, hb, horigin]
  · simp [hc]

theorem used_kept {l' : Live} (hb : L b = some l) (horigin : l'.view.origin = l.view.origin) :
    used (Function.update L b (some l')) f = used L f := by
  ext c
  rw [mem_used_update]
  by_cases hc : c = b
  · subst c
    simp [used, hb, horigin]
  · simp [hc]

/-- A block goes back in one operation of the owner, or in two of another thread. -/
theorem doFree_stands (h : Behind cfg main w A idle counted L) (hstands : Stands w.st (used L f) f B)
    (hb : L b = some l) (hok : doFree t l.user w.st = .ok s') :
    ∃ B', (AtomicBucket.system Tid).Run labels B (atBucket f w (.doFree t l.user : Label cfg) w') B' ∧
      Stands s' (used (Function.update L b none) f) f B' := by
  have ht := h.tenants b l hb
  have hr := h.refines
  obtain ⟨hlists, hlive, hblocks, hhands, hmissed⟩ := id hstands
  have hinside := ht.inside
  have hafter := ht.encodes.user_after.1
  have hheaders := ht.encodes.headers ht.taggable
  have hlen : 8 ≤ (⟨l.len, .held⟩ : Piece Tag).len := by
    dsimp only
    omega
  rw [atBucket, ht.home, ht.header]
  cases horigin : l.view.origin with
  | mapped =>
    have hne : l.view.origin ≠ .bucket f := by simp [horigin]
    rw [if_pos (by simp [Origin.home]), used_freed hb hne]
    refine ⟨B, .refl B, hstands.moved ?_ rfl⟩
    rcases doFree_cases hok with ⟨hnot, _⟩ | ⟨_, _, _, rfl⟩
    · rw [hheaders, horigin] at hnot
      simp at hnot
    · exact lists_kept hr hlists rfl rfl fun _ _ => rfl
  | bucket g =>
    rcases doFree_cases hok with ⟨_, hs'⟩ | ⟨hmapped, _⟩
    · rw [hheaders, horigin, Origin.freeHead] at hs'
      dsimp only at hs'
      by_cases hgf : g = f
      · subst g
        obtain ⟨h', hf⟩ := ht.bucket f horigin
        obtain ⟨hpush, hreturn⟩ := lists_push hr ht.held hlen (by simp) hlists ⟨h', _, hf⟩
        have hmem : b ∈ B.live := (hlive b).mpr ⟨l, hb, horigin⟩
        have hused : ∀ c, c ∈ used (Function.update L b none) f ↔ c ≠ b ∧ c ∈ B.live := by
          intro c
          rw [mem_used_update, hlive]
          simp
        rw [if_neg (by simp [Origin.home])]
        by_cases howner : w.st.heapManager t = (w.st.freeHeader f).homeManager
        · rw [if_pos howner] at hs' ⊢
          subst s'
          refine ⟨_, .single labels ⟨hmissed, hmem, rfl⟩, hpush, fun c => ?_, fun c => ?_, hhands, hmissed⟩
          · rw [hused, Finset.mem_erase]
          · rw [hblocks, List.mem_cons, Finset.mem_erase]
            by_cases hc : c = b
            · simp [hc, hmem]
            · simp [hc]
        · rw [if_neg howner] at hs' ⊢
          subst s'
          have hrelease : (AtomicBucket.system Tid).step B (.release t b)
              { B with live := B.live.erase b, hands := Function.update B.hands t (some b) } := ⟨hhands t, hmem, rfl⟩
          refine ⟨_, (Run.single labels hrelease).append (.single labels ⟨Function.update_self .., rfl⟩), hreturn,
            fun c => ?_, fun c => ?_, fun u => ?_, hmissed⟩
          · rw [hused, Finset.mem_erase]
          · dsimp only
            rw [hblocks, List.mem_cons, Finset.mem_erase]
            by_cases hc : c = b
            · simp [hc, hmem]
            · simp [hc]
          · dsimp only
            rw [Function.update_idem]
            by_cases hu : u = t
            · rw [hu, Function.update_self]
            · rw [Function.update_of_ne hu, hhands]
      · have hne : l.view.origin ≠ .bucket f := by
          rw [horigin]
          exact fun heq => hgf (Origin.bucket.inj heq)
        rw [if_pos (by simp [Origin.home, hgf]), used_freed hb hne]
        subst s'
        exact ⟨B, .refl B, hstands.moved (lists_push_other hr ht.held hlen (by simp) hlists (Ne.symm hgf) _) rfl⟩
    · rw [hheaders, horigin] at hmapped
      simp at hmapped

/-! ### Runs -/

theorem edit_freeHeader {e : Edit} : (e.run addr s).freeHeader = s.freeHeader := by
  cases e with
  | reallocInPlace size => rw [Edit.run, reallocInPlace_eq]
  | _ => rfl

theorem empty_unbooted (hctor : heapManagerCtor k main State.unbooted = .ok s) : (s.freeHeader f).Empty := by
  obtain ⟨s₁, hfree, _, rfl⟩ := unbooted_heap hctor
  have hinit : (carveHeap s₁).2.freeHeader = initFreeLists s₁.heapMaster.heapManagersStorage s₁.freeHeader := rfl
  rw [assignHeap_freeHeader, hinit, hfree, initFreeLists]
  split <;> exact ⟨rfl, rfl⟩

theorem Stands.empty (hempty : (s.freeHeader f).Empty) : Stands s ∅ f (AtomicBucket.empty Tid) :=
  ⟨⟨fun _ => hempty.1, fun _ => hempty.2, fun _ => ⟨rfl, rfl⟩⟩, by simp [AtomicBucket.empty],
    by simp [AtomicBucket.empty], fun _ => rfl, rfl⟩

/-- Every step is operations of the atomic bucket. -/
theorem bucket_simulates (cfg : Config) (main : Tid) (f : ℕ) :
    (system cfg main).Simulation (AtomicBucket.system Tid) (atBucket f)
      fun w B => ∃ A idle counted L, Behind cfg main w A idle counted L ∧ Stands w.st (used L f) f B where
  init w hw := by
    obtain ⟨A, idle, counted, L, h⟩ := init_inv hw
    obtain ⟨⟨k, hctor⟩, _, hlive, _⟩ := hw
    have hnone : used L f = ∅ := by
      rw [Set.eq_empty_iff_forall_notMem]
      intro b ⟨l, hb, _⟩
      have hmem : l.user ∈ (w.live : Set ℕ) := h.live ▸ ⟨b, l, hb, rfl⟩
      rw [hlive] at hmem
      cases hmem
    exact ⟨AtomicBucket.empty Tid, rfl, A, idle, counted, L, h, hnone ▸ .empty (empty_unbooted hctor)⟩
  step w lab w' B hrel hs := by
    obtain ⟨A, idle, counted, L, h, hstands⟩ := hrel
    have hr := h.refines
    -- a step that moves no block
    have hsilent : ∀ {A' idle' counted' L'}, Behind cfg main w' A' idle' counted' L' →
        w'.st.heapMaster.heapManagersList = w.st.heapMaster.heapManagersList →
        w'.st.freeHeader = w.st.freeHeader → (∀ c ∈ stock A f, w'.st.mem.word c = w.st.mem.word c) →
        used L' f = used L f → ∃ B', (AtomicBucket.system Tid).Run labels B [] B' ∧
          ∃ A idle counted L, Behind cfg main w' A idle counted L ∧ Stands w'.st (used L f) f B' := by
      intro A' idle' counted' L' h' hlist hfree hword hused
      exact ⟨B, .refl B, A', idle', counted', L', h',
        hstands.moved (lists_kept hr hstands.lists hlist (congrFun hfree f) hword) hused⟩
    have hheld : ∀ {b l}, L b = some l → b ∉ stock A f := by
      intro b l hb ⟨m, hm⟩
      rw [(h.tenants b l hb).held] at hm
      cases hm
    cases lab with
    | doMalloc k t size =>
      obtain ⟨hrun, hstarted, hsize, r, st, hok, rfl⟩ := hs
      obtain ⟨A', idle', counted', L', h', B', hrunB, hB'⟩ := doMalloc_stands h hstands hrun hstarted hsize hok
      exact ⟨B', hrunB, A', idle', counted', L', h', hB'⟩
    | doFree t addr =>
      obtain ⟨hlive, st, hok, rfl⟩ := hs
      obtain ⟨b, l, hb, rfl⟩ : addr ∈ users L := h.live ▸ hlive
      obtain ⟨A', h', _⟩ := doFree_behind h hb hok
      obtain ⟨B', hrunB, hB'⟩ := doFree_stands h hstands hb hok
      exact ⟨B', hrunB, A', idle, counted, _, h', hB'⟩
    | align addr alignment size =>
      obtain ⟨hlive, hbit, hpow, hle, hlt, hsize, huser, hin, rfl⟩ := hs
      obtain ⟨b, l, hb, rfl⟩ : addr ∈ users L := h.live ▸ hlive
      have ht := h.tenants b l hb
      have hplain := (ht.encodes.fakeWord ht.taggable).1.mp hbit
      obtain ⟨hspace, hafter, hend⟩ := ht.space hr
      have hinside := ht.inside
      obtain ⟨_, _, hothers⟩ := ht.align hr hplain hpow hle hlt hsize huser (by omega)
      exact hsilent (align_behind h hb hbit hpow hle hlt hsize huser hin) rfl rfl (word_kept hr hothers (hheld hb))
        (used_kept hb rfl)
    | edit addr e =>
      obtain ⟨hlive, hvalid, rfl⟩ := hs
      obtain ⟨b, l, hb, rfl⟩ : addr ∈ users L := h.live ▸ hlive
      obtain ⟨_, _, hothers⟩ := (h.tenants b l hb).edit hr hvalid
      have hmaster : (e.run l.user w.st).heapMaster = w.st.heapMaster := Edit.sameControl.heapMaster
      exact hsilent (edit_behind h hb hvalid) (congrArg HeapMaster.heapManagersList hmaster) edit_freeHeader
        (word_kept hr hothers (hheld hb)) (used_kept hb Edit.view_origin)
    | setErrno t e =>
      obtain rfl := hs
      exact hsilent (setErrno_behind h) rfl rfl (fun _ _ => rfl) rfl
    | mallopt option value =>
      obtain ⟨code, st, hopt, rfl⟩ := hs
      obtain ⟨h', hmem⟩ := mallopt_behind h hopt
      refine hsilent h' (mallopt_sameHeaps hopt).heapManagersList ?_ (fun c _ => congrArg (Memory.word · c) hmem) rfl
      rcases mallopt_cases hopt with ⟨_, rfl⟩ | ⟨_, _, _, _, rfl⟩ | ⟨_, _, _, _, rfl⟩ <;> rfl
    | startup k =>
      obtain ⟨st, hstart, rfl⟩ := hs
      obtain ⟨h', hmem⟩ := startup_behind h hstart
      obtain ⟨s₁, ⟨hzero, _⟩ | ⟨_, rfl⟩, _, rfl⟩ := startup_cases hstart
      · exact absurd hzero hr.booted
      · exact hsilent h' rfl rfl (fun _ _ => rfl) rfl
    | dtor t =>
      obtain ⟨hflag, halive, hset, rfl⟩ := hs
      obtain ⟨idle', counted', h'⟩ := dtor_behind h hflag halive hset
      exact hsilent h' rfl rfl (fun _ _ => rfl) rfl
    | terminate t =>
      obtain ⟨hflag, hdone, rfl⟩ := hs
      obtain ⟨counted', h'⟩ := terminate_behind h hflag hdone
      exact hsilent h' rfl rfl (fun _ _ => rfl) rfl

theorem Behind.used_eq (h : Behind cfg main w A idle counted L) :
    used L f = ((homed w.st w.live f).image fun u => (headers w.st u).header : Finset ℕ) := by
  ext c
  simp only [homed, Finset.coe_image, Finset.coe_filter, Set.mem_image, Set.mem_ofPred_eq]
  constructor
  · intro ⟨l, hl, horigin⟩
    have ht := h.tenants c l hl
    have hlive : l.user ∈ (w.live : Set ℕ) := h.live ▸ ⟨c, l, hl, rfl⟩
    refine ⟨l.user, ⟨hlive, ?_⟩, ht.header⟩
    rw [ht.home, horigin, Origin.home]
  · rintro ⟨u, ⟨hlive, hhome⟩, rfl⟩
    obtain ⟨b, l, hb, rfl⟩ : u ∈ users L := h.live ▸ hlive
    have ht := h.tenants b l hb
    rw [ht.header]
    rw [ht.home] at hhome
    refine ⟨l, hb, ?_⟩
    cases horigin : l.view.origin with
    | bucket g =>
      rw [horigin] at hhome
      exact congrArg Origin.bucket (Option.some.inj hhome)
    | mapped =>
      rw [horigin] at hhome
      cases hhome

/-- Whatever the threads do with whole calls, at a bucket it is a run of the atomic bucket, which the accesses of the protocol take effect on too. -/
theorem calls_linearize {es : List (Operation Tid)} (h0 : (system cfg main).init w)
    (hrun : (system cfg main).Run (atBucket f) w es w') :
    ∃ B, (AtomicBucket.system Tid).Run labels (AtomicBucket.empty Tid) es B ∧ Lists w'.st f B.own B.returned ∧
      B.live = (homed w'.st w'.live f).image fun u => (headers w'.st u).header := by
  obtain ⟨_, rfl, hrel⟩ := (bucket_simulates cfg main f).init w h0
  obtain ⟨B, hB, _, _, _, _, h, hstands⟩ := (bucket_simulates cfg main f).run hrun hrel
  refine ⟨B, hB, hstands.lists, ?_⟩
  ext c
  rw [hstands.live, h.used_eq, Finset.mem_coe]

private def eightFreed : World := World.eight.free 1 134488080

private def eightAgain : World := eightFreed.malloc (.above defaultConfig) 0 8

theorem calls_linearize_returned : ∃ B, (AtomicBucket.system Tid).Run labels (AtomicBucket.empty Tid)
    [.take none, .carve 134488064, .release 1 134488064, .give 1 134488064, .take (some 134488064)] B := by
  have hfirst : (system defaultConfig 0).step World.first (.doMalloc (.above defaultConfig) 0 8) World.eight :=
    World.malloc_step nofun (.inr rfl) (by decide) (by decide +kernel)
  have hsecond : (system defaultConfig 0).step World.eight (.doFree 1 134488080) eightFreed :=
    World.free_step (by decide +kernel) (by decide +kernel)
  have hthird : (system defaultConfig 0).step eightFreed (.doMalloc (.above defaultConfig) 0 8) eightAgain :=
    World.malloc_step nofun (.inr rfl) (by decide) (by decide +kernel)
  have hrun := ((Run.single (atBucket (freeListsAddr (World.eight.st.heapManager 0) 0)) hfirst).append
    (.single _ hsecond)).append (.single _ hthird)
  have hevents : (atBucket (freeListsAddr (World.eight.st.heapManager 0) 0) World.first
      (.doMalloc (.above defaultConfig) 0 8) World.eight ++ atBucket (freeListsAddr (World.eight.st.heapManager 0) 0)
      World.eight (.doFree 1 134488080 : Label defaultConfig) eightFreed) ++
      atBucket (freeListsAddr (World.eight.st.heapManager 0) 0) eightFreed
        (.doMalloc (.above defaultConfig) 0 8) eightAgain =
      [.take none, .carve 134488064, .release 1 134488064, .give 1 134488064, .take (some 134488064)] := by
    decide +kernel
  obtain ⟨B, hB, _⟩ := calls_linearize ⟨⟨_, heapManagerCtor_default⟩, rfl, rfl, rfl, rfl⟩ hrun
  exact ⟨B, hevents ▸ hB⟩

end Llheap.Reuse
