import Llheap.Proof.Resizing
import Llheap.Proof.Scrubbing

/-!
# Freeing twice

Whole runs of the debug build. The check of a header should end the program at a duplicate free and at no other call. It lets every allocation through as long as no aligned request wraps around, and this file says which of the blocks on a thread's free lists it catches.
-/

namespace Llheap.Debug

variable {cfg : Config}

structure World where
  st : State
  status : Tid → Status
  live : Finset ℕ
  /-- the address that a free block of a bucket was freed at, unless it has never been given out -/
  former : ℕ → Option ℕ

inductive Label (cfg : Config)
  /-- `doMalloc` if the alignment is the least one -/
  | memalign (k : Kernel cfg) (t : Tid) (alignment size : ℕ)
  | doFree (k : Kernel cfg) (t : Tid) (addr : ℕ)
  | edit (addr : ℕ) (e : Edit)
  | setErrno (t : Tid) (e : ℕ)
  | mallopt (option value : ℤ)
  | startup (k : Kernel cfg)
  | dtor (t : Tid)
  | terminate (t : Tid)

/-- The block of a new allocation has no former address. -/
def givenOut (s : State) (former : ℕ → Option ℕ) : Option ℕ → ℕ → Option ℕ
  | none => former
  | some u => Function.update former (Llheap.headers s u).header none

/-- A block that goes back to a bucket. -/
def freedAt (s : State) (former : ℕ → Option ℕ) (u : ℕ) : ℕ → Option ℕ :=
  if (Llheap.headers s u).mapped then former else Function.update former (Llheap.headers s u).header (some u)

/-- A call that a check ends is no step. -/
def Step (main : Tid) (w : World) : Label cfg → World → Prop
  | .memalign k t alignment size, w' => w.status t ≠ .terminated ∧ (w.st.heapMasterBootFlag = 2 ∨ t = main) ∧
      alignment < 2 ^ 64 ∧ size < 2 ^ 64 ∧ ∃ r st, memalignNoStats k t alignment size w.st = .ok (r, st) ∧
        w' = ⟨st, w.status, w.live ∪ r.toFinset, givenOut st w.former r⟩
  | .doFree k t addr, w' => w.status t ≠ .terminated ∧ (w.st.heapMasterBootFlag = 2 ∨ t = main) ∧
      addr ∈ w.live ∧ ∃ st, doFree k t addr w.st = .ok st ∧
        w' = ⟨st, w.status, w.live.erase addr, freedAt w.st w.former addr⟩
  | .edit addr e, w' => addr ∈ w.live ∧ e.Valid addr w.st ∧ w' = { w with st := e.run addr w.st }
  | .setErrno t e, w' => w' = { w with st := w.st.refuse t e }
  | .mallopt option value, w' => ∃ code st, Llheap.mallopt option value w.st = .ok (code, st) ∧
      w' = { w with st := st }
  | .startup k, w' => ∃ st, Llheap.startup k main w.st = .ok st ∧ w' = { w with st := st }
  | .dtor t, w' => w.st.heapMasterBootFlag = 2 ∧ w.status t = .alive ∧ w.st.setspecific t = true ∧
      w' = { w with st := heapManagerDtor t w.st, status := Function.update w.status t .exiting }
  | .terminate t, w' => w.st.heapMasterBootFlag = 2 ∧
      (w.status t = .exiting ∨ w.status t = .alive ∧ w.st.setspecific t = false) ∧
      w' = { w with status := Function.update w.status t .terminated }

def system (cfg : Config) (main : Tid) : TransitionSystem World (Label cfg) where
  init w := (∃ k : Kernel cfg, heapManagerCtor k main State.unbooted = .ok w.st) ∧
    w.status = (fun _ => .alive) ∧ w.live = ∅ ∧ w.former = fun _ => none
  step := Step main

/-- An aligned request does not wrap around when its slack is added. -/
def NoWrap (_ : World) : Label cfg → Prop
  | .memalign _ _ alignment size => memalignRequest alignment size < 2 ^ 64
  | _ => True

/-! ### Detection -/

/-- The block `b` is on a free list of the thread's own heap. -/
def OnOwnList (s : State) (t : Tid) (b : ℕ) : Prop :=
  s.heapManager t ≠ 1 ∧ ∃ i < noBucketSizes, ∃ blocks,
    Separation.IsList s (freeListsAddr (s.heapManager t) i) .freeList blocks ∧ b ∈ blocks

/-- The program is told of a corrupted header at every duplicate free of a block on the thread's own lists, and at no live address. -/
structure Detects (cfg : Config) (w : World) (t : Tid) : Prop where
  sound : ∀ u ∈ w.live, ∀ name abort, headers t name u w.st = .error abort → ¬ abort.Corrupted
  duplicate : ∀ b u, OnOwnList w.st t b → w.former b = some u →
    ∀ k : Kernel cfg, ∃ abort, doFree k t u w.st = .error abort ∧ abort.Corrupted

/-- What catches a duplicate free of the block `b` at `u`: the header in front of an aligned address is overwritten; or the block is the last of its list; or the size recorded in the next block happens to be the address of the thread's heap; or the next block has never been given out, and what it has instead of scrubbed bytes is less than the size recorded in `b`. -/
def Caught (w : World) (t : Tid) (b u : ℕ) : Prop :=
  let next := w.st.mem.word b
  w.st.mem.word (headerAddr u) = scrubbed ∨ next = 0 ∨ w.st.mem.word (homeManagerField next) = w.st.heapManager t ∨
    w.former next = none ∧ w.st.mem.word (blockSizeField next) < w.st.mem.word (sizeField b)

/-! ### What a run keeps -/

/-- An arena behind the state, headers in order, and what freeing has left in the blocks that have been freed. -/
structure Behind (cfg : Config) (main : Tid) (w : World) (A : Arena Tag) (idle : List ℕ)
    (counted : Tid → Status) (L : ℕ → Option Live) : Prop where
  base : ∃ carved most, Reuse.Behind cfg main ⟨w.st, w.status, w.live, carved, most⟩ A idle counted L
  recorded : ∀ b l, L b = some l → Recorded l
  former : ∀ b u, w.former b = some u → ∃ n f, A.at? b = some ⟨n, .free f⟩ ∧ Freed w.st.mem b n u

variable {main : Tid} {k : Kernel cfg} {t : Tid} {s s' : State} {r : Option ℕ} {w w' : World}
  {A A' : Arena Tag} {idle idle' : List ℕ} {counted counted' : Tid → Status} {L L' : ℕ → Option Live}
  {b n u f h size alignment : ℕ} {l : Live} {x : Option Live}

theorem formerly (hr : Refines cfg main s counted A idle) (hothers : OthersUndisturbed b s s' A A') {c : ℕ}
    (hne : c ≠ b) (hformer : ∃ n f, A.at? c = some ⟨n, .free f⟩ ∧ Freed s.mem c n u) :
    ∃ n f, A'.at? c = some ⟨n, .free f⟩ ∧ Freed s'.mem c n u := by
  obtain ⟨n, f, hfree, hfreed⟩ := hformer
  obtain ⟨hfree', hbytes⟩ := hothers c _ .free hne hfree
  obtain ⟨h, hf⟩ := hr.blocks.free c n f hfree
  exact ⟨n, f, hfree', hfreed.congr hf.le_len hbytes⟩

theorem Behind.same (h : Behind cfg main w A idle counted L) (hothers : ∀ b, OthersUndisturbed b w.st w'.st A A')
    (hbase : ∃ carved most, Reuse.Behind cfg main ⟨w'.st, w'.status, w'.live, carved, most⟩ A' idle' counted' L)
    (hformer : w'.former = w.former) : Behind cfg main w' A' idle' counted' L := by
  obtain ⟨_, _, hb⟩ := h.base
  refine ⟨hbase, h.recorded, fun b u hu => ?_⟩
  rw [hformer] at hu
  exact formerly hb.refines (hothers (b + 1)) (Nat.succ_ne_self b).symm (h.former b u hu)

theorem Behind.one (h : Behind cfg main w A idle counted L) (hothers : OthersUndisturbed b w.st w'.st A A')
    (hbase : ∃ carved most, Reuse.Behind cfg main ⟨w'.st, w'.status, w'.live, carved, most⟩ A' idle' counted'
      (Function.update L b x)) (hx : ∀ l ∈ x, Recorded l) (hformer : ∀ c ≠ b, w'.former c = w.former c)
    (hself : ∀ u, w'.former b = some u → ∃ n f, A'.at? b = some ⟨n, .free f⟩ ∧ Freed w'.st.mem b n u) :
    Behind cfg main w' A' idle' counted' (Function.update L b x) := by
  obtain ⟨_, _, hb⟩ := h.base
  refine ⟨hbase, fun c l hc => ?_, fun c u hu => ?_⟩
  · by_cases hcb : c = b
    · subst c
      rw [Function.update_self] at hc
      exact hx l hc
    · rw [Function.update_of_ne hcb] at hc
      exact h.recorded c l hc
  · by_cases hcb : c = b
    · subst c
      exact hself u hu
    · rw [hformer c hcb] at hu
      exact formerly hb.refines hothers hcb (h.former c u hu)

theorem Behind.hold (h : Behind cfg main w A idle counted L) (hothers : OthersUndisturbed b w.st w'.st A A')
    (hbase : ∃ carved most, Reuse.Behind cfg main ⟨w'.st, w'.status, w'.live, carved, most⟩ A' idle' counted'
      (Function.update L b (some l))) (hrec : Recorded l) (hformer : w'.former = Function.update w.former b none) :
    Behind cfg main w' A' idle' counted' (Function.update L b (some l)) := by
  refine h.one hothers hbase (fun l' hl' => Option.some.inj hl' ▸ hrec) (fun c hc => ?_) fun u hu => ?_
  · rw [hformer, Function.update_of_ne hc]
  · rw [hformer, Function.update_self] at hu
    cases hu

theorem givenOut_eq {v : View} (ht : Tenant s A b n u v) (former : ℕ → Option ℕ) :
    givenOut s former (some u) = Function.update former b none := by
  rw [givenOut, ht.header]

theorem Behind.former_eq_none (h : Behind cfg main w A idle counted L) (hb : L b = some l) : w.former b = none := by
  obtain ⟨_, _, hbase⟩ := h.base
  by_contra hsome
  obtain ⟨u, hu⟩ := Option.ne_none_iff_exists'.mp hsome
  obtain ⟨n, f, hfree, _⟩ := h.former b u hu
  rw [(hbase.tenants b l hb).held] at hfree
  cases hfree

/-! ### Steps -/

theorem scrubNew_behind {v : Reuse.World} (h : Reuse.Behind cfg main v A idle counted L) (hb : L b = some l)
    (hplain : l.view.alignment = none) :
    Reuse.Behind cfg main (v.next (scrubNew b l.len v.st) v.status v.live v.carved) A idle counted L ∧
      OthersUndisturbed b v.st (scrubNew b l.len v.st) A A := by
  have ht := h.tenants b l hb
  obtain ⟨hspace, _, hend⟩ := ht.space h.refines
  have huser := ht.encodes.plain hplain
  have hinside := ht.inside
  have hdsize : sub64 l.len sizeofStorage = l.len - sizeofStorage := sub64_of_le (by omega) (by omega)
  obtain ⟨mem, hscrub, hmem⟩ : ∃ mem, scrubNew b l.len v.st = { v.st with mem := mem } ∧
      ∀ x, x < l.user ∨ b + l.len ≤ x → mem x = v.st.mem x := by
    refine ⟨_, rfl, fun x hx => Memory.fill_apply_of_outside ?_⟩
    rw [hdsize]
    omega
  have hvalid : (Edit.write mem).Valid l.user v.st := fun x hx => hmem x (by omega)
  have hbehind := Reuse.edit_behind h hb hvalid
  obtain ⟨_, _, hothers⟩ := ht.edit h.refines hvalid
  rw [Edit.view, ← hb, Function.update_eq_self] at hbehind
  rw [hscrub]
  exact ⟨hbehind, hothers⟩

/-- A request of the debug build gets a block that holds it, or none. -/
theorem doMalloc_behind (h : Behind cfg main w A idle counted L) (hrun : w.status t ≠ .terminated)
    (hstarted : w.st.heapMasterBootFlag = 2 ∨ t = main) (hsize : size < 2 ^ 64)
    (hok : doMalloc k t size w.st = .ok (r, s')) : ∃ A' idle' counted' L',
      Behind cfg main ⟨s', w.status, w.live ∪ r.toFinset, givenOut s' w.former r⟩ A' idle' counted' L' ∧
      ∀ u ∈ r, ∃ b n origin, L b = none ∧ L' = Function.update L b (some ⟨n, u, ⟨origin, false, size, none⟩⟩) ∧
        size + sizeofStorage ≤ n ∧ OthersUndisturbed b w.st s' A A' := by
  obtain ⟨carved, most, hbase⟩ := h.base
  obtain ⟨s₁, hboot, ⟨rfl, rfl⟩ | ⟨hpass, s₂, hrelease, hscrub⟩⟩ := doMalloc_cases hok
  · obtain ⟨A', idle', counted', h', hothers, _⟩ := Reuse.boot_behind hbase hrun hstarted hboot
    have h'' := Reuse.setErrno_behind (t := t) (e := ENOMEM) h'
    rw [Option.toFinset_none, Finset.union_empty]
    exact ⟨A', idle', counted', L, h.same hothers ⟨_, _, h''⟩ rfl, by simp⟩
  · obtain ⟨A', idle', counted', L', h', hnone, hsome⟩ :=
      Reuse.doMalloc_behind hbase hrun hstarted hsize hrelease
    cases r with
    | none =>
      cases hscrub
      obtain ⟨rfl, hothers⟩ := hnone rfl
      rw [Option.toFinset_none, Finset.union_empty] at h' ⊢
      exact ⟨A', idle', counted', L', h.same hothers ⟨_, _, h'⟩ rfl, by simp⟩
    | some u =>
      obtain ⟨b, n, origin, rfl, hothers, hobtains⟩ := hsome u rfl
      have hfresh := hbase.fresh hobtains
      have hb := Function.update_self b (some ⟨n, u, ⟨origin, false, size, none⟩⟩) L
      have ht : Tenant s₂ A' b n u ⟨origin, false, size, none⟩ := h'.tenants b _ hb
      obtain ⟨counted₁, hbase₁, hmay⟩ := hbase.mayBoot hrun hstarted
      obtain ⟨hlen, hholds⟩ := supplied hbase₁.refines hmay hbase₁.threads.listed hsize hboot hrelease
      rw [ht.size_eq h'.refines] at hlen
      rw [← hlen] at hscrub hholds
      have hroom := hholds hpass
      obtain ⟨⟨carved', most', h''⟩, hothers'⟩ : (∃ carved' most', Reuse.Behind cfg main
          ⟨s', w.status, w.live ∪ {u}, carved', most'⟩ A' idle' counted'
          (Function.update L b (some ⟨n, u, ⟨origin, false, size, none⟩⟩))) ∧ OthersUndisturbed b w.st s' A A' := by
        cases hscrub with
        | kept => exact ⟨⟨_, _, h'⟩, hothers⟩
        | filled =>
          obtain rfl := Nat.add_right_cancel (ht.encodes.plain rfl)
          obtain ⟨h'', hothers'⟩ := scrubNew_behind h' hb rfl
          exact ⟨⟨_, _, h''⟩, hothers.trans hothers'⟩
      have ht' : Tenant s' A' b n u ⟨origin, false, size, none⟩ := h''.tenants b _ hb
      have hrec : Recorded ⟨n, u, ⟨origin, false, size, none⟩⟩ := ⟨by simp, by dsimp only; omega⟩
      refine ⟨A', idle', counted', _, h.hold hothers' ⟨_, _, h''⟩ hrec (givenOut_eq ht' _), fun u' hu' => ?_⟩
      obtain rfl := Option.some.inj hu'
      exact ⟨b, n, origin, hfresh, rfl, hroom, hothers'⟩

theorem memalignNoStats_cases (h : memalignNoStats k t alignment size s = .ok (r, s')) : pow2 alignment ∧
    ((alignment ≤ libAlign ∨ size = 0) ∧ doMalloc k t size s = .ok (r, s') ∨
    libAlign < alignment ∧ size ≠ 0 ∧
      (r = none ∧ doMalloc k t (alignedSize alignment size) s = .ok (none, s') ∨
        ∃ addr s₁, doMalloc k t (alignedSize alignment size) s = .ok (some addr, s₁) ∧
          r = some (ceiling (addr + sizeofStorage) alignment) ∧
          s' = setFakeHeader addr (ceiling (addr + sizeofStorage) alignment) alignment size s₁)) := by
  unfold memalignNoStats at h
  split at h
  · cases h
  next hpow =>
  refine ⟨not_not.mp hpow, ?_⟩
  split at h
  · next hplain => exact .inl ⟨hplain, h⟩
  · next hfake =>
    rw [not_or] at hfake
    obtain ⟨⟨r₁, s₁⟩, hmalloc, h⟩ := bind_eq_ok.mp h
    refine .inr ⟨not_le.mp hfake.1, hfake.2, ?_⟩
    cases r₁ with
    | none =>
      cases h
      exact .inl ⟨rfl, hmalloc⟩
    | some addr =>
      cases h
      exact .inr ⟨addr, s₁, hmalloc, rfl, rfl⟩

theorem memalign_behind (h : Behind cfg main w A idle counted L) (hrun : w.status t ≠ .terminated)
    (hstarted : w.st.heapMasterBootFlag = 2 ∨ t = main) (halign : alignment < 2 ^ 64) (hsize : size < 2 ^ 64)
    (hfits : memalignRequest alignment size < 2 ^ 64)
    (hok : memalignNoStats k t alignment size w.st = .ok (r, s')) : ∃ A' idle' counted' L',
      Behind cfg main ⟨s', w.status, w.live ∪ r.toFinset, givenOut s' w.former r⟩ A' idle' counted' L' := by
  obtain ⟨hpow2, hcases⟩ := memalignNoStats_cases hok
  rcases hcases with ⟨_, hm⟩ | ⟨hbig, hne, ⟨rfl, hm⟩ | ⟨addr, s₁, hm, rfl, rfl⟩⟩
  · obtain ⟨A', idle', counted', L', h', _⟩ := doMalloc_behind h hrun hstarted hsize hm
    exact ⟨A', idle', counted', L', h'⟩
  · obtain ⟨A', idle', counted', L', h', _⟩ :=
      doMalloc_behind h hrun hstarted (Nat.mod_lt _ (by decide)) hm
    exact ⟨A', idle', counted', L', h'⟩
  have hpow := (pow2_iff (by omega)).mp hpow2
  have hword := alignedSize_eq hbig hne hfits
  rw [hword] at hm
  obtain ⟨A₁, idle₁, counted₁, L₁, h₁, hsome⟩ :=
    doMalloc_behind h hrun hstarted (by rw [← hword]; exact Nat.mod_lt _ (by decide)) hm
  obtain ⟨b, n, origin, hfresh, rfl, hlong, hothers₁⟩ := hsome addr rfl
  obtain ⟨carved, most, hbase₁⟩ := h₁.base
  have hb := Function.update_self b (some ⟨n, addr, ⟨origin, false, size + alignment, none⟩⟩) L
  have ht : Tenant s₁ A₁ b n addr ⟨origin, false, size + alignment, none⟩ := hbase₁.tenants b _ hb
  obtain ⟨hspace, _⟩ := ht.space hbase₁.refines
  have haddr := ht.encodes.plain rfl
  rw [sizeofStorage] at hlong haddr
  obtain ⟨huser, hin, _⟩ := ht.align_room hbase₁.refines hpow hbig.le (by omega)
  have hbit := (ht.encodes.fakeWord ht.taggable).1.mpr rfl
  have h₂ := Reuse.align_behind hbase₁ hb hbit hpow hbig.le halign hsize huser (by dsimp only; omega)
  obtain ⟨_, ht₂, hothers₂⟩ := ht.align hbase₁.refines rfl hpow hbig.le halign hsize huser (by omega)
  have hnew : addr ∉ w.live := by
    intro hlive
    obtain ⟨carved₀, most₀, hbase⟩ := h.base
    obtain ⟨c, l, hc, hu⟩ : addr ∈ users L := hbase.live ▸ hlive
    have hcb : c ≠ b := by
      rintro rfl
      cases hfresh.symm.trans hc
    exact hcb (hbase₁.injective c b l _ ((Function.update_of_ne hcb ..).trans hc) hb hu)
  have hlive := Reuse.live_replaced hnew (ceiling (addr + sizeofStorage) alignment)
  rw [Function.update_idem] at h₂
  have hrec : Recorded ⟨n, ceiling (addr + sizeofStorage) alignment, ⟨origin, false, size, some alignment⟩⟩ :=
    ⟨fun a ha => Option.some.inj ha ▸ ⟨hpow, hbig.le, halign⟩, by dsimp only; omega⟩
  exact ⟨A₁, idle₁, counted₁, _, h.hold (hothers₁.trans hothers₂) ⟨_, _, hlive ▸ h₂⟩ hrec (givenOut_eq ht₂ _)⟩

theorem doFree_tenant (hok : doFree k t l.user s = .ok s') (hrec : Recorded l) : ∃ s₁, bootHeapManager k t s = .ok s₁ ∧
    ∀ {A idle counted}, Refines cfg main s₁ counted A idle → Tenant s₁ A b l.len l.user l.view →
      (∃ f list, l.view.origin = .bucket f ∧ s' = (scrubFreed b l.len s₁).push list f b) ∨
        l.view.origin = .mapped ∧ Llheap.doFree t l.user s₁ = .ok s' := by
  obtain ⟨s₁, hd, hboot, hheaders, hcases⟩ := doFree_cases hok
  refine ⟨s₁, hboot, fun {A idle counted} hr ht => ?_⟩
  obtain rfl : hd = Llheap.headers s₁ l.user := by
    rcases checked ht hr hrec t "free" with hgood | habort
    · exact Except.ok.inj (hheaders.symm.trans hgood)
    · cases hheaders.symm.trans habort
  have horigin : (Llheap.headers s₁ l.user).mapped = decide (l.view.origin = .mapped) := by
    rw [ht.encodes.headers ht.taggable]
  rcases hcases with ⟨hplain, list, hpush⟩ | ⟨hmapped, hunmap⟩
  · cases hf : l.view.origin with
    | mapped =>
      rw [horigin, hf] at hplain
      simp at hplain
    | bucket f =>
      have hfreeHead : (Llheap.headers s₁ l.user).freeHead = f := by
        rw [ht.encodes.headers ht.taggable, hf]
        rfl
      have hbucketAt : IsBucketAt (scrubFreed b l.len s₁).heapMaster f := by
        obtain ⟨_, hbucket⟩ := ht.bucket f hf
        rw [scrubFreed_heapMaster]
        exact .of_isBucket hbucket
      rw [hfreeHead, ht.header, ht.size_eq hr, pushAt, if_pos hbucketAt] at hpush
      exact .inl ⟨f, list, rfl, hpush⟩
  · refine .inr ⟨of_decide_eq_true (horigin.symm.trans hmapped), ?_⟩
    rw [Llheap.doFree, hmapped]
    simpa using hunmap

theorem doFree_behind (h : Behind cfg main w A idle counted L) (hb : L b = some l) (hrun : w.status t ≠ .terminated)
    (hstarted : w.st.heapMasterBootFlag = 2 ∨ t = main) (hok : doFree k t l.user w.st = .ok s') :
    ∃ A' idle' counted', Behind cfg main ⟨s', w.status, w.live.erase l.user, freedAt w.st w.former l.user⟩
      A' idle' counted' (Function.update L b none) := by
  obtain ⟨carved, most, hbase⟩ := h.base
  have hrec := h.recorded b l hb
  obtain ⟨s₁, hboot, hcases⟩ := doFree_tenant hok hrec
  obtain ⟨A₁, idle₁, counted₁, h₁, hothers₁, _⟩ := Reuse.boot_behind hbase hrun hstarted hboot
  have ht₀ := hbase.tenants b l hb
  have ht : Tenant s₁ A₁ b l.len l.user l.view := h₁.tenants b l hb
  rw [freedAt, ht₀.header, ht₀.encodes.headers ht₀.taggable]
  dsimp only
  rcases hcases h₁.refines ht with ⟨f, list, horigin, hpush⟩ | ⟨horigin, hfree⟩
  · rw [horigin, if_neg (by simp)]
    obtain ⟨h', hf⟩ := ht.bucket f horigin
    obtain ⟨hr', hothers', hsame, hmappings, hfreed⟩ :=
      freed ht h₁.refines hf hrec.alignment (h₁.placed b l hb).align_dvd list
    rw [← hpush] at hr' hothers' hsame hmappings hfreed
    have hfree : (A₁.retag b (.free f)).at? b = some ⟨l.len, .free f⟩ := Arena.at?_retag_self ht.held
    have hslab := (h₁.slab.forget (b := b)).congr (by rw [hsame.heapMaster]; rfl) hmappings
    have h₂ := Reuse.freed_behind h₁ hb hr' hsame hothers' (fun g hg => ?_) hslab
    · refine ⟨_, idle₁, counted₁, h.one ((hothers₁ b).trans hothers') ⟨_, _, h₂⟩ (by simp)
        (fun c hc => Function.update_of_ne hc ..) fun u hu => ⟨l.len, f, hfree, ?_⟩⟩
      dsimp only at hu
      rw [Function.update_self] at hu
      exact Option.some.inj hu ▸ hfreed
    · rw [horigin] at hg
      exact Origin.bucket.inj hg ▸ hfree
  · rw [horigin, if_pos (by simp)]
    obtain ⟨A', h', hothers'⟩ := Reuse.doFree_behind h₁ hb hfree
    refine ⟨A', idle₁, counted₁, h.one ((hothers₁ b).trans hothers') ⟨_, _, h'⟩ (by simp) (fun _ _ => rfl)
      fun u hu => ?_⟩
    cases (h.former_eq_none hb).symm.trans hu

theorem Recorded.edit {e : Edit} (hrec : Recorded l) (ht : Tenant s A b l.len l.user l.view)
    (hr : Refines cfg main s counted A idle) (he : e.Valid l.user s) :
    Recorded ⟨l.len, l.user, e.view l.user s l.view⟩ := by
  obtain ⟨hspace, hafter, _⟩ := ht.space hr
  have hroom : ∀ size, size ≤ dataSpace s l.user → size ≤ l.len := fun size hle => by omega
  cases e with
  | write mem => exact hrec
  | zeroFill size => exact ⟨hrec.alignment, hrec.size⟩
  | markZeroFilled => exact ⟨hrec.alignment, hrec.size⟩
  | resizeInPlace size => exact ⟨hrec.alignment, hroom size he⟩
  | reallocInPlace size => exact ⟨hrec.alignment, hroom size he⟩
  | updateAlignment alignment =>
    obtain ⟨_, hpow, hle, hlt⟩ := he
    refine ⟨fun a ha => ?_, hrec.size⟩
    cases ha
    exact ⟨hpow, hle, hlt⟩
  | usableSize => exact ⟨hrec.alignment, hroom _ le_rfl⟩

theorem edit_behind {e : Edit} (h : Behind cfg main w A idle counted L) (hb : L b = some l)
    (hvalid : e.Valid l.user w.st) : Behind cfg main { w with st := e.run l.user w.st } A idle counted
      (Function.update L b (some ⟨l.len, l.user, e.view l.user w.st l.view⟩)) := by
  obtain ⟨carved, most, hbase⟩ := h.base
  have ht := hbase.tenants b l hb
  obtain ⟨_, _, hothers⟩ := ht.edit hbase.refines hvalid
  have hrec := (h.recorded b l hb).edit ht hbase.refines hvalid
  refine h.hold hothers ⟨_, _, Reuse.edit_behind hbase hb hvalid⟩ hrec ?_
  rw [← h.former_eq_none hb, Function.update_eq_self]

theorem Behind.control {status : Tid → Status} (h : Behind cfg main w A idle counted L) (hmem : s'.mem = w.st.mem)
    (hbase : ∃ carved most, Reuse.Behind cfg main ⟨s', status, w.live, carved, most⟩ A idle' counted' L) :
    Behind cfg main { w with st := s', status := status } A idle' counted' L :=
  h.same (fun _ => (Undisturbed.of_mem ⟨fun _ _ _ hc => hc, rfl⟩ hmem).others) hbase rfl

/-! ### Runs -/

def Inv (cfg : Config) (main : Tid) (w : World) : Prop :=
  ∃ A idle counted L, Behind cfg main w A idle counted L

theorem init_inv (h : (system cfg main).init w) : Inv cfg main w := by
  obtain ⟨st, status, live, former⟩ := w
  obtain ⟨hctor, rfl, rfl, rfl⟩ := h
  have hinit : (Reuse.system cfg main).init ⟨st, fun _ => .alive, ∅, fun _ => 0, fun _ => 0⟩ :=
    ⟨hctor, rfl, rfl, rfl, rfl⟩
  obtain ⟨A, idle, counted, L, hbase⟩ := Reuse.init_inv hinit
  refine ⟨A, idle, counted, L, ⟨_, _, hbase⟩, fun b l hb => ?_, by simp⟩
  have huser : l.user ∈ users L := ⟨b, l, hb, rfl⟩
  rw [← hbase.live] at huser
  simp at huser

theorem step_inv {lab : Label cfg} (h : Inv cfg main w) (hfits : NoWrap w lab) (hs : Step main w lab w') :
    Inv cfg main w' := by
  obtain ⟨A, idle, counted, L, h⟩ := h
  obtain ⟨carved, most, hbase⟩ := h.base
  cases lab with
  | memalign k t alignment size =>
    obtain ⟨hrun, hstarted, halign, hsize, r, st, hok, rfl⟩ := hs
    obtain ⟨A', idle', counted', L', h'⟩ := memalign_behind h hrun hstarted halign hsize hfits hok
    exact ⟨A', idle', counted', L', h'⟩
  | doFree k t addr =>
    obtain ⟨hrun, hstarted, hlive, st, hok, rfl⟩ := hs
    obtain ⟨b, l, hb, rfl⟩ : addr ∈ users L := hbase.live ▸ hlive
    obtain ⟨A', idle', counted', h'⟩ := doFree_behind h hb hrun hstarted hok
    exact ⟨A', idle', counted', _, h'⟩
  | edit addr e =>
    obtain ⟨hlive, hvalid, rfl⟩ := hs
    obtain ⟨b, l, hb, rfl⟩ : addr ∈ users L := hbase.live ▸ hlive
    exact ⟨A, idle, counted, _, edit_behind h hb hvalid⟩
  | setErrno t e =>
    obtain rfl := hs
    exact ⟨A, idle, counted, L, h.control rfl ⟨_, _, Reuse.setErrno_behind hbase⟩⟩
  | mallopt option value =>
    obtain ⟨code, st, hopt, rfl⟩ := hs
    obtain ⟨h', hmem⟩ := Reuse.mallopt_behind hbase hopt
    exact ⟨A, idle, counted, L, h.control hmem ⟨_, _, h'⟩⟩
  | startup k =>
    obtain ⟨st, hstart, rfl⟩ := hs
    obtain ⟨h', hmem⟩ := Reuse.startup_behind hbase hstart
    exact ⟨A, idle, counted, L, h.control hmem ⟨_, _, h'⟩⟩
  | dtor t =>
    obtain ⟨hflag, halive, hset, rfl⟩ := hs
    obtain ⟨idle', counted', h'⟩ := Reuse.dtor_behind hbase hflag halive hset
    exact ⟨A, idle', counted', L, h.control rfl ⟨_, _, h'⟩⟩
  | terminate t =>
    obtain ⟨hflag, hdone, rfl⟩ := hs
    obtain ⟨counted', h'⟩ := Reuse.terminate_behind hbase hflag hdone
    exact ⟨A, idle, counted', L, h.control rfl ⟨_, _, h'⟩⟩

theorem reachable_inv (h : ((system cfg main).restrict NoWrap).Reachable w) : Inv cfg main w :=
  h.invariant (fun _ hw => init_inv hw) fun _ _ _ hw hs => step_inv hw hs.1 hs.2

/-! ### What the check sees -/

theorem OnOwnList.free (hon : OnOwnList s t b) (hr : Refines cfg main s counted A idle) (hlisted : HeapsListed s) :
    s.heapManager t ∈ s.heapMaster.heapManagersList ∧ ∃ n f, A.at? b = some ⟨n, .free f⟩ ∧
      (s.mem.word b = 0 ∨ A.at? (s.mem.word b) = some ⟨n, .free f⟩) := by
  obtain ⟨hheap, i, hi, blocks, hlist, hmem⟩ := hon
  have hh := hlisted t hheap
  obtain ⟨own, remote, hown, _, _, hiff⟩ := (hr.blocks.bucket _ _ _ ⟨hh, i, hi, rfl, rfl⟩).listed
  obtain rfl : blocks = own := hlist.unique hown
  have hfree : ∀ c ∈ blocks, A.at? c = some ⟨bucketSize i, .free (freeListsAddr (s.heapManager t) i)⟩ :=
    fun c hc => (hiff c).mp (List.mem_append_left _ hc)
  exact ⟨hh, _, _, hfree b hmem, (hown.next_mem hmem).imp_right (hfree _)⟩

theorem free_apart (hr : Refines cfg main s counted A idle) (hb : A.at? b = some ⟨n, .free f⟩) {h : ℕ}
    (hh : h ∈ s.heapMaster.heapManagersList) : b < h ∨ freeListsAddr h noBucketSizes ≤ b := by
  have hheap := (hr.heaps.pieces.heap h _).mpr ⟨hh, rfl⟩
  have hne : b ≠ h := by
    rintro rfl
    cases hb.symm.trans hheap
  have hapart := A.separate b _ h _ hb hheap hne
  have hpos := A.pos b _ hb
  simp only [freeListsAddr, sizeofFreeHeader, noBucketSizes, sizeofHeap] at *
  omega

theorem free_not_bucket (hr : Refines cfg main s counted A idle) (hb : A.at? b = some ⟨n, .free f⟩) :
    ¬ IsBucketAt s.heapMaster b := by
  rintro ⟨h, hh, i, hi, rfl⟩
  have hout := free_apart hr hb hh
  simp only [freeListsAddr, sizeofFreeHeader, noBucketSizes] at *
  omega

/-- The check of a free block goes by the block behind it. -/
theorem corrupted_iff (hr : Refines cfg main s counted A idle) (hh : s.heapManager t ∈ s.heapMaster.heapManagersList)
    (hnext : s.mem.word b = 0 ∨ ∃ n f, A.at? (s.mem.word b) = some ⟨n, .free f⟩) :
    corrupted t b (s.mem.word b) s ↔ s.mem.word b = 0 ∨
      s.mem.word (homeManagerField (s.mem.word b)) = s.heapManager t ∨
      s.mem.word (blockSizeField (s.mem.word b)) < s.mem.word (sizeField b) := by
  rcases hnext with hnull | ⟨n, f, hfree⟩
  · exact iff_of_true (.inl hnull) (.inl hnull)
  · have hstart : freeListsAddr (s.heapManager t) 0 = s.heapManager t := rfl
    have hout := free_apart hr hfree hh
    rw [corrupted, freeHeaderAt, if_neg (free_not_bucket hr hfree), hstart]
    dsimp only
    rw [eq_comm (a := s.heapManager t), and_iff_left hout]

theorem doFree_error_iff {abort : Abort} (hheap : s.heapManager t ≠ 1)
    (hmapped : ∀ hd, headers t "free" u s = .ok hd → hd.mapped = false) :
    doFree k t u s = .error abort ↔ headers t "free" u s = .error abort := by
  have hboot : bootHeapManager k t s = .ok s := if_neg hheap
  unfold doFree
  rw [hboot]
  change (headers t "free" u s >>= _) = _ ↔ _
  cases hheaders : headers t "free" u s with
  | error e => simp only [bind, Except.bind, Except.error.injEq]
  | ok hd =>
    change (if ¬ hd.mapped then _ else _) = _ ↔ _
    rw [hmapped hd hheaders, if_pos Bool.false_ne_true]
    simp

/-- The check finds fault with no live address. -/
theorem Behind.sound (h : Behind cfg main w A idle counted L) (t : Tid) : ∀ u ∈ w.live, ∀ name abort,
    headers t name u w.st = .error abort → ¬ abort.Corrupted := by
  obtain ⟨carved, most, hbase⟩ := h.base
  intro u hu name abort habort
  obtain ⟨b, l, hb, rfl⟩ : u ∈ users L := hbase.live ▸ hu
  rcases checked (hbase.tenants b l hb) hbase.refines (h.recorded b l hb) t name with hgood | hassert
  · cases hgood.symm.trans habort
  · cases hassert.symm.trans habort
    exact id

/-- A block that has been freed has scrubbed bytes where the check of another one reads its size. -/
theorem Behind.third (h : Behind cfg main w A idle counted L)
    (hlt : w.st.mem.word (blockSizeField b) < w.st.mem.word (sizeField n)) : w.former b = none := by
  by_contra hsome
  obtain ⟨u, hu⟩ := Option.ne_none_iff_exists'.mp hsome
  obtain ⟨_, _, _, hfreed⟩ := h.former _ u hu
  have hword := w.st.mem.word_lt (sizeField n)
  rw [hfreed.third, scrubbed] at hlt
  omega

/-- A duplicate free of a block on one of the thread's own lists. -/
theorem Behind.caught_iff (h : Behind cfg main w A idle counted L) (hon : OnOwnList w.st t b)
    (hu : w.former b = some u) (k : Kernel cfg) :
    (∃ abort, doFree k t u w.st = .error abort ∧ abort.Corrupted) ↔ Caught w t b u := by
  obtain ⟨carved, most, hbase⟩ := h.base
  obtain ⟨hh, n, f, hfree, hnext⟩ := hon.free hbase.refines hbase.threads.listed
  obtain ⟨n', f', hfree', hfreed⟩ := h.former b u hu
  have hlink : 8 ∣ w.st.mem.word b := by
    rcases hnext with hnull | hnext
    · rw [hnull]
      exact dvd_zero 8
    · exact (by decide : 8 ∣ 16).trans (hbase.refines.heaps.laid.aligned _ _ hnext)
  by_cases hscrub : w.st.mem.word (headerAddr u) = scrubbed
  · have habort : headers t "free" u w.st = .error (.badAlignment "free" u (2 ^ 64 - 2)) := headers_scrubbed hscrub
    refine iff_of_true ⟨_, (doFree_error_iff hon.1 fun hd hok => ?_).mpr habort, trivial⟩ (.inl hscrub)
    cases habort.symm.trans hok
  obtain ⟨al, heq⟩ := hfreed.headers t "free" hlink hscrub
  have hcorrupted := corrupted_iff hbase.refines hh (hnext.imp_right fun hnext => ⟨n, f, hnext⟩)
  rw [Caught, or_iff_right hscrub]
  rw [bucketHeaders] at heq
  split at heq
  · next hbad =>
    refine iff_of_true ⟨_, (doFree_error_iff hon.1 fun hd hok => ?_).mpr heq, trivial⟩ ?_
    · cases heq.symm.trans hok
    · exact (hcorrupted.mp hbad).imp_right (Or.imp_right fun hlt => ⟨h.third hlt, hlt⟩)
  · next hgood =>
    refine iff_of_false ?_ fun hcaught => hgood (hcorrupted.mpr ?_)
    · rintro ⟨abort, habort, _⟩
      rw [doFree_error_iff hon.1 fun hd hok => ?_] at habort
      · cases heq.symm.trans habort
      · cases heq.symm.trans hok
        rfl
    · exact hcaught.imp_right (Or.imp_right And.right)

/-- In every run in which no aligned request wraps around: the check finds fault with no live address, and it finds all duplicate frees of blocks on the thread's own lists if and only if each block that has a former address is one that it catches. -/
theorem detects_iff (h : ((system cfg main).restrict NoWrap).Reachable w) (t : Tid) :
    Detects cfg w t ↔ ∀ b u, OnOwnList w.st t b → w.former b = some u → Caught w t b u := by
  obtain ⟨A, idle, counted, L, h⟩ := reachable_inv h
  constructor
  · intro hdetects b u hon hu
    exact (h.caught_iff hon hu (.above cfg)).mp (hdetects.duplicate b u hon hu _)
  · intro hcaught
    exact ⟨h.sound t, fun b u hon hu k => (h.caught_iff hon hu k).mpr (hcaught b u hon hu)⟩

/-! ### Two runs -/

private theorem eq_ok {α : Type} {x : Except Abort α} (h : x.isOk = true) (d : α) : x = .ok (x.toOption.getD d) := by
  cases x with
  | error e => cases h
  | ok a => rfl

private def World.memalign (w : World) (alignment size : ℕ) : World :=
  let result := (memalignNoStats (.above defaultConfig) 0 alignment size w.st).toOption.getD (none, State.unbooted)
  ⟨result.2, w.status, w.live ∪ result.1.toFinset, givenOut result.2 w.former result.1⟩

private def World.free (w : World) (u : ℕ) : World :=
  ⟨(doFree (.above defaultConfig) 0 u w.st).toOption.getD State.unbooted, w.status, w.live.erase u,
    freedAt w.st w.former u⟩

private theorem memalign_step (hrun : w.status 0 ≠ .terminated) (halign : alignment < 2 ^ 64) (hsize : size < 2 ^ 64)
    (hok : (memalignNoStats (.above defaultConfig) 0 alignment size w.st).isOk = true) :
    (system defaultConfig 0).step w (.memalign (.above defaultConfig) 0 alignment size) (w.memalign alignment size) :=
  ⟨hrun, .inr rfl, halign, hsize, _, _, eq_ok hok (none, State.unbooted), rfl⟩

private theorem memalign_reachable (alignment size : ℕ) (h : ((system defaultConfig 0).restrict NoWrap).Reachable w)
    (hrun : w.status 0 ≠ .terminated) (halign : alignment < 2 ^ 64) (hsize : size < 2 ^ 64)
    (hfits : memalignRequest alignment size < 2 ^ 64)
    (hok : (memalignNoStats (.above defaultConfig) 0 alignment size w.st).isOk = true) :
    ((system defaultConfig 0).restrict NoWrap).Reachable (w.memalign alignment size) := by
  have hnowrap : NoWrap w (.memalign (.above defaultConfig) 0 alignment size) := hfits
  exact .next h ⟨hnowrap, memalign_step hrun halign hsize hok⟩

private theorem free_reachable (h : ((system defaultConfig 0).restrict NoWrap).Reachable w)
    (hrun : w.status 0 ≠ .terminated) (hu : u ∈ w.live)
    (hok : (doFree (.above defaultConfig) 0 u w.st).isOk = true) :
    ((system defaultConfig 0).restrict NoWrap).Reachable (w.free u) := by
  have hfits : NoWrap w (.doFree (.above defaultConfig) 0 u) := trivial
  have hstep : (system defaultConfig 0).step w (.doFree (.above defaultConfig) 0 u) (w.free u) :=
    ⟨hrun, .inr rfl, hu, _, eq_ok hok State.unbooted, rfl⟩
  exact .next h ⟨hfits, hstep⟩

private theorem memalign_former (h : ∀ b, w.former b = none) (b : ℕ) :
    (w.memalign alignment size).former b = none := by
  change givenOut _ w.former _ b = none
  generalize (memalignNoStats (.above defaultConfig) 0 alignment size w.st).toOption.getD (none, State.unbooted) =
    result
  obtain ⟨r, st⟩ := result
  cases r with
  | none => exact h b
  | some u =>
    rw [givenOut, Function.update_apply]
    split
    · rfl
    · exact h b

private theorem free_former {u' : ℕ} (hb : (w.free u).former b = some u') :
    b = (Llheap.headers w.st u).header ∧ u' = u ∨ w.former b = some u' := by
  change freedAt w.st w.former u b = some u' at hb
  rw [freedAt] at hb
  split at hb
  · exact .inr hb
  by_cases hsame : b = (Llheap.headers w.st u).header
  · rw [hsame, Function.update_self] at hb
    exact .inl ⟨hsame, (Option.some.inj hb).symm⟩
  · rw [Function.update_of_ne hsame] at hb
    exact .inr hb

private def World.first : World :=
  ⟨firstHeap defaultConfig (.above defaultConfig), fun _ => .alive, ∅, fun _ => none⟩

private theorem first_reachable : ((system defaultConfig 0).restrict NoWrap).Reachable World.first :=
  .start ⟨⟨_, heapManagerCtor_default⟩, rfl, rfl, rfl⟩

private theorem exists_aligned : ∃ w, ((system defaultConfig 0).restrict NoWrap).Reachable w ∧
    OnOwnList w.st 0 134488176 ∧ w.former 134488176 = some 134488256 ∧ w.st.mem.word 134488176 ≠ 0 ∧
    ∀ b u, w.former b = some u → w.st.mem.word (headerAddr u) = scrubbed := by
  have hfirst := memalign_reachable 64 8 first_reachable (by simp [World.first]) (by decide)
    (by decide) (by decide) (by decide +kernel)
  have hsecond := memalign_reachable 64 8 hfirst (by simp [World.first, World.memalign])
    (by decide) (by decide) (by decide) (by decide +kernel)
  have hfreed := free_reachable (u := 134488128) hsecond (by simp [World.first, World.memalign]) (by decide +kernel)
    (by decide +kernel)
  have hboth := free_reachable (u := 134488256) hfreed (by simp [World.first, World.memalign, World.free])
    (by decide +kernel) (by decide +kernel)
  refine ⟨_, hboth, ⟨by decide +kernel, 4, by decide, [134488176, 134488064], ?_, by simp⟩, by decide +kernel,
    by decide +kernel, fun b u hu => ?_⟩
  · exact ⟨by decide +kernel, by decide, by decide +kernel, by decide, Chain.nil_iff.mpr (by decide +kernel)⟩
  · rcases free_former hu with ⟨_, rfl⟩ | hu
    · decide +kernel
    rcases free_former hu with ⟨_, rfl⟩ | hu
    · decide +kernel
    · rw [memalign_former (memalign_former fun _ => rfl)] at hu
      cases hu

/-- Aligned blocks are caught wherever they are on a list, since the headers in front of their addresses are gone. -/
theorem detects_iff_aligned : ∃ w, ((system defaultConfig 0).restrict NoWrap).Reachable w ∧
    OnOwnList w.st 0 134488176 ∧ w.former 134488176 = some 134488256 ∧ w.st.mem.word 134488176 ≠ 0 ∧
    Detects defaultConfig w 0 := by
  obtain ⟨w, hreach, hon, hformer, hnext, hscrubbed⟩ := exists_aligned
  exact ⟨w, hreach, hon, hformer, hnext, (detects_iff hreach 0).mpr fun b u _ hu => .inl (hscrubbed b u hu)⟩

private theorem exists_pair : ∃ w st, ((system defaultConfig 0).restrict NoWrap).Reachable w ∧
    OnOwnList w.st 0 134488288 ∧ w.former 134488288 = some 134488304 ∧ 134488080 ∈ w.live ∧
    doFree (.above defaultConfig) 0 134488304 w.st = .ok st ∧ w.st.mem.word 134488216 = 0 ∧
    st.mem.word 134488216 = scrubbed := by
  have hfirst := memalign_reachable libAlign 200 first_reachable (by simp [World.first]) (by decide) (by decide)
    (by decide) (by decide +kernel)
  have hsecond := memalign_reachable libAlign 8 hfirst (by simp [World.first, World.memalign]) (by decide) (by decide)
    (by decide) (by decide +kernel)
  have hthird := memalign_reachable libAlign 8 hsecond (by simp [World.first, World.memalign]) (by decide) (by decide)
    (by decide) (by decide +kernel)
  have hfreed := free_reachable (u := 134488336) hthird (by simp [World.first, World.memalign]) (by decide +kernel)
    (by decide +kernel)
  have hboth := free_reachable (u := 134488304) hfreed (by simp [World.first, World.memalign, World.free])
    (by decide +kernel) (by decide +kernel)
  refine ⟨_, _, hboth, ⟨by decide +kernel, 0, by decide, [134488288, 134488320], ?_, by simp⟩, by decide +kernel,
    by decide +kernel, eq_ok (by decide +kernel) State.unbooted, by decide +kernel, by decide +kernel⟩
  exact ⟨by decide +kernel, by decide, by decide +kernel, by decide, Chain.nil_iff.mpr (by decide +kernel)⟩

private theorem exists_wrapped : ∃ w, (system defaultConfig 0).Reachable w ∧ 134488128 ∈ w.live ∧
    headers 0 "free" 134488128 w.st = .error (.corruptedHeader "free" 134488128) := by
  have hfirst := memalign_reachable libAlign 8 first_reachable (by simp [World.first]) (by decide) (by decide)
    (by decide) (by decide +kernel)
  have hstep : (system defaultConfig 0).step (World.first.memalign libAlign 8)
      (.memalign (.above defaultConfig) 0 64 (2 ^ 64 - 64))
      ((World.first.memalign libAlign 8).memalign 64 (2 ^ 64 - 64)) :=
    memalign_step (by simp [World.first, World.memalign]) (by decide) (by decide) (by decide +kernel)
  exact ⟨_, .next hfirst.of_restrict hstep, by decide +kernel, by decide +kernel⟩

/-- Of two free blocks, the first one is freed again: the check takes the second one for a bucket of another heap, and the contents of the allocation in front are overwritten. The address of an aligned request that has wrapped around cannot be freed. -/
theorem duplicate_free_missed : (∃ w st, ((system defaultConfig 0).restrict NoWrap).Reachable w ∧
      OnOwnList w.st 0 134488288 ∧ w.former 134488288 = some 134488304 ∧ 134488080 ∈ w.live ∧
      doFree (.above defaultConfig) 0 134488304 w.st = .ok st ∧ w.st.mem.word 134488216 = 0 ∧
      st.mem.word 134488216 = scrubbed ∧ ¬ Detects defaultConfig w 0) ∧
    ∃ w, (system defaultConfig 0).Reachable w ∧ 134488128 ∈ w.live ∧
      headers 0 "free" 134488128 w.st = .error (.corruptedHeader "free" 134488128) ∧ ¬ Detects defaultConfig w 0 := by
  obtain ⟨w, st, hreach, hon, hformer, hlive, hfree, hbefore, hafter⟩ := exists_pair
  obtain ⟨w', hreach', hlive', habort⟩ := exists_wrapped
  refine ⟨⟨w, st, hreach, hon, hformer, hlive, hfree, hbefore, hafter, fun hdetects => ?_⟩,
    w', hreach', hlive', habort, fun hdetects => hdetects.sound _ hlive' "free" _ habort trivial⟩
  obtain ⟨abort, hno, _⟩ := hdetects.duplicate _ _ hon hformer (.above defaultConfig)
  cases hfree.symm.trans hno

end Llheap.Debug
