import Llheap.Proof.FailedRequests
import Llheap.Proof.RemoteQuery

/-!
# Resizing

`resize` and `aligned_resize` keep neither the contents nor the properties of a block. They use it again if it serves the request, and otherwise free it before they ask for another one.
-/

namespace Llheap

open Reuse (World Behind Placed)

/-- The two routines, with their arguments besides the old address. -/
inductive Resizing
  | resize (size : ℕ)
  | alignedResize (nalignment size : ℕ)

namespace Resizing

def size : Resizing → ℕ
  | .resize size | .alignedResize _ size => size

def alignment : Resizing → ℕ
  | .resize _ => libAlign
  | .alignedResize nalignment _ => max nalignment libAlign

/-- Sizes are of type `size_t` and not zero, and alignments are powers of two. -/
def Valid : Resizing → Prop
  | .resize size => 0 < size ∧ size < 2 ^ 64
  | .alignedResize nalignment size => 0 < size ∧ size < 2 ^ 64 ∧ nalignment.isPowerOfTwo ∧ nalignment < 2 ^ 64

/-- What a fresh allocation takes behind the header. -/
def request (c : Resizing) : ℕ := memalignRequest c.alignment c.size

variable {cfg : Config}

def run (k : Kernel cfg) (t : Tid) (oaddr : ℕ) : Resizing → State → Result (Option ℕ × State)
  | .resize size => Llheap.resize k t (some oaddr) size
  | .alignedResize nalignment size => Llheap.alignedResize k t (some oaddr) nalignment size

/-- `aligned_resize` edits a fake header before it is known whether the block is used again. -/
def edited (oaddr : ℕ) (s : State) : Resizing → State
  | .resize _ => s
  | .alignedResize nalignment _ =>
    let word := s.mem.word (headerAddr oaddr)
    if alignmentBit word ≠ 0 ∧ luckyMatch oaddr (clearAlignmentBit word) (max nalignment libAlign) then
      updateAlignment oaddr (max nalignment libAlign) s
    else s

end Resizing

/-- `doMalloc` finds no block. -/
def Refuses {cfg : Config} (k : Kernel cfg) (t : Tid) (size : ℕ) (s : State) : Prop :=
  ∀ u s', doMalloc k t size s ≠ .ok (some u, s')

/-- A block that `doMalloc` grants holds what it was asked for. -/
def Holds {cfg : Config} (k : Kernel cfg) (t : Tid) (size : ℕ) (s : State) : Prop :=
  ∀ u s', doMalloc k t size s = .ok (some u, s') → size ≤ dataSpace s' u

/-- The headers of an address and the bytes of its block are the same. -/
structure Unchanged (s s' : State) (u : ℕ) : Prop where
  headers : headers s' u = headers s u
  bytes : Set.EqOn s'.mem s.mem (Set.Ico (Llheap.headers s u).header
    ((Llheap.headers s u).header + (Llheap.headers s u).size))

/-- What an address has after a resizing. -/
structure Renewed (s : State) (alignment size u : ℕ) : Prop where
  requestSize : mallocRequestSize s (some u) = size
  room : u + size ≤ (headers s u).header + (headers s u).size
  zeroFill : mallocZeroFill s (some u) = false
  recorded : mallocAlignment s (some u) = alignment
  aligned : alignment ∣ u

/-- What a resizing of `oaddr` comes to, if its result is `x`. -/
structure Resized (cfg : Config) (main : Tid) (k : Kernel cfg) (t : Tid) (c : Resizing) (oaddr : ℕ) (w : World)
    (x : Result (Option ℕ × State)) : Prop where
  /-- the block is used again, or freed once before a fresh allocation -/
  way : (∃ s', x = .ok (some oaddr, s') ∧ s' = { w.st with mem := s'.mem } ∧
      c.size ≤ dataSpace w.st oaddr ∧ dataSpace w.st oaddr ≤ 2 * c.size) ∨
    ∃ s₁, doFree t oaddr (c.edited oaddr w.st) = .ok s₁ ∧ Freed w.st s₁ oaddr ∧
      x = memalignNoStats k t c.alignment c.size s₁
  result : ∀ u s', x = .ok (some u, s') → Renewed s' c.alignment c.size u
  live : ∀ r s', x = .ok (r, s') → ∃ w', (Reuse.system cfg main).Reachable w' ∧ w'.st = s' ∧
    w'.status = w.status ∧ w'.live = w.live.erase oaddr ∪ r.toFinset
  others : ∀ r s', x = .ok (r, s') → ∀ u ∈ w.live, u ≠ oaddr → Unchanged w.st s' u
  /-- a block that was not a mapping of its own is on top of a list of its bucket -/
  refused : ∀ s', x = .ok (none, s') → ¬ (headers w.st oaddr).mapped → Freed w.st s' oaddr
  lists : ∀ s', x = .ok (none, s') → ∀ h f n, IsBucket w.st.heapMaster h f n → ∀ l blocks,
    Separation.IsList w.st f l blocks → Separation.IsList s' f l blocks ∨
      Separation.IsList s' f l ((headers w.st oaddr).header :: blocks)

variable {cfg : Config} {main : Tid} {k : Kernel cfg} {t : Tid} {s s' s₁ : State} {w w' : World} {c : Resizing}
  {status counted counted' : Tid → Status} {A A' : Arena Tag} {idle idle' : List ℕ} {L : ℕ → Option Live}
  {b n u oaddr size alignment : ℕ} {v v' : View} {l : Live} {r : Option ℕ}

theorem Holds.of_run (hok : doMalloc k t size s = .ok (some u, s')) (hroom : size ≤ dataSpace s' u) :
    Holds k t size s := by
  intro u' s'' h
  cases hok.symm.trans h
  exact hroom

/-! ### The two routines -/

theorem Resizing.Valid.pos (h : c.Valid) : 0 < c.size := by
  cases c <;> exact h.1

theorem Resizing.Valid.size_lt (h : c.Valid) : c.size < 2 ^ 64 := by
  cases c with
  | resize size => exact h.2
  | alignedResize nalignment size => exact h.2.1

theorem Resizing.Valid.alignment_ok (h : c.Valid) :
    c.alignment.isPowerOfTwo ∧ libAlign ≤ c.alignment ∧ c.alignment < 2 ^ 64 := by
  cases c with
  | resize size => exact ⟨⟨4, rfl⟩, le_rfl, (by decide : libAlign < 2 ^ 64)⟩
  | alignedResize nalignment size =>
    obtain ⟨_, _, hpow, hlt⟩ := h
    refine ⟨?_, le_max_right .., max_lt hlt (by decide)⟩
    rcases max_choice nalignment libAlign with hmax | hmax
    · rw [Resizing.alignment, hmax]
      exact hpow
    · rw [Resizing.alignment, hmax]
      exact ⟨4, rfl⟩

theorem updateAlignment_idem : updateAlignment oaddr alignment (updateAlignment oaddr alignment s) =
    updateAlignment oaddr alignment s := by
  unfold updateAlignment
  dsimp only
  rw [Memory.setWord_setWord]

theorem Resizing.edited_cases (c : Resizing) (oaddr : ℕ) (s : State) : c.edited oaddr s = s ∨
    alignmentBit (s.mem.word (headerAddr oaddr)) ≠ 0 ∧ c.alignment ∣ oaddr ∧
      c.edited oaddr s = updateAlignment oaddr c.alignment s := by
  cases c with
  | resize size => exact .inl rfl
  | alignedResize nalignment size =>
    rw [edited]
    split
    · next hlucky => exact .inr ⟨hlucky.1, Nat.dvd_of_mod_eq_zero hlucky.2.1, rfl⟩
    · exact .inl rfl

theorem Resizing.edited_of_plain (h : alignmentBit (s.mem.word (headerAddr oaddr)) = 0) :
    c.edited oaddr s = s := by
  rcases edited_cases c oaddr s with heq | ⟨hbit, _⟩
  · exact heq
  · exact absurd h hbit

/-- The state that the block is freed in, or used in again: it is edited if it has a fake header, and otherwise has the least alignment. -/
theorem Resizing.run_cases (k : Kernel cfg) (t : Tid) (oaddr : ℕ) (s : State) (hpos : 0 < c.size) :
    (reusable c.size (dataSpace (c.edited oaddr s) oaddr) ∧
      ((headers s oaddr).alignment = libAlign ∧ c.alignment = libAlign ∧ c.edited oaddr s = s ∨
        alignmentBit (s.mem.word (headerAddr oaddr)) ≠ 0 ∧ c.alignment ∣ oaddr ∧
          c.edited oaddr s = updateAlignment oaddr c.alignment s) ∧
      c.run k t oaddr s = .ok (some oaddr,
        resizeInPlace (headers (c.edited oaddr s) oaddr).header c.size (c.edited oaddr s))) ∨
    c.run k t oaddr s = doFree t oaddr (c.edited oaddr s) >>= fun s₁ =>
      memalignNoStats k t c.alignment c.size s₁ := by
  have hresize : ∀ size, 0 < size →
      (reusable size (dataSpace s oaddr) ∧ (headers s oaddr).alignment = libAlign ∧
        Llheap.resize k t (some oaddr) size s =
          .ok (some oaddr, resizeInPlace (headers s oaddr).header size s)) ∨
      Llheap.resize k t (some oaddr) size s = doFree t oaddr s >>= fun s₁ =>
        memalignNoStats k t libAlign size s₁ := by
    intro size hsize
    rw [Llheap.resize]
    dsimp only
    rw [if_neg hsize.ne']
    split
    · next hreuse => exact .inl ⟨hreuse.2, hreuse.1, rfl⟩
    · have hplain : ∀ s₁, memalignNoStats k t libAlign size s₁ = doMalloc k t size s₁ := fun s₁ =>
        if_pos (.inl le_rfl)
      exact .inr (by simp only [hplain])
  cases c with
  | resize size =>
    rcases hresize size hpos with ⟨hreuse, halign, hrun⟩ | hrun
    · exact .inl ⟨hreuse, .inl ⟨halign, rfl, rfl⟩, hrun⟩
    · exact .inr hrun
  | alignedResize nalignment size =>
    have hne : size ≠ 0 := hpos.ne'
    unfold run edited
    dsimp only
    rw [Llheap.alignedResize]
    dsimp only
    rw [if_neg hne]
    by_cases hbit : alignmentBit (s.mem.word (headerAddr oaddr)) ≠ 0
    · rw [if_pos hbit]
      by_cases hlucky : luckyMatch oaddr (clearAlignmentBit (s.mem.word (headerAddr oaddr))) (max nalignment libAlign)
      · rw [if_pos hlucky, if_pos ⟨hbit, hlucky⟩]
        split
        · next hreuse =>
          refine .inl ⟨hreuse, .inr ⟨hbit, Nat.dvd_of_mod_eq_zero hlucky.1, rfl⟩, ?_⟩
          rw [updateAlignment_idem]
          rfl
        · exact .inr rfl
      · rw [if_neg hlucky, if_neg fun h => hlucky h.2]
        exact .inr rfl
    · rw [if_neg hbit, if_neg fun h => hbit h.1]
      split
      · next hplain =>
        rw [Resizing.size, Resizing.alignment, hplain]
        rcases hresize size hpos with ⟨hreuse, halign, hrun⟩ | hrun
        · exact .inl ⟨hreuse, .inl ⟨halign, rfl, rfl⟩, hrun⟩
        · exact .inr hrun
      · exact .inr rfl

/-! ### Other allocations -/

theorem Unchanged.trans {s'' : State} (h : Unchanged s s' u) (h' : Unchanged s' s'' u) : Unchanged s s'' u := by
  refine ⟨h'.headers.trans h.headers, fun x hx => ?_⟩
  exact (h'.bytes (by rwa [h.headers])).trans (h.bytes hx)

theorem Tenant.unchanged (ht : Tenant s A b n u v) (hr : Refines cfg main s counted A idle)
    (ht' : Tenant s' A' b n u v) (hr' : Refines cfg main s' counted' A' idle')
    (hbytes : Set.EqOn s'.mem s.mem (Set.Ico b (b + n))) : Unchanged s s' u := by
  have hsize := (ht'.size_eq hr').trans (ht.size_eq hr).symm
  refine ⟨?_, by rwa [ht.header, ht.size_eq hr]⟩
  rw [ht.encodes.headers ht.taggable, ht'.encodes.headers ht'.taggable] at hsize ⊢
  dsimp only at hsize
  rw [hsize]

theorem Reuse.Behind.unchanged (h : Behind cfg main w A idle counted L)
    (hr' : Refines cfg main s' counted' A' idle') (hothers : OthersUndisturbed b w.st s' A A')
    (hlist : ∀ h ∈ w.st.heapMaster.heapManagersList, h ∈ s'.heapMaster.heapManagersList)
    (hn : L n = some l) (hne : n ≠ b) : Unchanged w.st s' l.user := by
  have ht := h.tenants n l hn
  exact ht.unchanged h.refines (ht.others hothers hne hlist) hr' (hothers n _ .held hne ht.held).2

theorem Reuse.Behind.neighbours (h : Behind cfg main w A idle counted L)
    (hr' : Refines cfg main s' counted' A' idle') (hothers : OthersUndisturbed b w.st s' A A')
    (hlist : ∀ h ∈ w.st.heapMaster.heapManagersList, h ∈ s'.heapMaster.heapManagersList)
    (hb : L b = some l) : ∀ u ∈ w.live, u ≠ l.user → Unchanged w.st s' u := by
  intro u hu hne
  obtain ⟨n, l', hn, rfl⟩ : u ∈ users L := h.live ▸ hu
  refine h.unchanged hr' hothers hlist hn ?_
  rintro rfl
  cases hb.symm.trans hn
  exact hne rfl

theorem edit_next (hw : (Reuse.system cfg main).Reachable w) (hu : u ∈ w.live) {e : Edit} (he : e.Valid u w.st) :
    (Reuse.system cfg main).Reachable (w.next (e.run u w.st) w.status w.live w.carved) ∧
      ∀ x ∈ w.live, x ≠ u → Unchanged w.st (e.run u w.st) x := by
  have hstep : (Reuse.system cfg main).step w (.edit u e) _ := ⟨hu, he, rfl⟩
  obtain ⟨A, idle, counted, L, h⟩ := Reuse.reachable_inv hw
  obtain ⟨b, l, hb, rfl⟩ : u ∈ users L := h.live ▸ hu
  obtain ⟨hr', _, hothers⟩ := (h.tenants b l hb).edit h.refines he
  exact ⟨.next hw hstep, h.neighbours hr' hothers (by rw [Edit.sameControl.heapMaster]; exact fun _ hh => hh) hb⟩

theorem edited_next (hw : (Reuse.system cfg main).Reachable w) (hu : oaddr ∈ w.live) (hc : c.Valid) :
    ∃ w', (Reuse.system cfg main).Reachable w' ∧ w'.st = c.edited oaddr w.st ∧ w'.status = w.status ∧
      w'.live = w.live ∧ ∀ u ∈ w.live, u ≠ oaddr → Unchanged w.st w'.st u := by
  rcases Resizing.edited_cases c oaddr w.st with heq | ⟨hbit, _, heq⟩
  · exact ⟨w, hw, heq.symm, rfl, rfl, fun u _ _ => ⟨rfl, Set.eqOn_refl _ _⟩⟩
  · have hvalid : (Edit.updateAlignment c.alignment).Valid oaddr w.st := ⟨hbit, hc.alignment_ok⟩
    obtain ⟨hreach, hothers⟩ := edit_next hw hu hvalid
    exact ⟨_, hreach, heq.symm, rfl, rfl, hothers⟩

/-! ### Freeing the old block -/

theorem Tenant.doFree_ok (ht : Tenant s A b n u v) (hr : Refines cfg main s counted A idle)
    (hpages : v.origin = .mapped → cfg.pageSize ∣ b) (t : Tid) :
    ∃ s', Llheap.doFree t u s = .ok s' ∧ Freed s s' u := by
  have hsize := ht.size_eq hr
  unfold Freed Llheap.doFree
  rw [ht.encodes.headers ht.taggable] at hsize ⊢
  dsimp only at hsize ⊢
  rw [hsize]
  cases horigin : v.origin with
  | bucket f =>
    refine ⟨_, rfl, ?_⟩
    refine ⟨if s.heapManager t = (s.freeHeader f).homeManager then .freeList else .remoteList, ?_⟩
    simp only [State.push, Origin.freeHead, Function.update_self]
    exact FreeHeader.top_setTop_self ..
  | mapped =>
    have hpos := A.pos _ _ ht.held
    have hok : s.heapMaster.pageSize ∣ b ∧ n ≠ 0 := ⟨hr.blocks.page ▸ hpages horigin, hpos.ne'⟩
    exact ⟨s.munmap b n, if_pos hok, not_covered_munmap hpos ⟨le_rfl, le_rfl⟩⟩

theorem Refines.push_isList {m h' f f' : ℕ} {l l' : ListField} {blocks : List ℕ}
    (hr : Refines cfg main s counted A idle) (hb : A.at? b = some ⟨n, .held⟩) (hn : 8 ≤ n)
    (hf : IsBucket s.heapMaster h' f m) (hlist : Separation.IsList s f l blocks) :
    Separation.IsList (s.push l' f' b) f l blocks ∨ Separation.IsList (s.push l' f' b) f l (b :: blocks) := by
  have hfree := hr.isList_free hf hlist
  have hlen := hf.le_len
  have hlink : ∀ c ∈ blocks, (s.push l' f' b).mem.word c = s.mem.word c := by
    intro c hc
    have := A.separate c _ b _ (hfree c hc) hb (by rintro rfl; cases hb.symm.trans (hfree _ hc))
    exact Memory.word_setWord_of_disjoint (by dsimp only at this; omega)
  have hb0 : b ≠ 0 := (hr.heaps.laid.pos b _ hb).ne'
  unfold Separation.IsList
  by_cases hff : f = f'
  · subst f'
    have hself : (s.push l' f b).freeHeader f = (s.freeHeader f).setTop l' b := Function.update_self ..
    rw [hself]
    by_cases hll : l = l'
    · subst l'
      have hlt : (s.freeHeader f).top l < 2 ^ 64 := by
        rcases Nat.eq_zero_or_pos ((s.freeHeader f).top l) with hzero | hpos
        · rw [hzero]
          decide
        · obtain ⟨rest, rfl, _⟩ := hlist.exists_cons hpos.ne'
          have := hr.blocks.end_le hr.heaps.laid (hfree _ List.mem_cons_self)
          dsimp only at this
          omega
      rw [FreeHeader.top_setTop_self]
      exact .inr (hlist.push hb0 (Memory.word_setWord_self hlt) hlink)
    · rw [FreeHeader.top_setTop_of_ne _ _ hll]
      exact .inl (hlist.congr hlink)
  · have hother : (s.push l' f' b).freeHeader f = s.freeHeader f := Function.update_of_ne hff ..
    rw [hother]
    exact .inl (hlist.congr hlink)

theorem doFree_next (hw : (Reuse.system cfg main).Reachable w) (hu : u ∈ w.live) (t : Tid) :
    ∃ s₁, doFree t u w.st = .ok s₁ ∧ Freed w.st s₁ u ∧ SameControl w.st s₁ ∧
      (Reuse.system cfg main).Reachable (w.next s₁ w.status (w.live.erase u) w.carved) ∧
      (∀ x ∈ w.live, x ≠ u → Unchanged w.st s₁ x) ∧
      ∀ h f n, IsBucket w.st.heapMaster h f n → ∀ l blocks, Separation.IsList w.st f l blocks →
        Separation.IsList s₁ f l blocks ∨ Separation.IsList s₁ f l ((headers w.st u).header :: blocks) := by
  obtain ⟨A, idle, counted, L, h⟩ := Reuse.reachable_inv hw
  obtain ⟨b, l, hb, rfl⟩ : u ∈ users L := h.live ▸ hu
  have ht := h.tenants b l hb
  obtain ⟨s₁, hok, hfreed⟩ := ht.doFree_ok h.refines (h.placed b l hb).pages t
  obtain ⟨A', hr', hsame, hothers, _⟩ := ht.doFree h.refines hok
  have hstep : (Reuse.system cfg main).step w (.doFree t l.user) _ := ⟨hu, s₁, hok, rfl⟩
  refine ⟨s₁, hok, hfreed, hsame, .next hw hstep,
    h.neighbours hr' hothers (by rw [hsame.heapMaster]; exact fun _ hh => hh) hb, fun h' f n hf list blocks hlist => ?_⟩
  rw [ht.header]
  by_cases hmapped : (headers w.st l.user).mapped
  · rw [Llheap.doFree] at hok
    dsimp only at hok
    rw [if_neg (not_not.mpr hmapped), unmapBlock_granting] at hok
    split at hok
    · cases hok
      exact .inl hlist
    · cases hok
  · obtain ⟨list', _, hpush⟩ := doFree_push (t := t) hmapped
    cases hok.symm.trans hpush
    have hafter := ht.encodes.user_after.1
    have hinside := ht.inside
    rw [ht.header]
    exact h.refines.push_isList ht.held (by omega) hf hlist

/-! ### The fresh allocation -/

theorem Tenant.renewed {origin : Origin} {al : Option ℕ} (ht : Tenant s A b n u ⟨origin, false, size, al⟩)
    (hr : Refines cfg main s counted A idle) (hroom : u + size ≤ b + n) (hrecord : al.getD libAlign = alignment)
    (hdvd : alignment ∣ u) : Renewed s alignment size u where
  requestSize := ht.encodes.mallocRequestSize ht.taggable
  room := by rwa [ht.header, ht.size_eq hr]
  zeroFill := ht.encodes.mallocZeroFill ht.taggable
  recorded := (ht.encodes.mallocAlignment ht.taggable).trans hrecord
  aligned := hdvd

/-- The lists of all buckets, and what is on top of them. -/
def SameLists (s s' : State) : Prop := ∀ h f n, IsBucket s.heapMaster h f n →
  s'.freeHeader f = s.freeHeader f ∧ ∀ l blocks, Separation.IsList s' f l blocks ↔ Separation.IsList s f l blocks

/-- A request has returned `r`. -/
structure Requested (cfg : Config) (main : Tid) (w : World) (r : Option ℕ) (s' : State) : Prop where
  next : ∃ w', (Reuse.system cfg main).Reachable w' ∧ w'.st = s' ∧ w'.status = w.status ∧
    w'.live = w.live ∪ r.toFinset
  others : ∀ x ∈ w.live, Unchanged w.st s' x
  lists : r = none → SameLists w.st s'

theorem malloc_next (hw : (Reuse.system cfg main).Reachable w) (hrun : w.status t ≠ .terminated)
    (hstarted : w.st.heapMasterBootFlag = 2 ∨ t = main) (hsize : size < 2 ^ 64)
    (hok : doMalloc k t size w.st = .ok (r, s')) : Requested cfg main w r s' ∧
      ∀ u ∈ r, u ∉ w.live ∧ ∃ counted A idle b n origin, Refines cfg main s' counted A idle ∧
        Tenant s' A b n u ⟨origin, false, size, none⟩ := by
  have hstep : (Reuse.system cfg main).step w (.doMalloc k t size) _ := ⟨hrun, hstarted, hsize, r, s', hok, rfl⟩
  obtain ⟨A, idle, counted, L, h⟩ := Reuse.reachable_inv hw
  obtain ⟨counted', A', idle', h, hserved, hnone, hsome⟩ := h.served hrun hstarted hsize hok
  refine ⟨⟨⟨_, .next hw hstep, rfl, rfl, rfl⟩, ?_, ?_⟩, ?_⟩
  · intro x hx
    obtain ⟨c, l, hc, rfl⟩ : x ∈ users L := h.live ▸ hx
    cases r with
    | none => exact h.unchanged hserved.refines (hnone rfl (c + 1)) hserved.list hc (Nat.succ_ne_self c).symm
    | some u =>
      obtain ⟨b, n, origin, _, hothers, hobtains, _⟩ := hsome u rfl
      refine h.unchanged hserved.refines hothers hserved.list hc ?_
      rintro rfl
      cases hc.symm.trans (h.fresh hobtains)
  · rintro rfl h' f n hf
    have hfree := h.refines.doMalloc_none_keeps hok hf
    exact ⟨hfree, h.refines.isList_iff hf hfree fun c m hc =>
      (hnone rfl (c + 1) c _ .free (Nat.succ_ne_self c).symm hc).2⟩
  · intro u hu
    obtain ⟨b, n, origin, htenant, hothers, hobtains, _⟩ := hsome u hu
    refine ⟨fun hlive => ?_, counted', A', idle', b, n, origin, hserved.refines, htenant⟩
    obtain ⟨c, l, hc, rfl⟩ : u ∈ users L := h.live ▸ hlive
    have hcb : c ≠ b := by
      rintro rfl
      cases hc.symm.trans (h.fresh hobtains)
    have hold := (h.tenants c l hc).others hothers hcb hserved.list
    exact hcb (hold.header.symm.trans htenant.header)

theorem align_next (hw : (Reuse.system cfg main).Reachable w) (hu : u ∈ w.live)
    (hbit : alignmentBit (w.st.mem.word (headerAddr u)) = 0) (hpow : alignment.isPowerOfTwo)
    (hle : libAlign ≤ alignment) (hlt : alignment < 2 ^ 64) (hsize : size < 2 ^ 64)
    (huser : u + sizeofStorage ≤ ceiling (u + sizeofStorage) alignment)
    (hin : ceiling (u + sizeofStorage) alignment ≤ u + dataSpace w.st u) :
    ∃ w', (Reuse.system cfg main).Reachable w' ∧
      w'.st = setFakeHeader u (ceiling (u + sizeofStorage) alignment) alignment size w.st ∧
      w'.status = w.status ∧ w'.live = insert (ceiling (u + sizeofStorage) alignment) (w.live.erase u) ∧
      ∀ x ∈ w.live, x ≠ u → Unchanged w.st w'.st x := by
  have hstep : (Reuse.system cfg main).step w (.align u alignment size) _ :=
    ⟨hu, hbit, hpow, hle, hlt, hsize, huser, hin, rfl⟩
  obtain ⟨A, idle, counted, L, h⟩ := Reuse.reachable_inv hw
  obtain ⟨b, l, hb, rfl⟩ : u ∈ users L := h.live ▸ hu
  have ht := h.tenants b l hb
  obtain ⟨hspace, _⟩ := ht.space h.refines
  have hinside := ht.inside
  have hplain := (ht.encodes.fakeWord ht.taggable).1.mp hbit
  obtain ⟨hr', _, hothers⟩ := ht.align h.refines hplain hpow hle hlt hsize huser (by omega)
  exact ⟨_, .next hw hstep, rfl, rfl, rfl, h.neighbours hr' hothers (fun _ hh => hh) hb⟩

theorem Tenant.align_room {origin : Origin} (ht : Tenant s A b n u ⟨origin, false, size + alignment, none⟩)
    (hr : Refines cfg main s counted A idle) (hpow : alignment.isPowerOfTwo) (hle : libAlign ≤ alignment)
    (hroom : size + alignment ≤ dataSpace s u) :
    u + sizeofStorage ≤ ceiling (u + sizeofStorage) alignment ∧
      ceiling (u + sizeofStorage) alignment + size ≤ b + n ∧ alignment ∣ ceiling (u + sizeofStorage) alignment := by
  obtain ⟨hspace, _, hend⟩ := ht.space hr
  have hinside := ht.inside
  rw [sizeofStorage]
  obtain ⟨hlow, hhigh⟩ := ceiling_bounds (v := u + 16) hpow (by omega)
  have hdvd : alignment ∣ ceiling (u + 16) alignment := ceiling_dvd (by omega) hpow (by omega)
  have halign16 := align_dvd_of_le hpow hle
  have huser16 := ht.plain_dvd hr rfl
  have hceil16 := halign16.trans hdvd
  exact ⟨hlow, by omega, hdvd⟩

theorem memalign_next (hw : (Reuse.system cfg main).Reachable w) (hrun : w.status t ≠ .terminated)
    (hstarted : w.st.heapMasterBootFlag = 2 ∨ t = main) (hpos : 0 < size) (hsize : size < 2 ^ 64)
    (hpow : alignment.isPowerOfTwo) (hle : libAlign ≤ alignment) (hlt : alignment < 2 ^ 64)
    (hholds : Holds k t (memalignRequest alignment size % 2 ^ 64) w.st)
    (hok : memalignNoStats k t alignment size w.st = .ok (r, s'))
    (hfits : memalignRequest alignment size < 2 ^ 64 ∨ r = none) :
    Requested cfg main w r s' ∧ ∀ u ∈ r, Renewed s' alignment size u := by
  rw [memalignRequest_mod hsize] at hholds
  rcases memalignNoStats_cases hok with ⟨hplain, hm⟩ | ⟨hbig, hne, ⟨rfl, hm⟩ | ⟨addr, s₁, hm, rfl, rfl⟩⟩
  · have halign : alignment = libAlign := le_antisymm (hplain.resolve_right hpos.ne') hle
    rw [if_pos hplain] at hholds
    obtain ⟨hrequested, hsome⟩ := malloc_next hw hrun hstarted hsize hm
    refine ⟨hrequested, fun u hu => ?_⟩
    obtain ⟨_, counted, A, idle, b, n, origin, hr, ht⟩ := hsome u hu
    obtain rfl : r = some u := hu
    have hroom := hholds u s' hm
    obtain ⟨hspace, _⟩ := ht.space hr
    have hinside := ht.inside
    refine ht.renewed hr (by omega) halign.symm ?_
    rw [halign]
    exact ht.plain_dvd hr rfl
  · exact ⟨(malloc_next hw hrun hstarted (Nat.mod_lt _ (by decide)) hm).1, by simp⟩
  · have hplain : ¬ (alignment ≤ libAlign ∨ size = 0) := not_or.mpr ⟨not_le.mpr hbig, hne⟩
    have hword := alignedSize_eq hbig hne (hfits.resolve_right (by simp))
    rw [if_neg hplain] at hholds
    rw [hword] at hm hholds
    have hroom := hholds addr s₁ hm
    obtain ⟨⟨⟨w₁, hreach₁, rfl, hstatus₁, hlive₁⟩, hothers₁, _⟩, hsome⟩ :=
      malloc_next hw hrun hstarted (by rw [← hword]; exact Nat.mod_lt _ (by decide)) hm
    obtain ⟨hnew, counted, A, idle, b, n, origin, hr, ht⟩ := hsome addr rfl
    obtain ⟨huser, hin, hdvd⟩ := ht.align_room hr hpow hle hroom
    obtain ⟨hspace, _⟩ := ht.space hr
    have hinside := ht.inside
    have haddr : addr ∈ w₁.live := by simp [hlive₁]
    obtain ⟨w', hreach, hst, hstatus, hlive, hothers⟩ := align_next hreach₁ haddr
      ((ht.encodes.fakeWord ht.taggable).1.mpr rfl) hpow hle hlt hsize huser (by omega)
    refine ⟨⟨⟨w', hreach, hst, hstatus.trans hstatus₁, ?_⟩, fun x hx => ?_, by simp⟩, fun u hu => ?_⟩
    · rw [hlive, hlive₁]
      exact Reuse.live_replaced hnew _
    · have hne : x ≠ addr := by
        rintro rfl
        exact hnew hx
      rw [← hst]
      exact (hothers₁ x hx).trans (hothers x (by simp [hlive₁, hx]) hne)
    · cases hu
      obtain ⟨hr', ht', _⟩ := ht.align hr rfl hpow hle hlt hsize huser (by omega)
      exact ht'.renewed hr' hin rfl hdvd

theorem refuses_iff (hsize : size < 2 ^ 64) : Refuses k t (memalignRequest alignment size % 2 ^ 64) s ↔
    ∀ u s', memalignNoStats k t alignment size s ≠ .ok (some u, s') := by
  have hsome : (¬ ∃ u s', memalignNoStats k t alignment size s = .ok (some u, s')) ↔
      ¬ ∃ u s', doMalloc k t (memalignRequest alignment size % 2 ^ 64) s = .ok (some u, s') :=
    not_congr (memalignNoStats_some_iff hsize)
  simpa [Refuses] using hsome.symm

/-! ### Using the block again -/

theorem Tenant.edited (ht : Tenant s A b n u v) (hr : Refines cfg main s counted A idle) (hc : c.Valid) :
    ∃ v', v'.origin = v.origin ∧ Refines cfg main (c.edited u s) counted A idle ∧
      Tenant (c.edited u s) A b n u v' ∧ OthersUndisturbed b s (c.edited u s) A A ∧
      SameControl s (c.edited u s) ∧ (c.edited u s).freeHeader = s.freeHeader := by
  rcases Resizing.edited_cases c u s with heq | ⟨hbit, _, heq⟩
  · rw [heq]
    exact ⟨v, rfl, hr, ht, fun _ _ _ _ hc => ⟨hc, Set.eqOn_refl _ _⟩, ⟨rfl, rfl, rfl, rfl⟩, rfl⟩
  · have hvalid : (Edit.updateAlignment c.alignment).Valid u s := ⟨hbit, hc.alignment_ok⟩
    obtain ⟨hr', ht', hothers⟩ := ht.edit hr hvalid
    rw [heq]
    exact ⟨_, Edit.view_origin, hr', ht', hothers, ⟨rfl, rfl, rfl, rfl⟩, rfl⟩

theorem Tenant.edited_alignment (ht : Tenant s A b n u v) (hr : Refines cfg main s counted A idle) (hc : c.Valid)
    (h16 : libAlign ∣ u) (h : (headers s u).alignment = libAlign ∧ c.alignment = libAlign ∧ c.edited u s = s ∨
      alignmentBit (s.mem.word (headerAddr u)) ≠ 0 ∧ c.alignment ∣ u ∧
        c.edited u s = updateAlignment u c.alignment s) :
    (headers (c.edited u s) u).alignment = c.alignment ∧ c.alignment ∣ u := by
  rcases h with ⟨hold, halign, heq⟩ | ⟨hbit, hdvd, heq⟩
  · rw [heq, halign]
    exact ⟨hold, h16⟩
  · have hvalid : (Edit.updateAlignment c.alignment).Valid u s := ⟨hbit, hc.alignment_ok⟩
    obtain ⟨_, ht', _⟩ := ht.edit hr hvalid
    refine ⟨?_, hdvd⟩
    rw [heq]
    exact congrArg Headers.alignment (ht'.encodes.headers ht'.taggable)

theorem Tenant.inPlace (ht : Tenant s A b n u v) (hr : Refines cfg main s counted A idle)
    (hsize : size ≤ dataSpace s u) (halign : (headers s u).alignment = alignment) (hdvd : alignment ∣ u) :
    Renewed (resizeInPlace (headers s u).header size s) alignment size u := by
  obtain ⟨hspace, _⟩ := ht.space hr
  have hinside := ht.inside
  obtain ⟨hr', ht', _⟩ := ht.edit hr (e := .resizeInPlace size) hsize
  refine ht'.renewed hr' (by omega) ?_ hdvd
  rw [← halign, ht.encodes.headers ht.taggable]

/-! ### The outcome -/

theorem reused_inPlace (hw : (Reuse.system cfg main).Reachable w) (hu : oaddr ∈ w.live) (hc : c.Valid)
    (hreuse : reusable c.size (dataSpace (c.edited oaddr w.st) oaddr))
    (hway : (headers w.st oaddr).alignment = libAlign ∧ c.alignment = libAlign ∧ c.edited oaddr w.st = w.st ∨
      alignmentBit (w.st.mem.word (headerAddr oaddr)) ≠ 0 ∧ c.alignment ∣ oaddr ∧
        c.edited oaddr w.st = updateAlignment oaddr c.alignment w.st) :
    Resized cfg main k t c oaddr w (.ok (some oaddr,
      resizeInPlace (headers (c.edited oaddr w.st) oaddr).header c.size (c.edited oaddr w.st))) := by
  obtain ⟨A, idle, counted, L, h⟩ := Reuse.reachable_inv hw
  obtain ⟨b, l, hb, rfl⟩ : oaddr ∈ users L := h.live ▸ hu
  have ht := h.tenants b l hb
  obtain ⟨v, horigin, hr₀, ht₀, _⟩ := ht.edited h.refines hc
  obtain ⟨halign, hdvd⟩ := ht.edited_alignment h.refines hc (h.placed b l hb).align_dvd hway
  obtain ⟨w₀, hreach₀, hst₀, hstatus₀, hlive₀, hothers₀⟩ := edited_next hw hu hc
  have hspace : dataSpace (c.edited l.user w.st) l.user = dataSpace w.st l.user :=
    (ht₀.space hr₀).1.trans (ht.space h.refines).1.symm
  have hvalid : (Edit.resizeInPlace c.size).Valid l.user w₀.st := by
    rw [hst₀]
    exact hreuse.1
  obtain ⟨hreach, hothers⟩ := edit_next hreach₀ (hlive₀ ▸ hu) hvalid
  rw [hst₀] at hothers hreach
  refine ⟨.inl ⟨_, rfl, ?_, hspace ▸ hreuse.1, ?_⟩, fun u s' h => ?_, fun r s' h => ?_, fun r s' h u hlive hne => ?_,
    nofun, nofun⟩
  · rcases hway with ⟨_, _, heq⟩ | ⟨_, _, heq⟩
    · rw [heq]
      rfl
    · rw [heq]
      rfl
  · rw [← hspace, Nat.mul_comm]
    exact hreuse.2.trans (Nat.mod_le _ _)
  · cases h
    exact ht₀.inPlace hr₀ hreuse.1 halign hdvd
  · cases h
    refine ⟨_, hreach, rfl, hstatus₀, ?_⟩
    rw [Reuse.World.next, hlive₀]
    ext u
    by_cases hne : u = l.user
    · simp [hne, hu]
    · simp [hne]
  · cases h
    have h₀ := hothers₀ u hlive hne
    rw [hst₀] at h₀
    exact h₀.trans (hothers u (hlive₀ ▸ hlive) hne)

theorem Tenant.freed_iff (ht : Tenant s A b n u v) (hr : Refines cfg main s counted A idle) :
    Freed s s' u ↔ Returned s' b ⟨n, u, v⟩ := by
  have hsize := ht.size_eq hr
  unfold Freed Returned
  rw [ht.encodes.headers ht.taggable] at hsize ⊢
  dsimp only at hsize ⊢
  rw [hsize]
  cases v.origin with
  | bucket f => rfl
  | mapped => rfl

theorem replaced (hw : (Reuse.system cfg main).Reachable w) (hrun : w.status t ≠ .terminated)
    (hstarted : w.st.heapMasterBootFlag = 2 ∨ t = main) (hu : oaddr ∈ w.live) (hc : c.Valid)
    (hfree : doFree t oaddr (c.edited oaddr w.st) = .ok s₁) (hholds : Holds k t (c.request % 2 ^ 64) s₁)
    (hfits : c.request < 2 ^ 64 ∨ Refuses k t (c.request % 2 ^ 64) s₁) :
    Resized cfg main k t c oaddr w (memalignNoStats k t c.alignment c.size s₁) := by
  obtain ⟨A, idle, counted, L, h⟩ := Reuse.reachable_inv hw
  obtain ⟨b, l, hb, rfl⟩ : oaddr ∈ users L := h.live ▸ hu
  have ht := h.tenants b l hb
  obtain ⟨v, horigin, hr₀, ht₀, hundisturbed, hsame₀, hfree₀⟩ := ht.edited h.refines hc
  obtain ⟨w₀, hreach₀, hst₀, hstatus₀, hlive₀, hothers₀⟩ := edited_next hw hu hc
  obtain ⟨s₁', hok, hfreed, hsame₁, hreach₁, hothers₁, hlists₁⟩ := doFree_next hreach₀ (hlive₀ ▸ hu) t
  rw [hst₀] at hok hfreed hsame₁ hothers₁ hlists₁ hothers₀
  cases hfree.symm.trans hok
  have hsame := hsame₀.trans hsame₁
  have hfreed' : Freed w.st s₁ l.user := by
    rw [ht₀.freed_iff hr₀] at hfreed
    rw [ht.freed_iff h.refines]
    unfold Returned at hfreed ⊢
    rwa [horigin] at hfreed
  have hnext : ∀ {r s'}, memalignNoStats k t c.alignment c.size s₁ = .ok (r, s') →
      Requested cfg main (w₀.next s₁ w₀.status (w₀.live.erase l.user) w₀.carved) r s' ∧
        ∀ u ∈ r, Renewed s' c.alignment c.size u := by
    intro r s' hmem
    obtain ⟨hpow, hle, hlt⟩ := hc.alignment_ok
    have hfits' : c.request < 2 ^ 64 ∨ r = none := hfits.imp_right fun hrefuses => by
      cases r with
      | none => rfl
      | some u => exact absurd hmem ((refuses_iff hc.size_lt).mp hrefuses u s')
    exact memalign_next hreach₁ (by rw [Reuse.World.next, hstatus₀]; exact hrun)
      (by rw [Reuse.World.next, hsame.bootFlag]; exact hstarted) hc.pos hc.size_lt hpow hle hlt hholds hmem hfits'
  refine ⟨.inr ⟨s₁, hfree, hfreed', rfl⟩, fun u s' hmem => ?_, fun r s' hmem => ?_, fun r s' hmem u hlive hne => ?_,
    fun s' hmem hmapped => ?_, fun s' hmem h' f n hf list blocks hlist => ?_⟩
  · exact (hnext hmem).2 u rfl
  · obtain ⟨w', hreach, hst, hstatus, hlive⟩ := (hnext hmem).1.next
    refine ⟨w', hreach, hst, hstatus.trans hstatus₀, ?_⟩
    rw [hlive, Reuse.World.next, hlive₀]
  · have hothers := (hnext hmem).1.others
    have hkept := (hothers₀ u hlive hne).trans (hothers₁ u (hlive₀ ▸ hlive) hne)
    exact hkept.trans (hothers u (Finset.mem_erase.mpr ⟨hne, hlive₀ ▸ hlive⟩))
  · have hlists := (hnext hmem).1.lists
    rw [ht.freed_iff h.refines] at hfreed' ⊢
    rw [ht.encodes.headers ht.taggable] at hmapped
    cases hbucket : l.view.origin with
    | mapped => exact absurd (by simp [hbucket]) hmapped
    | bucket f =>
      obtain ⟨h', hf⟩ := ht.bucket f hbucket
      unfold Returned at hfreed' ⊢
      rw [hbucket] at hfreed' ⊢
      dsimp only at hfreed' ⊢
      rw [(hlists rfl h' f _ (by rw [Reuse.World.next, hsame.heapMaster]; exact hf)).1]
      exact hfreed'
  · have hlists := (hnext hmem).1.lists
    have hf₁ : IsBucket s₁.heapMaster h' f n := by rwa [hsame.heapMaster]
    have hkept := (hlists rfl h' f n hf₁).2 list
    have hlist₀ := (h.refines.isList_iff hf (by rw [hfree₀]) (fun c m hc =>
      (hundisturbed c _ .free (by rintro rfl; cases ht.held.symm.trans hc) hc).2) list blocks).mpr hlist
    have hedge := hlists₁ h' f n (by rwa [hsame₀.heapMaster]) list blocks hlist₀
    rw [ht₀.header] at hedge
    rw [ht.header]
    exact hedge.imp (hkept _).mpr (hkept _).mpr

theorem live_bounds (hw : (Reuse.system cfg main).Reachable w) (hu : u ∈ w.live) :
    0 < u ∧ (headers w.st u).header + (headers w.st u).size ≤ 2 ^ 63 ∧ dataSpace w.st u < 2 ^ 63 := by
  obtain ⟨A, idle, counted, L, h⟩ := Reuse.reachable_inv hw
  obtain ⟨b, l, hb, rfl⟩ : u ∈ users L := h.live ▸ hu
  have ht := h.tenants b l hb
  obtain ⟨hspace, hafter, hend⟩ := ht.space h.refines
  rw [ht.header, ht.size_eq h.refines, hspace]
  omega

/-- Only such a size overflows with the way up to its alignment. -/
theorem Resizing.Valid.half_le_size (hc : c.Valid) (hover : 2 ^ 64 ≤ c.request) : 2 ^ 63 ≤ c.size := by
  obtain ⟨hpow, _, hlt⟩ := hc.alignment_ok
  have hsize := hc.size_lt
  have hhalf : c.alignment ≤ 2 ^ 63 := Rounding.le_half_of_isPowerOfTwo hpow hlt
  rw [request, memalignRequest] at hover
  split at hover
  · omega
  · next hplain =>
    have hbig : libAlign < c.alignment := not_le.mp fun hle => hplain (.inl hle)
    rw [libAlign, sizeofStorage] at *
    omega

/-- A resizing does what it should, exactly if the size fits a word together with the way up to the alignment, or what is left of it in a word is refused. -/
theorem resized_iff (hw : (Reuse.system cfg main).Reachable w) (hrun : w.status t ≠ .terminated)
    (hstarted : w.st.heapMasterBootFlag = 2 ∨ t = main) (hu : oaddr ∈ w.live) (hc : c.Valid)
    (hholds : ∀ s₁, doFree t oaddr (c.edited oaddr w.st) = .ok s₁ → Holds k t (c.request % 2 ^ 64) s₁) :
    Resized cfg main k t c oaddr w (c.run k t oaddr w.st) ↔ c.request < 2 ^ 64 ∨
      ∀ s₁, doFree t oaddr (c.edited oaddr w.st) = .ok s₁ → Refuses k t (c.request % 2 ^ 64) s₁ := by
  obtain ⟨w₀, hreach₀, hst₀, _, hlive₀, _⟩ := edited_next hw hu hc
  obtain ⟨s₁, hfree, _⟩ := doFree_next hreach₀ (hlive₀ ▸ hu) t
  rw [hst₀] at hfree
  rcases Resizing.run_cases k t oaddr w.st hc.pos with ⟨hreuse, hway, hrun'⟩ | hrun'
  · rw [hrun']
    refine iff_of_true (reused_inPlace hw hu hc hreuse hway) (.inl (not_le.mp fun hover => ?_))
    have hspace := (live_bounds hreach₀ (hlive₀ ▸ hu)).2.2
    rw [hst₀] at hspace
    exact absurd (hc.half_le_size hover) (not_le.mpr (hreuse.1.trans_lt hspace))
  · have hmem : c.run k t oaddr w.st = memalignNoStats k t c.alignment c.size s₁ := by
      rw [hrun', hfree]
      rfl
    rw [hmem]
    constructor
    · intro hresized
      refine or_iff_not_imp_left.mpr fun hover s₂ hfree₂ => ?_
      cases hfree.symm.trans hfree₂
      refine (refuses_iff hc.size_lt).mpr fun u s' hsome => ?_
      have hhalf := hc.half_le_size (not_lt.mp hover)
      obtain ⟨w', hreach', rfl, _, hlive'⟩ := hresized.live _ _ hsome
      obtain ⟨hpos, hend, _⟩ := live_bounds hreach' (u := u) (by simp [hlive'])
      have hroom := (hresized.result u _ hsome).room
      omega
    · intro hfits
      exact replaced hw hrun hstarted hu hc hfree (hholds s₁ hfree) (hfits.imp_right fun h => h s₁ hfree)

private def eightFreed : State := (doFree 0 134488080 Reuse.World.eight.st).getD State.unbooted

private theorem exists_holds : ∃ w, (Reuse.system defaultConfig 0).Reachable w ∧ w.live = {134488080} ∧
    w.status 0 ≠ .terminated ∧ ∀ s₁, doFree 0 134488080 ((Resizing.alignedResize 64 100).edited 134488080 w.st) =
      .ok s₁ → Holds (.above defaultConfig) 0 164 s₁ := by
  refine ⟨Reuse.World.eight, Reuse.World.eight_reachable, by decide +kernel, nofun, fun s₁ hfree => ?_⟩
  rw [Resizing.edited_of_plain (by decide +kernel)] at hfree
  have hok : (doFree 0 134488080 Reuse.World.eight.st).isOk = true := by decide +kernel
  have hfreed : doFree 0 134488080 Reuse.World.eight.st = .ok eightFreed := Result.eq_ok hok State.unbooted
  rw [Except.ok.inj (hfree.symm.trans hfreed)]
  have hgrant : (doMalloc (.above defaultConfig) 0 164 eightFreed).isOk = true := by decide +kernel
  have hrun := Result.eq_ok_pair hgrant (d := (none, State.unbooted)) (a := some 134488112) (by decide +kernel)
  exact .of_run hrun (by decide +kernel)

/-- The block moves to a multiple of 64. -/
theorem resized_iff_moved : ∃ w, (Reuse.system defaultConfig 0).Reachable w ∧ 134488080 ∈ w.live ∧
    Resized defaultConfig 0 (.above defaultConfig) 0 (.alignedResize 64 100) 134488080 w
      ((Resizing.alignedResize 64 100).run (.above defaultConfig) 0 134488080 w.st) := by
  obtain ⟨w, hreach, hlive, hrun, hholds⟩ := exists_holds
  have hu : 134488080 ∈ w.live := by simp [hlive]
  have hvalid : (Resizing.alignedResize 64 100).Valid := ⟨by decide, by decide, ⟨6, rfl⟩, by decide⟩
  exact ⟨w, hreach, hu, (resized_iff hreach hrun (.inr rfl) hu hvalid hholds).mpr (.inl (by decide))⟩

private theorem exists_wraps : ∃ w u s', (Reuse.system defaultConfig 0).Reachable w ∧ w.live = {134488080} ∧
    w.status 0 ≠ .terminated ∧ (Resizing.alignedResize 64 (2 ^ 64 - 64)).run (.above defaultConfig) 0 134488080 w.st =
      .ok (some u, s') ∧ (headers s' u).header + (headers s' u).size < 2 ^ 64 - 64 := by
  have hok : ((Resizing.alignedResize 64 (2 ^ 64 - 64)).run (.above defaultConfig) 0 134488080
      Reuse.World.eight.st).isOk = true := by decide +kernel
  have hrun := Result.eq_ok_pair hok (d := (none, State.unbooted)) (a := some 134488128) (by decide +kernel)
  exact ⟨Reuse.World.eight, _, _, Reuse.World.eight_reachable, by decide +kernel, nofun, hrun, by decide +kernel⟩

/-- The old block is gone by then. -/
theorem resized_wraps : ∃ w c, (Reuse.system defaultConfig 0).Reachable w ∧ 134488080 ∈ w.live ∧
    w.status 0 ≠ .terminated ∧ c.Valid ∧
    (∀ s₁, doFree 0 134488080 (c.edited 134488080 w.st) = .ok s₁ →
      Holds (.above defaultConfig) 0 (c.request % 2 ^ 64) s₁) ∧
    ¬ Resized defaultConfig 0 (.above defaultConfig) 0 c 134488080 w
      (c.run (.above defaultConfig) 0 134488080 w.st) := by
  obtain ⟨w, u, s', hreach, hlive, hstatus, hrun, hshort⟩ := exists_wraps
  have hzero : (Resizing.alignedResize 64 (2 ^ 64 - 64)).request % 2 ^ 64 = 0 := by decide
  refine ⟨w, .alignedResize 64 (2 ^ 64 - 64), hreach, by simp [hlive], hstatus,
    ⟨by decide, by decide, ⟨6, rfl⟩, by decide⟩, fun s₁ _ u s' _ => hzero ▸ Nat.zero_le _, fun hresized => ?_⟩
  have hroom := (hresized.result u s' hrun).room
  exact absurd ((Nat.le_add_left _ u).trans hroom) (not_le.mpr hshort)

end Llheap
