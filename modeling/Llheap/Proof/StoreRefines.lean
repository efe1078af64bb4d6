import Llheap.Proof.Refusal
import Llheap.Proof.Resizing
import Llheap.Proof.Store

/-!
# The allocator is an object store

The objects that a program sees are the bytes at its live addresses and what the queries say about them. Every step of a run does to these objects what the specification says, whichever thread takes it, from whatever bucket the storage comes, and whatever the threads have done before.
-/

namespace Llheap

open Separation TransitionSystem

variable {cfg : Config} {main : Tid} {k : Kernel cfg} {t : Tid} {s s' : State} {w w' : World} {S S' : Store}
  {status status' : Tid → Status} {A A' : Arena Tag} {idle idle' : List ℕ} {a b u n user size alignment : ℕ} {l : Live}
  {r addr al : Option ℕ} {L : ℕ → Option Live}

/-- What a program sees at a live address. -/
def objectAt (s : State) (addr : ℕ) : Object where
  contents := s.mem.bytes addr (mallocRequestSize s (some addr))
  alignment := mallocAlignment s (some addr)
  zeroFill := mallocZeroFill s (some addr)

open Classical in
noncomputable def objects (w : World) (a : ℕ) : Option Object :=
  if a ∈ w.live then some (objectAt w.st a) else none

def Shows (w : World) (S : Store) : Prop := S.at? = objects w

/-- What a program sees of a step. -/
def observe (w : World) : Label cfg → World → List Event
  | .call k t c, _ => [.call c ((c.run k t w.st).getD (none, w.st)).1]
  | .usableSize addr, _ => [.usableSize addr (mallocUsableSize addr w.st).1]
  | .free _ addr, _ => [.free addr]
  | .write addr offset byte, _ => [.write addr offset byte]
  | _, _ => []

theorem objects_of_live (h : a ∈ w.live) : objects w a = some (objectAt w.st a) := if_pos h

theorem objects_of_notMem (h : a ∉ w.live) : objects w a = none := if_neg h

/-! ### Objects in the arena -/

theorem Refines.object_eq (hr : Refines cfg main s status A idle) (hb : liveAt A b = some l) :
    objectAt s l.user = ⟨s.mem.bytes l.user l.view.size, l.view.alignment.getD libAlign, l.view.zeroFill⟩ := by
  obtain ⟨hsize, hfill, halign⟩ := hr.queries hb
  rw [objectAt, hsize, hfill, halign]

theorem Separation.Behind.exists_shows (h : Behind cfg main w A idle) : ∃ S, Shows w S := by
  have hobject : ∀ {a o}, objects w a = some o → ∃ b l, liveAt A b = some l ∧ l.user = a ∧
      o = ⟨w.st.mem.bytes l.user l.view.size, l.view.alignment.getD libAlign, l.view.zeroFill⟩ := by
    intro a o ho
    unfold objects at ho
    split at ho
    · next hlive =>
      rw [h.live] at hlive
      obtain ⟨b, l, hb, rfl⟩ := hlive
      exact ⟨b, l, hb, rfl, (Option.some.inj ho).symm.trans (h.refines.object_eq hb)⟩
    · cases ho
  refine ⟨⟨objects w, fun a o ho => ?_, fun a o c p ho hp hne => ?_⟩, rfl⟩
  · obtain ⟨b, l, hb, rfl, rfl⟩ := hobject ho
    exact (h.refines.alignment_bounds hb).2.2.2
  · obtain ⟨b, l, hb, rfl, rfl⟩ := hobject ho
    obtain ⟨d, m, hd, rfl, rfl⟩ := hobject hp
    have hbd : b ≠ d := by
      rintro rfl
      cases hb.symm.trans hd
      exact hne rfl
    have hapart := A.separate _ _ _ _ (liveAt_eq_some.mp hb) (liveAt_eq_some.mp hd) hbd
    obtain ⟨_, hafter, hroom, _⟩ := h.refines.dataSize hb
    obtain ⟨_, hafter', hroom', _⟩ := h.refines.dataSize hd
    simp only [Object.size, Memory.length_bytes]
    dsimp only at hapart
    omega

/-- What a step does not name looks the same afterwards. -/
theorem Separation.Behind.objects_others (h : Behind cfg main w A idle) (h' : Behind cfg main w' A' idle')
    (hothers : Others A A' w.st w'.st addr) (ha : a ∉ addr) (hlive : a ∈ w'.live ↔ a ∈ w.live) :
    objects w' a = objects w a := by
  by_cases hmem : a ∈ w.live
  · rw [objects_of_live hmem, objects_of_live (hlive.mpr hmem)]
    rw [h.live] at hmem
    obtain ⟨b, l, hb, rfl⟩ := hmem
    obtain ⟨hb', hbytes⟩ := hothers b l hb ha
    obtain ⟨_, hafter, hroom, _⟩ := h.refines.dataSize hb
    rw [h.refines.object_eq hb, h'.refines.object_eq hb']
    congr 2
    apply Memory.bytes_congr
    intro i hi
    exact hbytes ⟨by omega, by omega⟩
  · rw [objects_of_notMem hmem, objects_of_notMem (mt hlive.mp hmem)]

/-! ### New objects -/

theorem recordedAlignment_alignedTo :
    (recordedAlignment alignment size).getD libAlign = alignedTo alignment size := by
  by_cases hzero : size = 0
  · simp [recordedAlignment, alignedTo, hzero]
  · rw [recordedAlignment_getD hzero, alignedTo, if_neg hzero]

theorem Refines.isNew {origin : Origin} {z : Bool} (hr : Refines cfg main s status A idle)
    (hb : liveAt A b = some ⟨n, user, ⟨origin, z, size, al⟩⟩)
    (hzero : z = true → ∀ x, user ≤ x → x < user + size → s.mem x = 0) :
    (objectAt s user).IsNew size (al.getD libAlign) z := by
  have hobject := hr.object_eq hb
  dsimp only at hobject
  rw [hobject]
  refine ⟨Memory.length_bytes, rfl, rfl, fun hz byte hbyte => ?_⟩
  obtain ⟨i, hi, rfl⟩ := Memory.mem_bytes.mp hbyte
  exact hzero hz _ (Nat.le_add_right ..) (Nat.add_lt_add_left hi user)

theorem Refines.outcome_isNew (hr : Refines cfg main s' status A' idle')
    (hout : Outcome L (liveAt A') t s' size al (some user)) :
    (objectAt s' user).IsNew size (al.getD libAlign) false := by
  obtain ⟨b, n, origin, _, hlive, _⟩ := hout
  have hb : liveAt A' b = some ⟨n, user, ⟨origin, false, size, al⟩⟩ := by rw [hlive, Function.update_self]
  exact hr.isNew hb (by simp)

theorem Refines.cleared_isNew (hr : Refines cfg main s' status A' idle')
    (hout : ClearedOutcome L (liveAt A') t s' size al (some user)) :
    (objectAt s' user).IsNew size (al.getD libAlign) true := by
  obtain ⟨b, n, origin, _, hlive, hzero⟩ := hout
  have hb : liveAt A' b = some ⟨n, user, ⟨origin, true, size, al⟩⟩ := by rw [hlive, Function.update_self]
  exact hr.isNew hb fun _ => hzero

theorem Refines.memalign_isNew (hr : Refines cfg main s status A idle) (hmay : MayCall main s status t)
    (hsize : size < 2 ^ 64) (hpow : alignment.isPowerOfTwo) (halign : alignment < 2 ^ 64)
    (hfits : Fits s.heapMaster (memalignRequest alignment size))
    (h : Llheap.memalignNoStats k t alignment size s = .ok (some user, s')) :
    (objectAt s' user).IsNew size (alignedTo alignment size) false := by
  obtain ⟨A', idle', hr', _, _, hout⟩ := hr.memalignNoStats hmay hsize hpow halign (fun _ => hfits) h
  rw [← recordedAlignment_alignedTo]
  exact hr'.outcome_isNew hout

theorem Refines.malloc_isNew (hr : Refines cfg main s status A idle) (hmay : MayCall main s status t)
    (hsize : size < 2 ^ 64) (hfits : Fits s.heapMaster size) (h : Llheap.doMalloc k t size s = .ok (some user, s')) :
    (objectAt s' user).IsNew size libAlign false := by
  obtain ⟨A', idle', hr', _, _, hout⟩ := hr.doMalloc hmay hsize (fun _ => hfits) h
  exact hr'.outcome_isNew hout

/-! ### Objects with the old contents -/

theorem Refines.continues {naddr nsize : ℕ} (hr : Refines cfg main s status A idle)
    (hr' : Refines cfg main s' status A' idle') (hb : liveAt A b = some l)
    (hre : Reallocated (liveAt A) (liveAt A') s s' b l naddr nsize alignment) :
    (objectAt s' naddr).Continues (objectAt s l.user) nsize alignment := by
  obtain ⟨_, hsize, _, hcontents, hfill, hzeroed, halign, _⟩ := hr.kept hr' hb hre
  refine ⟨?_, halign, hfill, ?_, fun hz byte hbyte => ?_⟩
  · simp [Object.size, objectAt, hsize]
  · rw [objectAt, objectAt, Memory.take_bytes, hsize, min_comm]
    rw [← Memory.bytes_congr hcontents]
    exact Memory.bytes_isPrefix (min_le_right ..)
  · rw [Object.size, objectAt, objectAt, Memory.length_bytes, hsize] at hbyte
    obtain ⟨i, hi, hlt, rfl⟩ := Memory.mem_drop_bytes hbyte
    exact hzeroed hz i hi hlt

/-- A refusal may change the alignment that is recorded, and nothing else. -/
theorem Refines.refused_object {c : Reallocation} (hr : Refines cfg main s status A idle)
    (hmay : MayCall main s status t) (hb : liveAt A b = some l) (hvalid : (c.call (some l.user)).Valid)
    (hpos : 0 < c.size) (h : (c.call (some l.user)).run k t s = .ok (none, s')) :
    objectAt s' l.user = { objectAt s l.user with
      alignment := (refusedAlignment l (c.alignment s l.user)).getD libAlign } := by
  obtain ⟨A', idle', hr', hlive, hbytes, _⟩ :=
    hr.reallocation hmay hb hvalid hpos (fun hne => absurd rfl hne) h
  have hb' := congrFun hlive b
  rw [Function.update_self] at hb'
  have hobject := hr'.object_eq hb'
  dsimp only at hobject
  obtain ⟨_, _, hroom, _⟩ := hr.dataSize hb
  rw [hobject, hr.object_eq hb]
  congr 1
  apply Memory.bytes_congr
  intro i hi
  exact hbytes _ (Nat.le_add_right ..) (by omega)

theorem refusedAlignment_cases (l : Live) (nalignment : ℕ) :
    (refusedAlignment l nalignment).getD libAlign = l.view.alignment.getD libAlign ∨
      (refusedAlignment l nalignment).getD libAlign = nalignment := by
  unfold refusedAlignment
  cases l.view.alignment with
  | none => exact .inl rfl
  | some a =>
    rw [Option.map_some, Option.getD_some, Option.getD_some]
    split
    · exact .inr rfl
    · exact .inl rfl

/-! ### Objects without the old contents -/

def Resizing.call (oaddr : ℕ) : Resizing → Call
  | .resize size => .resize (some oaddr) size
  | .alignedResize nalignment size => .alignedResize (some oaddr) nalignment size

/-- How a block comes to serve a resizing: it has the least alignment, or its fake header has been edited. -/
def Resizing.Serves (c : Resizing) (oaddr : ℕ) (s : State) : Prop :=
  reusable c.size (dataSpace (c.edited oaddr s) oaddr) ∧
    ((headers s oaddr).alignment = libAlign ∧ c.alignment = libAlign ∧ c.edited oaddr s = s ∨
      alignmentBit (s.mem.word (headerAddr oaddr)) ≠ 0 ∧
        luckyMatch oaddr (clearAlignmentBit (s.mem.word (headerAddr oaddr))) c.alignment ∧
        c.edited oaddr s = updateAlignment oaddr c.alignment s)

variable {c : Resizing}

/-- A block that is not used again is replaced by one that is asked for with all that the alignment takes. -/
theorem Resizing.request_cases (k : Kernel cfg) (t : Tid) (oaddr : ℕ) (s : State) (hpos : 0 < c.size) :
    (c.Serves oaddr s ∧ c.run k t oaddr s = .ok (some oaddr,
      resizeInPlace (headers (c.edited oaddr s) oaddr).header c.size (c.edited oaddr s))) ∨
    (c.call oaddr).request s = some c.request ∧ c.run k t oaddr s = (doFree t oaddr (c.edited oaddr s) >>= fun s₁ =>
      memalignNoStats k t c.alignment c.size s₁) := by
  have hresize : ∀ size, 0 < size → (resizeRequest s oaddr size = some (memalignRequest libAlign size) ∧
        Llheap.resize k t (some oaddr) size s = doFree t oaddr s >>= fun s₁ => memalignNoStats k t libAlign size s₁) ∨
      ((headers s oaddr).alignment = libAlign ∧ reusable size (dataSpace s oaddr)) ∧
        Llheap.resize k t (some oaddr) size s = .ok (some oaddr, resizeInPlace (headers s oaddr).header size s) := by
    intro size hsize
    have hplain : ∀ s₁, memalignNoStats k t libAlign size s₁ = doMalloc k t size s₁ := fun s₁ => if_pos (.inl le_rfl)
    have hasked : memalignRequest libAlign size = size := if_pos (.inl le_rfl)
    unfold resizeRequest Llheap.resize
    dsimp only
    rw [if_neg hsize.ne', hasked]
    split
    · next hreuse => exact .inr ⟨hreuse.resolve_left hsize.ne', if_pos (hreuse.resolve_left hsize.ne')⟩
    · next hmove => exact .inl ⟨rfl, by simp only [hplain, if_neg fun hreuse => hmove (.inr hreuse)]⟩
  cases c with
  | resize size =>
    rcases hresize size hpos with hmove | ⟨hreuse, hplace⟩
    · exact .inr hmove
    · exact .inl ⟨⟨hreuse.2, .inl ⟨hreuse.1, rfl, rfl⟩⟩, hplace⟩
  | alignedResize nalignment size =>
    have hne : size ≠ 0 := hpos.ne'
    have hrequest : (call oaddr (.alignedResize nalignment size)).request s =
        alignedResizeRequest s oaddr nalignment size := rfl
    rw [hrequest, alignedResizeRequest, run, Llheap.alignedResize, Serves]
    dsimp only
    rw [if_neg hne, if_neg hne]
    by_cases hbit : alignmentBit (s.mem.word (headerAddr oaddr)) ≠ 0
    · rw [if_pos hbit, if_pos hbit]
      by_cases hlucky : luckyMatch oaddr (clearAlignmentBit (s.mem.word (headerAddr oaddr))) (max nalignment libAlign)
      · have hedited : (Resizing.alignedResize nalignment size).edited oaddr s =
            updateAlignment oaddr (max nalignment libAlign) s := if_pos ⟨hbit, hlucky⟩
        rw [if_pos hlucky, if_pos hlucky, hedited]
        split
        · next hreuse =>
          refine .inl ⟨⟨hreuse, .inr ⟨hbit, hlucky, rfl⟩⟩, ?_⟩
          rw [updateAlignment_idem]
          rfl
        · exact .inr ⟨rfl, rfl⟩
      · have hedited : (Resizing.alignedResize nalignment size).edited oaddr s = s := if_neg fun h => hlucky h.2
        rw [if_neg hlucky, if_neg hlucky, hedited]
        exact .inr ⟨rfl, rfl⟩
    · rw [if_neg hbit, if_neg hbit, edited_of_plain (not_not.mp hbit)]
      split
      · next hplain =>
        rw [Resizing.size, Resizing.request, Resizing.alignment, hplain]
        rcases hresize size hpos with hmove | ⟨hreuse, hplace⟩
        · exact .inr hmove
        · exact .inl ⟨⟨hreuse.2, .inl ⟨hreuse.1, rfl, rfl⟩⟩, hplace⟩
      · exact .inr ⟨rfl, rfl⟩

theorem Refines.alignmentEdited (hr : Refines cfg main s status A idle) (hb : liveAt A b = some l) (hc : c.Valid)
    (hfake : alignmentBit (s.mem.word (headerAddr l.user)) ≠ 0) (hdvd : c.alignment ∣ l.user) :
    ∃ A', Refines cfg main (Llheap.updateAlignment l.user c.alignment s) status A' idle ∧
      liveAt A' b = some { l with view := { l.view with alignment := some c.alignment } } := by
  obtain ⟨hblock, _⟩ := hr.liveBlock hb
  have hbit := (hblock.encodes.fakeWord hblock.taggable).1
  obtain ⟨a, hal⟩ : ∃ a, l.view.alignment = some a := Option.ne_none_iff_exists'.mp (mt hbit.mpr hfake)
  obtain ⟨hpow, hle, hlt⟩ := hc.alignment_ok
  obtain ⟨A', hr', hlive, _⟩ := hr.updateAlignment hb hal hpow hle hlt hdvd
  exact ⟨A', hr', by rw [hlive, Function.update_self]⟩

theorem Refines.edited (hr : Refines cfg main s status A idle) (hb : liveAt A b = some l) (hc : c.Valid) :
    ∃ A' v, Refines cfg main (c.edited l.user s) status A' idle ∧ liveAt A' b = some ⟨l.len, l.user, v⟩ ∧
      SameControl s (c.edited l.user s) := by
  rcases Resizing.edited_cases c l.user s with heq | ⟨hfake, hdvd, heq⟩
  · rw [heq]
    exact ⟨A, l.view, hr, hb, rfl, rfl, rfl, rfl⟩
  · obtain ⟨A', hr', hb'⟩ := hr.alignmentEdited hb hc hfake hdvd
    rw [heq]
    exact ⟨A', _, hr', hb', rfl, rfl, rfl, rfl⟩

theorem Refines.serves (hr : Refines cfg main s status A idle) (hb : liveAt A b = some l) (hc : c.Valid)
    (hserves : c.Serves l.user s) :
    ∃ A' v, Refines cfg main (c.edited l.user s) status A' idle ∧ liveAt A' b = some ⟨l.len, l.user, v⟩ ∧
      v.alignment.getD libAlign = c.alignment := by
  obtain ⟨_, ⟨hleast, halign, heq⟩ | ⟨hfake, hlucky, heq⟩⟩ := hserves
  · rw [heq, halign]
    refine ⟨A, l.view, hr, hb, ?_⟩
    rwa [hr.headers hb] at hleast
  · obtain ⟨A', hr', hb'⟩ := hr.alignmentEdited hb hc hfake (Nat.dvd_of_mod_eq_zero hlucky.1)
    rw [heq]
    exact ⟨A', _, hr', hb', rfl⟩

theorem Resizing.Valid.alignedTo_eq (hc : c.Valid) : alignedTo c.alignment c.size = c.alignment := by
  rw [alignedTo, if_neg hc.pos.ne', max_eq_left hc.alignment_ok.2.1]

theorem Refines.resizing_isNew (hr : Refines cfg main s status A idle) (hmay : MayCall main s status t)
    (hb : liveAt A b = some l) (hc : c.Valid) (hfits : ∀ n ∈ (c.call l.user).request s, Fits s.heapMaster n)
    (h : c.run k t l.user s = .ok (some user, s')) :
    (objectAt s' user).IsNew c.size c.alignment false := by
  rcases Resizing.request_cases k t l.user s hc.pos with ⟨hserves, hrun⟩ | ⟨hrequest, hrun⟩
  · cases hrun.symm.trans h
    obtain ⟨A₁, v, hr₁, hb₁, halign⟩ := hr.serves hb hc hserves
    have hspace := hserves.1.1
    have hroom := (hr₁.dataSize hb₁).2.2.1
    rw [hr₁.dataSpace_eq hb₁] at hspace
    dsimp only at hspace hroom
    obtain ⟨A', hr', hlive, _⟩ := hr₁.resizeInPlace hb₁ (show l.user + c.size ≤ b + l.len by omega)
    have hheader : (Llheap.headers (c.edited l.user s) l.user).header = b := by
      have := hr₁.headers hb₁
      dsimp only at this
      rw [this]
    rw [hheader, ← halign]
    have hb' := congrFun hlive b
    rw [Function.update_self] at hb'
    exact hr'.isNew hb' (by simp)
  · rw [hrun] at h
    obtain ⟨A₁, v, hr₁, hb₁, hsame₁⟩ := hr.edited hb hc
    obtain ⟨s₂, A₂, hfree, hr₂, _, _, hsame₂, _⟩ := hr₁.doFree hb₁ t
    obtain ⟨s₂', hs₂, h⟩ := Result.bind_eq_ok.mp h
    cases hfree.symm.trans hs₂
    obtain ⟨hpow, _, hlt⟩ := hc.alignment_ok
    have hsame := hsame₁.trans hsame₂
    have hnew := hr₂.memalign_isNew (hmay.congr hsame) hc.size_lt hpow hlt
      ((hfits _ hrequest).congr hsame.params) h
    rwa [hc.alignedTo_eq] at hnew

/-! ### Calls -/

theorem Call.size_pos {c : Call} (h : c.run k t s = .ok (some user, s')) (hu : u ∈ c.oaddr) : 0 < c.size := by
  apply Nat.pos_of_ne_zero
  intro hzero
  have hfree : c.run k t s = (do
      let s ← Llheap.doFree t u s
      .ok (none, s)) := by
    cases c with
    | resize oaddr size | realloc oaddr size | alignedResize oaddr nalignment size
    | alignedRealloc oaddr nalignment size =>
      cases hu
      exact if_pos hzero
    | _ => cases hu
  rw [hfree] at h
  obtain ⟨_, _, hnone⟩ := Result.bind_eq_ok.mp h
  cases hnone

/-- An address that a call returns has the object that the call is to make. -/
theorem Refines.call_makes {c : Call} (hr : Refines cfg main s status A idle) (hmay : MayCall main s status t)
    (hvalid : c.Valid) (hold : ∀ u ∈ c.oaddr, u ∈ users (liveAt A))
    (hfits : ∀ n ∈ c.request s, Fits s.heapMaster n) (h : c.run k t s = .ok (some user, s')) :
    c.Makes (c.oaddr.map (objectAt s)) (objectAt s' user) := by
  cases c with
  | malloc size => exact hr.malloc_isNew hmay hvalid (hfits _ rfl) h
  | calloc dimension elemSize =>
    obtain ⟨A', idle', hr', _, _, hout⟩ := hr.calloc hmay (fun _ => hfits _ rfl) h
    exact hr'.cleared_isNew hout
  | memalign alignment size =>
    obtain ⟨hsize, hpow, halign⟩ := hvalid
    exact hr.memalign_isNew hmay hsize hpow halign (hfits _ rfl) h
  | cmemalign alignment dimension elemSize =>
    obtain ⟨_, hpow, halign⟩ := hvalid
    obtain ⟨A', idle', hr', _, _, hout⟩ := hr.cmemalign hmay hpow halign (fun _ => hfits _ rfl) h
    rw [Call.Makes, ← recordedAlignment_alignedTo]
    exact hr'.cleared_isNew hout
  | resize oaddr size =>
    cases oaddr with
    | none => exact hr.malloc_isNew hmay hvalid (hfits _ rfl) h
    | some u =>
      obtain ⟨b, l, hb, rfl⟩ := hold u rfl
      exact hr.resizing_isNew (c := .resize size) hmay hb ⟨Call.size_pos h rfl, hvalid⟩ hfits h
  | realloc oaddr size =>
    cases oaddr with
    | none => exact hr.malloc_isNew hmay hvalid (hfits _ rfl) h
    | some u =>
      obtain ⟨b, l, hb, rfl⟩ := hold u rfl
      obtain ⟨A', idle', hr', hout⟩ :=
        hr.reallocation (c := .realloc size) hmay hb hvalid (Call.size_pos h rfl) (fun _ => hfits) h
      exact hr.continues hr' hb hout
  | alignedResize oaddr nalignment size =>
    obtain ⟨hsize, hpow, halign⟩ := id hvalid
    cases oaddr with
    | none => exact hr.memalign_isNew hmay hsize hpow halign (hfits _ rfl) h
    | some u =>
      obtain ⟨b, l, hb, rfl⟩ := hold u rfl
      have hpos : 0 < size := Call.size_pos h rfl
      rw [Call.Makes, alignedTo, if_neg hpos.ne']
      exact hr.resizing_isNew (c := .alignedResize nalignment size) hmay hb ⟨hpos, hvalid⟩ hfits h
  | alignedRealloc oaddr nalignment size =>
    obtain ⟨hsize, hpow, halign⟩ := id hvalid
    cases oaddr with
    | none => exact hr.memalign_isNew hmay hsize hpow halign (hfits _ rfl) h
    | some u =>
      obtain ⟨b, l, hb, rfl⟩ := hold u rfl
      have hpos : 0 < size := Call.size_pos h rfl
      obtain ⟨A', idle', hr', hout⟩ :=
        hr.reallocation (c := .alignedRealloc nalignment size) hmay hb hvalid hpos (fun _ => hfits) h
      show (objectAt s' user).Continues (objectAt s l.user) size (alignedTo nalignment size)
      rw [alignedTo, if_neg hpos.ne']
      exact hr.continues hr' hb hout

theorem Refines.call_refused {c : Call} (hr : Refines cfg main s status A idle) (hmay : MayCall main s status t)
    (hvalid : c.Valid) (hb : liveAt A b = some l) (hold : c.oaddr = some l.user) (hgives : c.gives none = false)
    (h : c.run k t s = .ok (none, s')) :
    ∃ al, objectAt s' l.user = { objectAt s l.user with alignment := al } ∧
      (al = (objectAt s l.user).alignment ∨ ∃ nalignment size, c = .alignedRealloc (some l.user) nalignment size ∧
        al = max nalignment libAlign) := by
  have halign := (hr.queries hb).2.2
  have hcases : ∀ c' : Reallocation, c = c'.call (some l.user) → 0 < c'.size ∧
      objectAt s' l.user = { objectAt s l.user with
        alignment := (refusedAlignment l (c'.alignment s l.user)).getD libAlign } := by
    rintro c' rfl
    have hpos : 0 < c'.size := by
      apply Nat.pos_of_ne_zero
      intro hzero
      cases c' with
      | realloc size | alignedRealloc nalignment size =>
        simp [Reallocation.call, Call.gives] at hgives
        exact hgives hzero
    exact ⟨hpos, hr.refused_object hmay hb hvalid hpos h⟩
  cases c with
  | realloc oaddr size =>
    cases hold
    refine ⟨_, (hcases (.realloc size) rfl).2, .inl ?_⟩
    rw [Reallocation.alignment, halign, refusedAlignment_self]
    exact halign.symm
  | alignedRealloc oaddr nalignment size =>
    cases hold
    refine ⟨_, (hcases (.alignedRealloc nalignment size) rfl).2, ?_⟩
    refine (refusedAlignment_cases l (max nalignment libAlign)).imp (fun hsame => ?_) fun hnew => ⟨_, _, rfl, hnew⟩
    exact hsame.trans halign.symm
  | resize oaddr size | alignedResize oaddr nalignment size =>
    cases hold
    cases hgives
  | _ => cases hold

/-! ### Steps -/

theorem Change.returned_old {gone : Bool} {L' : ℕ → Option Live} (hchange : Change L L' addr gone (some user))
    (hinj : Injective L') (hlive : user ∈ Llheap.users L) : user ∈ addr := by
  obtain ⟨b, l, hb, rfl⟩ := hlive
  by_contra hu
  have hb' := hchange.others hb hu
  generalize hr : some l.user = r at hchange
  cases hchange with
  | obtained hnone =>
    obtain rfl := hinj b _ l _ hb' (Function.update_self ..) (Option.some.inj hr)
    cases hb.symm.trans hnone
  | @moved c b' m m' hc hnone =>
    obtain rfl := hinj b b' l m' hb' (Function.update_self ..) (Option.some.inj hr)
    have hbc : b = c := by
      by_contra hne
      rw [Function.update_of_ne hne] at hnone
      cases hb.symm.trans hnone
    subst c
    cases hb.symm.trans hc
    exact hu rfl
  | _ => cases hr

theorem Separation.Behind.old_objects {c : Call} (hok : CallOk main w t c) (hS : Shows w S) :
    c.oaddr.bind S.at? = c.oaddr.map (objectAt w.st) := by
  cases hold : c.oaddr with
  | none => rfl
  | some u =>
    rw [Option.bind_some, Option.map_some, hS]
    exact objects_of_live (hok.old u hold)

theorem Separation.Behind.call_without {c : Call} (h : Behind cfg main w A idle) (h' : Behind cfg main w' A' idle')
    (hothers : Others A A' w.st w'.st c.oaddr) (hlive : w'.live = liveAfter c.oaddr (c.gives r) r w.live)
    (hS : Shows w S) (hne : a ∉ r) (hgives : a ∈ c.oaddr → c.gives r = true) : objects w' a = S.without c.oaddr a := by
  have hmem : a ∈ w'.live ↔ a ∈ w.live ∧ a ∉ c.oaddr := by
    rw [hlive]
    constructor
    · rintro (hr | ⟨ha, hkept⟩)
      · exact absurd hr hne
      · exact ⟨ha, fun hold => hkept ⟨hgives hold, hold⟩⟩
    · intro ⟨ha, hold⟩
      exact .inr ⟨ha, fun hgone => hold hgone.2⟩
  by_cases hold : a ∈ c.oaddr
  · rw [objects_of_notMem fun ha => (hmem.mp ha).2 hold, Store.without, if_pos hold]
  · rw [Store.without_of_notMem hold, hS]
    exact h.objects_others h' hothers hold (by simp [hmem, hold])

theorem Call.refusedIn_of_update {c : Call} {o : Object} (hold : c.oaddr = some u) (ho : S.at? u = some o)
    (hS : S'.at? = Function.update S.at? u (some { o with alignment := alignment }))
    (hal : alignment = o.alignment ∨ ∃ nalignment size, c = .alignedRealloc (some u) nalignment size ∧
      alignment = max nalignment libAlign) : c.RefusedIn S S' := by
  have hsame : alignment = o.alignment → S'.at? = S.at? := by
    rintro rfl
    rw [hS, ← ho, Function.update_eq_self]
  cases c with
  | alignedRealloc oaddr nalignment size =>
    cases hold
    refine ⟨o, alignment, ho, hal.imp_right ?_, hS⟩
    intro ⟨_, _, heq, hmax⟩
    cases heq
    exact hmax
  | resize oaddr size | realloc oaddr size | alignedResize oaddr nalignment size =>
    refine hsame (hal.resolve_right ?_)
    intro ⟨_, _, heq, _⟩
    cases heq
  | _ => cases hold

/-- A refused call that keeps the old address does what a refusal may do. -/
theorem Separation.Behind.refused_store {c : Call} (h : Behind cfg main w A idle) (h' : Behind cfg main w' A' idle')
    (hok : CallOk main w t c) (hothers : Others A A' w.st w'.st c.oaddr) (hgives : c.gives none = false)
    (hrun : c.run k t w.st = .ok (none, w'.st)) (hlive : w'.live = w.live) (hS : Shows w S) (hS' : Shows w' S') :
    c.RefusedIn S S' := by
  have hkeep : ∀ a, a ∉ c.oaddr → S'.at? a = S.at? a := by
    intro a ha
    rw [hS, hS']
    exact h.objects_others h' hothers ha (by rw [hlive])
  cases hold : c.oaddr with
  | none =>
    have hsame : S'.at? = S.at? := funext fun a => hkeep a (by simp [hold])
    cases c with
    | alignedRealloc oaddr nalignment size =>
      cases hold
      exact hsame
    | _ => exact hsame
  | some u =>
    have hu := hok.old u hold
    obtain ⟨b, l, hb, rfl⟩ : u ∈ users (liveAt A) := h.live ▸ hu
    obtain ⟨al, hobject, hal⟩ := h.refines.call_refused hok.may hok.valid hb hold hgives hrun
    have ho : S.at? l.user = some (objectAt w.st l.user) := by rw [hS, objects_of_live hu]
    refine Call.refusedIn_of_update hold ho ?_ hal
    funext a
    by_cases ha : a = l.user
    · rw [ha, Function.update_self, hS', objects_of_live (hlive ▸ hu), hobject]
    · rw [Function.update_of_ne ha]
      refine hkeep a fun hmem => ha ?_
      rw [hold] at hmem
      exact (Option.some.inj hmem).symm

theorem Separation.Behind.call_store {c : Call} (h : Behind cfg main w A idle) (hok : CallOk main w t c)
    (hrun : c.run k t w.st = .ok (r, w'.st)) (hlive : w'.live = liveAfter c.oaddr (c.gives r) r w.live)
    (hstatus : w'.status = w.status) (hS : Shows w S) (hS' : Shows w' S') : S.Step (.call c r) S' := by
  obtain ⟨st', status', live'⟩ := w'
  dsimp only at hrun hlive hstatus
  subst hlive hstatus
  have hold : ∀ u ∈ c.oaddr, u ∈ users (liveAt A) := fun u hu => h.live ▸ hok.old u hu
  obtain ⟨A', idle', hspec⟩ := h.refines.call hok.may hok.valid hold (fun _ => hok.fits) hrun
  have hothers : Others A A' w.st st' c.oaddr :=
    fun b l hb hu => ⟨hspec.change.others hb hu, hspec.frame b l hb hu⟩
  have h' : Behind cfg main ⟨st', w.status, liveAfter c.oaddr (c.gives r) r w.live⟩ A' idle' :=
    ⟨hspec.refines, by rw [hspec.change.users h.refines.injective, ← h.live]⟩
  have hwithout : ∀ a, a ∉ r → (a ∈ c.oaddr → c.gives r = true) →
      objects ⟨st', w.status, liveAfter c.oaddr (c.gives r) r w.live⟩ a = S.without c.oaddr a := by
    intro a
    exact h.call_without h' hothers rfl hS
  cases r with
  | some user =>
    refine ⟨?_, objectAt st' user, ?_, ?_⟩
    · by_cases hu : user ∈ c.oaddr
      · exact if_pos hu
      · rw [Store.without_of_notMem hu, hS, objects_of_notMem]
        rw [h.live]
        exact mt (hspec.change.returned_old hspec.refines.injective) hu
    · rw [Separation.Behind.old_objects hok hS]
      exact h.refines.call_makes hok.may hok.valid hold hok.fits hrun
    · rw [hS']
      funext a
      by_cases ha : a = user
      · rw [ha, Function.update_self]
        exact objects_of_live (.inl rfl)
      · rw [Function.update_of_ne ha]
        refine hwithout a (fun hr => ha (Option.some.inj hr).symm) fun hold => Call.gives_some hold
  | none =>
    simp only [Store.Step]
    split
    · next hgives =>
      rw [hS']
      funext a
      exact hwithout a (by simp) fun _ => hgives
    · next hgives =>
      rw [Bool.not_eq_true] at hgives
      refine h.refused_store h' hok hothers hgives hrun ?_ hS hS'
      simp [liveAfter, hgives]

theorem Separation.Behind.free_store (h : Behind cfg main w A idle) (hold : ∀ u ∈ addr, u ∈ w.live)
    (hfree : Llheap.free t addr w.st = .ok w'.st) (hlive : w'.live = liveAfter addr true none w.live)
    (hstatus : w'.status = w.status) (hS : Shows w S) (hS' : Shows w' S') : S.Step (.free addr) S' := by
  obtain ⟨st', status', live'⟩ := w'
  dsimp only at hfree hlive hstatus
  subst hlive hstatus
  obtain ⟨A', h', hothers⟩ := free_behind h hold hfree
  show S'.at? = S.without addr
  rw [hS']
  funext a
  have hmem : a ∈ liveAfter addr true none w.live ↔ a ∈ w.live ∧ a ∉ addr := by simp [liveAfter]
  by_cases ha : a ∈ addr
  · rw [Store.without, if_pos ha]
    exact objects_of_notMem fun hlive => (hmem.mp hlive).2 ha
  · rw [Store.without_of_notMem ha, hS]
    exact h.objects_others h' hothers ha (by simp [hmem, ha])

theorem Separation.Behind.edited_store {o : Object} (h : Behind cfg main w A idle) (h' : Behind cfg main w' A' idle')
    (hothers : Others A A' w.st w'.st (some a)) (hlive : w'.live = w.live) (ha : a ∈ w.live)
    (ho : objectAt w'.st a = o) (hS : Shows w S) (hS' : Shows w' S') :
    S'.at? = Function.update S.at? a (some o) := by
  rw [hS, hS']
  funext c
  by_cases hc : c = a
  · rw [hc, Function.update_self, objects_of_live (hlive ▸ ha), ho]
  · rw [Function.update_of_ne hc]
    exact h.objects_others h' hothers (fun hmem => hc (Option.some.inj hmem).symm) (by rw [hlive])

theorem Separation.Behind.usableSize_store (h : Behind cfg main w A idle) (hold : ∀ u ∈ addr, u ∈ w.live)
    (hst : w'.st = (mallocUsableSize addr w.st).2) (hlive : w'.live = w.live) (hstatus : w'.status = w.status)
    (hS : Shows w S) (hS' : Shows w' S') : S.Step (.usableSize addr (mallocUsableSize addr w.st).1) S' := by
  obtain ⟨st', status', live'⟩ := w'
  dsimp only at hst hlive hstatus
  subst hst hlive hstatus
  obtain ⟨A', h', hothers⟩ := usableSize_behind h hold
  cases addr with
  | none => exact ⟨rfl, by rw [hS, hS']; rfl⟩
  | some u =>
    have hu := hold u rfl
    obtain ⟨b, l, hb, rfl⟩ : u ∈ users (liveAt A) := h.live ▸ hu
    obtain ⟨hsize, A₁, hr₁, hlive₁, _, hmem⟩ := h.refines.usableSize hb
    have hb₁ := congrFun hlive₁ b
    rw [Function.update_self] at hb₁
    have hobject := hr₁.object_eq hb₁
    dsimp only at hobject
    have hroom := (h.refines.dataSize hb).2.2.1
    refine ⟨_, _, by rw [hS, objects_of_live hu], ?_, ?_, ?_, ?_, h.edited_store h' hothers rfl hu hobject hS hS'⟩
    · exact Memory.length_bytes.trans hsize.symm
    · rw [h.refines.object_eq hb]
      rw [Memory.bytes_congr fun i _ => (hmem (l.user + i) (Nat.le_add_right ..))]
      exact Memory.bytes_isPrefix (by omega)
    · rw [h.refines.object_eq hb]
    · rw [h.refines.object_eq hb]

theorem Separation.Behind.write_store {offset : ℕ} {byte : UInt8} (h : Behind cfg main w A idle) (ha : a ∈ w.live)
    (hlt : offset < mallocRequestSize w.st (some a))
    (hst : w'.st = { w.st with mem := Function.update w.st.mem (a + offset) byte }) (hlive : w'.live = w.live)
    (hstatus : w'.status = w.status) (hS : Shows w S) (hS' : Shows w' S') : S.Step (.write a offset byte) S' := by
  obtain ⟨st', status', live'⟩ := w'
  dsimp only at hst hlive hstatus
  subst hst hlive hstatus
  obtain ⟨A', h', hlive', hothers⟩ := write_behind byte h ha hlt
  obtain ⟨b, l, hb, rfl⟩ : a ∈ users (liveAt A) := h.live ▸ ha
  refine ⟨_, by rw [hS, objects_of_live ha], ?_, h.edited_store h' hothers rfl ha ?_ hS hS'⟩
  · rwa [Object.size, objectAt, Memory.length_bytes]
  · rw [h.refines.object_eq hb, h'.refines.object_eq (hlive' ▸ hb), Memory.set_bytes]

theorem Separation.Behind.silent (h : Behind cfg main w A idle) (h' : Behind cfg main w' A' idle')
    (hothers : Others A A' w.st w'.st none) (hlive : w'.live = w.live) (hS : Shows w S) : Shows w' S := by
  rw [Shows, hS]
  funext a
  exact (h.objects_others h' hothers (by simp) (by rw [hlive])).symm

/-! ### Runs -/

/-- Each step is what the specification says. -/
theorem store_simulates (cfg : Config) (main : Tid) : (system cfg main).Simulation Store.system observe
    fun w S => Inv cfg main w ∧ Shows w S where
  init w hw := by
    refine ⟨Store.empty, rfl, init_inv hw, ?_⟩
    funext a
    rw [objects_of_notMem (by rw [hw.2.2]; exact Set.notMem_empty a)]
    rfl
  step w lab w' S hrel hs := by
    obtain ⟨⟨A, idle, h⟩, hS⟩ := hrel
    obtain ⟨A', idle', h', hothers⟩ := step_behind h hs
    obtain ⟨S', hS'⟩ := h'.exists_shows
    have hseen : ∀ {e}, S.Step e S' → ∃ S', Store.system.Run labels S [e] S' ∧ Inv cfg main w' ∧ Shows w' S' :=
      fun hstep => ⟨S', .single labels hstep, ⟨A', idle', h'⟩, hS'⟩
    have hsilent : lab.addr = none → w'.live = w.live →
        ∃ S', Store.system.Run labels S [] S' ∧ Inv cfg main w' ∧ Shows w' S' :=
      fun haddr hlive => ⟨S, .refl S, ⟨A', idle', h'⟩, h.silent h' (haddr ▸ hothers) hlive hS⟩
    cases lab with
    | call k t c =>
      obtain ⟨hok, r, hrun, hlive, hstatus⟩ := hs
      rw [observe, hrun]
      exact hseen (h.call_store hok hrun hlive hstatus hS hS')
    | usableSize addr =>
      obtain ⟨hold, hst, hlive, hstatus⟩ := hs
      exact hseen (h.usableSize_store hold hst hlive hstatus hS hS')
    | free t addr =>
      obtain ⟨hold, hfree, hlive, hstatus⟩ := hs
      exact hseen (h.free_store hold hfree hlive hstatus hS hS')
    | write addr offset byte =>
      obtain ⟨ha, hlt, hst, hlive, hstatus⟩ := hs
      exact hseen (h.write_store ha hlt hst hlive hstatus hS hS')
    | setErrno t e | mallopt option value | startup k => exact hsilent rfl hs.2.1
    | dtor t => exact hsilent rfl hs.2.2.2.2.1
    | terminate t => exact hsilent rfl hs.2.2.2.1

/-- Whatever the threads do, what the program sees is a run of an object store. -/
theorem runs_refine_store {es : List Event} (h0 : (system cfg main).init w)
    (hrun : (system cfg main).Run observe w es w') :
    ∃ S, Store.system.Run labels Store.empty es S ∧ Shows w' S := by
  obtain ⟨_, rfl, hrel⟩ := (store_simulates cfg main).init w h0
  obtain ⟨S, hS, _, hshows⟩ := (store_simulates cfg main).run hrun hrel
  exact ⟨S, hS, hshows⟩

/-- However many threads allocate and free in the meantime, an allocation that no step names has the contents, the size, the alignment and the fill property that it had. -/
theorem object_kept {es : List Event} (hw : (system cfg main).Reachable w)
    (hrun : (system cfg main).Run observe w es w') (hlive : u ∈ w.live) (hne : ∀ e ∈ es, u ∉ e.addr) :
    u ∈ w'.live ∧ objectAt w'.st u = objectAt w.st u := by
  obtain ⟨A, idle, h⟩ := reachable_inv hw
  obtain ⟨S, hS⟩ := h.exists_shows
  obtain ⟨S', hrun', _, hS'⟩ := (store_simulates cfg main).run hrun ⟨⟨A, idle, h⟩, hS⟩
  have hobject : S.at? u = some (objectAt w.st u) := by rw [hS, objects_of_live hlive]
  have hkept := Store.others_run hrun' hobject hne
  rw [hS', objects] at hkept
  split at hkept
  · next hlive' => exact ⟨hlive', Option.some.inj hkept⟩
  · cases hkept

/-! ### A program that allocates -/

private def hundredBytes : World := World.booted.call (.above defaultConfig) 0 (.malloc 100)

private theorem hundredBytes_run : (Call.malloc 100).run (.above defaultConfig) 0 World.booted.st =
    .ok (some 134488080, hundredBytes.st) := World.call_run (by decide +kernel) (by decide +kernel)

private theorem hundredBytes_step : (system defaultConfig 0).step World.booted
    (.call (.above defaultConfig) 0 (.malloc 100)) hundredBytes := by
  have hvalid : (Call.malloc 100).Valid := (by decide : 100 < 2 ^ 64)
  exact World.booted_call hvalid rfl (by decide +kernel) (by rw [hundredBytes_run]; rfl)

theorem runs_refine_store_malloc : ∃ S, Store.system.Run labels Store.empty
    [.call (.malloc 100) (some 134488080)] S ∧ Shows hundredBytes S := by
  have hrun := Run.single observe hundredBytes_step
  rw [observe, hundredBytes_run] at hrun
  exact runs_refine_store ⟨⟨_, heapManagerCtor_default⟩, rfl, rfl⟩ hrun

/-- Another call gets other storage. -/
theorem object_kept_malloc : ∃ (w w' : World) (r : Option ℕ), (system defaultConfig 0).Run observe w
    [.call (.malloc 200) r] w' ∧ 134488080 ∈ w'.live ∧ objectAt w'.st 134488080 = objectAt w.st 134488080 := by
  have hlive : 134488080 ∈ hundredBytes.live := by
    rw [hundredBytes, World.call_live hundredBytes_run]
    exact .inl rfl
  have hheap : hundredBytes.st.heapManager 0 ≠ 1 := by decide +kernel
  have hok : CallOk 0 hundredBytes 0 (.malloc 200) :=
    ⟨mayCall_main nofun hheap, (by decide : 200 < 2 ^ 64), by simp [Call.oaddr], by decide +kernel⟩
  have hstep : (system defaultConfig 0).step hundredBytes (.call (.above defaultConfig) 0 (.malloc 200)) _ :=
    World.call_step hok (by decide +kernel)
  have hrun := Run.single observe hstep
  exact ⟨_, _, _, hrun, object_kept (.next World.booted_reachable hundredBytes_step) hrun hlive
    (by simp [observe, Event.addr, Call.oaddr])⟩

end Llheap
