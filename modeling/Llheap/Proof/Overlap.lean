import Llheap.Proof.Sections
import Llheap.Proof.StoreRefines

/-!
# Calls that overlap

Runs in which a thread may be stopped between the sections of a call that moves an allocation, while other threads make calls of their own. Such a run is still a run of the object store, where a call that moves an allocation is a single step: it takes place when the old block is freed. A program may not use the old address while the call has it, and does not know the new one yet.

`resize` and `aligned_resize` hold nothing between the free and the request that replaces it, so their sections are two whole steps.
-/

namespace Llheap.Overlap

open Separation TransitionSystem

variable {cfg : Config}

/-- What a thread that has obtained storage does next. -/
inductive Pc
  | copy
  | free
  | carryZeroFill
deriving DecidableEq

structure Moving where
  call : Reallocation
  pc : Pc
  move : Move

/-- The addresses that only the call uses. -/
def Moving.Claims (p : Moving) (a : ℕ) : Prop :=
  a = p.move.naddr ∨ a = p.move.oaddr ∧ p.pc ≠ .carryZeroFill

structure World where
  plain : Separation.World
  moving : Tid → Option Moving

def World.Claimed (w : World) (a : ℕ) : Prop := ∃ t p, w.moving t = some p ∧ p.Claims a

inductive Label (cfg : Config)
  /-- a step that nothing comes between -/
  | whole (lab : Separation.Label cfg)
  /-- only if the contents are to move: a call that returns before that is a whole step -/
  | start (k : Kernel cfg) (t : Tid) (c : Reallocation) (oaddr : ℕ)
  | copy (t : Tid)
  | free (t : Tid)
  | carryZeroFill (t : Tid)

/-- The thread that takes a step, where it matters. -/
def actor (main : Tid) : Separation.Label cfg → Option Tid
  | .call _ t _ | .free t _ | .setErrno t _ | .dtor t | .terminate t => some t
  | .startup _ => some main
  | .usableSize _ | .write _ _ _ | .mallopt _ _ => none

def Step (main : Tid) (w : World) : Label cfg → World → Prop
  | .whole lab, w' => (∀ t ∈ actor main lab, w.moving t = none) ∧ (∀ a ∈ lab.addr, ¬ w.Claimed a) ∧
      Separation.Step main w.plain lab w'.plain ∧ w'.moving = w.moving
  | .start k t c oaddr, w' => w.moving t = none ∧ ¬ w.Claimed oaddr ∧ CallOk main w.plain t (c.call (some oaddr)) ∧
      ∃ m, c.start k t oaddr w.plain.st = .ok (.moving m, w'.plain.st) ∧
        w'.plain.live = liveAfter none false (some m.naddr) w.plain.live ∧ w'.plain.status = w.plain.status ∧
        w'.moving = Function.update w.moving t (some ⟨c, .copy, m⟩)
  | .copy t, w' => ∃ c m, w.moving t = some ⟨c, .copy, m⟩ ∧ w'.plain = { w.plain with st := m.copy w.plain.st } ∧
      w'.moving = Function.update w.moving t (some ⟨c, .free, m⟩)
  | .free t, w' => ∃ c m, w.moving t = some ⟨c, .free, m⟩ ∧ doFree t m.oaddr w.plain.st = .ok w'.plain.st ∧
      w'.plain.live = liveAfter (some m.oaddr) true none w.plain.live ∧ w'.plain.status = w.plain.status ∧
      w'.moving = Function.update w.moving t (some ⟨c, .carryZeroFill, m⟩)
  | .carryZeroFill t, w' => ∃ c m, w.moving t = some ⟨c, .carryZeroFill, m⟩ ∧
      w'.plain = { w.plain with st := m.carryZeroFill w.plain.st } ∧ w'.moving = Function.update w.moving t none

def system (cfg : Config) (main : Tid) : TransitionSystem World (Label cfg) where
  init w := (Separation.system cfg main).init w.plain ∧ w.moving = fun _ => none
  step := Step main

/-- A call that moves an allocation is seen when it frees the old block. -/
def observe (w : World) : Label cfg → World → List Event
  | .whole lab, w' => Llheap.observe w.plain lab w'.plain
  | .free t, _ => ((w.moving t).map fun p => Event.call (p.call.call (some p.move.oaddr)) (some p.move.naddr)).toList
  | _, _ => []

/-- What a program sees at an address that a call has: the old object until the old block is freed, and then the new one as it will be. -/
def Moving.seen (p : Moving) (s : State) (a : ℕ) : Option Object :=
  match p.pc with
  | .carryZeroFill => some (objectAt (p.move.carryZeroFill s) a)
  | _ => if a = p.move.oaddr then some { objectAt s a with alignment := p.move.oalignment } else none

structure Shows (w : World) (at? : ℕ → Option Object) : Prop where
  plain : ∀ a, ¬ w.Claimed a → at? a = objects w.plain a
  moving : ∀ t p a, w.moving t = some p → p.Claims a → at? a = p.seen w.plain.st a

/-! ### The storage of a move -/

/-- The alignment that the new address has. -/
def Moving.alignment (p : Moving) : ℕ :=
  match p.call with
  | .realloc _ => p.move.oalignment
  | .alignedRealloc nalignment _ => max nalignment libAlign

structure Held (A : Arena Tag) (s : State) (p : Moving) : Prop where
  new : ∃ l, liveAt A p.move.header = some l ∧ l.user = p.move.naddr ∧ l.view.size = p.move.nsize ∧
    l.view.zeroFill = false ∧ l.view.alignment.getD libAlign = p.alignment
  old : p.pc ≠ .carryZeroFill → ∃ b l, liveAt A b = some l ∧ b ≠ p.move.header ∧ l.user = p.move.oaddr ∧
    l.view.size = p.move.osize ∧ l.view.zeroFill = p.move.ozfill
  copied : p.pc = .free → ∀ i < min p.move.osize p.move.nsize,
    s.mem (p.move.naddr + i) = s.mem (p.move.oaddr + i)
  size : p.move.nsize = p.call.size ∧ 0 < p.move.nsize
  aligned : p.move.oalignment ∣ p.move.oaddr

variable {main : Tid} {k : Kernel cfg} {t : Tid} {s s' : State} {w w' : World} {S S' : Store} {p : Moving}
  {status status' : Tid → Status} {A A' : Arena Tag} {idle idle' : List ℕ} {a : ℕ} {o : Object} {addr : Option ℕ}

theorem Held.claims_live (h : Held A s p) (ha : p.Claims a) : a ∈ users (liveAt A) := by
  rcases ha with rfl | ⟨rfl, hpc⟩
  · obtain ⟨l, hb, huser, _⟩ := h.new
    exact ⟨_, l, hb, huser⟩
  · obtain ⟨b, l, hb, _, huser, _⟩ := h.old hpc
    exact ⟨b, l, hb, huser⟩

theorem Held.apart (h : Held A s p) (hr : Refines cfg main s status A idle) (hpc : p.pc ≠ .carryZeroFill) :
    p.move.naddr ≠ p.move.oaddr := by
  obtain ⟨l', hb', huser', _⟩ := h.new
  obtain ⟨b, l, hb, hne, huser, _⟩ := h.old hpc
  intro hsame
  exact hne (hr.user_injective hb hb' (by rw [huser, huser', hsame]))

/-- Until the old block is freed, the old address has its object. -/
theorem Held.seen_old (h : Held A s p) (hr : Refines cfg main s status A idle) (hpc : p.pc ≠ .carryZeroFill) :
    p.seen s p.move.oaddr = some ⟨s.mem.bytes p.move.oaddr p.move.osize, p.move.oalignment, p.move.ozfill⟩ := by
  obtain ⟨b, l, hb, _, huser, hsize, hz⟩ := h.old hpc
  have hobject := hr.object_eq hb
  rw [huser, hsize, hz] at hobject
  have hseen : p.seen s p.move.oaddr = some { objectAt s p.move.oaddr with alignment := p.move.oalignment } := by
    unfold Moving.seen
    split
    · next hcarry => exact absurd hcarry hpc
    · exact if_pos rfl
  rw [hseen, hobject]

theorem Held.seen_hidden (h : Held A s p) (hr : Refines cfg main s status A idle) (hpc : p.pc ≠ .carryZeroFill) :
    p.seen s p.move.naddr = none := by
  unfold Moving.seen
  split
  · next hcarry => exact absurd hcarry hpc
  · exact if_neg (h.apart hr hpc)

/-- Afterwards the new address has the object that the last section makes. -/
theorem Held.seen_new (h : Held A s p) (hr : Refines cfg main s status A idle) (hpc : p.pc = .carryZeroFill) :
    p.seen s p.move.naddr = some ⟨(p.move.carryZeroFill s).mem.bytes p.move.naddr p.move.nsize, p.alignment,
      p.move.ozfill⟩ := by
  obtain ⟨l, hb, huser, hsize, hplain, hal⟩ := h.new
  obtain ⟨A', hr', hlive, _⟩ := hr.carryZeroFill hb huser hsize hplain
  have hb' : liveAt A' p.move.header = _ := (congrFun hlive _).trans (Function.update_self ..)
  have hobject := hr'.object_eq hb'
  dsimp only at hobject
  rw [huser, hsize, hal] at hobject
  have hseen : p.seen s p.move.naddr = some (objectAt (p.move.carryZeroFill s) p.move.naddr) := by
    rw [Moving.seen, hpc]
  rw [hseen, hobject]

/-! ### Steps of other threads -/

theorem Held.new_others (h : Held A s p) (hr : Refines cfg main s status A idle) (hothers : Others A A' s s' addr)
    (hne : ∀ a ∈ addr, ¬ p.Claims a) {i : ℕ} (hi : i < p.move.nsize) :
    s'.mem (p.move.naddr + i) = s.mem (p.move.naddr + i) := by
  obtain ⟨l, hb, huser, hsize, _⟩ := h.new
  obtain ⟨_, hafter, hroom, _⟩ := hr.dataSize hb
  have hkept := (hothers _ l hb fun ha => hne _ ha (.inl huser)).2
  exact hkept ⟨by omega, by omega⟩

theorem Held.old_others (h : Held A s p) (hr : Refines cfg main s status A idle) (hothers : Others A A' s s' addr)
    (hne : ∀ a ∈ addr, ¬ p.Claims a) (hpc : p.pc ≠ .carryZeroFill) {i : ℕ} (hi : i < p.move.osize) :
    s'.mem (p.move.oaddr + i) = s.mem (p.move.oaddr + i) := by
  obtain ⟨b, l, hb, _, huser, hsize, _⟩ := h.old hpc
  obtain ⟨_, hafter, hroom, _⟩ := hr.dataSize hb
  have hkept := (hothers _ l hb fun ha => hne _ ha (.inr ⟨huser, hpc⟩)).2
  exact hkept ⟨by omega, by omega⟩

theorem Held.others (h : Held A s p) (hr : Refines cfg main s status A idle) (hothers : Others A A' s s' addr)
    (hne : ∀ a ∈ addr, ¬ p.Claims a) : Held A' s' p where
  new := by
    obtain ⟨l, hb, huser, hview⟩ := h.new
    exact ⟨l, (hothers _ l hb fun ha => hne _ ha (.inl huser)).1, huser, hview⟩
  old hpc := by
    obtain ⟨b, l, hb, hbne, huser, hview⟩ := h.old hpc
    exact ⟨b, l, (hothers b l hb fun ha => hne _ ha (.inr ⟨huser, hpc⟩)).1, hbne, huser, hview⟩
  copied hpc i hi := by
    have hcarry : p.pc ≠ .carryZeroFill := by simp [hpc]
    rw [h.new_others hr hothers hne (lt_min_iff.mp hi).2, h.old_others hr hothers hne hcarry (lt_min_iff.mp hi).1]
    exact h.copied hpc i hi
  size := h.size
  aligned := h.aligned

theorem Held.header_below (h : Held A s p) (hr : Refines cfg main s status A idle) :
    p.move.header + 8 ≤ p.move.naddr := by
  obtain ⟨l, hb, huser, _⟩ := h.new
  obtain ⟨_, hafter, _, _⟩ := hr.dataSize hb
  omega

theorem Held.seen_others (h : Held A s p) (hr : Refines cfg main s status A idle)
    (hr' : Refines cfg main s' status' A' idle') (hothers : Others A A' s s' addr) (hne : ∀ a ∈ addr, ¬ p.Claims a)
    (ha : p.Claims a) : p.seen s' a = p.seen s a := by
  have h' := h.others hr hothers hne
  by_cases hpc : p.pc = .carryZeroFill
  · obtain rfl : a = p.move.naddr := ha.resolve_right fun hold => hold.2 hpc
    rw [h.seen_new hr hpc, h'.seen_new hr' hpc]
    congr 2
    apply Memory.bytes_congr
    intro i hi
    rw [Move.carryZeroFill_contents (h.header_below hr) hi, Move.carryZeroFill_contents (h.header_below hr) hi,
      h.new_others hr hothers hne hi]
  · rcases ha with rfl | ⟨rfl, _⟩
    · rw [h.seen_hidden hr hpc, h'.seen_hidden hr' hpc]
    · rw [h.seen_old hr hpc, h'.seen_old hr' hpc]
      congr 2
      apply Memory.bytes_congr
      intro i hi
      exact h.old_others hr hothers hne hpc hi

theorem Held.seen_fits (h : Held A s p) (hr : Refines cfg main s status A idle) (ha : p.Claims a)
    (ho : p.seen s a = some o) : o.alignment ∣ a ∧ o.size = (objectAt s a).size := by
  by_cases hpc : p.pc = .carryZeroFill
  · obtain rfl : a = p.move.naddr := ha.resolve_right fun hold => hold.2 hpc
    obtain ⟨l, hb, huser, hsize, _, hal⟩ := h.new
    cases (h.seen_new hr hpc).symm.trans ho
    rw [← huser, hr.object_eq hb, ← hal]
    exact ⟨(hr.alignment_bounds hb).2.2.2, by simp [Object.size, hsize]⟩
  · rcases ha with rfl | ⟨rfl, _⟩
    · cases (h.seen_hidden hr hpc).symm.trans ho
    · obtain ⟨b, l, hb, _, huser, hsize, _⟩ := h.old hpc
      cases (h.seen_old hr hpc).symm.trans ho
      refine ⟨h.aligned, ?_⟩
      rw [← huser, hr.object_eq hb]
      simp [Object.size, hsize]

/-! ### Worlds -/

structure Holds (cfg : Config) (main : Tid) (w : World) (A : Arena Tag) (idle : List ℕ) : Prop where
  behind : Behind cfg main w.plain A idle
  held : ∀ t p, w.moving t = some p → Held A w.plain.st p
  apart : ∀ t u p q a, w.moving t = some p → w.moving u = some q → p.Claims a → q.Claims a → t = u

/-- A call of another thread has the address. -/
def World.Elsewhere (w : World) (t : Tid) (a : ℕ) : Prop := ∃ u q, u ≠ t ∧ w.moving u = some q ∧ q.Claims a

variable {p' : Option Moving} {f f' : ℕ → Option Object}

theorem World.Elsewhere.claimed (h : w.Elsewhere t a) : w.Claimed a := by
  obtain ⟨u, q, _, hq, ha⟩ := h
  exact ⟨u, q, hq, ha⟩

theorem Holds.not_elsewhere (h : Holds cfg main w A idle) (hp : w.moving t = some p) (ha : p.Claims a) :
    ¬ w.Elsewhere t a := by
  intro ⟨u, q, hne, hq, hclaims⟩
  exact hne (h.apart t u p q a hp hq ha hclaims).symm

theorem Holds.claimed_live (h : Holds cfg main w A idle) (ha : w.Claimed a) : a ∈ w.plain.live := by
  obtain ⟨t, p, hp, hclaims⟩ := ha
  rw [h.behind.live]
  exact (h.held t p hp).claims_live hclaims

theorem Claimed_of_update (hmoving : w'.moving = Function.update w.moving t p') (ha : w.Elsewhere t a) :
    w'.Claimed a := by
  obtain ⟨u, q, hne, hq, hclaims⟩ := ha
  exact ⟨u, q, by rw [hmoving, Function.update_of_ne hne, hq], hclaims⟩

theorem Holds.next (h : Holds cfg main w A idle) (h' : Behind cfg main w'.plain A' idle')
    (hothers : Others A A' w.plain.st w'.plain.st addr) (hmoving : w'.moving = Function.update w.moving t p')
    (haddr : ∀ a ∈ addr, ¬ w.Elsewhere t a) (hheld : ∀ p ∈ p', Held A' w'.plain.st p)
    (hclaims : ∀ p ∈ p', ∀ a, p.Claims a → ¬ w.Elsewhere t a) : Holds cfg main w' A' idle' where
  behind := h'
  held u q hq := by
    rw [hmoving] at hq
    by_cases hu : u = t
    · subst u
      rw [Function.update_self] at hq
      exact hheld q hq
    · rw [Function.update_of_ne hu] at hq
      exact (h.held u q hq).others h.behind.refines hothers fun a ha hc => haddr a ha ⟨u, q, hu, hq, hc⟩
  apart u v q r a hq hr hqa hra := by
    rw [hmoving] at hq hr
    by_cases hu : u = t
    · subst u
      rw [Function.update_self] at hq
      by_contra hv
      rw [Function.update_of_ne (Ne.symm hv)] at hr
      exact hclaims q hq a hqa ⟨v, r, Ne.symm hv, hr, hra⟩
    · rw [Function.update_of_ne hu] at hq
      by_cases hv : v = t
      · subst v
        rw [Function.update_self] at hr
        exact absurd ⟨u, q, hu, hq, hqa⟩ (hclaims r hr a hra)
      · rw [Function.update_of_ne hv] at hr
        exact h.apart u v q r a hq hr hqa hra

theorem Shows.next (hf : Shows w f) (h : Holds cfg main w A idle) (h' : Behind cfg main w'.plain A' idle')
    (hothers : Others A A' w.plain.st w'.plain.st addr) (hmoving : w'.moving = Function.update w.moving t p')
    (haddr : ∀ a ∈ addr, ¬ w.Elsewhere t a) (hkept : ∀ a, w.Elsewhere t a → f' a = f a)
    (hmine : ∀ p ∈ p', ∀ a, p.Claims a → f' a = p.seen w'.plain.st a)
    (hplain : ∀ a, ¬ w'.Claimed a → f' a = objects w'.plain a) : Shows w' f' where
  plain := hplain
  moving u q a hq ha := by
    rw [hmoving] at hq
    by_cases hu : u = t
    · subst u
      rw [Function.update_self] at hq
      exact hmine q hq a ha
    · rw [Function.update_of_ne hu] at hq
      rw [hkept a ⟨u, q, hu, hq, ha⟩, hf.moving u q a hq ha]
      exact ((h.held u q hq).seen_others h.behind.refines h'.refines hothers
        (fun a ha hc => haddr a ha ⟨u, q, hu, hq, hc⟩) ha).symm

/-- What is at an address that no call has, and that a step does not name. -/
theorem Shows.plain_next (hf : Shows w f) (h : Holds cfg main w A idle) (h' : Behind cfg main w'.plain A' idle')
    (hothers : Others A A' w.plain.st w'.plain.st addr) (ha : ¬ w.Claimed a) (hne : a ∉ addr)
    (hlive : a ∈ w'.plain.live ↔ a ∈ w.plain.live) : f a = objects w'.plain a :=
  (hf.plain a ha).trans (h.behind.objects_others h' hothers hne hlive).symm

theorem Holds.exists_store (h : Holds cfg main w A idle) (hf : Shows w f) : ∃ S : Store, S.at? = f := by
  obtain ⟨S₀, hS₀⟩ := h.behind.exists_shows
  refine S₀.exists_masked fun a o ho => ?_
  by_cases ha : w.Claimed a
  · have hobject : S₀.at? a = some (objectAt w.plain.st a) := by rw [hS₀, objects_of_live (h.claimed_live ha)]
    obtain ⟨t, p, hp, hclaims⟩ := ha
    rw [hf.moving t p a hp hclaims] at ho
    obtain ⟨hdvd, hsize⟩ := (h.held t p hp).seen_fits h.behind.refines hclaims ho
    exact ⟨hdvd, _, hobject, hsize⟩
  · have hobject : S₀.at? a = some o := by rw [hS₀, ← hf.plain a ha, ho]
    exact ⟨S₀.aligned a o hobject, o, hobject, rfl⟩

theorem Holds.masks {S₀ : Store} (h : Holds cfg main w A idle) (hS₀ : Llheap.Shows w.plain S₀) (hS : Shows w S.at?) :
    Store.Masks w.Claimed S₀ S where
  same a ha := by rw [hS.plain a ha, hS₀]
  taken a ha := by
    rw [hS₀, objects_of_live (h.claimed_live ha)]
    exact Option.some_ne_none _
  fits a o ha ho := by
    refine ⟨objectAt w.plain.st a, by rw [hS₀, objects_of_live (h.claimed_live ha)], ?_⟩
    obtain ⟨t, p, hp, hclaims⟩ := ha
    rw [hS.moving t p a hp hclaims] at ho
    exact ((h.held t p hp).seen_fits h.behind.refines hclaims ho).2

/-! ### Whole steps -/

theorem observe_addr {lab : Separation.Label cfg} {v v' : Separation.World} {e : Event}
    (he : e ∈ Llheap.observe v lab v') : e.addr = lab.addr := by
  cases lab with
  | call k t c | usableSize addr | free t addr | write addr offset byte =>
    rw [Llheap.observe, List.mem_singleton] at he
    rw [he]
    rfl
  | setErrno t e | mallopt option value | startup k | dtor t | terminate t => cases he

/-- A step that names nothing that a call has goes as if the calls were not there. -/
theorem whole_seen {lab : Separation.Label cfg} (h : Holds cfg main w A idle) (hS : Shows w S.at?)
    (hs : Step main w (.whole lab) w') :
    ∃ S', Store.system.Run labels S (observe w (.whole lab) w') S' ∧ (∃ A' idle', Holds cfg main w' A' idle') ∧
      Shows w' S'.at? := by
  obtain ⟨_, hfree, hstep, hmoving⟩ := hs
  obtain ⟨A', idle', h', hothers⟩ := step_behind h.behind hstep
  obtain ⟨S₀, hS₀⟩ := h.behind.exists_shows
  obtain ⟨S₀', hrun₀, _, hS₀'⟩ := (store_simulates cfg main).step _ lab _ S₀ ⟨⟨A, idle, h.behind⟩, hS₀⟩ hstep
  obtain ⟨S', hrun, hmask, hkept⟩ := Store.frame_run hrun₀ (h.masks hS₀ hS) fun e he a ha =>
    hfree a (observe_addr he ▸ ha)
  have hclaimed : ∀ a, w'.Claimed a ↔ w.Claimed a := fun a => by rw [World.Claimed, World.Claimed, hmoving]
  have hsame : w'.moving = Function.update w.moving main (w.moving main) := by rw [Function.update_eq_self, hmoving]
  have haddr : ∀ a ∈ lab.addr, ¬ w.Elsewhere main a := fun a ha helse => hfree a ha helse.claimed
  have hclaims : ∀ p ∈ w.moving main, ∀ a ∈ lab.addr, ¬ p.Claims a := fun p hp a ha hc => hfree a ha ⟨main, p, hp, hc⟩
  refine ⟨S', hrun, ⟨A', idle', ?_⟩, ?_⟩
  · exact h.next h' hothers hsame haddr (fun p hp => (h.held main p hp).others h.behind.refines hothers (hclaims p hp))
      fun p hp a ha => h.not_elsewhere hp ha
  · refine hS.next h h' hothers hsame haddr (fun a ha => hkept a ha.claimed) (fun p hp a ha => ?_) fun a ha => ?_
    · rw [hkept a ⟨main, p, hp, ha⟩, hS.moving main p a hp ha]
      exact ((h.held main p hp).seen_others h.behind.refines h'.refines hothers (hclaims p hp) ha).symm
    · rw [hmask.same a (mt (hclaimed a).mpr ha), hS₀']

/-! ### Starting -/

theorem Held.of_started {c : Reallocation} {b : ℕ} {l : Live} {m : Move}
    (h : Started (liveAt A) (liveAt A') s s' b l m c.size (c.alignment s l.user))
    (hr : Refines cfg main s status A idle) (hb : liveAt A b = some l)
    (hold : m.oalignment = l.view.alignment.getD libAlign) : Held A' s' ⟨c, .copy, m⟩ := by
  have hne := h.header_ne hb
  obtain ⟨⟨huser, hsize, hz⟩, ⟨hnsize, hpos⟩, _, _, n, origin, al, v, hnone, hal, hlive⟩ := h
  refine ⟨⟨_, by rw [hlive, Function.update_self], rfl, hnsize.symm, rfl, ?_⟩, fun _ => ⟨b,
    { l with view := { l.view with alignment := v } }, ?_, hne, huser.symm, hsize.symm, hz.symm⟩, fun hpc => (by cases hpc), ⟨hnsize, hnsize ▸ hpos⟩, ?_⟩
  · rw [hal, Moving.alignment]
    cases c with
    | realloc size => exact (hr.queries hb).2.2.trans hold.symm
    | alignedRealloc nalignment size => rfl
  · rw [hlive, Function.update_of_ne hne, Function.update_self]
  · show m.oalignment ∣ m.oaddr
    rw [hold, huser]
    exact (hr.alignment_bounds hb).2.2.2

theorem start_seen {c : Reallocation} {oaddr : ℕ} (h : Holds cfg main w A idle) (hS : Shows w S.at?)
    (hs : Step main w (.start k t c oaddr) w') :
    ∃ S', Store.system.Run labels S (observe w (.start k t c oaddr) w') S' ∧
      (∃ A' idle', Holds cfg main w' A' idle') ∧ Shows w' S'.at? := by
  obtain ⟨⟨st', status', live'⟩, moving'⟩ := w'
  obtain ⟨hnone, hfree, hok, m, hstart, hlive, hstatus, hmoving⟩ := hs
  dsimp only at hstart hlive hstatus hmoving
  subst hlive hstatus
  have hcall : (c.call (some oaddr)).oaddr = some oaddr := by cases c <;> rfl
  have hu := hok.old oaddr hcall
  obtain ⟨b, l, hb, rfl⟩ : oaddr ∈ users (liveAt A) := h.behind.live ▸ hu
  obtain ⟨A', idle', hr', hold, hstarted⟩ := h.behind.refines.start hok.may hb hok.valid hok.fits hstart
  have hheld : Held A' st' ⟨c, .copy, m⟩ := Held.of_started hstarted h.behind.refines hb hold
  have hfresh : m.naddr ∉ w.plain.live := h.behind.live ▸ hstarted.fresh hb hr'.injective
  have huser : m.oaddr = l.user := hstarted.old.1
  let v : World := ⟨⟨st', w.plain.status, liveAfter none false (some m.naddr) w.plain.live⟩, moving'⟩
  have h' : Behind cfg main v.plain A' idle' := by
    refine ⟨hr', ?_⟩
    rw [hstarted.users_eq hb h.behind.refines.injective, ← h.behind.live]
  have hothers : Others A A' w.plain.st v.plain.st (some l.user) := hstarted.others hb
  have haddr : ∀ a ∈ some l.user, ¬ w.Elsewhere t a := fun a ha helse => hfree (Option.some.inj ha ▸ helse.claimed)
  have hcopy : (⟨c, .copy, m⟩ : Moving).pc ≠ .carryZeroFill := by simp
  have hmine : ∀ p ∈ some (⟨c, .copy, m⟩ : Moving), ∀ a, p.Claims a → a = m.naddr ∨ a = l.user := by
    intro p hp a ha
    cases hp
    exact ha.imp_right fun ha => ha.1.trans huser
  refine ⟨S, .refl S, ⟨A', idle', ?_⟩, ?_⟩
  · refine h.next h' hothers hmoving haddr (fun p hp => Option.some.inj hp ▸ hheld) fun p hp a ha helse => ?_
    rcases hmine p hp a ha with rfl | rfl
    · exact hfresh (h.claimed_live helse.claimed)
    · exact hfree helse.claimed
  · refine hS.next h h' hothers hmoving haddr (fun _ _ => rfl) (fun p hp a ha => ?_) fun a ha => ?_
    · cases hp
      rcases hmine _ rfl a ha with rfl | rfl
      · rw [hS.plain _ fun hclaimed => hfresh (h.claimed_live hclaimed), objects_of_notMem hfresh]
        exact (hheld.seen_hidden hr' hcopy).symm
      · rw [hS.plain _ hfree, objects_of_live hu]
        have hseen := hheld.seen_old hr' hcopy
        dsimp only at hseen
        rw [huser, hstarted.old.2.1, hstarted.old.2.2, hold] at hseen
        rw [hseen, h.behind.refines.object_eq hb]
        obtain ⟨_, _, hroom, _⟩ := h.behind.refines.dataSize hb
        congr 2
        apply Memory.bytes_congr
        intro i hi
        exact (hstarted.contents _ (Nat.le_add_right ..) (by omega)).symm
    · have hclaims : ∀ a, (⟨c, .copy, m⟩ : Moving).Claims a → v.Claimed a :=
        fun a hc => ⟨t, _, (congrFun hmoving t).trans (Function.update_self ..), hc⟩
      have hnaddr : a ≠ m.naddr := fun heq => ha (hclaims a (.inl heq))
      have hoaddr : a ≠ l.user := fun heq => ha (hclaims a (.inr ⟨heq.trans huser.symm, hcopy⟩))
      refine hS.plain_next h h' hothers (fun ⟨u, q, hq, hc⟩ => ha ⟨u, q, ?_, hc⟩)
        (fun hmem => hoaddr (Option.some.inj hmem).symm) ?_
      · show moving' u = some q
        rw [hmoving, Function.update_of_ne, hq]
        rintro rfl
        rw [hnone] at hq
        cases hq
      · simp [liveAfter, Ne.symm hnaddr]

/-! ### Copying and freeing -/

theorem Claimed_iff (hmoving : w'.moving = Function.update w.moving t p') :
    w'.Claimed a ↔ (∃ q ∈ p', q.Claims a) ∨ w.Elsewhere t a := by
  constructor
  · intro ⟨u, q, hq, ha⟩
    rw [hmoving] at hq
    by_cases hu : u = t
    · subst u
      rw [Function.update_self] at hq
      exact .inl ⟨q, hq, ha⟩
    · rw [Function.update_of_ne hu] at hq
      exact .inr ⟨u, q, hu, hq, ha⟩
  · rintro (⟨q, hq, ha⟩ | helse)
    · exact ⟨t, q, by rw [hmoving, Function.update_self, hq], ha⟩
    · exact Claimed_of_update hmoving helse

theorem copy_seen (h : Holds cfg main w A idle) (hS : Shows w S.at?)
    (hs : Step main w (.copy t : Label cfg) w') :
    ∃ S', Store.system.Run labels S (observe w (.copy t : Label cfg) w') S' ∧
      (∃ A' idle', Holds cfg main w' A' idle') ∧ Shows w' S'.at? := by
  obtain ⟨plain', moving'⟩ := w'
  obtain ⟨c, m, hp, hplain, hmoving⟩ := hs
  dsimp only at hplain hmoving
  subst hplain hmoving
  have hheld := h.held t _ hp
  have hpc : (⟨c, .copy, m⟩ : Moving).pc ≠ .carryZeroFill := by simp
  obtain ⟨l', hb', huser', hsize', hview'⟩ := hheld.new
  obtain ⟨b, l, hb, hne, huser, hview⟩ := hheld.old hpc
  dsimp only at hb' huser' hsize' hne huser
  obtain ⟨A', hr', hlive, hframe⟩ := h.behind.refines.copy hb' huser' hsize'
  have h' : Behind cfg main { w.plain with st := m.copy w.plain.st } A' idle := ⟨hr', by rw [hlive, ← h.behind.live]⟩
  have hothers : Others A A' w.plain.st (m.copy w.plain.st) (some l'.user) :=
    .of_frame hb' (fun c _ => by rw [hlive]) hframe
  have hkept : ∀ i < m.osize, (m.copy w.plain.st).mem (m.oaddr + i) = w.plain.st.mem (m.oaddr + i) := by
    intro i hi
    obtain ⟨_, hafter, hroom, _⟩ := h.behind.refines.dataSize hb
    have hbytes := (hothers b l hb fun hu => hne (h.behind.refines.user_injective hb hb' (Option.some.inj hu).symm)).2
    dsimp only at hview
    exact hbytes ⟨by omega, by omega⟩
  have hheld' : Held A' (m.copy w.plain.st) ⟨c, .free, m⟩ := by
    refine ⟨⟨l', hlive ▸ hb', huser', hsize', hview'⟩, fun _ => ⟨b, l, hlive ▸ hb, hne, huser, hview⟩, ?_, hheld.size,
      hheld.aligned⟩
    intro _ i hi
    exact (Move.copy_contents hi).trans (hkept i (lt_min_iff.mp hi).1).symm
  have hpc' : (⟨c, .free, m⟩ : Moving).pc ≠ .carryZeroFill := by simp
  have hsame : ∀ a, (⟨c, .free, m⟩ : Moving).Claims a ↔ (⟨c, .copy, m⟩ : Moving).Claims a :=
    fun a => or_congr_right (and_congr_right fun _ => iff_of_true hpc' hpc)
  have haddr : ∀ a ∈ some l'.user, ¬ w.Elsewhere t a := by
    intro a ha
    exact h.not_elsewhere hp (.inl ((Option.some.inj ha).symm.trans huser'))
  refine ⟨S, .refl S, ⟨A', idle, ?_⟩, ?_⟩
  · refine h.next h' hothers rfl haddr (fun p hp => Option.some.inj hp ▸ hheld') fun p hp' a ha => ?_
    cases hp'
    exact h.not_elsewhere hp ((hsame a).mp ha)
  · refine hS.next h h' hothers rfl haddr (fun _ _ => rfl) (fun p hp' a ha => ?_) fun a ha => ?_
    · cases hp'
      rw [hS.moving t _ a hp ((hsame a).mp ha)]
      rcases ha with rfl | ⟨rfl, _⟩
      · exact (hheld.seen_hidden h.behind.refines hpc).trans (hheld'.seen_hidden hr' hpc').symm
      · refine (hheld.seen_old h.behind.refines hpc).trans ((hheld'.seen_old hr' hpc').trans ?_).symm
        congr 2
        apply Memory.bytes_congr
        exact hkept
    · rw [Claimed_iff rfl] at ha
      have hfree : ¬ w.Claimed a := by
        intro ⟨u, q, hq, hc⟩
        by_cases hu : u = t
        · subst u
          cases hp.symm.trans hq
          exact ha (.inl ⟨_, rfl, (hsame a).mpr hc⟩)
        · exact ha (.inr ⟨u, q, hu, hq, hc⟩)
      refine hS.plain_next h h' hothers hfree (fun hmem => ?_) Iff.rfl
      exact hfree ⟨t, _, hp, .inl ((Option.some.inj hmem).symm.trans huser')⟩

theorem alignedTo_of_pos {alignment size : ℕ} (hpos : 0 < size) : alignedTo alignment size = max alignment libAlign :=
  if_neg hpos.ne'

/-- The object that the last section makes has the old contents. -/
theorem Held.continues (h : Held A s p) (hr : Refines cfg main s status A idle) (hpc : p.pc = .free)
    (hothers : Others A A' s s' (some p.move.oaddr)) :
    (p.call.call (some p.move.oaddr)).Makes (p.seen s p.move.oaddr)
      ⟨(p.move.carryZeroFill s').mem.bytes p.move.naddr p.move.nsize, p.alignment, p.move.ozfill⟩ := by
  have hcarry : p.pc ≠ .carryZeroFill := by simp [hpc]
  obtain ⟨hsize, hpos⟩ := h.size
  have hcontents : ∀ i < min p.move.nsize p.move.osize,
      (p.move.carryZeroFill s').mem (p.move.naddr + i) = s.mem (p.move.oaddr + i) := by
    intro i hi
    obtain ⟨hlt, hlt'⟩ := lt_min_iff.mp hi
    obtain ⟨l, hb, huser, hview, _⟩ := h.new
    obtain ⟨_, hafter, hroom, _⟩ := hr.dataSize hb
    have hbytes := (hothers _ l hb fun hu => h.apart hr hcarry (huser.symm.trans (Option.some.inj hu).symm)).2
    rw [Move.carryZeroFill_contents (h.header_below hr) hlt, if_neg fun hz => absurd hz.2 (not_le.mpr hlt')]
    rw [← h.copied hpc i (lt_min_iff.mpr ⟨hlt', hlt⟩)]
    exact hbytes ⟨by omega, by omega⟩
  have hmakes : ∀ al, al = p.alignment → Object.Continues
      ⟨(p.move.carryZeroFill s').mem.bytes p.move.naddr p.move.nsize, p.alignment, p.move.ozfill⟩
      ⟨s.mem.bytes p.move.oaddr p.move.osize, p.move.oalignment, p.move.ozfill⟩ p.call.size al := by
    rintro al rfl
    refine ⟨Memory.length_bytes.trans hsize, rfl, rfl, ?_, fun hz byte hbyte => ?_⟩
    · dsimp only
      rw [Memory.take_bytes, ← hsize, ← Memory.bytes_congr hcontents]
      exact Memory.bytes_isPrefix (min_le_left ..)
    · dsimp only [Object.size] at hbyte
      rw [Memory.length_bytes] at hbyte
      obtain ⟨i, hi, hlt, rfl⟩ := Memory.mem_drop_bytes hbyte
      rw [Move.carryZeroFill_contents (h.header_below hr) hlt]
      exact if_pos ⟨hz, hi⟩
  rw [h.seen_old hr hcarry]
  obtain ⟨c, pc, m⟩ := p
  cases c with
  | realloc size => exact hmakes _ rfl
  | alignedRealloc nalignment size =>
    have hsize' : m.nsize = size := hsize
    exact hmakes _ (alignedTo_of_pos (hsize' ▸ hpos))

/-- The program sees the call when the old block is freed. -/
theorem free_seen (h : Holds cfg main w A idle) (hS : Shows w S.at?) (hs : Step main w (.free t : Label cfg) w') :
    ∃ S', Store.system.Run labels S (observe w (.free t : Label cfg) w') S' ∧
      (∃ A' idle', Holds cfg main w' A' idle') ∧ Shows w' S'.at? := by
  obtain ⟨⟨st', status', live'⟩, moving'⟩ := w'
  obtain ⟨c, m, hp, hfree, hlive, hstatus, hmoving⟩ := hs
  dsimp only at hfree hlive hstatus hmoving
  subst hlive hstatus hmoving
  have hheld := h.held t _ hp
  have hpc : (⟨c, .free, m⟩ : Moving).pc ≠ .carryZeroFill := by simp
  have hpc' : (⟨c, .carryZeroFill, m⟩ : Moving).pc = .carryZeroFill := rfl
  have holdclaim : (⟨c, .free, m⟩ : Moving).Claims m.oaddr := .inr ⟨rfl, hpc⟩
  have hnewclaim : (⟨c, .free, m⟩ : Moving).Claims m.naddr := .inl rfl
  have hold : ∀ u ∈ some m.oaddr, u ∈ w.plain.live := fun u hu =>
    Option.some.inj hu ▸ h.claimed_live ⟨t, _, hp, holdclaim⟩
  obtain ⟨A', h', hothers⟩ := free_behind (t := t) h.behind hold hfree
  have hapart : m.naddr ≠ m.oaddr := hheld.apart h.behind.refines hpc
  have hheld' : Held A' st' ⟨c, .carryZeroFill, m⟩ := by
    obtain ⟨l', hb', huser', hview'⟩ := hheld.new
    have hkept := (hothers _ l' hb' fun hu => hapart (huser'.symm.trans (Option.some.inj hu).symm)).1
    exact ⟨⟨l', hkept, huser', hview'⟩, fun hne => absurd rfl hne, fun hne => (by cases hne), hheld.size, hheld.aligned⟩
  let v : World := ⟨⟨st', w.plain.status, liveAfter (some m.oaddr) true none w.plain.live⟩,
    Function.update w.moving t (some ⟨c, .carryZeroFill, m⟩)⟩
  have haddr : ∀ a ∈ some m.oaddr, ¬ w.Elsewhere t a := fun a ha =>
    h.not_elsewhere hp (Option.some.inj ha ▸ holdclaim)
  have hclaims : ∀ p ∈ some (⟨c, .carryZeroFill, m⟩ : Moving), ∀ a, p.Claims a → a = m.naddr := by
    intro p hp a ha
    cases hp
    exact ha.resolve_right fun hold => hold.2 rfl
  have hholds : Holds cfg main v A' idle := by
    refine h.next h' hothers rfl haddr (fun p hp => Option.some.inj hp ▸ hheld') fun p hp' a ha => ?_
    rw [hclaims p hp' a ha]
    exact h.not_elsewhere hp hnewclaim
  -- the new object appears as the old one goes
  let o : Object := ⟨(m.carryZeroFill st').mem.bytes m.naddr m.nsize, (⟨c, .free, m⟩ : Moving).alignment, m.ozfill⟩
  have hshows : Shows v (Function.update (S.without (some m.oaddr)) m.naddr (some o)) := by
    refine hS.next h h' hothers rfl haddr (fun a ha => ?_) (fun p hp' a ha => ?_) fun a ha => ?_
    · have hna : a ≠ m.naddr := by
        rintro rfl
        exact h.not_elsewhere hp hnewclaim ha
      have hoa : a ∉ some m.oaddr := fun hmem => haddr a hmem ha
      rw [Function.update_of_ne hna, Store.without_of_notMem hoa]
    · obtain rfl := hclaims p hp' a ha
      cases hp'
      rw [Function.update_self]
      exact (hheld'.seen_new h'.refines hpc').symm
    · rw [Claimed_iff rfl] at ha
      have hna : a ≠ m.naddr := fun heq => ha (.inl ⟨_, rfl, .inl heq⟩)
      rw [Function.update_of_ne hna]
      by_cases hoa : a ∈ some m.oaddr
      · rw [Store.without, if_pos hoa, objects_of_notMem]
        exact fun hmem => hmem.elim (fun hr => by cases hr) fun hkept => hkept.2 ⟨rfl, hoa⟩
      · rw [Store.without_of_notMem hoa]
        have hmem : a ∈ v.plain.live ↔ a ∈ w.plain.live :=
          ⟨fun hmem => hmem.elim (fun hr => by cases hr) And.left, fun hmem => .inr ⟨hmem, fun hgone => hoa hgone.2⟩⟩
        refine hS.plain_next h h' hothers (fun hclaimed => ?_) hoa hmem
        obtain ⟨u, q, hq, hc⟩ := hclaimed
        by_cases hu : u = t
        · subst u
          cases hp.symm.trans hq
          exact hc.elim hna fun hold => hoa (congrArg some hold.1.symm)
        · exact ha (.inr ⟨u, q, hu, hq, hc⟩)
  obtain ⟨S', hS'⟩ := hholds.exists_store hshows
  have hstep : S.Step (.call (c.call (some m.oaddr)) (some m.naddr)) S' := by
    have hcall : (c.call (some m.oaddr)).oaddr = some m.oaddr := by cases c <;> rfl
    have hmakes := hheld.continues h.behind.refines rfl hothers
    rw [← hS.moving t _ m.oaddr hp holdclaim] at hmakes
    refine ⟨?_, o, ?_, ?_⟩
    · rw [hcall, Store.without_of_notMem fun hu => hapart (Option.some.inj hu).symm]
      exact (hS.moving t _ m.naddr hp hnewclaim).trans (hheld.seen_hidden h.behind.refines hpc)
    · rw [hcall]
      exact hmakes
    · rw [hcall, hS']
  have hseen : observe w (.free t : Label cfg) v = [.call (c.call (some m.oaddr)) (some m.naddr)] := by
    rw [observe, hp]
    rfl
  rw [hseen]
  exact ⟨S', .single labels hstep, ⟨A', idle, hholds⟩, hS' ▸ hshows⟩

theorem carryZeroFill_seen (h : Holds cfg main w A idle) (hS : Shows w S.at?)
    (hs : Step main w (.carryZeroFill t : Label cfg) w') :
    ∃ S', Store.system.Run labels S (observe w (.carryZeroFill t : Label cfg) w') S' ∧
      (∃ A' idle', Holds cfg main w' A' idle') ∧ Shows w' S'.at? := by
  obtain ⟨plain', moving'⟩ := w'
  obtain ⟨c, m, hp, hplain, hmoving⟩ := hs
  dsimp only at hplain hmoving
  subst hplain hmoving
  have hclaim : (⟨c, .carryZeroFill, m⟩ : Moving).Claims m.naddr := .inl rfl
  obtain ⟨l', hb', huser', hsize', hplain', hview'⟩ := (h.held t _ hp).new
  dsimp only at hb' huser' hsize'
  obtain ⟨A', hr', hlive, hframe⟩ := h.behind.refines.carryZeroFill hb' huser' hsize' hplain'
  have hedited : users (liveAt A') = users (liveAt A) := by
    rw [hlive]
    exact users_edited hb' rfl h.behind.refines.injective
  have h' : Behind cfg main { w.plain with st := m.carryZeroFill w.plain.st } A' idle :=
    ⟨hr', by rw [hedited, ← h.behind.live]⟩
  have hothers : Others A A' w.plain.st (m.carryZeroFill w.plain.st) (some l'.user) :=
    .of_frame hb' (fun c hc => by rw [hlive, Function.update_of_ne hc]) hframe
  have haddr : ∀ a ∈ some l'.user, ¬ w.Elsewhere t a := fun a ha =>
    h.not_elsewhere hp ((Option.some.inj ha).symm.trans huser' ▸ hclaim)
  have hnone : ∀ {P : Moving → Prop}, ∀ p ∈ (none : Option Moving), P p := fun p hp => by cases hp
  refine ⟨S, .refl S, ⟨A', idle, h.next h' hothers rfl haddr hnone hnone⟩, ?_⟩
  refine hS.next h h' hothers rfl haddr (fun _ _ => rfl) hnone fun a ha => ?_
  rw [Claimed_iff rfl] at ha
  by_cases hna : a = m.naddr
  · subst a
    have hmem : m.naddr ∈ ({ w.plain with st := m.carryZeroFill w.plain.st } : Separation.World).live :=
      h.claimed_live ⟨t, _, hp, hclaim⟩
    rw [hS.moving t _ _ hp hclaim, objects_of_live hmem]
    rfl
  · refine hS.plain_next h h' hothers (fun ⟨u, q, hq, hc⟩ => ?_) (fun hmem => ?_) Iff.rfl
    · by_cases hu : u = t
      · subst u
        cases hp.symm.trans hq
        exact hc.elim hna fun hold => hold.2 rfl
      · exact ha (.inr ⟨u, q, hu, hq, hc⟩)
    · exact hna ((Option.some.inj hmem).symm.trans huser')

/-! ### Runs -/

theorem overlap_simulates (cfg : Config) (main : Tid) : (system cfg main).Simulation Store.system observe
    fun w S => (∃ A idle, Holds cfg main w A idle) ∧ Shows w S.at? where
  init w hw := by
    obtain ⟨hplain, hmoving⟩ := hw
    obtain ⟨A, idle, hbehind⟩ := init_inv hplain
    have hnone : ∀ t p, w.moving t ≠ some p := by simp [hmoving]
    refine ⟨Store.empty, rfl, ⟨A, idle, hbehind, fun t p hp => absurd hp (hnone t p), fun t u p q a hp =>
      absurd hp (hnone t p)⟩, fun a _ => ?_, fun t p a hp => absurd hp (hnone t p)⟩
    rw [objects_of_notMem (by rw [hplain.2.2]; exact Set.notMem_empty a)]
    rfl
  step w lab w' S hrel hs := by
    obtain ⟨⟨A, idle, h⟩, hS⟩ := hrel
    cases lab with
    | whole lab => exact whole_seen h hS hs
    | start k t c oaddr => exact start_seen h hS hs
    | copy t => exact copy_seen h hS hs
    | free t => exact free_seen h hS hs
    | carryZeroFill t => exact carryZeroFill_seen h hS hs

/-- However the sections of calls are interleaved, the program sees a run of the object store in which each call that moves an allocation is one step. -/
theorem overlaps_refine_store {es : List Event} (h0 : (system cfg main).init w)
    (hrun : (system cfg main).Run observe w es w') :
    ∃ S, Store.system.Run labels Store.empty es S ∧ Shows w' S.at? := by
  obtain ⟨_, rfl, hrel⟩ := (overlap_simulates cfg main).init w h0
  obtain ⟨S, hS, _, hshows⟩ := (overlap_simulates cfg main).run hrun hrel
  exact ⟨S, hS, hshows⟩

/-! ### A write during a reallocation -/

private def one : Separation.World := World.booted.call (.above defaultConfig) 0 (.malloc 8)

private def two : Separation.World := one.call (.above defaultConfig) 0 (.malloc 8)

private theorem one_run : (Call.malloc 8).run (.above defaultConfig) 0 World.booted.st =
    .ok (some 134488080, one.st) := World.call_run (by decide +kernel) (by decide +kernel)

private theorem two_run : (Call.malloc 8).run (.above defaultConfig) 0 one.st = .ok (some 134488112, two.st) :=
  World.call_run (by decide +kernel) (by decide +kernel)

private theorem two_live : two.live = {134488080, 134488112} := by
  rw [two, World.call_live two_run, one, World.call_live one_run]
  ext u
  simp [World.booted, liveAfter, Call.gives, Call.oaddr, eq_comm, or_comm]

private def asked : State :=
  (((Reallocation.realloc 300).start (.above defaultConfig) 0 134488080 two.st).getD (.returned none, two.st)).2

private def enlarging : Move := ⟨134488080, 16, 8, false, 300, 134488144, 134488128⟩

private theorem asked_start : (Reallocation.realloc 300).start (.above defaultConfig) 0 134488080 two.st =
    .ok (.moving enlarging, asked) := Result.eq_ok_pair (by decide +kernel) (by decide +kernel)

private def written : State := { asked with mem := Function.update asked.mem (134488112 + 0) 7 }

private def freed : State := (doFree 0 enlarging.oaddr (enlarging.copy written)).getD written

private theorem freed_run : doFree 0 enlarging.oaddr (enlarging.copy written) = .ok freed :=
  Result.eq_ok (by decide +kernel) written

private def liveBefore : Set ℕ := liveAfter none false (some enlarging.naddr) two.live

private abbrev idleAt (w : Separation.World) : World := ⟨w, fun _ => none⟩

private abbrev enlargingAt (st : State) (live : Set ℕ) (pc : Pc) : World :=
  ⟨⟨st, fun _ => .alive, live⟩, Function.update (fun _ => none) 0 (some ⟨.realloc 300, pc, enlarging⟩)⟩

private def ending : World :=
  ⟨⟨enlarging.carryZeroFill freed, fun _ => .alive, liveAfter (some enlarging.oaddr) true none liveBefore⟩, fun _ => none⟩

private theorem idle_free {v : Separation.World} (a : ℕ) : ¬ (idleAt v).Claimed a := by
  intro ⟨_, _, hp, _⟩
  cases hp

private theorem idle_step {v v' : Separation.World} {lab : Separation.Label defaultConfig}
    (h : Separation.Step 0 v lab v') : (system defaultConfig 0).step (idleAt v) (.whole lab) (idleAt v') :=
  ⟨fun _ _ => rfl, fun a _ => idle_free a, h, rfl⟩

private theorem two_step : Separation.Step 0 one (.call (.above defaultConfig) 0 (.malloc 8)) two := by
  have hheap : one.st.heapManager 0 ≠ 1 := by decide +kernel
  have hvalid : (Call.malloc 8).Valid := (by decide : 8 < 2 ^ 64)
  exact World.call_step ⟨mayCall_main nofun hheap, hvalid, by simp [Call.oaddr], by decide +kernel⟩ (by decide +kernel)

private theorem asked_step : (system defaultConfig 0).step (idleAt two)
    (.start (.above defaultConfig) 0 (.realloc 300) 134488080) (enlargingAt asked liveBefore .copy) := by
  have hheap : two.st.heapManager 0 ≠ 1 := by decide +kernel
  have hok : CallOk 0 two 0 (.realloc (some 134488080) 300) := by
    refine ⟨mayCall_main nofun hheap, (by decide : 300 < 2 ^ 64), fun u hu => ?_, by decide +kernel⟩
    rw [two_live]
    exact .inl (Option.some.inj hu).symm
  refine ⟨rfl, idle_free _, hok, enlarging, ?_, rfl, rfl, rfl⟩
  dsimp only
  exact asked_start

private theorem written_step : (system defaultConfig 0).step (enlargingAt asked liveBefore .copy)
    (.whole (.write 134488112 0 7)) (enlargingAt written liveBefore .copy) := by
  refine ⟨fun _ hnone => (by cases hnone), fun a ha ⟨t, p, hp, hclaims⟩ => ?_, ⟨?_, by decide +kernel, rfl, rfl, rfl⟩, rfl⟩
  · obtain rfl := Option.some.inj ha
    by_cases ht : t = 0
    · subst t
      cases hp
      rcases hclaims with hnew | ⟨hold, _⟩
      · exact absurd hnew (by decide)
      · exact absurd hold (by decide)
    · have hnone : (enlargingAt asked liveBefore .copy).moving t = none := by simp [ht]
      cases hnone.symm.trans hp
  · refine .inr ⟨?_, by simp⟩
    rw [two_live]
    exact .inr rfl

private theorem copy_step : (system defaultConfig 0).step (enlargingAt written liveBefore .copy) (.copy 0)
    (enlargingAt (enlarging.copy written) liveBefore .free) :=
  ⟨.realloc 300, enlarging, rfl, rfl, (Function.update_idem ..).symm⟩

private theorem free_step : (system defaultConfig 0).step (enlargingAt (enlarging.copy written) liveBefore .free) (.free 0)
    (enlargingAt freed (liveAfter (some enlarging.oaddr) true none liveBefore) .carryZeroFill) := by
  refine ⟨.realloc 300, enlarging, rfl, ?_, rfl, rfl, (Function.update_idem ..).symm⟩
  dsimp only
  exact freed_run

private theorem ending_step : (system defaultConfig 0).step
    (enlargingAt freed (liveAfter (some enlarging.oaddr) true none liveBefore) .carryZeroFill) (.carryZeroFill 0) ending := by
  refine ⟨.realloc 300, enlarging, rfl, ?_, ?_⟩
  · dsimp only [ending]
  · dsimp only [ending]
    rw [Function.update_idem, Function.update_eq_self_iff.mpr rfl]

theorem overlaps_refine_store_write : ∃ S, Store.system.Run labels Store.empty
    [.call (.malloc 8) (some 134488080), .call (.malloc 8) (some 134488112), .write 134488112 0 7,
      .call (.realloc (some 134488080) 300) (some 134488144)] S ∧ Shows ending S.at? := by
  have hvalid : (Call.malloc 8).Valid := (by decide : 8 < 2 ^ 64)
  have hone : Separation.Step 0 World.booted (.call (.above defaultConfig) 0 (.malloc 8)) one :=
    World.booted_call hvalid rfl (by decide +kernel) (by rw [one_run]; rfl)
  have hfirst := Run.single observe (idle_step hone)
  have hsecond := Run.single observe (idle_step two_step)
  rw [observe, Llheap.observe, idleAt, one_run] at hfirst
  rw [observe, Llheap.observe, idleAt, two_run] at hsecond
  have hmove := ((((Run.single observe asked_step).append (Run.single observe written_step)).append
    (Run.single observe copy_step)).append (Run.single observe free_step)).append (Run.single observe ending_step)
  have hrun := (hfirst.append hsecond).append hmove
  exact overlaps_refine_store ⟨⟨⟨_, heapManagerCtor_default⟩, rfl, rfl⟩, rfl⟩ hrun

end Llheap.Overlap
