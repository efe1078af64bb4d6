import Llheap.Proof.Arrays
import Llheap.Proof.Postings

/-!
# Books over whole runs

Runs of a build with records: any number of threads that start, allocate, free each other's blocks, end, and leave their heaps to others. What the records of all heaps and of the master add up to is what the live allocations are worth, in every run whose steps book no more and no less than they do.
-/

namespace Llheap.Balance

open Ledger (Balanced)

variable {cfg : Config} {H : Type}

/-- The program's allocations: those that are live, those of them that are from before the records were opened, and what the ones from before that have ended were worth. -/
structure Entries where
  live : Finset ℕ
  old : Finset ℕ
  gone : BitVec 64

namespace Entries

/-- An allocation ends. -/
def close (worth : ℕ → BitVec 64) (e : Entries) : Option ℕ → Entries
  | none => e
  | some u => ⟨e.live.erase u, e.old.erase u, e.gone + if u ∈ e.old then worth u else 0⟩

/-- An allocation begins. -/
def begin (e : Entries) : Option ℕ → Entries
  | none => e
  | some u => { e with live := insert u e.live }

end Entries

structure World (H : Type) where
  data : Counted H
  status : Tid → Status
  entries : Entries

inductive Label (cfg : Config)
  /-- `malloc` and `memalign` stand for all routines that come to them, with the counter of each -/
  | call (k : Kernel cfg) (t : Tid) (name : Counter) (c : Call)
  | usableSize (addr : Option ℕ)
  | free (k : Kernel cfg) (t : Tid) (addr : Option ℕ)
  | write (addr offset : ℕ) (byte : UInt8)
  | setErrno (t : Tid) (e : ℕ)
  | mallopt (option value : ℤ)
  | startup (k : Kernel cfg)
  | dtor (t : Tid)
  | terminate (t : Tid)

instance (s : State) (c : Call) : Decidable (c.Reuses s) := inferInstanceAs (Decidable (_ ∧ _ ∧ _))

/-- The old allocation of a call that returns `r`, if it ends. -/
def ended (c : Call) (r : Option ℕ) : Option ℕ := if c.gives r then c.oaddr else none

/-- A thread that runs; before the boot sequence has ended only the program's thread does. -/
def Runs (main : Tid) (w : World H) (t : Tid) : Prop :=
  w.status t ≠ .terminated ∧ (w.data.st.heapMasterBootFlag = 2 ∨ t = main)

/-- A call that reuses the block of its old allocation changes that allocation; any other ends it and begins a new one. The debug build opens its records in `startup`. -/
def Step (I : Hooks H) (weight : ℕ → ℕ → BitVec 64) (main : Tid) (w : World H) : Label cfg → World H → Prop
  | .call k t name c, w' => Runs main w t ∧ c.Valid ∧ (∀ u ∈ c.oaddr, u ∈ w.entries.live) ∧
      ∃ r, I.run k t name c w.data = .ok (r, w'.data) ∧ w'.status = w.status ∧
        w'.entries = if c.Reuses w.data.st then w.entries
          else (w.entries.close (worth weight w.data.st) (ended c r)).begin r
  | .usableSize addr, w' => (∀ u ∈ addr, u ∈ w.entries.live) ∧
      w'.data = w.data.edit (fun s => (mallocUsableSize addr s).2) ∧ w'.status = w.status ∧
      w'.entries = w.entries
  | .free k t addr, w' => Runs main w t ∧ (∀ u ∈ addr, u ∈ w.entries.live) ∧
      I.free k t addr w.data = .ok w'.data ∧ w'.status = w.status ∧
      w'.entries = w.entries.close (worth weight w.data.st) addr
  | .write addr offset byte, w' => addr ∈ w.entries.live ∧
      offset < mallocRequestSize w.data.st (some addr) ∧
      w'.data = w.data.edit (fun s => { s with mem := Function.update s.mem (addr + offset) byte }) ∧
      w'.status = w.status ∧ w'.entries = w.entries
  | .setErrno t e, w' => w'.data = w.data.edit (State.refuse t e) ∧ w'.status = w.status ∧
      w'.entries = w.entries
  | .mallopt option value, w' => (∃ r s, Llheap.mallopt option value w.data.st = .ok (r, s) ∧
      w'.data = w.data.edit fun _ => s) ∧ w'.status = w.status ∧ w'.entries = w.entries
  | .startup k, w' => I.startup k main w.data = .ok w'.data ∧ w'.status = w.status ∧
      w'.entries = if I.debug then ⟨w.entries.live, w.entries.live, 0⟩ else w.entries
  | .dtor t, w' => w.data.st.heapMasterBootFlag = 2 ∧ w.status t = .alive ∧
      w.data.st.setspecific t = true ∧ w'.data = I.heapManagerDtor t w.data ∧
      w'.status = Function.update w.status t .exiting ∧ w'.entries = w.entries
  | .terminate t, w' => w.data.st.heapMasterBootFlag = 2 ∧
      (w.status t = .exiting ∨ w.status t = .alive ∧ w.data.st.setspecific t = false) ∧
      w'.data = w.data ∧ w'.status = Function.update w.status t .terminated ∧ w'.entries = w.entries

/-- The first thing that any program does to the allocator is to boot it. -/
def system (cfg : Config) (I : Hooks H) (weight : ℕ → ℕ → BitVec 64) (main : Tid) :
    TransitionSystem (World H) (Label cfg) where
  init w := (∃ k : Kernel cfg, I.heapManagerCtor k main ⟨State.unbooted, I.zero, fun _ => I.zero⟩ =
    .ok w.data) ∧ w.status = (fun _ => .alive) ∧ w.entries = ⟨∅, ∅, 0⟩
  step := Step I weight main

/-! ### Steps that keep the books -/

/-- A heap that `t` takes over is no longer used by a thread that exits, and its record is empty. -/
def TakesOver (I : Hooks H) (net : H → BitVec 64) (w : World H) (t : Tid) : Prop :=
  (w.data.st.heapManager t = 1 → w.data.st.heapMaster.freeHeapManagersList ≠ 0 →
    ∀ u, w.status u = .exiting → w.data.st.heapManager u ≠ w.data.st.heapMaster.freeHeapManagersList) ∧
  I.Carries net t w.data

/-- What a step may not do. A call's request must be refused before it is counted, or be served with a block that it fits in; an allocation from before may keep its block only at its size; and the usable size must be the recorded one, except for an allocation from before. -/
def Keeps (I : Hooks H) (net : H → BitVec 64) (weight : ℕ → ℕ → BitVec 64) (w : World H) : Label cfg → Prop
  | .call k t _ c => TakesOver I net w t ∧
      (c.Reuses w.data.st →
        ∀ u ∈ c.oaddr, u ∈ w.entries.old → c.size = mallocRequestSize w.data.st (some u)) ∧
      ∀ n ∈ c.request w.data.st, ∀ d, I.asked k t c w.data = .ok d → I.Settles weight k t n d.st
  | .free _ t addr => addr ≠ none → TakesOver I net w t
  | .usableSize addr => ∀ u ∈ addr, u ∉ w.entries.old →
      weight (dataSpace w.data.st u) (headers w.data.st u).size = worth weight w.data.st u
  | _ => True

/-! ### What balances -/

variable {I : Hooks H} {net : H → BitVec 64} {weight : ℕ → ℕ → BitVec 64} {main : Tid} {k : Kernel cfg}
  {t : Tid} {w w' : World H} {d d' : Counted H} {s s' : State} {status : Tid → Status} {A A' : Arena Tag}
  {idle idle' : List ℕ} {r oaddr addr : Option ℕ} {gone : Bool} {b u : ℕ} {l : Live} {total : BitVec 64}
  {e : Entries} {value : ℕ → BitVec 64} {name : Counter} {L L' : ℕ → Option Live}

def Entries.Balanced (total : BitVec 64) (value : ℕ → BitVec 64) (e : Entries) : Prop :=
  Ledger.Balanced total e.live e.old value e.gone

theorem Entries.Balanced.close (h : e.Balanced total value) (hu : ∀ u ∈ addr, u ∈ e.live) :
    (e.close value addr).Balanced (total - addr.elim 0 value) value := by
  cases addr with
  | none =>
    rw [Option.elim_none, sub_zero]
    exact h
  | some u => exact Ledger.Balanced.clear h (hu u rfl)

theorem Entries.Balanced.begin (h : e.Balanced total value) (addr : Option ℕ) (hold : e.old ⊆ e.live)
    (hu : ∀ u ∈ addr, u ∉ e.live) : (e.begin addr).Balanced (total + addr.elim 0 value) value := by
  cases addr with
  | none =>
    rw [Option.elim_none, add_zero]
    exact h
  | some u => exact Ledger.Balanced.post h (hu u rfl) fun hin => hu u rfl (hold hin)

theorem Entries.close_old (hold : e.old ⊆ e.live) : (e.close value addr).old ⊆ (e.close value addr).live := by
  cases addr with
  | none => exact hold
  | some u => exact Finset.erase_subset_erase u hold

theorem Entries.begin_old (hold : e.old ⊆ e.live) : (e.begin addr).old ⊆ (e.begin addr).live := by
  cases addr with
  | none => exact hold
  | some u => exact hold.trans (Finset.subset_insert u e.live)

theorem Entries.close_plain (h : e.old = ∅ ∧ e.gone = 0) :
    (e.close value addr).old = ∅ ∧ (e.close value addr).gone = 0 := by
  cases addr with
  | none => exact h
  | some u =>
    obtain ⟨hold, hgone⟩ := h
    simp [Entries.close, hold, hgone]

theorem Entries.begin_plain (h : e.old = ∅ ∧ e.gone = 0) :
    (e.begin addr).old = ∅ ∧ (e.begin addr).gone = 0 := by
  cases addr <;> exact h

theorem Entries.coe_live : (((e.close value (if gone then oaddr else none)).begin r).live : Set ℕ) =
    liveAfter oaddr gone r e.live := by
  ext u
  cases r <;> cases gone <;> cases oaddr <;>
    simp [Entries.begin, Entries.close, liveAfter, eq_comm, and_comm]

theorem Entries.mem_close (hu : u ∈ (e.close value addr).live) : u ∈ e.live ∧ u ∉ addr := by
  cases addr with
  | none => exact ⟨hu, by simp⟩
  | some v =>
    obtain ⟨hne, hu⟩ := Finset.mem_erase.mp hu
    exact ⟨hu, fun hv => hne (Option.some.inj hv).symm⟩

theorem Entries.coe_close : ((e.close value addr).live : Set ℕ) = liveAfter addr true none e.live := by
  ext u
  cases addr <;> simp [Entries.close, liveAfter, eq_comm, and_comm]

/-- A state of a run, with the arena behind it. -/
structure Holds (cfg : Config) (I : Hooks H) (net : H → BitVec 64) (weight : ℕ → ℕ → BitVec 64) (main : Tid)
    (w : World H) (A : Arena Tag) (idle : List ℕ) : Prop where
  standing : Standing cfg main w.data.st w.status A idle
  live : (w.entries.live : Set ℕ) = users (liveAt A)
  old : w.entries.old ⊆ w.entries.live
  plain : I.debug = false → w.entries.old = ∅ ∧ w.entries.gone = 0
  balanced : w.entries.Balanced (w.data.total net) (worth weight w.data.st)
  early : w.data.st.heapMasterBootFlag = 1 →
    w.data.st.heapMaster.heapManagersList = [w.data.st.heapManager main] ∧ net w.data.master = 0

theorem Holds.post (h : Holds cfg I net weight main w A idle)
    (hm : Posted cfg main net weight w.data d' w.status t A A' idle' oaddr gone r) :
    ((w.entries.close (worth weight w.data.st) (if gone then oaddr else none)).begin r).Balanced
      (d'.total net) (worth weight d'.st) := by
  have hmem : ∀ u, u ∈ w.entries.live ↔ u ∈ users (liveAt A) := fun u => by rw [← h.live]; exact Finset.mem_coe.symm
  have hended : ∀ u ∈ if gone then oaddr else none, u ∈ w.entries.live := fun u hu =>
    (hmem u).mpr (hm.change.ended_live u hu)
  have hclosed := h.balanced.close hended
  have hsame : ((w.entries.close (worth weight w.data.st) (if gone then oaddr else none))).Balanced
      (w.data.total net - (if gone then oaddr else none).elim 0 (worth weight w.data.st))
      (worth weight d'.st) := by
    refine Ledger.Balanced.congr hclosed fun u hu _ => ?_
    obtain ⟨hlive, hkept⟩ := Entries.mem_close hu
    by_cases haddr : u ∈ oaddr
    · refine hm.kept u haddr (Bool.eq_false_iff.mpr fun hgone => hkept ?_)
      rwa [if_pos hgone]
    · exact worth_others h.standing.refines hm.standing.refines hm.change ((hmem u).mp hlive) haddr
  have hbegun := hsame.begin r (Entries.close_old h.old) fun u hu hin => by
    obtain ⟨hlive, hkept⟩ := Entries.mem_close hin
    obtain ⟨b, l, hb, huser⟩ := (hmem u).mp hlive
    obtain ⟨hgone, haddr⟩ := hm.change.fresh hm.standing.refines.injective hu hb huser
    exact hkept (by rwa [if_pos hgone])
  rw [hm.total]
  cases gone <;> exact hbegun

theorem Holds.mem_live (h : Holds cfg I net weight main w A idle) (hu : u ∈ w.entries.live) :
    u ∈ users (liveAt A) := by
  rw [← h.live]
  exact hu

theorem Runs.mayCall (hruns : Runs main w t) (htake : TakesOver I net w t) :
    MayCall main w.data.st w.status t :=
  ⟨hruns.1, hruns.2, htake.1⟩

theorem Holds.early_calm (h : Holds cfg I net weight main w A idle) (hruns : Runs main w t)
    (hcalm : Calm t w.data d') (hflag : d'.st.heapMasterBootFlag = 1) :
    d'.st.heapMaster.heapManagersList = [d'.st.heapManager main] ∧ net d'.master = 0 := by
  rw [hcalm.bootFlag] at hflag
  obtain ⟨hlist, hmaster⟩ := h.early hflag
  obtain rfl : t = main := hruns.2.resolve_left (by omega)
  obtain ⟨hmanager, hsame, hrecord⟩ := hcalm.heaps (h.standing.refines.ready hflag)
  rw [hsame, hmanager, hrecord]
  exact ⟨hlist, hmaster⟩

theorem Holds.reuse {c : Call} (hI : I.Books net weight) (h : Holds cfg I net weight main w A idle)
    (hmay : MayCall main w.data.st w.status t) (hvalid : c.Valid) (hold : ∀ u ∈ c.oaddr, u ∈ w.entries.live)
    (hc : c.Reuses w.data.st)
    (hsize : ∀ u ∈ c.oaddr, u ∈ w.entries.old → c.size = mallocRequestSize w.data.st (some u))
    (hrun : I.run k t name c w.data = .ok (r, d'))
    (hm : Posted cfg main net weight w.data d' w.status t A A' idle' c.oaddr (c.gives r) r) :
    (w.entries.live : Set ℕ) = users (liveAt A') ∧
      w.entries.Balanced (d'.total net) (worth weight d'.st) := by
  obtain ⟨u, haddr⟩ := Option.ne_none_iff_exists'.mp hc.1
  have hlive := hold u haddr
  obtain ⟨rfl, hplain⟩ := Hooks.run_reuses hc hrun
  have hchange := hm.change
  have htotal := hm.total
  have hrecorded := h.standing.refines.recall_size hmay hvalid haddr (h.mem_live hlive)
    (fun n hn => by rw [hc.2.2] at hn; cases hn) (haddr ▸ hplain)
  rw [haddr, Call.gives_some haddr] at hchange htotal
  refine ⟨?_, ?_⟩
  · rw [hchange.users h.standing.refines.injective, ← h.live]
    ext v
    by_cases hv : v = u
    · subst v
      simp [liveAfter, hlive]
    · simp [liveAfter, Ne.symm hv]
  · rw [htotal, if_pos rfl, Option.elim_some, Option.elim_some]
    refine Ledger.Balanced.revalue h.balanced hlive (fun hin => ?_) fun v hv hne => ?_
    · -- an allocation from before has kept its size
      cases hdebug : I.debug with
      | false =>
        rw [(h.plain hdebug).1] at hin
        exact absurd hin (Finset.notMem_empty u)
      | true =>
        rw [worth, worth, hrecorded, hsize u haddr hin]
        exact hI.flat hdebug _ _ _
    · exact worth_others h.standing.refines hm.standing.refines hchange (h.mem_live hv)
        fun hu => hne (Option.some.inj hu).symm

theorem holds_call {c : Call} (hI : I.Books net weight) (h : Holds cfg I net weight main w A idle)
    (hs : Step I weight main w (.call k t name c) w') (hkeeps : Keeps I net weight w (.call k t name c)) :
    ∃ A' idle', Holds cfg I net weight main w' A' idle' := by
  obtain ⟨data', status', entries'⟩ := w'
  obtain ⟨hruns, hvalid, hold, r, hrun, hstatus, hentries⟩ := hs
  obtain ⟨htake, hreuse, hsettles⟩ := hkeeps
  dsimp only at hrun hstatus hentries
  subst hstatus hentries
  have hmay := hruns.mayCall htake
  obtain ⟨A', idle', hm⟩ := h.standing.call hI hmay hvalid (fun u hu => h.mem_live (hold u hu)) htake.2
    hsettles hrun
  refine ⟨A', idle', ?_⟩
  split
  · next hc =>
    obtain ⟨hlive, hbalanced⟩ := h.reuse hI hmay hvalid hold hc (hreuse hc) hrun hm
    exact ⟨hm.standing, hlive, h.old, h.plain, hbalanced, h.early_calm hruns hm.calm⟩
  · refine ⟨hm.standing, ?_, Entries.begin_old (Entries.close_old h.old), fun hplain => ?_, h.post hm,
      h.early_calm hruns hm.calm⟩
    · rw [hm.change.users h.standing.refines.injective, ← h.live]
      exact Entries.coe_live
    · exact Entries.begin_plain (Entries.close_plain (h.plain hplain))

theorem holds_free (hI : I.Books net weight) (h : Holds cfg I net weight main w A idle)
    (hs : Step I weight main w (.free k t addr) w') (hkeeps : Keeps I net weight w (.free k t addr)) :
    ∃ A' idle', Holds cfg I net weight main w' A' idle' := by
  obtain ⟨data', status', entries'⟩ := w'
  obtain ⟨hruns, hold, hfree, hstatus, hentries⟩ := hs
  dsimp only at hfree hstatus hentries
  subst hstatus hentries
  cases addr with
  | none =>
    cases hfree
    exact ⟨A, idle, h⟩
  | some u =>
    have htake := hkeeps (Option.some_ne_none u)
    obtain ⟨b, l, hb, rfl⟩ := h.mem_live (hold u rfl)
    obtain ⟨A', idle', hm⟩ := h.standing.doFree hI (hruns.mayCall htake) hb htake.2 hfree
    have hpost := hm.posted h.standing hb
    have hbalanced := h.post hpost
    refine ⟨A', idle', hm.standing, ?_, Entries.close_old h.old, fun hplain => ?_, hbalanced,
      h.early_calm hruns hm.calm⟩
    · rw [hpost.change.users h.standing.refines.injective, ← h.live]
      exact Entries.coe_close
    · exact Entries.close_plain (h.plain hplain)

/-! ### Steps without postings -/

theorem Holds.edit {f : State → State} (h : Holds cfg I net weight main w A idle)
    (hr' : Refines cfg main (f w.data.st) status A' idle') (hlive : users (liveAt A') = users (liveAt A))
    (hlist : (f w.data.st).heapMaster.heapManagersList = w.data.st.heapMaster.heapManagersList)
    (hmanager : (f w.data.st).heapManager = w.data.st.heapManager)
    (hflag : (f w.data.st).heapMasterBootFlag = w.data.st.heapMasterBootFlag)
    (hworth : ∀ u ∈ users (liveAt A), u ∉ w.entries.old →
      worth weight (f w.data.st) u = worth weight w.data.st u) :
    Holds cfg I net weight main ⟨w.data.edit f, status, w.entries⟩ A' idle' := by
  refine ⟨⟨hr', ?_⟩, h.live.trans hlive.symm, h.old, h.plain, ?_, fun hone => ?_⟩
  · rw [Counted.edit_st, hlist]
    exact h.standing.nodup
  · rw [Counted.total_edit hlist]
    exact Ledger.Balanced.congr h.balanced fun u hu hin => hworth u (h.mem_live hu) hin
  · rw [Counted.edit_st, hflag] at hone
    rw [Counted.edit_st, hlist, hmanager]
    exact h.early hone

theorem Holds.worth_same (h : Holds cfg I net weight main w A idle)
    (hr' : Refines cfg main s' status A' idle') (hlive : liveAt A' = liveAt A) :
    ∀ u ∈ users (liveAt A), u ∉ w.entries.old → worth weight s' u = worth weight w.data.st u := by
  intro u hu _
  have hchange : Change (liveAt A) (liveAt A') none false none := hlive ▸ .refused
  exact worth_others h.standing.refines hr' hchange hu (by simp)

/-- The world without the records. -/
def World.plain (w : World H) (A : Arena Tag) : Separation.World := ⟨w.data.st, w.status, users (liveAt A)⟩

theorem Holds.behind (h : Holds cfg I net weight main w A idle) :
    Separation.Behind cfg main (w.plain A) A idle :=
  ⟨h.standing.refines, rfl⟩

theorem holds_usableSize (h : Holds cfg I net weight main w A idle)
    (hs : Step I weight main w (.usableSize addr : Label cfg) w')
    (hkeeps : Keeps I net weight w (.usableSize addr : Label cfg)) :
    ∃ A' idle', Holds cfg I net weight main w' A' idle' := by
  obtain ⟨data', status', entries'⟩ := w'
  obtain ⟨hold, hdata, hstatus, hentries⟩ := hs
  dsimp only at hdata hstatus hentries
  subst hdata hstatus hentries
  cases addr with
  | none => exact ⟨A, idle, h⟩
  | some u =>
    obtain ⟨b, l, hb, rfl⟩ := h.mem_live (hold u rfl)
    obtain ⟨_, A', hr', hlive, _⟩ := h.standing.refines.usableSize hb
    have hchange : Change (liveAt A) (liveAt A') (some l.user) false none := hlive ▸ .edited hb rfl
    have husers : users (liveAt A') = users (liveAt A) := by
      rw [hlive]
      exact Separation.users_edited hb rfl h.standing.refines.injective
    refine ⟨A', idle, h.edit (f := fun s => (mallocUsableSize (some l.user) s).2) hr' husers rfl rfl rfl
      fun v hv hin => ?_⟩
    by_cases hvu : v = l.user
    · subst v
      have hb' : liveAt A' b = some { l with view := { l.view with size := b + l.len - l.user } } := by
        rw [hlive, Function.update_self]
      have hworth := hkeeps l.user rfl hin
      rw [h.standing.refines.dataSpace_eq hb, h.standing.refines.headers hb] at hworth
      exact (hr'.worth_eq hb').trans hworth
    · exact worth_others h.standing.refines hr' hchange hv fun hu => hvu (Option.some.inj hu).symm

theorem holds_dtor (hI : I.Books net weight) (h : Holds cfg I net weight main w A idle)
    (hs : Step I weight main w (.dtor t : Label cfg) w') :
    ∃ A' idle', Holds cfg I net weight main w' A' idle' := by
  obtain ⟨data', status', entries'⟩ := w'
  obtain ⟨hflag, halive, hset, hdata, hstatus, hentries⟩ := hs
  dsimp only at hdata hstatus hentries
  subst hdata hstatus hentries
  obtain ⟨idle', hr', _⟩ := Separation.dtor_behind h.behind hflag halive hset
  have howned := h.standing.refines.heaps.owned
  have hheap := howned.known t (by rw [halive]; decide) ((howned.registered hflag t).mp hset)
  refine ⟨A, idle', ⟨hr', h.standing.nodup⟩, h.live, h.old, h.plain, ?_, fun hone => ?_⟩
  · have htotal : (I.heapManagerDtor t w.data).total net = w.data.total net := by
      have hleft := hI.left w.data.master (w.data.heap (w.data.st.heapManager t))
      have hsum := Ledger.sum_update (fun heap => net (w.data.heap heap)) h.standing.nodup hheap
        (net (I.left w.data.master (w.data.heap (w.data.st.heapManager t))).2)
      change net (I.left w.data.master (w.data.heap (w.data.st.heapManager t))).1 +
        (w.data.st.heapMaster.heapManagersList.map fun heap => net (Function.update w.data.heap
          (w.data.st.heapManager t) (I.left w.data.master (w.data.heap (w.data.st.heapManager t))).2 heap)).sum = _
      rw [net_update, hsum, Counted.total, eq_sub_of_add_eq hleft]
      abel
    rw [htotal]
    exact Ledger.Balanced.congr h.balanced fun u hu hin => h.worth_same hr' rfl u (h.mem_live hu) hin
  · have hone : w.data.st.heapMasterBootFlag = 1 := hone
    omega

theorem holds_write {offset : ℕ} {byte : UInt8} (h : Holds cfg I net weight main w A idle)
    (hs : Step I weight main w (.write u offset byte : Label cfg) w') :
    ∃ A' idle', Holds cfg I net weight main w' A' idle' := by
  obtain ⟨data', status', entries'⟩ := w'
  obtain ⟨hold, hlt, hdata, hstatus, hentries⟩ := hs
  dsimp only at hdata hstatus hentries
  subst hdata hstatus hentries
  obtain ⟨A', ⟨hr', _⟩, hlive, _⟩ := Separation.write_behind byte h.behind (h.mem_live hold) hlt
  exact ⟨A', idle, h.edit (f := fun s => { s with mem := Function.update s.mem (u + offset) byte }) hr'
    (by rw [hlive]) rfl rfl rfl (h.worth_same hr' hlive)⟩

theorem holds_mallopt {option value : ℤ} (h : Holds cfg I net weight main w A idle)
    (hs : Step I weight main w (.mallopt option value : Label cfg) w') :
    ∃ A' idle', Holds cfg I net weight main w' A' idle' := by
  obtain ⟨data', status', entries'⟩ := w'
  obtain ⟨⟨code, s', hopt, hdata⟩, hstatus, hentries⟩ := hs
  dsimp only at hdata hstatus hentries
  subst hdata hstatus hentries
  obtain ⟨⟨hr', _⟩, _⟩ := Separation.mallopt_behind h.behind hopt
  have hsame := mallopt_sameHeaps hopt
  exact ⟨A, idle, h.edit (f := fun _ => s') hr' rfl hsame.heapManagersList hsame.heapManager hsame.bootFlag
    (h.worth_same hr' rfl)⟩

/-- `startup` opens the records of the debug build: only the program's thread has a heap then, and what it has allocated is from before. -/
theorem holds_startup (hI : I.Books net weight) (h : Holds cfg I net weight main w A idle)
    (hs : Step I weight main w (.startup k) w') : ∃ A' idle', Holds cfg I net weight main w' A' idle' := by
  obtain ⟨data', status', entries'⟩ := w'
  obtain ⟨hstart, hstatus, hentries⟩ := hs
  dsimp only at hstart hstatus hentries
  subst hstatus hentries
  obtain ⟨hflag, rfl⟩ := Hooks.startup_cases h.standing.refines.booted hstart
  have hplain : Llheap.startup k main w.data.st =
      .ok { registerDtor main w.data.st with heapMasterBootFlag := 2 } := by
    rw [Llheap.startup, if_neg h.standing.refines.booted]
    exact if_neg (not_not.mpr hflag)
  obtain ⟨⟨hr', _⟩, _⟩ := Separation.startup_behind h.behind hplain
  obtain ⟨hlist, hmaster⟩ := h.early hflag
  have hheap : w.data.st.heapManager main ∈ w.data.st.heapMaster.heapManagersList := by
    rw [hlist]
    exact List.mem_singleton_self _
  have hrecord := Counted.total_record net (f := I.started) (t := main)
    (d := w.data.edit fun s => { registerDtor main s with heapMasterBootFlag := 2 }) h.standing.nodup hheap
  rw [Counted.total_edit rfl, hI.started] at hrecord
  cases hdebug : I.debug with
  | false =>
    have htotal : ((w.data.edit fun s => { registerDtor main s with heapMasterBootFlag := 2 }).record main
        I.started).total net = w.data.total net := by
      rw [hrecord, if_neg (by rw [hdebug]; decide)]
      exact sub_add_cancel _ _
    refine ⟨A, idle, ⟨hr', h.standing.nodup⟩, h.live, h.old, h.plain, ?_,
      fun hone => absurd hone (Nat.succ_ne_self 1)⟩
    rw [htotal]
    exact Ledger.Balanced.congr h.balanced fun u hu hin => h.worth_same hr' rfl u (h.mem_live hu) hin
  | true =>
    have htotal : ((w.data.edit fun s => { registerDtor main s with heapMasterBootFlag := 2 }).record main
        I.started).total net = 0 := by
      rw [hrecord, if_pos hdebug, Counted.total, hmaster, hlist]
      simp [registerDtor]
    refine ⟨A, idle, ⟨hr', h.standing.nodup⟩, h.live, subset_rfl, fun hplain => ?_, ?_,
      fun hone => absurd hone (Nat.succ_ne_self 1)⟩
    · rw [hdebug] at hplain
      cases hplain
    · rw [htotal]
      exact Ledger.Balanced.opened

/-! ### Runs -/

theorem holds_step {lab : Label cfg} (hI : I.Books net weight) (h : Holds cfg I net weight main w A idle)
    (hs : Step I weight main w lab w') (hkeeps : Keeps I net weight w lab) :
    ∃ A' idle', Holds cfg I net weight main w' A' idle' := by
  cases lab with
  | call k t name c => exact holds_call hI h hs hkeeps
  | usableSize addr => exact holds_usableSize h hs hkeeps
  | free k t addr => exact holds_free hI h hs hkeeps
  | write addr offset byte => exact holds_write h hs
  | mallopt option value => exact holds_mallopt h hs
  | startup k => exact holds_startup hI h hs
  | dtor t => exact holds_dtor hI h hs
  | setErrno t e =>
    obtain ⟨data', status', entries'⟩ := w'
    obtain ⟨hdata, hstatus, hentries⟩ := hs
    dsimp only at hdata hstatus hentries
    subst hdata hstatus hentries
    have hr' := h.standing.refines.of_grown (.refuse (t := t) e)
    exact ⟨A, idle, h.edit hr' rfl rfl rfl rfl (h.worth_same hr' rfl)⟩
  | terminate t =>
    obtain ⟨data', status', entries'⟩ := w'
    obtain ⟨hflag, hdone, hdata, hstatus, hentries⟩ := hs
    dsimp only at hdata hstatus hentries
    subst hdata hstatus hentries
    obtain ⟨hr', _⟩ := Separation.terminate_behind h.behind hflag hdone
    exact ⟨A, idle, ⟨hr', h.standing.nodup⟩, h.live, h.old, h.plain, h.balanced, h.early⟩

theorem holds_init (hI : I.Books net weight) (hinit : (system cfg I weight main).init w) :
    ∃ A idle, Holds cfg I net weight main w A idle := by
  obtain ⟨data, status, entries⟩ := w
  obtain ⟨⟨k, hctor⟩, hstatus, hentries⟩ := hinit
  dsimp only at hctor hstatus hentries
  subst hstatus hentries
  have hplain : Llheap.heapManagerCtor k main State.unbooted = .ok data.st := by
    rw [← Hooks.heapManagerCtor_st (I := I) (d := ⟨State.unbooted, I.zero, fun _ => I.zero⟩), hctor]
    rfl
  obtain ⟨A, idle, hr, hlive⟩ := Separation.preboot_unbooted.behind hplain
  obtain ⟨s₀, hmaster, hboot⟩ := Hooks.heapManagerCtor_unbooted rfl rfl hctor
  obtain ⟨_, _, hs₀⟩ := heapMasterCtor_ok hmaster
  have hflag : s₀.heapMasterBootFlag ≠ 0 := by
    rw [hs₀]
    exact one_ne_zero
  have hempty : s₀.heapMaster.heapManagersList = [] ∧ s₀.heapMaster.freeHeapManagersList = 0 ∧
      s₀.heapManager main = 1 := by
    rw [hs₀]
    exact ⟨rfl, rfl, rfl⟩
  obtain ⟨hnone, hfree, hnew⟩ := hempty
  obtain ⟨hhas, _⟩ | ⟨_, heap, s₁, hget, hdata⟩ := Hooks.bootHeapManager_cases hflag hboot
  · exact absurd hnew hhas
  have hlist : s₁.heapMaster.heapManagersList = [heap] := by
    rcases getHeap_cases hget with ⟨hne, _⟩ | ⟨_, _, _, rfl, rfl⟩ | ⟨_, _, a, _, rfl, rfl⟩
    · exact absurd hfree hne
    · exact congrArg (List.cons _) hnone
    · exact congrArg (List.cons _) hnone
  have hheap : data.st.heapMaster.heapManagersList = [heap] ∧ data.st.heapManager main = heap ∧
      data.master = I.zero ∧ net (data.heap heap) = 0 := by
    rw [hdata, if_neg (not_not.mpr hfree)]
    dsimp only
    rw [assignHeap_heapMaster, hlist, assignHeap_heapManager, Function.update_self, Function.update_self]
    exact ⟨rfl, rfl, rfl, hI.opened _⟩
  obtain ⟨hlisted, hmanager, hzero, hrecord⟩ := hheap
  refine ⟨A, idle, ⟨hr, ?_⟩, ?_, subset_rfl, fun _ => ⟨rfl, rfl⟩, ?_, fun _ => ?_⟩
  · rw [hlisted]
    exact List.nodup_singleton heap
  · rw [← hlive]
    exact Finset.coe_empty
  · have htotal : data.total net = 0 := by
      rw [Counted.total, hlisted, hzero, hI.zero, List.map_singleton, hrecord, List.sum_singleton, add_zero]
    change data.total net = ∑ u ∈ ∅ \ ∅, worth weight data.st u - 0
    rw [htotal, Finset.sdiff_self, Finset.sum_empty, sub_zero]
  · rw [hlisted, hmanager, hzero]
    exact ⟨rfl, hI.zero⟩

theorem records_balance (hI : I.Books net weight)
    (h : ((system cfg I weight main).restrict (Keeps I net weight)).Reachable w) :
    w.entries.Balanced (w.data.total net) (worth weight w.data.st) ∧
      (I.debug = false → w.entries.old = ∅ ∧ w.entries.gone = 0) := by
  have hholds : ∃ A idle, Holds cfg I net weight main w A idle := by
    refine h.invariant (fun _ hw => holds_init hI hw) fun w lab w' hw hs => ?_
    obtain ⟨A, idle, hw⟩ := hw
    exact holds_step hI hw hs.2 hs.1
  obtain ⟨A, idle, hw⟩ := hholds
  exact ⟨hw.balanced, hw.plain⟩

/-! ### Runs with the default control routines -/

/-- The records after the first call of thread 0. -/
def firstData (I : Hooks H) : Counted H :=
  ⟨firstHeap defaultConfig (.above defaultConfig), I.zero, fun _ => I.zero⟩

/-- A build that opens the record of a new heap as zero. -/
theorem heapManagerCtor_first (hopen : I.taken (I.newHeap I.zero) = I.zero) :
    I.heapManagerCtor (.above defaultConfig) 0 ⟨State.unbooted, I.zero, fun _ => I.zero⟩ =
      .ok (firstData I) := by
  have hst := Hooks.heapManagerCtor_st (I := I) (k := .above defaultConfig) (t := 0)
    (d := ⟨State.unbooted, I.zero, fun _ => I.zero⟩)
  rw [heapManagerCtor_default, Result.map_eq_ok] at hst
  obtain ⟨data, hctor, hdata⟩ := hst
  obtain ⟨s₀, hmaster, hboot⟩ := Hooks.heapManagerCtor_unbooted rfl rfl hctor
  obtain ⟨_, _, hs₀⟩ := heapMasterCtor_ok hmaster
  have hempty : s₀.heapMasterBootFlag = 1 ∧ s₀.heapMaster.freeHeapManagersList = 0 ∧ s₀.heapManager 0 = 1 := by
    rw [hs₀]
    exact ⟨rfl, rfl, rfl⟩
  obtain ⟨hflag, hfree, hnew⟩ := hempty
  obtain ⟨hhas, _⟩ | ⟨_, heap, s₁, hget, rfl⟩ := Hooks.bootHeapManager_cases (by rw [hflag]; decide) hboot
  · exact absurd hnew hhas
  · rw [hctor, firstData, ← hdata, if_neg (not_not.mpr hfree), hopen]
    dsimp only
    rw [Function.update_eq_self]

/-- The world after the first call of thread 0. -/
def World.first (I : Hooks H) : World H := ⟨firstData I, fun _ => .alive, ⟨∅, ∅, 0⟩⟩

theorem World.first_init (hopen : I.taken (I.newHeap I.zero) = I.zero) :
    (system defaultConfig I weight 0).init (World.first I) :=
  ⟨⟨_, heapManagerCtor_first hopen⟩, rfl, rfl⟩

theorem World.first_runs : Runs 0 (World.first I) 0 := ⟨by simp [World.first], .inr rfl⟩

/-- The world that a call leaves behind. -/
def World.call (I : Hooks H) (weight : ℕ → ℕ → BitVec 64) (w : World H) (k : Kernel cfg) (t : Tid)
    (name : Counter) (c : Call) : World H :=
  let result := (I.run k t name c w.data).getD (none, w.data)
  ⟨result.2, w.status, if c.Reuses w.data.st then w.entries
    else (w.entries.close (worth weight w.data.st) (ended c result.1)).begin result.1⟩

theorem World.call_run {c : Call} (hok : (I.run k t name c w.data).isOk = true)
    (hr : ((I.run k t name c w.data).getD (none, w.data)).1 = r) :
    I.run k t name c w.data = .ok (r, (w.call I weight k t name c).data) :=
  Result.eq_ok_pair hok hr

theorem World.call_step {c : Call} (hruns : Runs main w t) (hvalid : c.Valid)
    (hold : ∀ u ∈ c.oaddr, u ∈ w.entries.live) (hrun : (I.run k t name c w.data).isOk = true) :
    Step I weight main w (.call k t name c) (w.call I weight k t name c) :=
  ⟨hruns, hvalid, hold, _, Result.eq_ok hrun (none, w.data), rfl, rfl⟩

theorem Keeps.malloc {size : ℕ} (hsize : size < 2 ^ 64) (hheap : w.data.st.heapManager t ≠ 1)
    (hrun : I.run k t name (.malloc size) w.data = .ok (some u, d')) (hfits : Fits w.data.st.heapMaster size) :
    Keeps I net weight w (.call k t name (.malloc size)) := by
  refine ⟨⟨fun hnew => absurd hnew hheap, fun hnew => absurd hnew hheap⟩,
    fun hreuse => absurd rfl hreuse.1, fun n hn d hd => ?_⟩
  obtain rfl : size = n := Option.some.inj hn
  obtain rfl : w.data = d := Except.ok.inj hd
  have hserves : ¬ I.Refuses k t (size % 2 ^ 64) w.data.st := by
    rw [Nat.mod_eq_of_lt hsize]
    exact Hooks.not_refuses hrun
  exact ⟨fun hrefuses => absurd hrefuses hserves, fun _ => hfits⟩

end Llheap.Balance
