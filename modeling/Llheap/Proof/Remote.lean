import Llheap.Base.Chain
import Llheap.Model.Malloc
import Llheap.Model.Remote
import Mathlib.Data.Finset.Insert

/-!
# Nothing is lost and nothing is doubled

Every block of the bucket is in one place at a time. The proof keeps the place of each block as a function, so that one place is all a block can have, and shows that every step moves one block.
-/

namespace Llheap.Remote

variable {τ : Type}

inductive Place (τ : Type)
  | live
  | held (t : τ)
  | freeList
  | remoteList

/-- The program's blocks and the ones on their way back are where `place` says. -/
structure Users (w : World τ) (place : ℕ → Option (Place τ)) : Prop where
  live : ∀ b, b ∈ w.live ↔ place b = some .live
  held : ∀ t b, (w.pusher t).block = some b ↔ place b = some (.held t)
  blocks : ∀ b, b ∈ w.blocks ↔ (place b).isSome
  null : place 0 = none

/-- The two lists are `F` and `R`, and hold what `place` says. -/
structure Lists (w : World τ) (place : ℕ → Option (Place τ)) (F R : List ℕ) : Prop where
  freeChain : Chain w.header w.freeList F
  remoteChain : Chain w.header w.remoteList R
  freeList : ∀ b, b ∈ F ↔ place b = some .freeList
  remoteList : ∀ b, b ∈ R ↔ place b = some .remoteList

/-- What the owner has seen is still so when it acts on it. -/
structure Seen (w : World τ) : Prop where
  empty : w.owner = .sawEmpty ∨ w.owner = .sawRemote → w.freeList = 0
  remote : w.owner = .sawRemote → w.remoteList ≠ 0

structure Placed (w : World τ) (place : ℕ → Option (Place τ)) (F R : List ℕ) : Prop extends
  Users w place, Lists w place F R, Seen w

variable {w w' : World τ} {place : ℕ → Option (Place τ)} {F R : List ℕ} {b : ℕ} {t : τ}

theorem Users.ne_zero (h : Users w place) {p : Place τ} (hb : place b = some p) : b ≠ 0 := by
  rintro rfl
  rw [h.null] at hb
  cases hb

/-- Block `b` is where `p` says. -/
def World.At (w : World τ) (b : ℕ) : Place τ → Prop
  | .live => b ∈ w.live
  | .held t => (w.pusher t).block = some b
  | .freeList => ∃ F, Chain w.header w.freeList F ∧ b ∈ F
  | .remoteList => ∃ R, Chain w.header w.remoteList R ∧ b ∈ R

theorem Placed.at_iff (h : Placed w place F R) (b : ℕ) (p : Place τ) :
    w.At b p ↔ place b = some p := by
  cases p with
  | live => exact h.live b
  | held t => exact h.held t b
  | freeList =>
    rw [← h.freeList b]
    refine ⟨fun ⟨F', hF', hb⟩ => ?_, fun hb => ⟨F, h.freeChain, hb⟩⟩
    rwa [h.freeChain.unique hF']
  | remoteList =>
    rw [← h.remoteList b]
    refine ⟨fun ⟨R', hR', hb⟩ => ?_, fun hb => ⟨R, h.remoteChain, hb⟩⟩
    rwa [h.remoteChain.unique hR']

/-! ### Blocks in use -/

theorem Users.move (h : Users w place) (hb : b ≠ 0) (p : Place τ)
    (hlive : ∀ c, c ∈ w'.live ↔ if c = b then p = .live else c ∈ w.live)
    (hheld : ∀ t c, (w'.pusher t).block = some c ↔
      if c = b then p = .held t else (w.pusher t).block = some c)
    (hblocks : ∀ c, c ∈ w'.blocks ↔ c = b ∨ c ∈ w.blocks) :
    Users w' (Function.update place b (some p)) where
  live c := by
    rw [hlive]
    by_cases hc : c = b <;> simp [hc, h.live]
  held t c := by
    rw [hheld]
    by_cases hc : c = b <;> simp [hc, h.held]
  blocks c := by
    rw [hblocks]
    by_cases hc : c = b <;> simp [hc, h.blocks]
  null := by rw [Function.update_of_ne hb.symm, h.null]

/-- The places once the blocks of `R` have been made the owner's list. -/
def chained (place : ℕ → Option (Place τ)) (R : List ℕ) : ℕ → Option (Place τ) :=
  fun b => if b ∈ R then some .freeList else place b

theorem Users.chained (h : Users w place) (hR : ∀ b ∈ R, place b = some .remoteList) :
    Users w (chained place R) where
  live b := by
    rw [h.live, Remote.chained]
    split <;> simp_all
  held t b := by
    rw [h.held, Remote.chained]
    split <;> simp_all
  blocks b := by
    rw [h.blocks, Remote.chained]
    split <;> simp_all
  null := by
    rw [Remote.chained, if_neg fun h0 => ?_, h.null]
    exact h.ne_zero (hR 0 h0) rfl

/-! ### Links -/

theorem Lists.of_eq (h : Lists w place F R) (hheader : w'.header = w.header)
    (hfree : w'.freeList = w.freeList) (hremote : w'.remoteList = w.remoteList) :
    Lists w' place F R where
  freeChain := by rw [hheader, hfree]; exact h.freeChain
  remoteChain := by rw [hheader, hremote]; exact h.remoteChain
  freeList := h.freeList
  remoteList := h.remoteList

theorem Lists.setHeader (h : Lists w place F R) {v : ℕ} (hfree : place b ≠ some .freeList)
    (hremote : place b ≠ some .remoteList) : Lists (w.setHeader b v) place F R := by
  have hoff : ∀ c, place c = some .freeList ∨ place c = some .remoteList →
      (w.setHeader b v).header c = w.header c := by
    intro c hc
    exact Function.update_of_ne (by rintro rfl; exact hc.elim hfree hremote) _ _
  exact { h with
    freeChain := h.freeChain.congr fun c hc => hoff c (.inl ((h.freeList c).mp hc))
    remoteChain := h.remoteChain.congr fun c hc => hoff c (.inr ((h.remoteList c).mp hc)) }

/-- Link `b`, which is on neither list, in front of the owner's list. -/
theorem Lists.pushFree (h : Lists w place F R) (hb : b ≠ 0) (hfree : place b ≠ some .freeList)
    (hremote : place b ≠ some .remoteList) :
    Lists (w.pushFree b) (Function.update place b (some .freeList)) (b :: F) R := by
  have hw := h.setHeader (v := w.freeList) hfree hremote
  refine ⟨?_, hw.remoteChain, ?_, ?_⟩
  · exact ⟨rfl, hb, by rw [show (w.pushFree b).header b = w.freeList from Function.update_self ..]; exact hw.freeChain⟩
  · grind [h.freeList]
  · grind [h.remoteList]

/-- Take the first block off the owner's list. -/
theorem Lists.popFree (h : Lists w place F R) (hw : w.freeList ≠ 0) :
    place w.freeList = some .freeList ∧ ∃ F', F = w.freeList :: F' ∧
      Lists { w with freeList := w.header w.freeList } (Function.update place w.freeList (some .live)) F' R := by
  obtain ⟨F', rfl, hchain⟩ := h.freeChain.exists_cons hw
  have hnodup := h.freeChain.nodup
  have hplace := (h.freeList w.freeList).mp List.mem_cons_self
  refine ⟨hplace, F', rfl, hchain, h.remoteChain, ?_, ?_⟩
  · grind [h.freeList]
  · grind [h.remoteList]

/-- Take all of the remote list: its first block leaves, the rest becomes the owner's list. -/
theorem Lists.grab (h : Lists w place F R) (hempty : w.freeList = 0) (hw : w.remoteList ≠ 0) :
    ∃ R', R = w.remoteList :: R' ∧
      Lists { w with remoteList := 0, freeList := w.header w.remoteList }
        (Function.update (chained place R') w.remoteList (some .live)) R' [] := by
  obtain ⟨R', rfl, hchain⟩ := h.remoteChain.exists_cons hw
  obtain rfl : F = [] := Chain.of_null (hempty ▸ h.freeChain)
  have hnodup := h.remoteChain.nodup
  have hnone : ∀ b, place b ≠ some .freeList :=
    fun b hb => List.not_mem_nil ((h.freeList b).mpr hb)
  refine ⟨R', rfl, hchain, rfl, ?_, ?_⟩
  · grind [chained]
  · intro b
    have := h.remoteList b
    grind [chained]

/-- A compare-and-swap that succeeds links a block whose header holds the current top. -/
theorem Lists.pushRemote (h : Lists w place F R) (hb : b ≠ 0) (hlink : w.header b = w.remoteList)
    (hfree : place b ≠ some .freeList) :
    Lists { w with remoteList := b } (Function.update place b (some .remoteList)) F (b :: R) := by
  refine ⟨h.freeChain, ⟨rfl, hb, hlink ▸ h.remoteChain⟩, ?_, ?_⟩
  · grind [h.freeList]
  · grind [h.remoteList]

/-! ### One lemma per step -/

theorem handOut_placed {v : World τ} (h : Users w place) (hb : b ≠ 0)
    (hheld : ∀ t, place b ≠ some (.held t))
    (hlists : Lists v (Function.update place b (some .live)) F R) (hlive : v.live = w.live)
    (hpusher : v.pusher = w.pusher) (hblocks : ∀ c, c ∈ v.blocks ↔ c = b ∨ c ∈ w.blocks)
    (home : ℕ) :
    Placed (v.handOut home b) (Function.update place b (some .live)) F R := by
  refine ⟨h.move hb .live (fun c => ?_) (fun t c => ?_) hblocks,
    (hlists.setHeader (b := b) (v := home) (by simp) (by simp)).of_eq rfl rfl rfl, ?_, ?_⟩
  · change c ∈ insert b v.live ↔ _
    rw [hlive, Finset.mem_insert]
    grind
  · change (v.pusher t).block = some c ↔ _
    rw [hpusher]
    have := h.held t b
    grind
  · exact fun hidle => by rcases hidle with hidle | hidle <;> cases hidle
  · exact fun hidle => by cases hidle

theorem pop_placed (h : Placed w place F R) (hw : w.freeList ≠ 0) (home : ℕ) :
    ∃ place' F', F = w.freeList :: F' ∧
      Placed ({ w with freeList := w.header w.freeList }.handOut home w.freeList) place' F' R := by
  obtain ⟨hplace, F', hcons, hlists⟩ := h.toLists.popFree hw
  refine ⟨_, F', hcons, handOut_placed h.toUsers hw (by simp [hplace]) hlists rfl rfl (fun c => ?_) home⟩
  have := h.blocks w.freeList
  grind

theorem grab_placed (h : Placed w place F R) (howner : w.owner = .sawRemote) (home : ℕ) :
    ∃ place' R', R = w.remoteList :: R' ∧
      Placed ({ w with remoteList := 0, freeList := w.header w.remoteList }.handOut home w.remoteList)
        place' R' [] := by
  obtain ⟨R', rfl, hlists⟩ := h.toLists.grab (h.empty (.inr howner)) (h.remote howner)
  have hrest : ∀ b ∈ R', place b = some .remoteList :=
    fun b hb => (h.remoteList b).mp (List.mem_cons_of_mem _ hb)
  have htop := (h.remoteList w.remoteList).mp List.mem_cons_self
  refine ⟨_, R', rfl, handOut_placed (h.toUsers.chained hrest) (h.remote howner) (fun t => ?_) hlists
    rfl rfl (fun c => ?_) home⟩
  · rw [chained]
    split <;> simp [htop]
  · have := h.blocks w.remoteList
    grind

theorem fresh_place (h : Users w place) (hfresh : b ∉ w.blocks) : place b = none := by
  by_contra hne
  exact hfresh ((h.blocks b).mpr (Option.isSome_iff_ne_none.mpr hne))

theorem carve_placed (h : Placed w place F R) (hb : b ≠ 0) (hfresh : b ∉ w.blocks) (home : ℕ) :
    ∃ place', Placed ({ w with blocks := insert b w.blocks }.handOut home b) place' F R := by
  have hplace := fresh_place h.toUsers hfresh
  have hlists : Lists { w with blocks := insert b w.blocks }
      (Function.update place b (some .live)) F R := by
    refine ⟨h.freeChain, h.remoteChain, ?_, ?_⟩
    · grind [h.freeList]
    · grind [h.remoteList]
  exact ⟨_, handOut_placed h.toUsers hb (by simp [hplace]) hlists rfl rfl
    (fun c => Finset.mem_insert) home⟩

theorem pushFree_placed {v : World τ} (h : Placed w place F R) (hb : b ≠ 0)
    (howner : w.owner ≠ .sawEmpty ∧ w.owner ≠ .sawRemote)
    (hplace : place b = some .live ∨ place b = none) (hlists : v.header = w.header ∧
      v.freeList = w.freeList ∧ v.remoteList = w.remoteList ∧ v.owner = w.owner)
    (hlive : ∀ c, c ∈ v.live ↔ c ≠ b ∧ c ∈ w.live)
    (hpusher : v.pusher = w.pusher) (hblocks : ∀ c, c ∈ v.blocks ↔ c = b ∨ c ∈ w.blocks) :
    ∃ place', Placed (v.pushFree b) place' (b :: F) R := by
  obtain ⟨hheader, hfree, hremote, hsame⟩ := hlists
  have hstate : Lists v place F R := h.toLists.of_eq hheader hfree hremote
  refine ⟨_, h.toUsers.move hb .freeList (fun c => ?_) (fun t c => ?_) hblocks,
    hstate.pushFree hb (by rcases hplace with hp | hp <;> simp [hp])
      (by rcases hplace with hp | hp <;> simp [hp]), ?_, ?_⟩
  · change c ∈ v.live ↔ _
    rw [hlive]
    grind
  · change (v.pusher t).block = some c ↔ _
    rw [hpusher]
    have := h.held t b
    grind
  · change v.owner = .sawEmpty ∨ v.owner = .sawRemote → _
    rw [hsame]
    exact fun hsaw => absurd hsaw (not_or.mpr howner)
  · change v.owner = .sawRemote → _
    rw [hsame]
    exact fun hsaw => absurd hsaw howner.2

theorem setHeader_placed (h : Placed w place F R) {p : Place τ} (hp : place b = some p)
    (hfree : p ≠ .freeList) (hremote : p ≠ .remoteList) (word : ℕ) {pusher : τ → Pusher}
    (hpusher : ∀ t, (pusher t).block = (w.pusher t).block) :
    Placed { w.setHeader b word with pusher := pusher } place F R where
  toUsers := ⟨h.live, fun t c => by rw [hpusher]; exact h.held t c, h.blocks, h.null⟩
  toLists := (h.toLists.setHeader (b := b) (v := word) (by simpa [hp]) (by simpa [hp])).of_eq
    rfl rfl rfl
  toSeen := ⟨h.empty, h.remote⟩

theorem chain_placed (h : Placed w place F R) (howner : w.owner = .idle ∨ w.owner = .sawNothing) (hb : b ≠ 0)
    (hfresh : b ∉ w.blocks) :
    ∃ place', Placed ({ w with blocks := insert b w.blocks }.pushFree b) place' (b :: F) R := by
  have hplace := fresh_place h.toUsers hfresh
  have hnot : ∀ c ∈ w.live, c ≠ b := by
    rintro c hc rfl
    rw [(h.live c).mp hc] at hplace
    cases hplace
  exact pushFree_placed (v := { w with blocks := insert b w.blocks })
    h hb (by rcases howner with ho | ho <;> rw [ho] <;> decide) (.inr hplace) ⟨rfl, rfl, rfl, rfl⟩
    (fun c => ⟨fun hc => ⟨hnot c hc, hc⟩, And.right⟩) rfl fun c => Finset.mem_insert

theorem push_placed (h : Placed w place F R) (howner : w.owner = .idle) (hb : b ∈ w.live) :
    ∃ place', Placed ({ w with live := w.live.erase b }.pushFree b) place' (b :: F) R := by
  have hplace := (h.live b).mp hb
  have hmem : b ∈ w.blocks := (h.blocks b).mpr (by rw [hplace]; rfl)
  exact pushFree_placed (v := { w with live := w.live.erase b })
    h (h.toUsers.ne_zero hplace) (by rw [howner]; decide) (.inl hplace) ⟨rfl, rfl, rfl, rfl⟩
    (fun c => Finset.mem_erase) rfl fun c => ⟨.inr, fun hc => hc.elim (· ▸ hmem) id⟩

theorem owner_placed (h : Placed w place F R) {owner : Owner}
    (hempty : owner = .sawEmpty ∨ owner = .sawRemote → w.freeList = 0)
    (hremote : owner = .sawRemote → w.remoteList ≠ 0) :
    Placed { w with owner := owner } place F R where
  toUsers := ⟨h.live, h.held, h.blocks, h.null⟩
  toLists := h.toLists.of_eq rfl rfl rfl
  toSeen := ⟨hempty, hremote⟩

def Consistent (w : World τ) : Prop := ∃ place F R, Placed w place F R

variable [DecidableEq τ]

theorem free_placed (h : Placed w place F R) (hpusher : w.pusher t = .idle) (hb : b ∈ w.live) :
    ∃ place', Placed { w with
      live := w.live.erase b
      pusher := Function.update w.pusher t (.freeing b) } place' F R := by
  have hplace := (h.live b).mp hb
  refine ⟨_, h.toUsers.move (h.toUsers.ne_zero hplace) (.held t) (fun c => ?_) (fun u c => ?_)
    (fun c => ?_), ⟨h.freeChain, h.remoteChain, ?_, ?_⟩, h.empty, h.remote⟩
  · grind
  · by_cases hu : u = t
    · have := h.held t c
      grind [Pusher.block]
    · have := h.held u b
      grind
  · have := h.blocks b
    grind
  · grind [h.freeList]
  · grind [h.remoteList]

theorem casv_placed (h : Placed w place F R) (hpusher : w.pusher t = .linked b)
    (hlink : w.remoteList = w.header b) :
    ∃ place', Placed { w with
      remoteList := b
      pusher := Function.update w.pusher t .idle } place' F (b :: R) := by
  have hplace := (h.held t b).mp (by rw [hpusher, Pusher.block])
  have hb := h.toUsers.ne_zero hplace
  refine ⟨_, h.toUsers.move hb .remoteList (fun c => ?_) (fun u c => ?_) (fun c => ?_),
    (h.toLists.pushRemote hb hlink.symm (by simp [hplace])).of_eq rfl rfl rfl, h.empty, fun _ => hb⟩
  · have := h.live c
    grind
  · have := h.held u c
    by_cases hu : u = t
    · grind [Pusher.block]
    · grind
  · have := h.blocks b
    grind

theorem step_consistent {home : ℕ} {l : Label τ} (h : Consistent w)
    (hs : step home w l = some w') : Consistent w' := by
  obtain ⟨place, F, R, h⟩ := h
  cases l <;> simp only [step, Option.ite_none_right_eq_some, Option.some.injEq] at hs
  case pop =>
    obtain ⟨⟨_, hw⟩, rfl⟩ := hs
    obtain ⟨place', F', _, h'⟩ := pop_placed h hw home
    exact ⟨place', F', R, h'⟩
  case seeEmpty =>
    obtain ⟨⟨_, hfree⟩, rfl⟩ := hs
    exact ⟨place, F, R, owner_placed h (fun _ => hfree) nofun⟩
  case readRemote =>
    obtain ⟨howner, rfl⟩ := hs
    refine ⟨place, F, R, owner_placed h (fun _ => h.empty (.inl howner)) fun hsaw hnull => ?_⟩
    rw [if_neg (not_not.mpr hnull)] at hsaw
    cases hsaw
  case grab =>
    obtain ⟨howner, rfl⟩ := hs
    obtain ⟨place', F', _, h'⟩ := grab_placed h howner home
    exact ⟨place', F', [], h'⟩
  case carve b =>
    obtain ⟨⟨_, hb, hfresh⟩, rfl⟩ := hs
    obtain ⟨place', h'⟩ := carve_placed h hb hfresh home
    exact ⟨place', F, R, h'⟩
  case noMemory =>
    obtain ⟨_, rfl⟩ := hs
    exact ⟨place, F, R, owner_placed h (by rintro (hsaw | hsaw) <;> cases hsaw) nofun⟩
  case chain b =>
    obtain ⟨⟨howner, hb, hfresh⟩, rfl⟩ := hs
    obtain ⟨place', h'⟩ := chain_placed h howner hb hfresh
    exact ⟨place', b :: F, R, h'⟩
  case push b =>
    obtain ⟨⟨howner, hb⟩, rfl⟩ := hs
    obtain ⟨place', h'⟩ := push_placed h howner hb
    exact ⟨place', b :: F, R, h'⟩
  case free t b =>
    obtain ⟨⟨hpusher, hb⟩, rfl⟩ := hs
    obtain ⟨place', h'⟩ := free_placed h hpusher hb
    exact ⟨place', F, R, h'⟩
  case load t =>
    split at hs
    · next b hpusher =>
      cases hs
      have hheld := (h.held t b).mp (by rw [hpusher, Pusher.block])
      refine ⟨place, F, R, setHeader_placed h hheld nofun nofun w.remoteList fun u => ?_⟩
      by_cases hu : u = t
      · subst u
        rw [Function.update_self, hpusher, Pusher.block, Pusher.block]
      · rw [Function.update_of_ne hu]
    · cases hs
  case casv t =>
    split at hs
    · next b hpusher =>
      have hheld := (h.held t b).mp (by rw [hpusher, Pusher.block])
      split at hs
      · next hlink =>
        cases hs
        obtain ⟨place', h'⟩ := casv_placed h hpusher hlink
        exact ⟨place', F, b :: R, h'⟩
      · cases hs
        exact ⟨place, F, R, setHeader_placed h hheld nofun nofun w.remoteList fun _ => rfl⟩
    · cases hs
  case mark b word =>
    obtain ⟨hb, rfl⟩ := hs
    exact ⟨place, F, R, setHeader_placed h ((h.live b).mp hb) nofun nofun word fun _ => rfl⟩

/-! ### Runs -/

theorem reachable_consistent {home : ℕ} (h : (system τ home).Reachable w) : Consistent w := by
  refine h.invariant ?_ fun w l w' hw hs => step_consistent hw hs
  rintro w ⟨header, rfl⟩
  refine ⟨fun _ => none, [], [], ⟨?_, ?_, ?_, rfl⟩, ⟨rfl, rfl, ?_, ?_⟩, nofun, nofun⟩ <;>
    simp [World.empty, Pusher.block]

/-- In every state of every interleaving, each block of the bucket is in exactly one place, nothing else is in any, both lists end and repeat no block, and the remote list that the owner is about to take is not empty. -/
theorem remote_free_exact {home : ℕ} (h : (system τ home).Reachable w) :
    (∀ b ∈ w.blocks, ∃! p : Place τ, w.At b p) ∧ (∀ b p, w.At b p → b ∈ w.blocks) ∧
      (∃ F, Chain w.header w.freeList F ∧ F.Nodup) ∧
      (∃ R, Chain w.header w.remoteList R ∧ R.Nodup) ∧
      (w.owner = .sawRemote → w.remoteList ≠ 0) := by
  obtain ⟨place, F, R, hw⟩ := reachable_consistent h
  refine ⟨fun b hb => ?_, fun b p hp => ?_, ⟨F, hw.freeChain, hw.freeChain.nodup⟩,
    ⟨R, hw.remoteChain, hw.remoteChain.nodup⟩, hw.remote⟩
  · obtain ⟨p, hp⟩ := Option.isSome_iff_exists.mp ((hw.blocks b).mp hb)
    refine ⟨p, (hw.at_iff b p).mpr hp, fun q hq => ?_⟩
    have := (hw.at_iff b q).mp hq
    rw [hp] at this
    exact (Option.some.inj this).symm
  · rw [hw.blocks, (hw.at_iff b p).mp hp]
    rfl

/-- Two threads return their blocks at the same time, the second loses the race and retries, and the owner takes both. -/
private def race : List (Label Bool) :=
  [.seeEmpty, .readRemote, .carve 64, .seeEmpty, .readRemote, .carve 128, .free false 64,
    .free true 128, .load false, .load true, .casv false, .casv true, .casv true, .seeEmpty,
    .readRemote, .grab]

private def raced : World Bool :=
  (run 8 race (World.empty fun _ => 0)).getD (World.empty fun _ => 0)

private theorem raced_reachable : (system Bool 8).Reachable raced := by
  have hrun : (run 8 race (World.empty fun _ => 0)).isSome := by decide
  obtain ⟨w', hw'⟩ := Option.isSome_iff_exists.mp hrun
  rw [raced, hw']
  exact run_reachable (.start ⟨fun _ => 0, rfl⟩) hw'

theorem remote_free_exact_race :
    (∀ b ∈ raced.blocks, ∃! p : Place Bool, raced.At b p) ∧
      (∀ b p, raced.At b p → b ∈ raced.blocks) ∧
      (∃ F, Chain raced.header raced.freeList F ∧ F.Nodup) ∧
      (∃ R, Chain raced.header raced.remoteList R ∧ R.Nodup) ∧
      (raced.owner = .sawRemote → raced.remoteList ≠ 0) :=
  remote_free_exact raced_reachable

/-! ### Without interference -/

/-- A bucket of the sequential model, its owner and the other threads idle. -/
def World.ofBucket (s : State) (freeHead : ℕ) (live blocks : Finset ℕ) : World τ where
  header := s.mem.word
  freeList := (s.freeHeader freeHead).freeList
  remoteList := (s.freeHeader freeHead).remoteList
  owner := .idle
  pusher _ := .idle
  live := live
  blocks := blocks

theorem run_free {s : State} {freeHead home : ℕ} {live blocks : Finset ℕ} (t : τ)
    (hb : b ∈ live) (htop : (s.freeHeader freeHead).remoteList < 2 ^ 64) :
    ∃ w', run home [.free t b, .load t, .casv t] (World.ofBucket s freeHead live blocks) = some w' ∧
      w'.remoteList = ((s.push .remoteList freeHead b).freeHeader freeHead).remoteList ∧
      w'.freeList = ((s.push .remoteList freeHead b).freeHeader freeHead).freeList ∧
      ∀ c, c = b ∨ c + 8 ≤ b ∨ b + 8 ≤ c →
        w'.header c = (s.push .remoteList freeHead b).mem.word c := by
  refine ⟨_, by simp [run, step, World.ofBucket, World.setHeader, hb]; rfl, ?_, ?_, fun c hc => ?_⟩
  · simp [State.push, FreeHeader.setTop]
  · simp [State.push, FreeHeader.setTop]
  · rcases hc with rfl | hc
    · simp [State.push, FreeHeader.top, Memory.word_setWord_self htop]
    · have hne : c ≠ b := by omega
      simp [State.push, hne, Memory.word_setWord_of_disjoint hc]

theorem run_grab {s : State} {cfg : Config} (k : Kernel cfg) (t : Tid) {freeHead home : ℕ}
    {live blocks : Finset ℕ} (hfree : (s.freeHeader freeHead).freeList = 0)
    (hremote : (s.freeHeader freeHead).remoteList ≠ 0) :
    ∃ (w' : World τ) (block : ℕ) (s' : State),
      run home [.seeEmpty, .readRemote, .grab] (World.ofBucket s freeHead live blocks) = some w' ∧
      allocateBlock k t freeHead s = .ok (some block, s') ∧ block ∈ w'.live ∧
      w'.freeList = (s'.freeHeader freeHead).freeList ∧
      w'.remoteList = (s'.freeHeader freeHead).remoteList := by
  refine ⟨_, _, _, by simp [run, step, World.ofBucket, hfree, hremote]; rfl,
    by simp [allocateBlock, hfree, hremote]; exact ⟨rfl, rfl⟩, ?_, ?_, ?_⟩ <;>
    simp [World.handOut, World.setHeader]

end Llheap.Remote
