import Llheap.Base.Simulation
import Llheap.Proof.Remote

/-!
# The remote-free protocol is atomic

What the owner and the other threads want of a bucket is a pair of stacks, with operations that take effect at once: a thread gives a block, the owner takes one, from its own stack or else all that has been given. Each operation of the protocol takes effect in one of its accesses to `remoteList`, and the other accesses are not seen.
-/

namespace Llheap.Remote

open TransitionSystem

structure AtomicBucket (τ : Type) where
  own : List ℕ
  returned : List ℕ
  live : Finset ℕ
  hands : τ → Option ℕ
  blocks : Finset ℕ
  /-- the owner has found no block -/
  missed : Bool

inductive Operation (τ : Type)
  | take (block : Option ℕ)
  | carve (block : ℕ)
  | refuse
  | chain (block : ℕ)
  | push (block : ℕ)
  | release (t : τ) (block : ℕ)
  | give (t : τ) (block : ℕ)
deriving DecidableEq

namespace AtomicBucket

variable {τ : Type}

/-- What the owner finds. -/
def take (B : AtomicBucket τ) : Option ℕ × AtomicBucket τ :=
  match B.own, B.returned with
  | b :: own, _ => (some b, { B with own := own, live := insert b B.live })
  | [], b :: returned => (some b, { B with own := returned, returned := [], live := insert b B.live })
  | [], [] => (none, { B with missed := true })

variable [DecidableEq τ]

def Step (B : AtomicBucket τ) : Operation τ → AtomicBucket τ → Prop
  | .take r, B' => B.missed = false ∧ B.take = (r, B')
  | .carve b, B' => B.missed = true ∧ b ≠ 0 ∧ b ∉ B.blocks ∧
      B' = { B with blocks := insert b B.blocks, live := insert b B.live, missed := false }
  | .refuse, B' => B.missed = true ∧ B' = { B with missed := false }
  | .chain b, B' => b ≠ 0 ∧ b ∉ B.blocks ∧ B' = { B with blocks := insert b B.blocks, own := b :: B.own }
  | .push b, B' => B.missed = false ∧ b ∈ B.live ∧ B' = { B with live := B.live.erase b, own := b :: B.own }
  | .release t b, B' => B.hands t = none ∧ b ∈ B.live ∧
      B' = { B with live := B.live.erase b, hands := Function.update B.hands t (some b) }
  | .give t b, B' => B.hands t = some b ∧
      B' = { B with returned := b :: B.returned, hands := Function.update B.hands t none }

def empty (τ : Type) : AtomicBucket τ := ⟨[], [], ∅, fun _ => none, ∅, false⟩

def system (τ : Type) [DecidableEq τ] : TransitionSystem (AtomicBucket τ) (Operation τ) where
  init B := B = empty τ
  step := Step

end AtomicBucket

variable {τ : Type} {w w' : World τ} {B : AtomicBucket τ} {home b : ℕ} {t : τ}
  {place : ℕ → Option (Place τ)} {F R : List ℕ}

/-- The operation that takes effect in a step. -/
def effect (w : World τ) : Label τ → World τ → List (Operation τ)
  | .pop, _ => [.take (some w.freeList)]
  | .readRemote, _ => if w.remoteList = 0 then [.take none] else []
  | .grab, _ => [.take (some w.remoteList)]
  | .carve block, _ => [.carve block]
  | .noMemory, _ => [.refuse]
  | .chain block, _ => [.chain block]
  | .push block, _ => [.push block]
  | .free t block, _ => [.release t block]
  | .casv t, _ =>
    match w.pusher t with
    | .linked block => if w.remoteList = w.header block then [.give t block] else []
    | _ => []
  | _, _ => []

/-- The lists of the protocol are the stacks. -/
structure Stands (w : World τ) (B : AtomicBucket τ) : Prop where
  placed : ∃ place, Placed w place B.own B.returned
  live : B.live = w.live
  hands : ∀ t, B.hands t = (w.pusher t).block
  blocks : B.blocks = w.blocks
  missed : B.missed = true ↔ w.owner = .sawNothing

theorem Stands.not_missed (h : Stands w B) (howner : w.owner ≠ .sawNothing) : B.missed = false := by
  rw [← Bool.not_eq_true, h.missed]
  exact howner

theorem placed_empty (header : ℕ → ℕ) :
    Placed (World.empty header : World τ) (fun _ => none) [] [] := by
  refine ⟨⟨?_, ?_, ?_, rfl⟩, ⟨rfl, rfl, ?_, ?_⟩, ?_, ?_⟩ <;> simp [World.empty, Pusher.block]

/-- The owner's accesses that are not seen. -/
theorem Stands.owner (h : Stands w B) {owner : Owner} (hplaced : Placed { w with owner := owner } place B.own B.returned)
    {missed : Bool} (hmissed : missed = true ↔ owner = .sawNothing) :
    Stands { w with owner := owner } { B with missed := missed } :=
  ⟨⟨place, hplaced⟩, h.live, h.hands, h.blocks, hmissed⟩

variable [DecidableEq τ]

theorem Stands.hands_update (h : Stands w B) (p : Pusher) (u : τ) :
    Function.update B.hands t p.block u = (Function.update w.pusher t p u).block := by
  by_cases hu : u = t
  · rw [hu, Function.update_self, Function.update_self]
  · rw [Function.update_of_ne hu, Function.update_of_ne hu, h.hands]

omit [DecidableEq τ] in
/-- A thread's retry, and the words of live blocks, are not seen. -/
theorem Stands.setHeader (h : Stands w B) (hplaced : Placed w place F R) {p : Place τ} (hp : place b = some p)
    (hfree : p ≠ .freeList) (hremote : p ≠ .remoteList) (word : ℕ) {pusher : τ → Pusher}
    (hpusher : ∀ t, (pusher t).block = (w.pusher t).block) :
    Stands { w.setHeader b word with pusher := pusher } B := by
  obtain ⟨⟨place', hplaced'⟩, hlive, hhands, hblocks, hmissed⟩ := h
  have hsame : place' b = some p := (hplaced'.at_iff b p).mp ((hplaced.at_iff b p).mpr hp)
  exact ⟨⟨place', setHeader_placed hplaced' hsame hfree hremote word hpusher⟩, hlive,
    fun t => (hhands t).trans (hpusher t).symm, hblocks, hmissed⟩

/-- One step takes effect as at most one operation. -/
theorem Stands.step {l : Label τ} (h : Stands w B) (hs : step home w l = some w') :
    ∃ B', (AtomicBucket.system τ).Run labels B (effect w l w') B' ∧ Stands w' B' := by
  obtain ⟨⟨place, hplaced⟩, hlive, hhands, hblocks, hmissed⟩ := id h
  have hone : ∀ {op B'}, B.Step op B' → Stands w' B' →
      ∃ B', (AtomicBucket.system τ).Run labels B [op] B' ∧ Stands w' B' :=
    fun hstep hstands => ⟨_, .single labels hstep, hstands⟩
  cases l <;> simp only [Remote.step, Option.ite_none_right_eq_some, Option.some.injEq] at hs
  case pop =>
    obtain ⟨⟨howner, hw⟩, rfl⟩ := hs
    have hmiss := h.not_missed (by rw [howner]; decide)
    obtain ⟨place', F', hcons, h'⟩ := pop_placed hplaced hw home
    have htake : B.take = (some w.freeList, { B with own := F', live := insert w.freeList B.live }) := by
      rw [AtomicBucket.take, hcons]
    exact hone ⟨hmiss, htake⟩ ⟨⟨place', h'⟩, congrArg (insert w.freeList) hlive, hhands, hblocks,
      by simp [hmiss, World.handOut]⟩
  case seeEmpty =>
    obtain ⟨⟨howner, hfree⟩, rfl⟩ := hs
    have hmiss := h.not_missed (by rw [howner]; decide)
    exact ⟨B, .refl B, h.owner (owner_placed hplaced (fun _ => hfree) (by simp)) (by simp [hmiss])⟩
  case readRemote =>
    obtain ⟨howner, hs⟩ := hs
    have hmiss := h.not_missed (by rw [howner]; decide)
    have hempty := hplaced.empty (.inl howner)
    by_cases hremote : w.remoteList = 0
    · have hown : B.own = [] := Chain.of_null (hempty ▸ hplaced.freeChain)
      have hreturned : B.returned = [] := Chain.of_null (hremote ▸ hplaced.remoteChain)
      have htake : B.take = (none, { B with missed := true }) := by rw [AtomicBucket.take, hown, hreturned]
      rw [if_neg (not_not.mpr hremote)] at hs
      subst hs
      rw [effect, if_pos hremote]
      exact hone ⟨hmiss, htake⟩ (h.owner (owner_placed hplaced (by simp) (by simp)) (by simp))
    · rw [if_pos hremote] at hs
      subst hs
      rw [effect, if_neg hremote]
      exact ⟨B, .refl B, h.owner (owner_placed hplaced (fun _ => hempty) fun _ => hremote) (by simp [hmiss])⟩
  case grab =>
    obtain ⟨howner, rfl⟩ := hs
    have hmiss := h.not_missed (by rw [howner]; decide)
    have hown : B.own = [] := Chain.of_null (hplaced.empty (.inr howner) ▸ hplaced.freeChain)
    obtain ⟨place', R', hcons, h'⟩ := grab_placed hplaced howner home
    have htake : B.take = (some w.remoteList,
        { B with own := R', returned := [], live := insert w.remoteList B.live }) := by
      rw [AtomicBucket.take, hown, hcons]
    exact hone ⟨hmiss, htake⟩ ⟨⟨place', h'⟩, congrArg (insert w.remoteList) hlive, hhands, hblocks,
      by simp [hmiss, World.handOut]⟩
  case carve b =>
    obtain ⟨⟨howner, hb, hfresh⟩, rfl⟩ := hs
    obtain ⟨place', h'⟩ := carve_placed hplaced hb hfresh home
    refine hone ⟨hmissed.mpr howner, hb, hblocks ▸ hfresh, rfl⟩ ⟨⟨place', h'⟩, congrArg (insert b) hlive, hhands,
      congrArg (insert b) hblocks, by simp [World.handOut]⟩
  case noMemory =>
    obtain ⟨howner, rfl⟩ := hs
    exact hone ⟨hmissed.mpr howner, rfl⟩ (h.owner (owner_placed hplaced (by simp) (by simp)) (by simp))
  case chain b =>
    obtain ⟨⟨howner, hb, hfresh⟩, rfl⟩ := hs
    obtain ⟨place', h'⟩ := chain_placed hplaced howner hb hfresh
    exact hone ⟨hb, hblocks ▸ hfresh, rfl⟩ ⟨⟨place', h'⟩, hlive, hhands, congrArg (insert b) hblocks, hmissed⟩
  case push b =>
    obtain ⟨⟨howner, hb⟩, rfl⟩ := hs
    obtain ⟨place', h'⟩ := push_placed hplaced howner hb
    have hmiss := h.not_missed (by rw [howner]; decide)
    exact hone ⟨hmiss, hlive ▸ hb, rfl⟩ ⟨⟨place', h'⟩, by rw [hlive]; rfl, hhands, hblocks, hmissed⟩
  case free t b =>
    obtain ⟨⟨hpusher, hb⟩, rfl⟩ := hs
    obtain ⟨place', h'⟩ := free_placed hplaced hpusher hb
    have hempty : B.hands t = none := by rw [hhands, hpusher, Pusher.block]
    exact hone ⟨hempty, hlive ▸ hb, rfl⟩ ⟨⟨place', h'⟩, by rw [hlive], h.hands_update (.freeing b), hblocks, hmissed⟩
  case load t =>
    split at hs
    · next b hpusher =>
      cases hs
      have hheld := (hplaced.held t b).mp (by rw [hpusher, Pusher.block])
      refine ⟨B, .refl B, h.setHeader hplaced hheld (by simp) (by simp) w.remoteList fun u => ?_⟩
      by_cases hu : u = t
      · subst u
        rw [Function.update_self, hpusher, Pusher.block, Pusher.block]
      · rw [Function.update_of_ne hu]
    · cases hs
  case casv t =>
    split at hs
    · next b hpusher =>
      have hheld := (hplaced.held t b).mp (by rw [hpusher, Pusher.block])
      rw [effect]
      simp only [hpusher]
      split at hs
      · next hlink =>
        cases hs
        obtain ⟨place', h'⟩ := casv_placed hplaced hpusher hlink
        rw [if_pos hlink]
        have hfull : B.hands t = some b := by rw [hhands, hpusher, Pusher.block]
        exact hone ⟨hfull, rfl⟩ ⟨⟨place', h'⟩, hlive, h.hands_update .idle, hblocks, hmissed⟩
      · next hlink =>
        cases hs
        rw [if_neg hlink]
        exact ⟨B, .refl B, h.setHeader hplaced hheld (by simp) (by simp) w.remoteList fun _ => rfl⟩
    · cases hs
  case mark b word =>
    obtain ⟨hb, rfl⟩ := hs
    exact ⟨B, .refl B, h.setHeader hplaced ((hplaced.live b).mp hb) (by simp) (by simp) word fun _ => rfl⟩

theorem atomic_simulation (τ : Type) [DecidableEq τ] (home : ℕ) :
    (system τ home).Simulation (AtomicBucket.system τ) effect Stands where
  init w hw := by
    obtain ⟨header, rfl⟩ := hw
    exact ⟨_, rfl, ⟨_, placed_empty header⟩, rfl, fun _ => rfl, rfl, by simp [AtomicBucket.empty, World.empty]⟩
  step _ _ _ _ hstands hs := hstands.step hs

/-- Whatever the interleaving, the operations take effect one after the other, each between its first and its last access, as they do on a pair of stacks; and a new block is carved only after both stacks have been empty. -/
theorem runs_linearize {es : List (Operation τ)} (h0 : (system τ home).init w)
    (hrun : (system τ home).Run effect w es w') :
    ∃ B, (AtomicBucket.system τ).Run labels (.empty τ) es B ∧ Stands w' B := by
  obtain ⟨_, rfl, hstands⟩ := (atomic_simulation τ home).init w h0
  exact (atomic_simulation τ home).run hrun hstands

/-- The events of the given steps. -/
def events {ε : Type} (view : World τ → Label τ → World τ → List ε) (home : ℕ) : List (Label τ) → World τ → List ε
  | [], _ => []
  | l :: ls, w =>
    match step home w l with
    | some w' => view w l w' ++ events view home ls w'
    | none => []

theorem run_events {ε : Type} {view : World τ → Label τ → World τ → List ε} {ls : List (Label τ)}
    (h : run home ls w = some w') : (system τ home).Run view w (events view home ls w) w' := by
  induction ls generalizing w with
  | nil =>
    cases h
    exact .refl _
  | cons l ls ih =>
    rw [run, List.foldlM_cons] at h
    obtain ⟨v, hv, hrest⟩ := Option.bind_eq_some_iff.mp h
    rw [events, hv]
    exact .step hv (ih hrest)

/-- The owner carves two blocks, two threads give them back, and the second thread has to retry. -/
private def contended : List (Label Bool) :=
  [.seeEmpty, .readRemote, .carve 64, .seeEmpty, .readRemote, .carve 128, .free false 64,
    .free true 128, .load false, .load true, .casv false, .casv true, .casv true, .seeEmpty,
    .readRemote, .grab]

private theorem contended_run {ε : Type} (view : World Bool → Label Bool → World Bool → List ε) :
    ∃ w', (system Bool 8).Run view (World.empty fun _ => 0)
      (events view 8 contended (World.empty fun _ => 0)) w' := by
  have hsome : (run 8 contended (World.empty fun _ => 0)).isSome := by decide
  obtain ⟨w', hw'⟩ := Option.isSome_iff_exists.mp hsome
  exact ⟨w', run_events hw'⟩

/-- The owner gets the block that was given last. -/
theorem runs_linearize_race : ∃ B, (AtomicBucket.system Bool).Run labels (.empty Bool)
    [.take none, .carve 64, .take none, .carve 128, .release false 64, .release true 128, .give false 64,
      .give true 128, .take (some 128)] B := by
  obtain ⟨w', hrun⟩ := contended_run effect
  obtain ⟨B, hB, _⟩ := runs_linearize ⟨_, rfl⟩ hrun
  have hevents : events effect 8 contended (World.empty fun _ => 0) = [.take none, .carve 64, .take none,
      .carve 128, .release false 64, .release true 128, .give false 64, .give true 128, .take (some 128)] := by decide
  exact ⟨B, hevents ▸ hB⟩

/-! ### Retries -/

/-- An access that changes the remote list, or a compare-and-swap that fails. -/
inductive Access (τ : Type)
  | pushed (t : τ)
  | grabbed
  | failed (t : τ)
deriving DecidableEq

def access (w : World τ) : Label τ → World τ → List (Access τ)
  | .grab, _ => [.grabbed]
  | .casv t, _ =>
    match w.pusher t with
    | .linked block => if w.remoteList = w.header block then [.pushed t] else [.failed t]
    | _ => []
  | _, _ => []

/-- It changes the remote list, and thread `t` has not made it. -/
def Access.foreign (t : τ) : Access τ → Bool
  | .pushed u => u ≠ t
  | .grabbed => true
  | .failed _ => false

/-- The next compare-and-swap of thread `t` would fail. -/
def World.stale (w : World τ) (t : τ) : ℕ :=
  match w.pusher t with
  | .linked block => if w.remoteList = w.header block then 0 else 1
  | _ => 0

omit [DecidableEq τ] in
theorem World.stale_le (w : World τ) (t : τ) : w.stale t ≤ 1 := by
  unfold stale
  split
  · split <;> omega
  · omega

omit [DecidableEq τ] in
theorem World.stale_eq (hpusher : w'.pusher t = w.pusher t) (hremote : w'.remoteList = w.remoteList)
    (hheader : ∀ b, (w.pusher t).block = some b → w'.header b = w.header b) : w'.stale t = w.stale t := by
  unfold stale
  rw [hpusher, hremote]
  split
  · next b hb => rw [hheader b (by rw [hb, Pusher.block])]
  · rfl

/-- A compare-and-swap fails only on a list that has changed since the last access of its thread. -/
theorem step_stale {l : Label τ} (h : Placed w place F R) (hs : step home w l = some w') :
    (access w l w').count (.failed t) + w'.stale t ≤ (access w l w').countP (Access.foreign t) + w.stale t := by
  have hquiet : access w l w' = [] → w'.pusher t = w.pusher t → w'.remoteList = w.remoteList →
      (∀ b, (w.pusher t).block = some b → w'.header b = w.header b) → (access w l w').count (.failed t) +
        w'.stale t ≤ (access w l w').countP (Access.foreign t) + w.stale t := by
    intro hnone hpusher hremote hheader
    rw [hnone, World.stale_eq hpusher hremote hheader]
    simp
  -- the header of a block that `t` does not hold is not the one that it is about to compare
  have hother : ∀ {c v}, place c ≠ some (.held t) → ∀ b, (w.pusher t).block = some b →
      Function.update w.header c v b = w.header b := by
    intro c v hc b hb
    apply Function.update_of_ne
    rintro rfl
    exact hc ((h.held t b).mp hb)
  cases l <;> simp only [Remote.step, Option.ite_none_right_eq_some, Option.some.injEq] at hs
  case pop =>
    obtain ⟨⟨_, hw⟩, rfl⟩ := hs
    exact hquiet rfl rfl rfl (hother (by simp [(h.toLists.popFree hw).1]))
  case seeEmpty =>
    obtain ⟨_, rfl⟩ := hs
    exact hquiet rfl rfl rfl fun _ _ => rfl
  case readRemote =>
    obtain ⟨_, rfl⟩ := hs
    exact hquiet rfl rfl rfl fun _ _ => rfl
  case grab =>
    obtain ⟨_, rfl⟩ := hs
    have hle := World.stale_le (World.handOut home w.remoteList
      { w with remoteList := 0, freeList := w.header w.remoteList }) t
    simp only [access, Access.foreign, List.count_singleton, List.countP_singleton]
    simp
    omega
  case carve b =>
    obtain ⟨⟨_, _, hfresh⟩, rfl⟩ := hs
    exact hquiet rfl rfl rfl (hother (by simp [fresh_place h.toUsers hfresh]))
  case noMemory =>
    obtain ⟨_, rfl⟩ := hs
    exact hquiet rfl rfl rfl fun _ _ => rfl
  case chain b =>
    obtain ⟨⟨_, _, hfresh⟩, rfl⟩ := hs
    exact hquiet rfl rfl rfl (hother (by simp [fresh_place h.toUsers hfresh]))
  case push b =>
    obtain ⟨⟨_, hb⟩, rfl⟩ := hs
    exact hquiet rfl rfl rfl (hother (by simp [(h.live b).mp hb]))
  case free u b =>
    obtain ⟨⟨_, _⟩, rfl⟩ := hs
    by_cases hu : u = t
    · simp [access, World.stale, hu]
    · exact hquiet rfl (Function.update_of_ne (Ne.symm hu) ..) rfl fun _ _ => rfl
  case load u =>
    split at hs
    · next b hpusher =>
      cases hs
      have hheld := (h.held u b).mp (by rw [hpusher, Pusher.block])
      by_cases hu : u = t
      · simp [access, World.stale, World.setHeader, hu]
      · exact hquiet rfl (Function.update_of_ne (Ne.symm hu) ..) rfl (hother (by simp [hheld, hu]))
    · cases hs
  case casv u =>
    split at hs
    · next b hpusher =>
      have hheld := (h.held u b).mp (by rw [hpusher, Pusher.block])
      rw [access]
      simp only [hpusher]
      by_cases hlink : w.remoteList = w.header b
      · rw [if_pos hlink] at hs ⊢
        cases hs
        by_cases hu : u = t
        · simp [World.stale, hu]
        · have hle := World.stale_le { w with remoteList := b, pusher := Function.update w.pusher u .idle } t
          have hforeign : Access.foreign t (.pushed u) = true := by simp [Access.foreign, hu]
          rw [List.countP_cons_of_pos hforeign, List.count_cons_of_ne (by simp)]
          simp only [List.count_nil, List.countP_nil]
          omega
      · rw [if_neg hlink] at hs ⊢
        cases hs
        by_cases hu : u = t
        · subst u
          simp [World.stale, World.setHeader, hpusher, hlink, Access.foreign]
        · have hstale : (w.setHeader b w.remoteList).stale t = w.stale t :=
            World.stale_eq rfl rfl (hother (by simp [hheld, hu]))
          rw [hstale, List.count_cons_of_ne (by simp [hu])]
          simp
    · cases hs
  case mark b word =>
    obtain ⟨hb, rfl⟩ := hs
    exact hquiet rfl rfl rfl (hother (by simp [(h.live b).mp hb]))

theorem run_stale {es : List (Access τ)} (hw : (system τ home).Reachable w)
    (hrun : (system τ home).Run access w es w') :
    es.count (.failed t) + w'.stale t ≤ es.countP (Access.foreign t) + w.stale t := by
  induction hrun with
  | refl w => simp
  | step hs _ ih =>
    obtain ⟨place, F, R, h⟩ := reachable_consistent hw
    have hfirst := step_stale (t := t) h hs
    have hrest := ih (.next hw hs)
    rw [List.count_append, List.countP_append]
    omega

/-- In any stretch of any run, the compare-and-swap of a thread fails at most once more often than others change the remote list. -/
theorem retries_le {es : List (Access τ)} (hw : (system τ home).Reachable w)
    (hrun : (system τ home).Run access w es w') :
    es.count (.failed t) ≤ es.countP (Access.foreign t) + 1 := by
  have hcount := run_stale (t := t) hw hrun
  have hle := w.stale_le t
  omega

theorem retries_le_race : [Access.pushed false, .failed true, .pushed true, .grabbed].count (.failed true) ≤
    [Access.pushed false, .failed true, .pushed true, .grabbed].countP (Access.foreign true) + 1 := by
  obtain ⟨w', hrun⟩ := contended_run access
  have hevents : events access 8 contended (World.empty fun _ => 0) =
      [.pushed false, .failed true, .pushed true, .grabbed] := by decide
  exact retries_le (.start ⟨_, rfl⟩) (hevents ▸ hrun)

end Llheap.Remote
