import Llheap.Base.Transition
import Mathlib.Data.Finset.Basic

/-!
# The remote-free protocol

One bucket, its owner in `doMalloc` and any number of other threads in `doFree`, with a step for each atomic access to `remoteList`. What a thread does between two such accesses touches only words that are its own at that point, so it is part of the step before it. The header word of a block is the link while the block is on a list or being pushed, and the home pointer with its tags while it is live.
-/

namespace Llheap.Remote

/-- What the owner has seen so far in `doMalloc`. -/
inductive Owner
  | idle
  | sawEmpty
  | sawRemote
  | sawNothing
deriving DecidableEq

/-- How far a thread is in returning a block: before the first load of `remoteList`, or in the compare-and-swap loop. -/
inductive Pusher
  | idle
  | freeing (block : ℕ)
  | linked (block : ℕ)
deriving DecidableEq

def Pusher.block : Pusher → Option ℕ
  | .idle => none
  | .freeing block => some block
  | .linked block => some block

structure World (τ : Type) where
  header : ℕ → ℕ
  freeList : ℕ
  remoteList : ℕ
  owner : Owner
  pusher : τ → Pusher
  live : Finset ℕ
  blocks : Finset ℕ

inductive Label (τ : Type)
  | pop
  | seeEmpty
  | readRemote
  | grab
  | carve (block : ℕ)
  | noMemory
  | chain (block : ℕ)
  | push (block : ℕ)
  | free (t : τ) (block : ℕ)
  | load (t : τ)
  | casv (t : τ)
  | mark (block word : ℕ)

variable {τ : Type} [DecidableEq τ]

def World.setHeader (block word : ℕ) (w : World τ) : World τ :=
  { w with header := Function.update w.header block word }

/-- The end of `doMalloc`: write the home pointer and return the block. -/
def World.handOut (home block : ℕ) (w : World τ) : World τ :=
  { w.setHeader block home with owner := .idle, live := insert block w.live }

/-- The local push on the owner's list. -/
def World.pushFree (block : ℕ) (w : World τ) : World τ :=
  { w.setHeader block w.freeList with freeList := block }

/-- One step; `none` where it is not enabled. A failed `Casv` stores the top it found in the link. -/
def step (home : ℕ) (w : World τ) : Label τ → Option (World τ)
  | .pop =>
    if w.owner = .idle ∧ w.freeList ≠ 0 then
      some ({ w with freeList := w.header w.freeList }.handOut home w.freeList)
    else none
  | .seeEmpty =>
    if w.owner = .idle ∧ w.freeList = 0 then some { w with owner := .sawEmpty } else none
  | .readRemote =>
    if w.owner = .sawEmpty then
      some { w with owner := if w.remoteList ≠ 0 then .sawRemote else .sawNothing }
    else none
  | .grab =>
    if w.owner = .sawRemote then
      some ({ w with remoteList := 0, freeList := w.header w.remoteList }.handOut home w.remoteList)
    else none
  | .carve block =>
    if w.owner = .sawNothing ∧ block ≠ 0 ∧ block ∉ w.blocks then
      some ({ w with blocks := insert block w.blocks }.handOut home block)
    else none
  | .noMemory => if w.owner = .sawNothing then some { w with owner := .idle } else none
  | .chain block =>
    if (w.owner = .idle ∨ w.owner = .sawNothing) ∧ block ≠ 0 ∧ block ∉ w.blocks then
      some ({ w with blocks := insert block w.blocks }.pushFree block)
    else none
  | .push block =>
    if w.owner = .idle ∧ block ∈ w.live then
      some ({ w with live := w.live.erase block }.pushFree block)
    else none
  | .free t block =>
    if w.pusher t = .idle ∧ block ∈ w.live then
      some { w with live := w.live.erase block, pusher := Function.update w.pusher t (.freeing block) }
    else none
  | .load t =>
    match w.pusher t with
    | .freeing block =>
      some { w.setHeader block w.remoteList with
        pusher := Function.update w.pusher t (.linked block) }
    | _ => none
  | .casv t =>
    match w.pusher t with
    | .linked block =>
      if w.remoteList = w.header block then
        some { w with remoteList := block, pusher := Function.update w.pusher t .idle }
      else some (w.setHeader block w.remoteList)
    | _ => none
  | .mark block word => if block ∈ w.live then some (w.setHeader block word) else none

def World.empty (header : ℕ → ℕ) : World τ where
  header := header
  freeList := 0
  remoteList := 0
  owner := .idle
  pusher _ := .idle
  live := ∅
  blocks := ∅

def system (τ : Type) [DecidableEq τ] (home : ℕ) : TransitionSystem (World τ) (Label τ) where
  init w := ∃ header, w = World.empty header
  step w l w' := step home w l = some w'

/-- Take the given steps one after the other. -/
def run (home : ℕ) (labels : List (Label τ)) (w : World τ) : Option (World τ) :=
  labels.foldlM (step home) w

theorem run_reachable {home : ℕ} {labels : List (Label τ)} {w w' : World τ}
    (h : (system τ home).Reachable w) (hrun : run home labels w = some w') :
    (system τ home).Reachable w' := by
  induction labels generalizing w with
  | nil =>
    cases hrun
    exact h
  | cons l labels ih =>
    rw [run, List.foldlM_cons] at hrun
    obtain ⟨v, hv, hrest⟩ := Option.bind_eq_some_iff.mp hrun
    exact ih (.next h hv) hrest

end Llheap.Remote
