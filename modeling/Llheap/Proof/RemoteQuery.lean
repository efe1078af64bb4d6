import Llheap.Proof.Reuse

/-!
# Asking whether a block is remote

`malloc_remote` decodes the header of an address on its own, without `headers`. It compares the heaps the other way around than `doFree`, and takes the length in the header of a mapped block for the address of a bucket.
-/

namespace Llheap

variable {cfg : Config} {main : Tid} {s : State} {A : Arena Tag} {t : Tid} {b n u : ℕ} {v : View}

/-- The block has a home bucket, of another heap than the thread's. -/
def GoesRemote (t : Tid) (s : State) (addr : ℕ) : Prop :=
  ¬ (headers s addr).mapped ∧ s.heapManager t ≠ (s.freeHeader (headers s addr).freeHead).homeManager

theorem doFree_push (hbucket : ¬ (headers s u).mapped) : ∃ l : ListField,
    (l = .remoteList ↔ GoesRemote t s u) ∧
      doFree t u s = .ok (s.push l (headers s u).freeHead (headers s u).header) := by
  unfold GoesRemote doFree
  dsimp only
  rw [if_pos hbucket]
  split
  · next hown => exact ⟨.freeList, by simp [hown], rfl⟩
  · next hother => exact ⟨.remoteList, by simp [hbucket, hother], rfl⟩

/-- What `malloc_remote` is for: it says which list `doFree` would use, and finds no bucket for a mapped block. -/
structure AgreesWithFree (t : Tid) (s : State) (addr : ℕ) : Prop where
  remote : mallocRemote t s (some addr) = true ↔ GoesRemote t s addr
  mapped : (headers s addr).mapped → remoteHome s (some addr) = none

theorem Encodes.remoteHome (h : Encodes s.mem b n u v) (hv : v.Taggable n) :
    remoteHome s (some u) = some (v.origin.word n) := by
  rw [Llheap.remoteHome, Option.map_some, queryHeader_eq, h.fakeHeader hv, h.home, View.clearStickyBits hv]

/-- The answer is that a thread's own blocks are remote and the others are not. -/
theorem Tenant.not_agrees (ht : Tenant s A b n u v) (t : Tid) : ¬ AgreesWithFree t s u := by
  rintro ⟨hremote, hmapped⟩
  have hhome := ht.encodes.remoteHome ht.taggable
  have hheaders := ht.encodes.headers ht.taggable
  cases horigin : v.origin with
  | bucket f =>
    rw [horigin, Origin.word] at hhome
    rw [GoesRemote, hheaders, horigin] at hremote
    rw [mallocRemote, hhome] at hremote
    simp [Origin.freeHead] at hremote
  | mapped =>
    rw [hheaders, horigin] at hmapped
    rw [hmapped (by simp)] at hhome
    cases hhome

/-- The query and `doFree` disagree about every allocation, for every thread. -/
theorem mallocRemote_disagrees {w : Reuse.World} (h : (Reuse.system cfg main).Reachable w) (hu : u ∈ w.live)
    (t : Tid) : ¬ AgreesWithFree t w.st u := by
  obtain ⟨A, idle, counted, L, hbehind⟩ := Reuse.reachable_inv h
  obtain ⟨b, l, hb, rfl⟩ : u ∈ users L := hbehind.live ▸ hu
  exact (hbehind.tenants b l hb).not_agrees t

private theorem exists_own : ∃ w, (Reuse.system defaultConfig 0).Reachable w ∧ w.live = {134488080} ∧
    (mallocRemote 0 w.st (some 134488080) = true ∧
      w.st.heapManager 0 = (w.st.freeHeader (headers w.st 134488080).freeHead).homeManager) :=
  ⟨Reuse.World.eight, Reuse.World.eight_reachable, by decide +kernel, by decide +kernel⟩

theorem mallocRemote_disagrees_eight : ∃ w u, u ∈ w.live ∧ (Reuse.system defaultConfig 0).Reachable w ∧
    ¬ AgreesWithFree 1 w.st u := by
  obtain ⟨w, hreach, hlive, _⟩ := exists_own
  have hu : 134488080 ∈ w.live := by simp [hlive]
  exact ⟨w, _, hu, hreach, mallocRemote_disagrees hreach hu 1⟩

/-- Thread 0 is told that its own block is remote. -/
theorem mallocRemote_own : ∃ w u, (Reuse.system defaultConfig 0).Reachable w ∧ u ∈ w.live ∧
    mallocRemote 0 w.st (some u) = true ∧ ¬ GoesRemote 0 w.st u := by
  obtain ⟨w, hreach, hlive, hanswer, hown⟩ := exists_own
  exact ⟨w, _, hreach, by simp [hlive], hanswer, fun hremote => hremote.2 hown⟩

end Llheap
