import Llheap.Proof.Allocating

/-!
# Giving a block back

`doFree` finds the block through its headers and gives it to its bucket or back to the kernel. Nothing else changes, and it cannot fail on a live address.
-/

namespace Llheap

variable {cfg : Config} {main : Tid} {k : Kernel cfg} {t : Tid} {s s' : State}
  {status : Tid → Status} {A A' : Arena Tag} {idle : List ℕ} {b n u h : ℕ} {l : Live}

/-- Everything besides memory, buckets and mappings is the same. -/
structure SameControl (s s' : State) : Prop where
  heapMaster : s'.heapMaster = s.heapMaster
  bootFlag : s'.heapMasterBootFlag = s.heapMasterBootFlag
  heapManager : s'.heapManager = s.heapManager
  errno : s'.errno = s.errno

theorem MayCall.congr (hmay : MayCall main s status t) (hs : SameControl s s') :
    MayCall main s' status t :=
  ⟨hmay.runs, by rw [hs.bootFlag]; exact hmay.started,
    by rw [hs.heapManager, hs.heapMaster]; exact hmay.alone⟩

theorem LiveBlock.zeroFillBit {v : View} (hl : LiveBlock cfg s b n u v) :
    decide (zeroFillBit (s.mem.word b) ≠ 0) = v.zeroFill := by
  rw [hl.encodes.home]
  have hbit := View.zeroFillBit hl.taggable
  cases hz : v.zeroFill with
  | false => exact decide_eq_false fun h => by rw [hbit.mp h] at hz; cases hz
  | true => exact decide_eq_true (hbit.mpr hz)

/-- What `headers` finds for a live address. -/
theorem Refines.headers (hr : Refines cfg main s status A idle) (hb : liveAt A b = some l) :
    headers s l.user = ⟨l.view.origin = .mapped, b, l.view.origin.freeHead, l.len,
      l.view.alignment.getD libAlign⟩ := by
  obtain ⟨hblock, _⟩ := hr.liveBlock hb
  rw [hblock.encodes.headers hblock.taggable]
  split
  · rfl
  · next hbucket =>
    cases horigin : l.view.origin with
    | mapped => exact absurd horigin hbucket
    | bucket f =>
      obtain ⟨h, hf⟩ := hblock.bucket f horigin
      rw [Origin.freeHead, (hr.blocks.bucket h f _ hf).blockSize]

theorem Refines.user_injective (hr : Refines cfg main s status A idle) {c : ℕ} {l' : Live}
    (hb : liveAt A b = some l) (hc : liveAt A c = some l') (hu : l.user = l'.user) : b = c := by
  have hsame := hr.headers hb
  rw [hu, hr.headers hc] at hsame
  exact (congrArg Headers.header hsame).symm

theorem Refines.dataSize (hr : Refines cfg main s status A idle) (hb : liveAt A b = some l) :
    Llheap.dataSize (Llheap.headers s l.user).size l.user (Llheap.headers s l.user).header =
        b + l.len - l.user ∧
      b + 16 ≤ l.user ∧ l.user + l.view.size ≤ b + l.len ∧ b + l.len ≤ 2 ^ 63 := by
  obtain ⟨hblock, _, hend⟩ := hr.liveBlock hb
  have hafter := hblock.encodes.user_after.1
  have hroom := hblock.room
  rw [hr.headers hb]
  dsimp only
  rw [Llheap.dataSize, sub64_of_le (by omega) (by omega)]
  omega

/-! ### Unmapping -/

theorem inUser_munmap (huser : ∀ m ∈ s.mappings, InUser m) : ∀ m ∈ (s.munmap b n).mappings, InUser m := by
  intro m' hm'
  obtain ⟨m, hm, hpart⟩ := List.mem_flatMap.mp hm'
  have hin := remove_inside hpart
  have := huser m hm
  unfold InUser at *
  omega

theorem Refines.munmap (hr : Refines cfg main s status A idle) (hb : A.at? b = some ⟨n, .held⟩) :
    Refines cfg main (s.munmap b n) status (A.erase b) idle := by
  have hA : ∀ c p, p.tag ≠ .held → ((A.erase b).at? c = some p ↔ A.at? c = some p) :=
    fun c p hp => Arena.at?_erase_of_tag hb hp
  refine ⟨hr.booted, hr.ready, ⟨⟨fun c p hc => ?_, ?_, ?_⟩, ?_, ?_⟩, ?_⟩
  · obtain ⟨hne, hc⟩ := Arena.at?_erase_eq_some.mp hc
    refine (hr.heaps.laid.covered c p hc).munmap (A.pos c p hc) ?_
    have := A.separate c p b _ hc hb hne
    dsimp only at this
    omega
  · exact (hr.heaps.laid.erase b).aligned
  · exact (hr.heaps.laid.erase b).pos
  · exact hr.heaps.pieces.congr fun c p hp => hA c p (by rcases hp with hp | hp <;> rw [hp] <;> nofun)
  · exact hr.heaps.owned.munmap b n
  · exact hr.blocks.of_same (fun c p _ _ hp => hA c p hp) hr.blocks.crossover rfl
      (inUser_munmap hr.blocks.inUser) (fun _ _ _ => Set.eqOn_refl _ _) rfl rfl fun _ => ⟨rfl, rfl⟩

theorem Refines.hold (hr : Refines cfg main s status A idle) (hb : liveAt A b = some l) :
    Refines cfg main s status (A.retag b .held) idle := by
  refine hr.retag (liveAt_eq_some.mp hb) .live .held
    (fun _ _ => rfl) (fun _ _ _ => rfl) (fun h f n _ hin => ?_) nofun nofun
  rcases hin with hin | hin <;> cases hin

/-! ### Freeing -/

/-- A block that was freed last is on top of a list of its bucket, or unmapped. -/
def Returned (s' : State) (b : ℕ) (l : Live) : Prop :=
  match l.view.origin with
  | .bucket f => ∃ list, (s'.freeHeader f).top list = b
  | .mapped => ¬ Covered s'.mappings b l.len

theorem Refines.doFree (hr : Refines cfg main s status A idle) (hb : liveAt A b = some l) (t : Tid) :
    ∃ s' A', doFree t l.user s = .ok s' ∧ Refines cfg main s' status A' idle ∧
      liveAt A' = Function.update (liveAt A) b none ∧
      Frame (Function.update (liveAt A) b none) s s' ∧ SameControl s s' ∧ Returned s' b l := by
  obtain ⟨hblock, _⟩ := hr.liveBlock hb
  have hpiece := liveAt_eq_some.mp hb
  unfold Returned
  rw [Llheap.doFree, hr.headers hb]
  dsimp only
  cases horigin : l.view.origin with
  | bucket f =>
    obtain ⟨h, hf⟩ := hblock.bucket f horigin
    have hlen := hf.le_len
    have hfreed : liveAt (A.retag b (.free f)) = Function.update (liveAt A) b none :=
      liveAt_retag hpiece (by simp)
    refine ⟨_, _, rfl, hr.push hf hpiece .live nofun _, hfreed,
      Frame.of_outside hpiece fun x hx => Memory.setWord_apply_of_outside ?_, ⟨rfl, rfl, rfl, rfl⟩, ?_⟩
    · dsimp only at hx
      omega
    · refine ⟨if s.heapManager t = (s.freeHeader f).homeManager then .freeList else .remoteList, ?_⟩
      simp only [State.push, Origin.freeHead, Function.update_self]
      exact FreeHeader.top_setTop_self ..
  | mapped =>
    have hpos := A.pos _ _ hpiece
    have hok : s.heapMaster.pageSize ∣ b ∧ l.len ≠ 0 :=
      ⟨hr.blocks.page ▸ (hblock.mapped horigin).1, hpos.ne'⟩
    have hheld : (A.retag b .held).at? b = some ⟨l.len, .held⟩ := Arena.at?_retag_self hpiece
    refine ⟨s.munmap b l.len, (A.retag b .held).erase b, ?_, (hr.hold hb).munmap hheld, ?_, .of_mem rfl,
      ⟨rfl, rfl, rfl, rfl⟩, not_covered_munmap hpos ⟨le_rfl, le_rfl⟩⟩
    · simp only [decide_true, not_true_eq_false, if_false]
      exact if_pos hok
    · have hA : SameStorage (A.retag b .held) ((A.retag b .held).erase b) :=
        fun c p _ _ hp => Arena.at?_erase_of_tag hheld hp
      have hfreed : liveAt (A.retag b .held) = Function.update (liveAt A) b none :=
        liveAt_retag hpiece (by simp)
      rw [liveAt_congr hA, hfreed]

end Llheap
