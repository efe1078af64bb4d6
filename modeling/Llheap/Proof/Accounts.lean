import Llheap.Base.Ledger
import Llheap.Proof.Builds
import Llheap.Proof.Sticky

/-!
# What the records add up to

A build books every allocation on the record of the thread that makes it, and takes it off the record of the thread that frees it. If its hooks count alike at both ends, the records of all heaps and of the master together change by what a call adds and takes away.
-/

namespace Llheap

variable {cfg : Config} {main : Tid} {k : Kernel cfg} {t : Tid} {H : Type} {I : Hooks H} {d d' : Counted H}
  {s s' : State} {status : Tid → Status} {A : Arena Tag} {idle : List ℕ} {r : Option ℕ} {name : Counter}
  {net : H → BitVec 64} {weight : ℕ → ℕ → BitVec 64} {size alignment b : ℕ} {l : Live}

/-- The hooks of a build count an allocation of a request size and a length as the same amount wherever they meet it. -/
structure Hooks.Books (I : Hooks H) (net : H → BitVec 64) (weight : ℕ → ℕ → BitVec 64) : Prop where
  requested : I.debug = true → ∀ name size len held,
    net (I.requested name size held) = net held + weight size len
  served : ∀ name size len held,
    net (I.allocating name len (I.requested name size held)) = net held + weight size len
  offset : ∀ size offset len held, net (I.offset offset held) =
    net held - weight ((size + offset) % 2 ^ 64) len + weight size len
  freed : ∀ size len held, net (I.freed size len held) = net held - weight size len
  resized : ∀ nsize osize len held, net (I.resized nsize osize held) =
    net held - weight osize len + weight nsize len
  opened : ∀ held, net (I.taken (I.newHeap held)) = 0
  left : ∀ master held, net (I.left master held).1 + net (I.left master held).2 = net master + net held
  zero : net I.zero = 0
  started : ∀ held, net (I.started held) = if I.debug then 0 else net held
  flat : I.debug = true → ∀ size len len', weight size len = weight size len'

/-- The records of the master and of all heaps. -/
def Counted.total (net : H → BitVec 64) (d : Counted H) : BitVec 64 :=
  net d.master + (d.st.heapMaster.heapManagersList.map fun heap => net (d.heap heap)).sum

theorem Counted.total_edit {f : State → State}
    (hlist : (f d.st).heapMaster.heapManagersList = d.st.heapMaster.heapManagersList) :
    (d.edit f).total net = d.total net := by
  rw [Counted.total, Counted.edit_st, hlist]
  rfl

theorem net_update {held : ℕ → H} {heap : ℕ} {x : H} :
    (fun h => net (Function.update held heap x h)) = Function.update (fun h => net (held h)) heap (net x) :=
  Function.comp_update net held heap x

theorem Counted.total_update (net : H → BitVec 64) {heap : ℕ} {x : H} (hnodup : d.st.heapMaster.heapManagersList.Nodup)
    (hheap : heap ∈ d.st.heapMaster.heapManagersList) :
    ({ d with heap := Function.update d.heap heap x } : Counted H).total net =
      d.total net - net (d.heap heap) + net x := by
  have hsum := Ledger.sum_update (fun heap => net (d.heap heap)) hnodup hheap (net x)
  change net d.master + (d.st.heapMaster.heapManagersList.map
    fun h => net (Function.update d.heap heap x h)).sum = _
  rw [net_update, hsum, Counted.total]
  abel

theorem Counted.total_record (net : H → BitVec 64) {f : H → H} (hnodup : d.st.heapMaster.heapManagersList.Nodup)
    (hheap : d.st.heapManager t ∈ d.st.heapMaster.heapManagersList) :
    (d.record t f).total net =
      d.total net - net (d.heap (d.st.heapManager t)) + net (f (d.heap (d.st.heapManager t))) :=
  Counted.total_update net hnodup hheap

/-! ### A thread's heap -/

theorem Hooks.bootHeapManager_cases (hbooted : d.st.heapMasterBootFlag ≠ 0)
    (h : I.bootHeapManager k t d = .ok d') :
    (d.st.heapManager t ≠ 1 ∧ d' = d) ∨
      (d.st.heapManager t = 1 ∧ ∃ heap s₁, Llheap.getHeap k t d.st = .ok (heap, s₁) ∧
        d' = ⟨assignHeap t heap s₁, d.master, Function.update d.heap heap
          (I.taken (if d.st.heapMaster.freeHeapManagersList ≠ 0 then d.heap heap
            else I.newHeap (d.heap heap)))⟩) := by
  unfold Hooks.bootHeapManager at h
  split at h
  · next hnew =>
    rw [Hooks.heapManagerCtor_granting, if_neg hbooted] at h
    obtain ⟨d₀, hd₀, h⟩ := Result.bind_eq_ok.mp h
    cases hd₀
    obtain ⟨⟨heap, d₁⟩, hheap, h⟩ := Result.bind_eq_ok.mp h
    unfold Hooks.getHeap at hheap
    obtain ⟨⟨heap', s₁⟩, hget, hheap⟩ := Result.bind_eq_ok.mp hheap
    refine .inr ⟨hnew, heap', s₁, hget, ?_⟩
    have hrecord : ∀ x : ℕ → H, (⟨assignHeap t heap' s₁, d.master, x⟩ : Counted H).record t I.taken =
        ⟨assignHeap t heap' s₁, d.master, Function.update x heap' (I.taken (x heap'))⟩ := by
      intro x
      simp [Counted.record]
    dsimp only at hheap
    split at hheap
    · next hfree =>
      cases hheap
      rw [if_pos hfree, ← hrecord]
      exact (Except.ok.inj h).symm
    · next hfree =>
      cases hheap
      have hidem := hrecord (Function.update d.heap heap (I.newHeap (d.heap heap)))
      rw [Function.update_self, Function.update_idem] at hidem
      rw [if_neg hfree, ← hidem]
      exact (Except.ok.inj h).symm
  · next hold =>
    cases h
    exact .inl ⟨hold, rfl⟩

/-- The first call of the program's thread boots the heap master first. -/
theorem Hooks.heapManagerCtor_unbooted (hflag : d.st.heapMasterBootFlag = 0) (hnew : d.st.heapManager t = 1)
    (h : I.heapManagerCtor k t d = .ok d') :
    ∃ s₀, Llheap.heapMasterCtor cfg d.st = .ok s₀ ∧ I.bootHeapManager k t ⟨s₀, I.zero, d.heap⟩ = .ok d' := by
  rw [Hooks.heapManagerCtor_granting, if_pos hflag] at h
  obtain ⟨d₀, hmaster, h⟩ := Result.bind_eq_ok.mp h
  obtain ⟨s₀, hs₀, hmaster⟩ := Result.bind_eq_ok.mp hmaster
  cases hmaster
  refine ⟨s₀, hs₀, ?_⟩
  obtain ⟨_, _, rfl⟩ := heapMasterCtor_ok hs₀
  unfold Hooks.bootHeapManager
  rw [if_pos hnew, Hooks.heapManagerCtor_granting, if_neg one_ne_zero]
  exact h

theorem Hooks.startup_cases (hbooted : d.st.heapMasterBootFlag ≠ 0) (h : I.startup k t d = .ok d') :
    d.st.heapMasterBootFlag = 1 ∧
      d' = (d.edit fun s => { registerDtor t s with heapMasterBootFlag := 2 }).record t I.started := by
  rw [Hooks.startup_granting, if_neg hbooted] at h
  obtain ⟨d₁, hd₁, h⟩ := Result.bind_eq_ok.mp h
  cases hd₁
  dsimp only at h
  split at h
  · cases h
  · next hflag =>
    cases h
    exact ⟨not_not.mp hflag, rfl⟩

/-- A heap that is taken is one from the stack of free heaps, or is new. -/
theorem Heaps.getHeap_list (hheaps : Heaps main s status A idle) {heap : ℕ}
    (h : Llheap.getHeap k t s = .ok (heap, s')) :
    (s.heapMaster.freeHeapManagersList ≠ 0 ∧ heap = s.heapMaster.freeHeapManagersList ∧
      heap ∈ s.heapMaster.heapManagersList ∧
      s'.heapMaster.heapManagersList = s.heapMaster.heapManagersList) ∨
    (s.heapMaster.freeHeapManagersList = 0 ∧ heap ∉ s.heapMaster.heapManagersList ∧
      s'.heapMaster.heapManagersList = heap :: s.heapMaster.heapManagersList) := by
  rcases getHeap_cases h with ⟨hfree, rfl, rfl⟩ | ⟨hfree, hne, hroom, rfl, rfl⟩ |
    ⟨hfree, hspare, a, hfresh, rfl, rfl⟩
  · obtain ⟨rest, hidle, _⟩ := hheaps.owned.chain.exists_cons hfree
    exact .inl ⟨hfree, rfl, hheaps.owned.idle_mem _ (hidle ▸ List.mem_cons_self), rfl⟩
  · exact .inr ⟨hfree, (carveHeap_pieces hheaps.laid hheaps.pieces hne hroom).1, rfl⟩
  · obtain ⟨A₁, hlaid₁, hpieces₁, _⟩ := superblock_pieces hheaps.laid hheaps.pieces hspare hfresh
    exact .inr ⟨hfree, (carveHeap_pieces hlaid₁ hpieces₁ hfresh.pos.ne' (superblock_room hfresh)).1, rfl⟩

/-- The state is described by an arena, and every heap is on the list once. -/
structure Standing (cfg : Config) (main : Tid) (s : State) (status : Tid → Status) (A : Arena Tag)
    (idle : List ℕ) : Prop where
  refines : Refines cfg main s status A idle
  nodup : s.heapMaster.heapManagersList.Nodup

/-- If the thread is given a heap that has been used before, it takes over what the record says. -/
def Hooks.Carries (I : Hooks H) (net : H → BitVec 64) (t : Tid) (d : Counted H) : Prop :=
  d.st.heapManager t = 1 → d.st.heapMaster.freeHeapManagersList ≠ 0 →
    net (I.taken (d.heap d.st.heapMaster.freeHeapManagersList)) =
      net (d.heap d.st.heapMaster.freeHeapManagersList)

theorem Standing.boot (hs : Standing cfg main d.st status A idle) (hI : I.Books net weight)
    (hmay : MayCall main d.st status t) (hcarry : I.Carries net t d) (h : I.bootHeapManager k t d = .ok d') :
    ∃ A' idle', Standing cfg main d'.st status A' idle' ∧ liveAt A' = liveAt A ∧
      Frame (liveAt A) d.st d'.st ∧ SameParams d.st.heapMaster d'.st.heapMaster ∧
      d'.st.heapManager t ∈ d'.st.heapMaster.heapManagersList ∧ d'.total net = d.total net := by
  obtain ⟨A', idle', hr, hlive, hframe, hparams, hheap⟩ := hs.refines.boot hmay (Hooks.bootHeapManager_ok h)
  have hrest : d'.st.heapMaster.heapManagersList.Nodup ∧ d'.total net = d.total net := by
    obtain ⟨_, rfl⟩ | ⟨hnew, heap, s₁, hget, rfl⟩ := Hooks.bootHeapManager_cases hs.refines.booted h
    · exact ⟨hs.nodup, rfl⟩
    · rw [Counted.total, assignHeap_heapMaster]
      rcases hs.refines.heaps.getHeap_list hget with ⟨hfree, rfl, hmem, hlist⟩ | ⟨hfree, hmem, hlist⟩
      · have htotal := Counted.total_update net
          (x := I.taken (d.heap d.st.heapMaster.freeHeapManagersList)) hs.nodup hmem
        rw [hcarry hnew hfree, sub_add_cancel] at htotal
        rw [hlist, if_pos hfree]
        exact ⟨hs.nodup, htotal⟩
      · rw [hlist, if_neg (not_not.mpr hfree), List.map_cons, List.sum_cons]
        dsimp only
        rw [Function.update_self, hI.opened, zero_add]
        refine ⟨List.nodup_cons.mpr ⟨hmem, hs.nodup⟩, ?_⟩
        rw [net_update, Ledger.sum_update_of_notMem hmem]
        rfl
  exact ⟨A', idle', ⟨hr, hrest.1⟩, hlive, hframe, hparams, hheap, hrest.2⟩

/-! ### Allocating -/

/-- What an allocation is counted as. -/
def worth (weight : ℕ → ℕ → BitVec 64) (s : State) (user : ℕ) : BitVec 64 :=
  weight (mallocRequestSize s (some user)) (headers s user).size

theorem Refines.worth_eq (hr : Refines cfg main s status A idle) (hb : liveAt A b = some l) :
    worth weight s l.user = weight l.view.size l.len := by
  rw [worth, hr.headers hb, (hr.queries hb).1]

/-- A request is refused, by a guard of the debug build or for lack of memory. -/
def Hooks.Refuses (I : Hooks H) (k : Kernel cfg) (t : Tid) (size : ℕ) (s : State) : Prop :=
  (∃ s₁, Llheap.bootHeapManager k t s = .ok s₁ ∧ I.debug = true ∧ (2 ^ 64 - 1 - sizeofStorage < size ∨
    s₁.heapMaster.mmapStart ≤ size ∧ 2 ^ 64 - 1 - s₁.heapMaster.pageSize < size)) ∨ OutOfMemory k t size s

/-- A request passes the guard before the record, and is counted as something. -/
def Hooks.Counts (I : Hooks H) (weight : ℕ → ℕ → BitVec 64) (k : Kernel cfg) (t : Tid) (size : ℕ)
    (s : State) : Prop :=
  ∃ s₁, Llheap.bootHeapManager k t s = .ok s₁ ∧ weight size (countedSize t size s₁) ≠ 0 ∧
    (I.debug = true → size ≤ 2 ^ 64 - 1 - sizeofStorage)

/-- A request is refused before it is counted, or is served with a block that it fits in. -/
def Hooks.Settles (I : Hooks H) (weight : ℕ → ℕ → BitVec 64) (k : Kernel cfg) (t : Tid) (n : ℕ)
    (s : State) : Prop :=
  (I.Refuses k t (n % 2 ^ 64) s → ¬ I.Counts weight k t (n % 2 ^ 64) s) ∧
    (¬ I.Refuses k t (n % 2 ^ 64) s → Fits s.heapMaster n)

theorem Hooks.not_refuses {user : ℕ} (h : I.doMalloc k t name size d = .ok (some user, d')) :
    ¬ I.Refuses k t size d.st := by
  obtain ⟨d₁, hboot, ⟨_, _, hnone, _⟩ | ⟨_, _, _, _, hnone, _⟩ | ⟨hchecked, hplain, _⟩⟩ := Hooks.doMalloc_cases h
  · cases hnone
  · cases hnone
  rintro (⟨s₁, hboot₁, hdebug, hguard⟩ | hmemory)
  · cases (Hooks.bootHeapManager_ok hboot).symm.trans hboot₁
    obtain ⟨hfirst, hrest⟩ := hchecked hdebug
    rcases hguard with hguard | ⟨hlarge, hguard⟩
    · omega
    · rw [if_neg (not_lt.mpr hlarge)] at hrest
      omega
  · obtain ⟨s', hnone⟩ := doMalloc_none_iff.mpr hmemory
    rw [hplain] at hnone
    cases hnone

theorem Refines.countedSize_eq (hr : Refines cfg main s status A idle)
    (hheap : s.heapManager t ∈ s.heapMaster.heapManagersList) :
    countedSize t size s = requestLength s.heapMaster size := by
  rw [countedSize, requestLength]
  split
  · next hsmall => exact (hr.blocks.bucket _ _ _ (hr.requestBucket hheap hsmall)).blockSize
  · rfl

/-- The boot sequence goes on as it was, and a thread that has a heap changes no other thread's and not the master's record. -/
structure Calm (t : Tid) (d d' : Counted H) : Prop where
  bootFlag : d'.st.heapMasterBootFlag = d.st.heapMasterBootFlag
  heaps : d.st.heapManager t ≠ 1 → d'.st.heapManager = d.st.heapManager ∧
    d'.st.heapMaster.heapManagersList = d.st.heapMaster.heapManagersList ∧ d'.master = d.master

theorem Calm.trans {d'' : Counted H} (hd : Calm t d d') (hd' : Calm t d' d'') : Calm t d d'' where
  bootFlag := hd'.bootFlag.trans hd.bootFlag
  heaps hheap := by
    obtain ⟨hmanager, hlist, hmaster⟩ := hd.heaps hheap
    obtain ⟨hmanager', hlist', hmaster'⟩ := hd'.heaps (by rwa [hmanager])
    exact ⟨hmanager'.trans hmanager, hlist'.trans hlist, hmaster'.trans hmaster⟩

theorem Calm.of_master (hflag : d'.st.heapMasterBootFlag = d.st.heapMasterBootFlag)
    (hmanager : d'.st.heapManager = d.st.heapManager)
    (hlist : d'.st.heapMaster.heapManagersList = d.st.heapMaster.heapManagersList)
    (hmaster : d'.master = d.master) : Calm t d d' :=
  ⟨hflag, fun _ => ⟨hmanager, hlist, hmaster⟩⟩

theorem Calm.boot (hbooted : d.st.heapMasterBootFlag ≠ 0) (h : I.bootHeapManager k t d = .ok d') :
    Calm t d d' := by
  refine ⟨bootHeapManager_bootFlag hbooted (Hooks.bootHeapManager_ok h), fun hheap => ?_⟩
  obtain ⟨_, rfl⟩ | ⟨hnew, _⟩ := Hooks.bootHeapManager_cases hbooted h
  · exact ⟨rfl, rfl, rfl⟩
  · exact absurd hnew hheap

/-- What a request leaves behind, and what the records say of it. -/
structure Answered (cfg : Config) (main : Tid) (net : H → BitVec 64) (weight : ℕ → ℕ → BitVec 64)
    (d d' : Counted H) (status : Tid → Status) (t : Tid) (A A' : Arena Tag) (idle' : List ℕ) (size : ℕ)
    (alignment : Option ℕ) (r : Option ℕ) : Prop where
  standing : Standing cfg main d'.st status A' idle'
  may : MayCall main d'.st status t
  heap : d'.st.heapManager t ∈ d'.st.heapMaster.heapManagersList
  frame : Frame (liveAt A) d.st d'.st
  params : SameParams d.st.heapMaster d'.st.heapMaster
  outcome : Outcome (liveAt A) (liveAt A') t d'.st size alignment r
  calm : Calm t d d'
  total : d'.total net = d.total net + r.elim 0 (worth weight d'.st)

/-- A thread that has a heap now may go on calling. -/
theorem MayCall.after (hmay : MayCall main s status t) (hr : Refines cfg main s' status A idle)
    (hflag : s'.heapMasterBootFlag = s.heapMasterBootFlag)
    (hheap : s'.heapManager t ∈ s'.heapMaster.heapManagersList) : MayCall main s' status t :=
  ⟨hmay.runs, hflag ▸ hmay.started,
    fun hnew => absurd (hnew ▸ hheap) (hr.heaps.pieces.one_not_mem hr.heaps.laid)⟩

theorem Standing.refuse {d₁ : Counted H} {A₁ : Arena Tag} {idle₁ : List ℕ} {held : ℕ → H}
    (hs₁ : Standing cfg main d₁.st status A₁ idle₁) (hmay₁ : MayCall main d₁.st status t)
    (hheap₁ : d₁.st.heapManager t ∈ d₁.st.heapMaster.heapManagersList) (hlive₁ : liveAt A₁ = liveAt A)
    (hframe₁ : Frame (liveAt A) d.st d₁.st) (hparams₁ : SameParams d.st.heapMaster d₁.st.heapMaster)
    (hcalm : Calm t d d₁) (htotal : ({ d₁ with heap := held } : Counted H).total net = d.total net) :
    Answered cfg main net weight d ⟨d₁.st.refuse t ENOMEM, d₁.master, held⟩ status t A A₁ idle₁ size none
      none := by
  have hgrown := Grown.refuse (s := d₁.st) (t := t) ENOMEM
  have hframe := hs₁.refines.grown_frame hgrown
  rw [hlive₁] at hframe
  refine ⟨⟨hs₁.refines.of_grown hgrown, hs₁.nodup⟩, ⟨hmay₁.runs, hmay₁.started, hmay₁.alone⟩, hheap₁,
    hframe₁.trans hframe, hparams₁, ⟨hlive₁, Function.update_self ..⟩, hcalm.trans (.of_master rfl rfl rfl rfl),
    ?_⟩
  rw [Option.elim_none, add_zero, ← htotal]
  rfl

theorem Standing.doMalloc (hs : Standing cfg main d.st status A idle) (hI : I.Books net weight)
    (hmay : MayCall main d.st status t) (hsize : size < 2 ^ 64) (hfits : r ≠ none → Fits d.st.heapMaster size)
    (hcarry : I.Carries net t d) (hserved : I.Refuses k t size d.st → ¬ I.Counts weight k t size d.st)
    (h : I.doMalloc k t name size d = .ok (r, d')) :
    ∃ A' idle', Answered cfg main net weight d d' status t A A' idle' size none r := by
  obtain ⟨d₁, hboot, hcases⟩ := Hooks.doMalloc_cases h
  obtain ⟨A₁, idle₁, hs₁, hlive₁, hframe₁, hparams₁, hheap₁, htotal₁⟩ := hs.boot hI hmay hcarry hboot
  have hboot₁ := Hooks.bootHeapManager_ok hboot
  have hcalm := Calm.boot hs.refines.booted hboot
  have hmay₁ := hmay.after hs₁.refines hcalm.bootFlag hheap₁
  rcases hcases with ⟨_, _, rfl, rfl⟩ | ⟨hdebug, hguard, hlarge, hpast, rfl, rfl⟩ | ⟨hchecked, hplain, hd'⟩
  · -- refused before anything is counted
    exact ⟨A₁, idle₁, hs₁.refuse hmay₁ hheap₁ hlive₁ hframe₁ hparams₁ hcalm htotal₁⟩
  · have hnothing : weight size (countedSize t size d₁.st) = 0 := by
      by_contra hne
      exact hserved (.inl ⟨d₁.st, hboot₁, hdebug, .inr ⟨hlarge, hpast⟩⟩) ⟨d₁.st, hboot₁, hne, fun _ => hguard⟩
    have hrecord := Counted.total_record net (f := I.requested name size) hs₁.nodup hheap₁
    rw [hI.requested hdebug name size (countedSize t size d₁.st), hnothing, add_zero, sub_add_cancel,
      htotal₁] at hrecord
    exact ⟨A₁, idle₁, hs₁.refuse hmay₁ hheap₁ hlive₁ hframe₁ hparams₁ hcalm hrecord⟩
  · obtain ⟨A', idle', hr', hframe, hparams, hout⟩ := hs.refines.doMalloc hmay hsize hfits hplain
    obtain ⟨s₁, hs₁', hsame⟩ := doMalloc_sameHeaps hplain
    cases hboot₁.symm.trans hs₁'
    have hheap : d'.st.heapManager t ∈ d'.st.heapMaster.heapManagersList := by
      rw [hsame.heapManager, hsame.heapManagersList]
      exact hheap₁
    have hmaster : d'.master = d₁.master := by rw [hd']; rfl
    refine ⟨A', idle', ⟨hr', by rw [hsame.heapManagersList]; exact hs₁.nodup⟩,
      hmay₁.after hr' hsame.bootFlag hheap, hheap, hframe, hparams, hout,
      hcalm.trans (.of_master hsame.bootFlag hsame.heapManager hsame.heapManagersList hmaster), ?_⟩
    have hrecord := Counted.total_record net
      (f := fun held => I.allocating name (countedSize t size d₁.st) (I.requested name size held)) hs₁.nodup hheap₁
    rw [hI.served, htotal₁] at hrecord
    rw [hd', Counted.total_edit hsame.heapManagersList, hrecord]
    cases r with
    | none =>
      have hnothing : weight size (countedSize t size d₁.st) = 0 := by
        by_contra hne
        exact hserved (.inr (doMalloc_none_iff.mp ⟨d'.st, hplain⟩))
          ⟨d₁.st, hboot₁, hne, fun hdebug => (hchecked hdebug).1⟩
      rw [hnothing, Option.elim_none]
      abel
    | some user =>
      have hobtained := hs.refines.doMalloc_obtained hmay hsize hplain
      rw [Option.elim_some, worth, Counted.edit_st, hobtained.requestSize, hobtained.len_eq,
        hs₁.refines.countedSize_eq hheap₁, requestLength_congr hparams₁]
      abel

theorem Standing.memalignNoStats (hs : Standing cfg main d.st status A idle) (hI : I.Books net weight)
    (hmay : MayCall main d.st status t) (hsize : size < 2 ^ 64) (hpow : alignment.isPowerOfTwo)
    (halign : alignment < 2 ^ 64) (hcarry : I.Carries net t d)
    (hsettles : I.Settles weight k t (memalignRequest alignment size) d.st)
    (h : I.memalignNoStats k t name alignment size d = .ok (r, d')) :
    ∃ A' idle', Answered cfg main net weight d d' status t A A' idle' size
      (recordedAlignment alignment size) r := by
  obtain ⟨hserved, hfit⟩ := hsettles
  have hfits : r ≠ none → Fits d.st.heapMaster (memalignRequest alignment size) := by
    intro hsome
    obtain ⟨user, rfl⟩ := Option.ne_none_iff_exists'.mp hsome
    obtain ⟨addr, d₁, hm⟩ := Hooks.memalignNoStats_some hsize h
    exact hfit (Hooks.not_refuses hm)
  rw [memalignRequest_mod hsize] at hserved
  rcases Hooks.memalignNoStats_cases h with ⟨hplain, hm⟩ | ⟨hbig, hne, ⟨rfl, hm⟩ | ⟨addr, d₁, hm, rfl, rfl⟩⟩
  · rw [if_pos hplain] at hserved
    rw [memalignRequest, if_pos hplain] at hfits
    rw [recordedAlignment, if_pos hplain]
    exact hs.doMalloc hI hmay hsize hfits hcarry hserved hm
  · rw [if_neg (not_or.mpr ⟨not_le.mpr hbig, hne⟩)] at hserved
    obtain ⟨A', idle', hm⟩ :=
      hs.doMalloc hI hmay (Nat.mod_lt _ (by decide)) (fun hsome => absurd rfl hsome) hcarry hserved hm
    exact ⟨A', idle', hm.standing, hm.may, hm.heap, hm.frame, hm.params, hm.outcome, hm.calm, hm.total⟩
  · have hfit := hfits (Option.some_ne_none _)
    obtain ⟨A', idle', hr', hframe, hparams, hout⟩ := hs.refines.memalignNoStats hmay hsize hpow halign hfits
      (Hooks.memalignNoStats_plain h)
    rw [if_neg (not_or.mpr ⟨not_le.mpr hbig, hne⟩)] at hserved
    have hrequest : alignedSize alignment size = memalignRequest alignment size := by
      have hword := hfit.word hs.refines
      rw [← Nat.mod_eq_of_lt hword, memalignRequest_mod hsize, if_neg (not_or.mpr ⟨not_le.mpr hbig, hne⟩)]
    have hasked : alignedSize alignment size < 2 ^ 64 := Nat.mod_lt _ (by decide)
    obtain ⟨A₁, idle₁, hs₁, hmay₁, hheap, _, _, _, hcalm, htotal⟩ := hs.doMalloc hI hmay hasked
      (fun _ => hrequest ▸ hfit) hcarry hserved hm
    have hobtained := hs.refines.doMalloc_obtained hmay hasked (Hooks.doMalloc_plain hm)
    have hlen := hs.refines.served_length hmay hsize hpow halign
      (Nat.mod_eq_of_lt (hfit.word hs.refines)).symm (.inr hfit) (Hooks.memalignNoStats_plain h)
    have hnew := hout
    obtain ⟨b, n, origin, _, hlive, _⟩ := hnew
    have hb : liveAt A' b = some ⟨n, ceiling (addr + sizeofStorage) alignment,
        ⟨origin, false, size, recordedAlignment alignment size⟩⟩ := by rw [hlive, Function.update_self]
    have hquery := (hr'.queries hb).1
    refine ⟨A', idle', ⟨hr', hs₁.nodup⟩, ⟨hmay₁.runs, hmay₁.started, hmay₁.alone⟩, hheap, hframe, hparams,
      hout, hcalm.trans (.of_master rfl rfl rfl rfl), ?_⟩
    have hoffset := hI.offset size (alignment - libAlign + sizeofStorage)
      (requestLength d.st.heapMaster (memalignRequest alignment size)) (d₁.heap (d₁.st.heapManager t))
    have hrecord := Counted.total_record net (t := t) (f := I.offset (alignment - libAlign + sizeofStorage))
      (d := d₁.edit (setFakeHeader addr (ceiling (addr + sizeofStorage) alignment) alignment size))
      hs₁.nodup hheap
    have hbefore : worth weight d₁.st addr = weight (alignedSize alignment size)
        (requestLength d.st.heapMaster (memalignRequest alignment size)) := by
      rw [worth, hobtained.requestSize, hobtained.len_eq, hrequest]
    have hafter : worth weight ((d₁.edit (setFakeHeader addr (ceiling (addr + sizeofStorage) alignment) alignment
        size)).record t (I.offset (alignment - libAlign + sizeofStorage))).st
          (ceiling (addr + sizeofStorage) alignment) =
        weight size (requestLength d.st.heapMaster (memalignRequest alignment size)) := by
      rw [worth, hquery, hlen]
    rw [Option.elim_some, hbefore] at htotal
    rw [hrecord, Counted.total_edit rfl, htotal, Option.elim_some, hafter]
    dsimp only [Counted.edit_st, Counted.edit_heap, setFakeHeader]
    rw [hoffset]
    rw [alignedSize]
    abel

/-! ### Freeing -/

theorem Hooks.doFree_cases {addr : ℕ} (h : I.doFree k t addr d = .ok d') :
    ∃ d₁, I.bootHeapManager k t d = .ok d₁ ∧ Llheap.doFree t addr d₁.st = .ok d'.st ∧
      d' = (d₁.record t (I.freed (d₁.st.mem.word (sizeField (headers d₁.st addr).header))
        (headers d₁.st addr).size)).edit fun _ => d'.st := by
  unfold Hooks.doFree at h
  obtain ⟨d₁, hboot, h⟩ := Result.bind_eq_ok.mp h
  obtain ⟨s', hfree, h⟩ := Result.bind_eq_ok.mp h
  cases h
  exact ⟨d₁, hboot, hfree, rfl⟩

/-- What freeing the allocation at `b` leaves behind, and what the records say of it. -/
structure Released (cfg : Config) (main : Tid) (net : H → BitVec 64) (weight : ℕ → ℕ → BitVec 64)
    (d d' : Counted H) (status : Tid → Status) (t : Tid) (A A' : Arena Tag) (idle' : List ℕ) (b : ℕ)
    (l : Live) : Prop where
  standing : Standing cfg main d'.st status A' idle'
  may : MayCall main d'.st status t
  heap : d'.st.heapManager t ∈ d'.st.heapMaster.heapManagersList
  live : liveAt A' = Function.update (liveAt A) b none
  frame : Frame (Function.update (liveAt A) b none) d.st d'.st
  params : SameParams d.st.heapMaster d'.st.heapMaster
  calm : Calm t d d'
  total : d'.total net = d.total net - weight l.view.size l.len

theorem Standing.doFree (hs : Standing cfg main d.st status A idle) (hI : I.Books net weight)
    (hmay : MayCall main d.st status t) (hb : liveAt A b = some l) (hcarry : I.Carries net t d)
    (h : I.doFree k t l.user d = .ok d') :
    ∃ A' idle', Released cfg main net weight d d' status t A A' idle' b l := by
  obtain ⟨d₁, hboot, hfree, hd'⟩ := Hooks.doFree_cases h
  obtain ⟨A₁, idle₁, hs₁, hlive₁, hframe₁, hparams₁, hheap₁, htotal₁⟩ := hs.boot hI hmay hcarry hboot
  have hb₁ : liveAt A₁ b = some l := by rw [hlive₁, hb]
  obtain ⟨s', A', hs', hr', hlive', hframe', hcontrol, _⟩ := hs₁.refines.doFree hb₁ t
  cases hs'.symm.trans hfree
  obtain ⟨hblock, _⟩ := hs₁.refines.liveBlock hb₁
  have hcalm := Calm.boot hs.refines.booted hboot
  have hheap : d'.st.heapManager t ∈ d'.st.heapMaster.heapManagersList := by
    rw [hcontrol.heapMaster, hcontrol.heapManager]
    exact hheap₁
  have hrecord := Counted.total_record net (f := I.freed (d₁.st.mem.word
    (sizeField (Llheap.headers d₁.st l.user).header)) (Llheap.headers d₁.st l.user).size) hs₁.nodup hheap₁
  rw [hI.freed, hs₁.refines.headers hb₁, hblock.encodes.size, htotal₁] at hrecord
  rw [hlive₁] at hlive' hframe'
  refine ⟨A', idle₁, ⟨hr', by rw [hcontrol.heapMaster]; exact hs₁.nodup⟩,
    hmay.after hr' (hcontrol.bootFlag.trans hcalm.bootFlag) hheap, hheap, hlive',
    (hframe₁.except b).trans hframe', hparams₁.trans hcontrol.params,
    hcalm.trans (.of_master hcontrol.bootFlag hcontrol.heapManager (by rw [hcontrol.heapMaster]) (by rw [hd']; rfl)),
    ?_⟩
  rw [hd', Counted.total_edit (by rw [hcontrol.heapMaster]; rfl), hs₁.refines.headers hb₁,
    hblock.encodes.size, hrecord]
  abel

/-! ### Moving -/

theorem Hooks.bootHeapManager_old (h : d.st.heapManager t ≠ 1) : I.bootHeapManager k t d = .ok d :=
  if_neg h

/-- A thread that has a heap moves contents as in the default build; the record changes where the old block is freed. -/
theorem Hooks.moveContents_cases {oaddr naddr osize nsize : ℕ} {z : Bool}
    (hheap : d.st.heapManager t ≠ 1) (h : I.moveContents k t oaddr naddr osize nsize z d = .ok d') :
    Llheap.moveContents t oaddr naddr osize nsize z d.st = .ok d'.st ∧ ∃ d₁ mem,
      I.doFree k t oaddr (d.edit fun s => { s with mem := s.mem.copy naddr oaddr (min osize nsize) }) = .ok d₁ ∧
        d' = d₁.edit fun s => { s with mem := mem } := by
  unfold Hooks.moveContents at h
  dsimp only at h
  obtain ⟨d₁, hfree, h⟩ := Result.bind_eq_ok.mp h
  obtain ⟨d₀, hboot, hplain, _⟩ := Hooks.doFree_cases hfree
  cases (Hooks.bootHeapManager_old (d := d.edit fun s =>
    { s with mem := s.mem.copy naddr oaddr (min osize nsize) }) hheap).symm.trans hboot
  unfold Llheap.moveContents
  dsimp only
  rw [Counted.edit_st] at hplain
  rw [hplain]
  cases z with
  | false =>
    cases h
    exact ⟨rfl, d', d'.st.mem, hfree, rfl⟩
  | true =>
    cases h
    exact ⟨rfl, d₁, _, hfree, rfl⟩

theorem Standing.moveTo {d₁ : Counted H} {A₁ : Arena Tag} {idle₁ : List ℕ} {naddr nsize : ℕ} {al : Option ℕ}
    (hs : Standing cfg main d.st status A idle) (hI : I.Books net weight) (hb : liveAt A b = some l)
    (hm : Answered cfg main net weight d d₁ status t A A₁ idle₁ nsize al (some naddr))
    (h : I.moveContents k t l.user naddr l.view.size nsize l.view.zeroFill d₁ = .ok d') :
    ∃ A', Standing cfg main d'.st status A' idle₁ ∧ SameParams d.st.heapMaster d'.st.heapMaster ∧
      Frame (Function.update (liveAt A) b none) d.st d'.st ∧
      Reallocated (liveAt A) (liveAt A') d.st d'.st b l naddr nsize (al.getD libAlign) ∧ Calm t d d' ∧
      d'.total net = d.total net - weight l.view.size l.len + worth weight d'.st naddr := by
  have hhas : d₁.st.heapManager t ≠ 1 := fun hone =>
    hm.standing.refines.heaps.pieces.one_not_mem hm.standing.refines.heaps.laid (hone ▸ hm.heap)
  obtain ⟨hplain, d₂, mem, hfree, rfl⟩ := Hooks.moveContents_cases hhas h
  obtain ⟨A', hr', hcontrol, hframe, hre⟩ := hs.refines.moveTo hb hm.standing.refines hm.frame hm.outcome hplain
  obtain ⟨b', n, origin, hnone, hlive₁, _⟩ : Allocated (liveAt A) (liveAt A₁) d₁.st.mem naddr nsize al :=
    hm.outcome
  have hne : b' ≠ b := by
    rintro rfl
    rw [hb] at hnone
    cases hnone
  have hb₁ : liveAt A₁ b = some l := by rw [hlive₁, Function.update_of_ne hne.symm, hb]
  have hb' : liveAt A₁ b' = some ⟨n, naddr, ⟨origin, false, nsize, al⟩⟩ := by
    rw [hlive₁, Function.update_self]
  -- the length of the new block stays the one that was counted
  obtain ⟨A₂, hr₂, hlive₂, _⟩ := hm.standing.refines.moveContents hb₁ hb' hne rfl hplain
  have hb₂ : liveAt A₂ b' = some ⟨n, naddr, ⟨origin, l.view.zeroFill, nsize, al⟩⟩ := by
    rw [hlive₂, Function.update_self]
  have hworth : worth weight (d₂.edit fun s => { s with mem := mem }).st naddr = worth weight d₁.st naddr :=
    (hr₂.worth_eq hb₂).trans (hm.standing.refines.worth_eq hb').symm
  have hroom := (hm.standing.refines.dataSize hb').2.2.1
  dsimp only at hroom
  have hcopy : ∀ x, x < naddr ∨ b' + n ≤ x →
      d₁.st.mem.copy naddr l.user (min l.view.size nsize) x = d₁.st.mem x :=
    fun x hx => Memory.copy_apply_of_outside (by omega)
  obtain ⟨A₃, hr₃, hlive₃, _⟩ := hm.standing.refines.writeContents hb' hcopy
  obtain ⟨A₄, idle₄, hreleased⟩ := Standing.doFree (d := d₁.edit fun s =>
      { s with mem := s.mem.copy naddr l.user (min l.view.size nsize) })
    ⟨hr₃, hm.standing.nodup⟩ hI (hm.may.congr ⟨rfl, rfl, rfl, rfl⟩) (hlive₃ ▸ hb₁)
    (fun hone => absurd hone hhas) hfree
  refine ⟨A', ⟨hr', by rw [hcontrol.heapMaster]; exact hm.standing.nodup⟩,
    hm.params.trans hcontrol.params, hframe, hre, ?_, ?_⟩
  · -- the copy, the free, and the header of the new block
    have hcopy : Calm t d₁ (d₁.edit fun s =>
        { s with mem := s.mem.copy naddr l.user (min l.view.size nsize) }) := .of_master rfl rfl rfl rfl
    exact (hm.calm.trans hcopy).trans (hreleased.calm.trans (.of_master rfl rfl rfl rfl))
  rw [hworth, Counted.total_edit rfl, hreleased.total, Counted.total_edit rfl, hm.total, Option.elim_some]
  abel

end Llheap
