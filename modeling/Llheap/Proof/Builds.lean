import Llheap.Model.Builds
import Llheap.Proof.Exhaustion

/-!
# What the accounting leaves alone

Without the records, a routine of a build with accounting does what the routine of the default build does, but for the refusals and aborts of the debug build's checks, and for the heap that a thread is given before it frees.
-/

namespace Llheap

variable {cfg : Config} {H : Type} {I : Hooks H} {k : Kernel cfg} {t : Tid} {d d' : Counted H} {s : State}
  {r : Option ℕ} {name : Counter} {size : ℕ}

theorem Result.map_eq_ok {α β : Type} {x : Result α} {f : α → β} {b : β} :
    f <$> x = .ok b ↔ ∃ a, x = .ok a ∧ f a = b := by
  cases x with
  | error e => simp [Functor.map, Except.map]
  | ok a => simp [Functor.map, Except.map]

theorem Result.map_bind {α α' β β' : Type} {x : Result α} {x' : Result α'} {e : α → α'} {f : β → β'}
    {g : α → Result β} {g' : α' → Result β'} (hx : e <$> x = x') (hg : ∀ a, f <$> g a = g' (e a)) :
    f <$> (x >>= g) = x' >>= g' := by
  subst hx
  cases x with
  | error _ => rfl
  | ok a => exact hg a

namespace Counted

@[simp] theorem record_st (f : H → H) : (d.record t f).st = d.st := rfl

@[simp] theorem record_master (f : H → H) : (d.record t f).master = d.master := rfl

theorem record_record (f g : H → H) :
    (d.record t f).record t g = d.record t fun held => g (f held) := by
  simp [Counted.record]

@[simp] theorem edit_st (f : State → State) : (d.edit f).st = f d.st := rfl

@[simp] theorem edit_master (f : State → State) : (d.edit f).master = d.master := rfl

@[simp] theorem edit_heap (f : State → State) : (d.edit f).heap = d.heap := rfl

/-- The result of a routine without the records. -/
def plain (x : Result (Option ℕ × Counted H)) : Result (Option ℕ × State) :=
  (fun p => (p.1, p.2.st)) <$> x

theorem plain_eq_ok {x : Result (Option ℕ × Counted H)} :
    plain x = .ok (r, s) ↔ ∃ d', x = .ok (r, d') ∧ d'.st = s := by
  rw [plain, Result.map_eq_ok]
  constructor
  · rintro ⟨⟨r', d'⟩, hx, heq⟩
    obtain ⟨rfl, rfl⟩ := Prod.mk.inj heq
    exact ⟨d', hx, rfl⟩
  · rintro ⟨d', hx, rfl⟩
    exact ⟨(r, d'), hx, rfl⟩

end Counted

namespace Hooks

theorem heapMasterCtor_st : Counted.st <$> I.heapMasterCtor cfg d = Llheap.heapMasterCtor cfg d.st := by
  unfold Hooks.heapMasterCtor
  cases Llheap.heapMasterCtor cfg d.st <;> rfl

theorem getHeap_st : (fun p => (p.1, p.2.st)) <$> I.getHeap k t d = Llheap.getHeap k t d.st := by
  unfold Hooks.getHeap
  cases Llheap.getHeap k t d.st with
  | error e => rfl
  | ok p =>
    change Functor.map (fun p : ℕ × Counted H => (p.1, p.2.st))
      (if d.st.heapMaster.freeHeapManagersList ≠ 0 then _ else _) = _
    split <;> rfl

theorem heapManagerCtor_granting (k : Kernel cfg) (t : Tid) (d : Counted H) :
    I.heapManagerCtor k t d =
      (if d.st.heapMasterBootFlag = 0 then I.heapMasterCtor cfg d else .ok d) >>= fun d =>
        I.getHeap k t d >>= fun p => .ok ({ p.2 with st := assignHeap t p.1 p.2.st }.record t I.taken) := by
  have hrest : ∀ d : Counted H,
      (I.getHeap k t d >>= fun p => .ok ({ p.2 with st := assignHeap t p.1 p.2.st }.record t I.taken)) =
      (I.getHeap k t d >>= fun p => do
        let s := { p.2.st with heapManager := Function.update p.2.st.heapManager t p.1 }
        let s ← if s.heapMasterBootFlag = 2 then setspecific t s else .ok s
        .ok ({ p.2 with st := s }.record t I.taken)) := by
    intro d
    apply congrArg (I.getHeap k t d >>= ·)
    funext p
    unfold assignHeap
    dsimp only
    split <;> rfl
  unfold Hooks.heapManagerCtor
  by_cases hzero : d.st.heapMasterBootFlag = 0
  · rw [if_pos hzero, if_pos hzero]
    exact (congrArg (I.heapMasterCtor cfg d >>= ·) (funext hrest)).symm
  · rw [if_neg hzero, if_neg hzero]
    exact (hrest d).symm

theorem heapManagerCtor_st : Counted.st <$> I.heapManagerCtor k t d = Llheap.heapManagerCtor k t d.st := by
  have hrest : ∀ d : Counted H, Counted.st <$> (I.getHeap k t d >>= fun p =>
        .ok ({ p.2 with st := assignHeap t p.1 p.2.st }.record t I.taken)) =
      (Llheap.getHeap k t d.st >>= fun p => .ok (assignHeap t p.1 p.2)) :=
    fun d => Result.map_bind getHeap_st fun p => rfl
  rw [heapManagerCtor_granting, Llheap.heapManagerCtor_granting]
  split
  · exact Result.map_bind heapMasterCtor_st hrest
  · exact Result.map_bind (e := Counted.st) rfl hrest

theorem startup_granting (k : Kernel cfg) (t : Tid) (d : Counted H) :
    I.startup k t d = (if d.st.heapMasterBootFlag = 0 then I.heapManagerCtor k t d else .ok d) >>= fun d =>
      if d.st.heapMasterBootFlag ≠ 1 then .error .alwaysAssert
      else .ok ((d.edit fun s => { registerDtor t s with heapMasterBootFlag := 2 }).record t I.started) := by
  unfold Hooks.startup
  by_cases hzero : d.st.heapMasterBootFlag = 0
  · rw [if_pos hzero, if_pos hzero]
    rfl
  · rw [if_neg hzero, if_neg hzero]
    rfl

theorem bootHeapManager_st : Counted.st <$> I.bootHeapManager k t d = Llheap.bootHeapManager k t d.st := by
  unfold Hooks.bootHeapManager Llheap.bootHeapManager
  split
  · exact heapManagerCtor_st
  · rfl

theorem bootHeapManager_ok (h : I.bootHeapManager k t d = .ok d') :
    Llheap.bootHeapManager k t d.st = .ok d'.st := by
  rw [← bootHeapManager_st (I := I), h]
  rfl

end Hooks

/-! ### Allocating -/

/-- The storage that is counted for a request: a block of its bucket, or whole pages. -/
def countedSize (t : Tid) (size : ℕ) (s : State) : ℕ :=
  if size < s.heapMaster.mmapStart then (s.freeHeader (requestBucket t size s)).blockSize
  else ceiling ((size + sizeofStorage) % 2 ^ 64) s.heapMaster.pageSize

/-- The assertions on the bucket that has been found. -/
def BucketAsserted (t : Tid) (size : ℕ) (s : State) : Prop :=
  selectBucket s.heapMaster.maxBucketsUsed ((size + sizeofStorage) % 2 ^ 64) ≤ s.heapMaster.maxBucketsUsed ∧
    (size + sizeofStorage) % 2 ^ 64 ≤ (s.freeHeader (requestBucket t size s)).blockSize

namespace Hooks

/-- A request is refused by one of the two guards of the debug build, or is served as in the default build. -/
theorem doMalloc_cases (h : I.doMalloc k t name size d = .ok (r, d')) :
    ∃ d₁, I.bootHeapManager k t d = .ok d₁ ∧
      ((I.debug = true ∧ 2 ^ 64 - 1 - sizeofStorage < size ∧ r = none ∧
          d' = d₁.edit (State.refuse t ENOMEM)) ∨
        (I.debug = true ∧ size ≤ 2 ^ 64 - 1 - sizeofStorage ∧ d₁.st.heapMaster.mmapStart ≤ size ∧
          2 ^ 64 - 1 - d₁.st.heapMaster.pageSize < size ∧ r = none ∧
          d' = (d₁.record t (I.requested name size)).edit (State.refuse t ENOMEM)) ∨
        ((I.debug = true → size ≤ 2 ^ 64 - 1 - sizeofStorage ∧
            if size < d₁.st.heapMaster.mmapStart then BucketAsserted t size d₁.st
            else size ≤ 2 ^ 64 - 1 - d₁.st.heapMaster.pageSize) ∧
          Llheap.doMalloc k t size d.st = .ok (r, d'.st) ∧
          d' = (d₁.record t fun held =>
            I.allocating name (countedSize t size d₁.st) (I.requested name size held)).edit fun _ => d'.st)) := by
  unfold Hooks.doMalloc at h
  obtain ⟨d₁, hboot, h⟩ := Result.bind_eq_ok.mp h
  refine ⟨d₁, hboot, ?_⟩
  rw [Llheap.doMalloc, Hooks.bootHeapManager_ok hboot]
  change _ ∨ _ ∨ _ ∧ (if size < d₁.st.heapMaster.mmapStart then
    allocateBlock k t (requestBucket t size d₁.st) d₁.st >>= _ else mapLarge k t size d₁.st) = _ ∧ _
  dsimp only at h
  split at h
  · next hguard =>
    cases h
    exact .inl ⟨hguard.1, hguard.2, rfl, rfl⟩
  · next hguard =>
    rw [not_and] at hguard
    rw [Counted.record_st] at h
    split at h
    · next hsmall =>
      split at h
      · cases h
      · next hassert =>
        rw [not_and, not_not] at hassert
        refine .inr (.inr ⟨fun hd => ⟨not_lt.mp (hguard hd), ?_⟩, ?_⟩)
        · rw [if_pos hsmall]
          exact hassert hd
        · rw [if_pos hsmall, countedSize, if_pos hsmall]
          obtain ⟨⟨r₂, s₂⟩, hblock, h⟩ := Result.bind_eq_ok.mp h
          rw [Counted.record_record] at hblock h
          change allocateBlock k t (requestBucket t size d₁.st) d₁.st = _ at hblock
          rw [hblock]
          cases r₂ with
          | none =>
            cases h
            exact ⟨rfl, rfl⟩
          | some block =>
            cases h
            exact ⟨rfl, rfl⟩
    · next hlarge =>
      split at h
      · next hpast =>
        cases h
        exact .inr (.inl ⟨hpast.1, not_lt.mp (hguard hpast.1), not_lt.mp hlarge, hpast.2, rfl, rfl⟩)
      · next hpast =>
        rw [not_and] at hpast
        refine .inr (.inr ⟨fun hd => ⟨not_lt.mp (hguard hd), ?_⟩, ?_⟩)
        · rw [if_neg hlarge]
          exact not_lt.mp (hpast hd)
        · rw [if_neg hlarge, countedSize, if_neg hlarge]
          obtain ⟨⟨r₂, s₂⟩, hmap, h⟩ := Result.bind_eq_ok.mp h
          cases h
          rw [Counted.record_record]
          exact ⟨hmap, rfl⟩

theorem memalignNoStats_cases {alignment : ℕ} (h : I.memalignNoStats k t name alignment size d = .ok (r, d')) :
    ((alignment ≤ libAlign ∨ size = 0) ∧ I.doMalloc k t name size d = .ok (r, d')) ∨
    (libAlign < alignment ∧ size ≠ 0 ∧
      ((r = none ∧ I.doMalloc k t name (alignedSize alignment size) d = .ok (none, d')) ∨
        ∃ addr d₁, I.doMalloc k t name (alignedSize alignment size) d = .ok (some addr, d₁) ∧
          r = some (ceiling (addr + sizeofStorage) alignment) ∧
          d' = (d₁.edit (setFakeHeader addr (ceiling (addr + sizeofStorage) alignment) alignment size)).record t
            (I.offset (alignment - libAlign + sizeofStorage)))) := by
  unfold Hooks.memalignNoStats at h
  split at h
  · next hplain => exact .inl ⟨hplain, h⟩
  · next hfake =>
    rw [not_or] at hfake
    obtain ⟨⟨r₁, d₁⟩, hmalloc, h⟩ := Result.bind_eq_ok.mp h
    refine .inr ⟨not_le.mp hfake.1, hfake.2, ?_⟩
    cases r₁ with
    | none =>
      cases h
      exact .inl ⟨rfl, hmalloc⟩
    | some addr =>
      cases h
      exact .inr ⟨addr, d₁, hmalloc, rfl, rfl⟩

theorem doMalloc_plain {u : ℕ} (h : I.doMalloc k t name size d = .ok (some u, d')) :
    Llheap.doMalloc k t size d.st = .ok (some u, d'.st) := by
  obtain ⟨_, _, ⟨_, _, hnone, _⟩ | ⟨_, _, _, _, hnone, _⟩ | ⟨_, hplain, _⟩⟩ := doMalloc_cases h
  · cases hnone
  · cases hnone
  · exact hplain

theorem memalignNoStats_some {alignment u : ℕ} (hsize : size < 2 ^ 64)
    (h : I.memalignNoStats k t name alignment size d = .ok (some u, d')) :
    ∃ addr d₁, I.doMalloc k t name (memalignRequest alignment size % 2 ^ 64) d = .ok (some addr, d₁) := by
  rw [memalignRequest_mod hsize]
  rcases memalignNoStats_cases h with ⟨hplain, hm⟩ | ⟨hbig, hne, ⟨hnone, _⟩ | ⟨addr, d₁, hm, _⟩⟩
  · rw [if_pos hplain]
    exact ⟨u, d', hm⟩
  · cases hnone
  · rw [if_neg (not_or.mpr ⟨not_le.mpr hbig, hne⟩)]
    exact ⟨addr, d₁, hm⟩

theorem memalignNoStats_plain {alignment u : ℕ}
    (h : I.memalignNoStats k t name alignment size d = .ok (some u, d')) :
    Llheap.memalignNoStats k t alignment size d.st = .ok (some u, d'.st) := by
  unfold Llheap.memalignNoStats
  rcases memalignNoStats_cases h with ⟨hplain, hm⟩ | ⟨hbig, hne, ⟨hnone, _⟩ | ⟨addr, d₁, hm, hu, rfl⟩⟩
  · rw [if_pos hplain]
    exact doMalloc_plain hm
  · cases hnone
  · rw [if_neg (not_or.mpr ⟨not_le.mpr hbig, hne⟩)]
    change (Llheap.doMalloc k t (alignedSize alignment size) d.st >>= _) = _
    rw [doMalloc_plain hm, hu]
    rfl

theorem doMalloc_errno (h : I.doMalloc k t name size d = .ok (none, d')) : d'.st.errno t = ENOMEM := by
  obtain ⟨d₁, _, ⟨_, _, _, rfl⟩ | ⟨_, _, _, _, _, rfl⟩ | ⟨_, hplain, _⟩⟩ := doMalloc_cases h
  · exact Function.update_self ..
  · exact Function.update_self ..
  · obtain ⟨s₁, _, ⟨_, _, hblock⟩ | ⟨_, _, _, hsome, _⟩ | ⟨_, hmap⟩⟩ := Llheap.doMalloc_cases hplain
    · exact (allocateBlock_none hblock).2
    · cases hsome
    · rcases mapLarge_cases hmap with ⟨_, hs⟩ | ⟨_, hsome, _⟩
      · rw [hs]
        exact Function.update_self ..
      · cases hsome

theorem memalignNoStats_errno {alignment : ℕ}
    (h : I.memalignNoStats k t name alignment size d = .ok (none, d')) : d'.st.errno t = ENOMEM := by
  rcases memalignNoStats_cases h with ⟨_, hm⟩ | ⟨_, _, ⟨_, hm⟩ | ⟨_, _, _, hsome, _⟩⟩
  · exact doMalloc_errno hm
  · exact doMalloc_errno hm
  · cases hsome

end Hooks

end Llheap
