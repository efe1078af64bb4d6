import Llheap.Proof.Routines

/-!
# Calls

The calls that return an address, and the one thing each of them does to the live allocations: nothing, a new allocation, the end of the old one, or both.
-/

namespace Llheap

inductive Call
  | malloc (size : ℕ)
  | calloc (dimension elemSize : ℕ)
  | memalign (alignment size : ℕ)
  | cmemalign (alignment dimension elemSize : ℕ)
  | resize (oaddr : Option ℕ) (size : ℕ)
  | realloc (oaddr : Option ℕ) (size : ℕ)
  | alignedResize (oaddr : Option ℕ) (nalignment size : ℕ)
  | alignedRealloc (oaddr : Option ℕ) (nalignment size : ℕ)
deriving DecidableEq

namespace Call

variable {cfg : Config}

def run [Os] (k : Kernel cfg) (t : Tid) : Call → State → Result (Option ℕ × State)
  | .malloc size => Llheap.malloc k t size
  | .calloc dimension elemSize => Llheap.calloc k t dimension elemSize
  | .memalign alignment size => Llheap.memalign k t alignment size
  | .cmemalign alignment dimension elemSize => Llheap.cmemalign k t alignment dimension elemSize
  | .resize oaddr size => Llheap.resize k t oaddr size
  | .realloc oaddr size => Llheap.realloc k t oaddr size
  | .alignedResize oaddr nalignment size => Llheap.alignedResize k t oaddr nalignment size
  | .alignedRealloc oaddr nalignment size => Llheap.alignedRealloc k t oaddr nalignment size

/-- The old address. -/
def oaddr : Call → Option ℕ
  | .resize oaddr _ | .realloc oaddr _ | .alignedResize oaddr _ _ | .alignedRealloc oaddr _ _ => oaddr
  | _ => none

/-- The size of a call, in a machine word. -/
def size : Call → ℕ
  | .malloc size | .memalign _ size | .resize _ size | .realloc _ size | .alignedResize _ _ size
  | .alignedRealloc _ _ size => size
  | .calloc dimension elemSize | .cmemalign _ dimension elemSize => dimension * elemSize % 2 ^ 64

/-- Sizes are of type `size_t`, and alignments are powers of two. -/
def Valid : Call → Prop
  | .malloc size | .resize _ size | .realloc _ size => size < 2 ^ 64
  | .calloc dimension elemSize => dimension < 2 ^ 64 ∧ elemSize < 2 ^ 64
  | .memalign alignment size | .alignedResize _ alignment size | .alignedRealloc _ alignment size =>
    size < 2 ^ 64 ∧ alignment.isPowerOfTwo ∧ alignment < 2 ^ 64
  | .cmemalign alignment dimension elemSize =>
    (dimension < 2 ^ 64 ∧ elemSize < 2 ^ 64) ∧ alignment.isPowerOfTwo ∧ alignment < 2 ^ 64

/-- The size of the `doMalloc` call that the call makes, if it makes one. -/
def request (s : State) : Call → Option ℕ
  | .malloc size => some size
  | .calloc dimension elemSize => some (dimension * elemSize % 2 ^ 64)
  | .memalign alignment size => some (memalignRequest alignment size)
  | .cmemalign alignment dimension elemSize =>
    some (memalignRequest alignment (dimension * elemSize % 2 ^ 64))
  | .resize none size | .realloc none size => some size
  | .resize (some oaddr) size => resizeRequest s oaddr size
  | .realloc (some oaddr) size => reallocRequest s oaddr size
  | .alignedResize none nalignment size | .alignedRealloc none nalignment size =>
    some (memalignRequest nalignment size)
  | .alignedResize (some oaddr) nalignment size => alignedResizeRequest s oaddr nalignment size
  | .alignedRealloc (some oaddr) nalignment size => alignedReallocRequest s oaddr nalignment size

/-- The old address is given up by a call that returns `r`. -/
def gives (r : Option ℕ) : Call → Bool
  | .resize oaddr _ | .alignedResize oaddr _ _ => oaddr.isSome
  | .realloc oaddr size | .alignedRealloc oaddr _ size => oaddr.isSome && (r.isSome || size == 0)
  | _ => false

theorem gives_some {c : Call} {u v : ℕ} (hu : c.oaddr = some u) : c.gives (some v) = true := by
  cases c <;> cases hu <;> rfl

end Call

/-! ### Live addresses -/

/-- The addresses of the live allocations. -/
def users (L : ℕ → Option Live) : Set ℕ := { u | ∃ b l, L b = some l ∧ l.user = u }

/-- What a call does to the live allocations, given the old address, whether it is given up, and the address that is returned. -/
inductive Change (L : ℕ → Option Live) : (ℕ → Option Live) → Option ℕ → Bool → Option ℕ → Prop
  | refused {oaddr : Option ℕ} : Change L L oaddr false none
  | obtained {b : ℕ} {l : Live} : L b = none →
      Change L (Function.update L b (some l)) none false (some l.user)
  | freed {b : ℕ} {l : Live} : L b = some l →
      Change L (Function.update L b none) (some l.user) true none
  | moved {b b' : ℕ} {l l' : Live} : L b = some l → Function.update L b none b' = none →
      Change L (Function.update (Function.update L b none) b' (some l')) (some l.user) true (some l'.user)
  | edited {b : ℕ} {l l' : Live} : L b = some l → l'.user = l.user →
      Change L (Function.update L b (some l')) (some l.user) false none

variable {cfg : Config} {main : Tid} {k : Kernel cfg} {t : Tid} {s s' : State} {r oaddr : Option ℕ}
  {status : Tid → Status} {A : Arena Tag} {idle : List ℕ} {b u size : ℕ} {l l' : Live}
  {L L' : ℕ → Option Live} {gone : Bool}

theorem users_obtained (hb : L b = none) : users (Function.update L b (some l)) = insert l.user (users L) := by
  ext u
  constructor
  · rintro ⟨c, m, hc, rfl⟩
    by_cases hcb : c = b
    · subst c
      rw [Function.update_self, Option.some.injEq] at hc
      exact .inl (hc ▸ rfl)
    · rw [Function.update_of_ne hcb] at hc
      exact .inr ⟨c, m, hc, rfl⟩
  · rintro (rfl | ⟨c, m, hc, rfl⟩)
    · exact ⟨b, l, Function.update_self .., rfl⟩
    · refine ⟨c, m, ?_, rfl⟩
      rwa [Function.update_of_ne]
      rintro rfl
      rw [hb] at hc
      cases hc

/-- No two live allocations have the same address. -/
def Injective (L : ℕ → Option Live) : Prop :=
  ∀ b c l l', L b = some l → L c = some l' → l.user = l'.user → b = c

theorem users_freed (hinj : Injective L) (hb : L b = some l) :
    users (Function.update L b none) = users L \ {l.user} := by
  ext u
  constructor
  · rintro ⟨c, m, hc, rfl⟩
    have hcb : c ≠ b := by
      rintro rfl
      rw [Function.update_self] at hc
      cases hc
    rw [Function.update_of_ne hcb] at hc
    exact ⟨⟨c, m, hc, rfl⟩, fun hu => hcb (hinj c b m l hc hb hu)⟩
  · rintro ⟨⟨c, m, hc, rfl⟩, hu⟩
    refine ⟨c, m, ?_, rfl⟩
    rwa [Function.update_of_ne]
    rintro rfl
    rw [hb] at hc
    cases hc
    exact hu rfl

/-- The live addresses after a call: without the one that is given up, with the one that is returned. -/
def liveAfter (oaddr : Option ℕ) (gone : Bool) (r : Option ℕ) (live : Set ℕ) : Set ℕ :=
  { u | u ∈ r ∨ u ∈ live ∧ ¬ (gone = true ∧ u ∈ oaddr) }

theorem Change.users (hchange : Change L L' oaddr gone r) (hinj : Injective L) :
    users L' = liveAfter oaddr gone r (users L) := by
  cases hchange with
  | refused => simp [liveAfter]
  | obtained hb =>
    rw [users_obtained hb]
    ext u
    simp [liveAfter, eq_comm]
  | freed hb =>
    rw [users_freed hinj hb]
    ext u
    simp [liveAfter, eq_comm]
  | moved hb hnone =>
    rw [users_obtained hnone, users_freed hinj hb]
    ext u
    simp [liveAfter, eq_comm]
  | @edited b l l' hb hu =>
    have hidem : Function.update (Function.update L b none) b (some l') =
        Function.update L b (some l') := Function.update_idem ..
    rw [← hidem, users_obtained (Function.update_self ..), users_freed hinj hb, hu]
    ext u
    have hmem : l.user ∈ Llheap.users L := ⟨b, l, hb, rfl⟩
    by_cases hul : u = l.user
    · simp [liveAfter, hul, hmem]
    · simp [liveAfter, hul]

theorem Change.others (hchange : Change L L' oaddr gone r) (hb : L b = some l) (hu : l.user ∉ oaddr) :
    L' b = some l := by
  have hne : ∀ {c m}, L c = some m → m.user ∈ oaddr → b ≠ c := by
    rintro c m hc hm rfl
    rw [hb] at hc
    cases hc
    exact hu hm
  cases hchange with
  | refused => exact hb
  | obtained hnone =>
    rwa [Function.update_of_ne]
    rintro rfl
    rw [hb] at hnone
    cases hnone
  | freed hc => rwa [Function.update_of_ne (hne hc rfl)]
  | moved hc hnone =>
    have hbc := hne hc rfl
    rw [Function.update_of_ne, Function.update_of_ne hbc, hb]
    rintro rfl
    rw [Function.update_of_ne hbc, hb] at hnone
    cases hnone
  | edited hc _ => rwa [Function.update_of_ne (hne hc rfl)]

theorem Refines.injective (hr : Refines cfg main s status A idle) : Injective (liveAt A) :=
  fun _ _ _ _ hb hc hu => hr.user_injective hb hc hu

/-! ### What each call does -/

/-- A call that is allowed keeps the state refined, and does one of the five things. -/
structure CallSpec (cfg : Config) (main : Tid) (s s' : State) (status : Tid → Status) (A A' : Arena Tag)
    (idle' : List ℕ) (oaddr : Option ℕ) (gone : Bool) (r : Option ℕ) : Prop where
  refines : Refines cfg main s' status A' idle'
  params : SameParams s.heapMaster s'.heapMaster
  change : Change (liveAt A) (liveAt A') oaddr gone r
  frame : ∀ b l, liveAt A b = some l → l.user ∉ oaddr → Set.EqOn s'.mem s.mem (Set.Ico b (b + l.len))

theorem Outcome.change {al : Option ℕ} (hout : Outcome L L' t s' size al r) : Change L L' none false r := by
  cases r with
  | none =>
    rw [hout.1]
    exact .refused
  | some user =>
    obtain ⟨b, n, origin, hnone, rfl, _⟩ := hout
    exact .obtained hnone

theorem ClearedOutcome.change {al : Option ℕ} (hout : ClearedOutcome L L' t s' size al r) :
    Change L L' none false r := by
  cases r with
  | none =>
    rw [hout.1]
    exact .refused
  | some user =>
    obtain ⟨b, n, origin, hnone, rfl, _⟩ := hout
    exact .obtained hnone

theorem Reallocated.change {naddr nsize alignment : ℕ} (hb : L b = some l)
    (hre : Reallocated L L' s s' b l naddr nsize alignment) :
    Change L L' (some l.user) true (some naddr) := by
  obtain ⟨b', l', rfl, rfl, _, _, hfresh, _⟩ := hre
  refine .moved hb ?_
  by_cases hbb : b' = b
  · subst b'
    exact Function.update_self ..
  · rw [Function.update_of_ne hbb, (hfresh hbb).1]

theorem ReallocOutcome.change {nsize alignment : ℕ} (hb : L b = some l)
    (hout : ReallocOutcome L L' t s s' b l nsize alignment r) :
    Change L L' (some l.user) r.isSome r := by
  cases r with
  | none =>
    rw [hout.1]
    exact .refused
  | some naddr => exact Reallocated.change hb hout

theorem AlignedReallocOutcome.change {nsize alignment : ℕ} (hb : L b = some l)
    (hout : AlignedReallocOutcome L L' t s s' b l nsize alignment r) :
    Change L L' (some l.user) r.isSome r := by
  cases r with
  | none =>
    rw [hout.1]
    exact .edited hb rfl
  | some naddr => exact Reallocated.change hb hout

theorem ResizeOutcome.change (hb : L b = some l) (hout : ResizeOutcome L L' t s' b size r) :
    Change L L' (some l.user) true r := by
  cases r with
  | none =>
    rw [hout.1]
    exact .freed hb
  | some user =>
    obtain ⟨b', l', rfl, _, rfl, hnone⟩ := hout
    exact .moved hb hnone

theorem Frame.others (hb : L b = some l)
    (hframe : Frame (Function.update L b none) s s') :
    ∀ c m, L c = some m → m.user ∉ some l.user → Set.EqOn s'.mem s.mem (Set.Ico c (c + m.len)) := by
  intro c m hc hu
  refine hframe c m ?_
  rwa [Function.update_of_ne]
  rintro rfl
  rw [hb] at hc
  cases hc
  exact hu rfl

/-- A call with an old address of size 0 frees it. -/
theorem Refines.callFree (hr : Refines cfg main s status A idle) (hb : liveAt A b = some l)
    (h : (do
      let s ← Llheap.doFree t l.user s
      .ok (none, s) : Result (Option ℕ × State)) = .ok (r, s')) :
    ∃ A', CallSpec cfg main s s' status A A' idle (some l.user) true r := by
  obtain ⟨s₁, A', hfree, hr', hlive, hframe, hcontrol, _⟩ := hr.doFree hb t
  obtain ⟨s₁', hs₁, h⟩ := Result.bind_eq_ok.mp h
  cases hfree.symm.trans hs₁
  cases h
  refine ⟨A', hr', hcontrol.params, ?_, hframe.others hb⟩
  rw [hlive]
  exact .freed hb

theorem Refines.call {c : Call} (hr : Refines cfg main s status A idle) (hmay : MayCall main s status t)
    (hvalid : c.Valid) (hold : ∀ u ∈ c.oaddr, u ∈ users (liveAt A))
    (hfits : r ≠ none → ∀ n ∈ c.request s, Fits s.heapMaster n) (h : c.run k t s = .ok (r, s')) :
    ∃ A' idle', CallSpec cfg main s s' status A A' idle' c.oaddr (c.gives r) r := by
  have hfresh : ∀ {A' idle'}, Refines cfg main s' status A' idle' → Frame (liveAt A) s s' →
      SameParams s.heapMaster s'.heapMaster → Change (liveAt A) (liveAt A') none false r →
      ∃ A' idle', CallSpec cfg main s s' status A A' idle' none false r :=
    fun hr' hframe hparams hchange => ⟨_, _, hr', hparams, hchange, fun b l hb _ => hframe b l hb⟩
  cases c with
  | malloc size =>
    obtain ⟨A', idle', hr', hframe, hparams, hout⟩ :=
      hr.doMalloc hmay hvalid (fun hr => hfits hr _ rfl) h
    exact hfresh hr' hframe hparams hout.change
  | calloc dimension elemSize =>
    obtain ⟨A', idle', hr', hframe, hparams, hout⟩ := hr.calloc hmay (fun hr => hfits hr _ rfl) h
    exact hfresh hr' hframe hparams hout.change
  | memalign alignment size =>
    obtain ⟨hsize, hpow, halign⟩ := hvalid
    obtain ⟨A', idle', hr', hframe, hparams, hout⟩ :=
      hr.memalignNoStats hmay hsize hpow halign (fun hr => hfits hr _ rfl) h
    exact hfresh hr' hframe hparams hout.change
  | cmemalign alignment dimension elemSize =>
    obtain ⟨_, hpow, halign⟩ := hvalid
    obtain ⟨A', idle', hr', hframe, hparams, hout⟩ :=
      hr.cmemalign hmay hpow halign (fun hr => hfits hr _ rfl) h
    exact hfresh hr' hframe hparams hout.change
  | resize oaddr size =>
    cases oaddr with
    | none =>
      obtain ⟨A', idle', hr', hframe, hparams, hout⟩ :=
        hr.doMalloc hmay hvalid (fun hr => hfits hr _ rfl) h
      exact hfresh hr' hframe hparams hout.change
    | some u =>
      obtain ⟨b, l, hb, rfl⟩ := hold u rfl
      by_cases hzero : size = 0
      · rw [Call.run, Llheap.resize] at h
        dsimp only at h
        rw [if_pos hzero] at h
        obtain ⟨A', hspec⟩ := hr.callFree hb h
        exact ⟨A', idle, hspec⟩
      · obtain ⟨A', idle', hr', hparams, hframe, hout⟩ := hr.resize hmay hb hzero hvalid hfits h
        exact ⟨A', idle', hr', hparams, hout.change hb, hframe.others hb⟩
  | realloc oaddr size =>
    cases oaddr with
    | none =>
      obtain ⟨A', idle', hr', hframe, hparams, hout⟩ :=
        hr.doMalloc hmay hvalid (fun hr => hfits hr _ rfl) h
      exact hfresh hr' hframe hparams hout.change
    | some u =>
      obtain ⟨b, l, hb, rfl⟩ := hold u rfl
      by_cases hzero : size = 0
      · rw [Call.run, Llheap.realloc] at h
        dsimp only at h
        rw [if_pos hzero] at h
        obtain ⟨A', hspec⟩ := hr.callFree hb h
        refine ⟨A', idle, ?_⟩
        simpa [Call.gives, hzero, Call.oaddr] using hspec
      · obtain ⟨A', idle', hr', hparams, hframe, hout⟩ := hr.realloc hmay hb hzero hvalid hfits h
        refine ⟨A', idle', hr', hparams, ?_, hframe.others hb⟩
        change Change _ _ _ (true && (r.isSome || size == 0)) r
        rw [beq_false_of_ne hzero, Bool.or_false, Bool.true_and]
        exact hout.change hb
  | alignedResize oaddr nalignment size =>
    obtain ⟨hsize, hpow, halign⟩ := hvalid
    cases oaddr with
    | none =>
      obtain ⟨A', idle', hr', hframe, hparams, hout⟩ :=
        hr.memalignNoStats hmay hsize hpow halign (fun hr => hfits hr _ rfl) h
      exact hfresh hr' hframe hparams hout.change
    | some u =>
      obtain ⟨b, l, hb, rfl⟩ := hold u rfl
      by_cases hzero : size = 0
      · rw [Call.run, Llheap.alignedResize] at h
        dsimp only at h
        rw [if_pos hzero] at h
        obtain ⟨A', hspec⟩ := hr.callFree hb h
        exact ⟨A', idle, hspec⟩
      · obtain ⟨A', idle', hr', hparams, hframe, hout⟩ :=
          hr.alignedResize hmay hb hzero hsize hpow halign hfits h
        exact ⟨A', idle', hr', hparams, hout.change hb, hframe.others hb⟩
  | alignedRealloc oaddr nalignment size =>
    obtain ⟨hsize, hpow, halign⟩ := hvalid
    cases oaddr with
    | none =>
      obtain ⟨A', idle', hr', hframe, hparams, hout⟩ :=
        hr.memalignNoStats hmay hsize hpow halign (fun hr => hfits hr _ rfl) h
      exact hfresh hr' hframe hparams hout.change
    | some u =>
      obtain ⟨b, l, hb, rfl⟩ := hold u rfl
      by_cases hzero : size = 0
      · rw [Call.run, Llheap.alignedRealloc] at h
        dsimp only at h
        rw [if_pos hzero] at h
        obtain ⟨A', hspec⟩ := hr.callFree hb h
        refine ⟨A', idle, ?_⟩
        simpa [Call.gives, hzero, Call.oaddr] using hspec
      · obtain ⟨A', idle', hr', hparams, hframe, hout⟩ :=
          hr.alignedRealloc hmay hb hzero hsize hpow halign hfits h
        refine ⟨A', idle', hr', hparams, ?_, hframe.others hb⟩
        change Change _ _ _ (true && (r.isSome || size == 0)) r
        rw [beq_false_of_ne hzero, Bool.or_false, Bool.true_and]
        exact hout.change hb

end Llheap
