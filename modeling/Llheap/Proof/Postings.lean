import Llheap.Proof.Accounts

/-!
# What each call books

A call may end the allocation of its old address and may begin one. Its posting is that difference, on whatever records it is booked.
-/

namespace Llheap

variable {cfg : Config} {main : Tid} {k : Kernel cfg} {t : Tid} {H : Type} {I : Hooks H} {d d₁ d' : Counted H}
  {s s' : State} {status : Tid → Status} {A A₁ A' : Arena Tag} {idle idle₁ : List ℕ} {r oaddr : Option ℕ}
  {name : Counter} {net : H → BitVec 64} {weight : ℕ → ℕ → BitVec 64} {size nsize alignment b u : ℕ}
  {l l' : Live} {gone : Bool} {al : Option ℕ} {L L' : ℕ → Option Live}

/-- What a call leaves behind, and what the records say of it. -/
structure Posted (cfg : Config) (main : Tid) (net : H → BitVec 64) (weight : ℕ → ℕ → BitVec 64)
    (d d' : Counted H) (status : Tid → Status) (t : Tid) (A A' : Arena Tag) (idle' : List ℕ)
    (oaddr : Option ℕ) (gone : Bool) (r : Option ℕ) : Prop where
  standing : Standing cfg main d'.st status A' idle'
  calm : Calm t d d'
  change : Change (liveAt A) (liveAt A') oaddr gone r
  kept : ∀ u ∈ oaddr, gone = false → worth weight d'.st u = worth weight d.st u
  total : d'.total net = d.total net - (if gone then oaddr.elim 0 (worth weight d.st) else 0) +
    r.elim 0 (worth weight d'.st)

theorem Change.fresh (hchange : Change L L' oaddr gone r) (hinj : Injective L') (hu : u ∈ r)
    (hb : L b = some l) (huser : l.user = u) : gone = true ∧ u ∈ oaddr := by
  cases hchange with
  | refused => cases hu
  | @obtained c m hnone =>
    cases hu
    have hbc : b ≠ c := by
      rintro rfl
      rw [hnone] at hb
      cases hb
    refine absurd (hinj b c l m ?_ (Function.update_self ..) huser) hbc
    rwa [Function.update_of_ne hbc]
  | freed hc => cases hu
  | @moved c c' m m' hc hnone =>
    cases hu
    by_cases hbc : b = c
    · subst c
      cases hb.symm.trans hc
      exact ⟨rfl, by rw [huser]; rfl⟩
    · have hbc' : b ≠ c' := by
        rintro rfl
        rw [Function.update_of_ne hbc, hb] at hnone
        cases hnone
      refine absurd (hinj b c' l m' ?_ (Function.update_self ..) huser) hbc'
      rwa [Function.update_of_ne hbc', Function.update_of_ne hbc]
  | edited hc huser' => cases hu

theorem Change.ended_live (hchange : Change L L' oaddr gone r) :
    ∀ u ∈ if gone then oaddr else none, u ∈ Llheap.users L := by
  cases hchange with
  | refused => simp
  | obtained hnone => simp
  | freed hc =>
    rintro u ⟨⟩
    exact ⟨_, _, hc, rfl⟩
  | moved hc hnone =>
    rintro u ⟨⟩
    exact ⟨_, _, hc, rfl⟩
  | edited hc huser => simp

theorem worth_others {status' : Tid → Status} {idle' : List ℕ}
    (hr : Refines cfg main s status A idle) (hr' : Refines cfg main s' status' A' idle')
    (hchange : Change (liveAt A) (liveAt A') oaddr gone r) (hu : u ∈ users (liveAt A)) (hne : u ∉ oaddr) :
    worth weight s' u = worth weight s u := by
  obtain ⟨b, l, hb, rfl⟩ := hu
  rw [hr.worth_eq hb, hr'.worth_eq (hchange.others hb hne)]

theorem Standing.has_heap (hs : Standing cfg main s status A idle)
    (hheap : s.heapManager t ∈ s.heapMaster.heapManagersList) : s.heapManager t ≠ 1 :=
  fun hone => hs.refines.heaps.pieces.one_not_mem hs.refines.heaps.laid (hone ▸ hheap)

theorem Hooks.Carries.of_heap (hheap : d.st.heapManager t ≠ 1) : I.Carries net t d :=
  fun hone => absurd hone hheap

theorem Answered.posted (hm : Answered cfg main net weight d d' status t A A' idle size al r) :
    Posted cfg main net weight d d' status t A A' idle none false r := by
  refine ⟨hm.standing, hm.calm, hm.outcome.change, by simp, ?_⟩
  rw [hm.total, if_neg Bool.false_ne_true, sub_zero]

/-! ### Giving up the old allocation -/

theorem Released.posted (hs : Standing cfg main d.st status A idle₁) (hb : liveAt A b = some l)
    (hm : Released cfg main net weight d d' status t A A' idle b l) :
    Posted cfg main net weight d d' status t A A' idle (some l.user) true none := by
  refine ⟨hm.standing, hm.calm, ?_, by simp, ?_⟩
  · rw [hm.live]
    exact .freed hb
  · rw [hm.total, if_pos rfl, Option.elim_some, hs.refines.worth_eq hb, Option.elim_none, add_zero]

theorem Standing.callFree (hs : Standing cfg main d.st status A idle) (hI : I.Books net weight)
    (hmay : MayCall main d.st status t) (hb : liveAt A b = some l) (hcarry : I.Carries net t d)
    (h : (do
      let d ← I.doFree k t l.user d
      .ok (none, d) : Result (Option ℕ × Counted H)) = .ok (r, d')) :
    ∃ A' idle', Posted cfg main net weight d d' status t A A' idle' (some l.user) true r := by
  obtain ⟨d₁, hfree, h⟩ := Result.bind_eq_ok.mp h
  cases h
  obtain ⟨A', idle', hm⟩ := hs.doFree hI hmay hb hcarry hfree
  exact ⟨A', idle', hm.posted hs hb⟩

/-- The old block is freed before storage for the new one is looked for. -/
theorem Standing.freeThenMemalign (hs : Standing cfg main d.st status A idle) (hI : I.Books net weight)
    (hmay : MayCall main d.st status t) (hb : liveAt A b = some l) (hsize : size < 2 ^ 64)
    (hpow : alignment.isPowerOfTwo) (halign : alignment < 2 ^ 64) (hcarry : I.Carries net t d)
    (hsettles : ∀ d₁, I.doFree k t l.user d = .ok d₁ →
      I.Settles weight k t (memalignRequest alignment size) d₁.st)
    (h : (do
      let d ← I.doFree k t l.user d
      I.memalignNoStats k t name alignment size d) = .ok (r, d')) :
    ∃ A' idle', Posted cfg main net weight d d' status t A A' idle' (some l.user) true r := by
  obtain ⟨d₁, hfree, h⟩ := Result.bind_eq_ok.mp h
  obtain ⟨A₁, idle₁, hm⟩ := hs.doFree hI hmay hb hcarry hfree
  obtain ⟨A', idle', hm'⟩ := hm.standing.memalignNoStats hI hm.may hsize hpow halign
    (.of_heap (hm.standing.has_heap hm.heap)) (hsettles d₁ hfree) h
  refine ⟨A', idle', hm'.standing, hm.calm.trans hm'.calm, ?_, by simp, ?_⟩
  · have hout := hm'.outcome
    rw [hm.live] at hout
    cases r with
    | none =>
      rw [hout.1]
      exact .freed hb
    | some user =>
      obtain ⟨b', n, origin, hnone, hlive, _⟩ := hout
      rw [hlive]
      exact .moved hb hnone
  · rw [hm'.total, hm.total, if_pos rfl, Option.elim_some, hs.refines.worth_eq hb]

/-! ### Moving the old allocation -/

/-- The contents move to a new block, if storage is found, and the old one is freed. -/
theorem Standing.memalignThenMove {r₁ : Option ℕ} (hs : Standing cfg main d.st status A idle) (hI : I.Books net weight)
    (hmay : MayCall main d.st status t) (hb : liveAt A b = some l) (hsize : nsize < 2 ^ 64)
    (hpow : alignment.isPowerOfTwo) (halign : alignment < 2 ^ 64) (hcarry : I.Carries net t d)
    (hsettles : I.Settles weight k t (memalignRequest alignment nsize) d.st)
    (hm : I.memalignNoStats k t name alignment nsize d = .ok (r₁, d₁))
    (h : (r₁ = none ∧ r = none ∧ d' = d₁) ∨ ∃ naddr, r₁ = some naddr ∧ r = some naddr ∧
      I.moveContents k t l.user naddr l.view.size nsize l.view.zeroFill d₁ = .ok d') :
    ∃ A' idle', Posted cfg main net weight d d' status t A A' idle' (some l.user) r.isSome r := by
  obtain ⟨A₁, idle₁, hanswer⟩ := hs.memalignNoStats hI hmay hsize hpow halign hcarry hsettles hm
  rcases h with ⟨rfl, rfl, rfl⟩ | ⟨naddr, rfl, rfl, hmove⟩
  · have hlive : liveAt A₁ = liveAt A := hanswer.outcome.1
    refine ⟨A₁, idle₁, hanswer.standing, hanswer.calm, ?_, fun u hu _ => ?_, hanswer.posted.total⟩
    · rw [hlive]
      exact .refused
    · cases hu
      rw [hanswer.standing.refines.worth_eq (hlive ▸ hb), hs.refines.worth_eq hb]
  · obtain ⟨A', hs', _, _, hre, hcalm, htotal⟩ := hs.moveTo hI hb hanswer hmove
    refine ⟨A', idle₁, hs', hcalm, Reallocated.change hb hre, by simp, ?_⟩
    rw [htotal, Option.isSome_some, if_pos rfl, Option.elim_some, Option.elim_some, hs.refines.worth_eq hb]

/-! ### Keeping the block -/

theorem Standing.inPlace {f : State → State} (hs : Standing cfg main d.st status A idle)
    (hI : I.Books net weight) (hheap : d.st.heapManager t ∈ d.st.heapMaster.heapManagersList)
    (hb : liveAt A b = some l) (hr' : Refines cfg main (f d.st) status A' idle)
    (hlive : liveAt A' = Function.update (liveAt A) b (some l')) (huser : l'.user = l.user)
    (hlen : l'.len = l.len) (hsize : l'.view.size = size) (hcontrol : SameControl d.st (f d.st)) :
    Posted cfg main net weight d ((I.resizedTo t b size d).edit f) status t A A' idle (some l.user) true
      (some l.user) := by
  obtain ⟨hblock, _⟩ := hs.refines.liveBlock hb
  have hb' : liveAt A' b = some l' := by rw [hlive, Function.update_self]
  have hrecord := Counted.total_record net (f := I.resized size l.view.size) hs.nodup hheap
  refine ⟨⟨hr', ?_⟩, .of_master hcontrol.bootFlag hcontrol.heapManager ?_ rfl, ?_, by simp, ?_⟩
  · change (f d.st).heapMaster.heapManagersList.Nodup
    rw [hcontrol.heapMaster]
    exact hs.nodup
  · change (f d.st).heapMaster.heapManagersList = _
    rw [hcontrol.heapMaster]
  · rw [hlive, ← Function.update_idem (a := b) none]
    have hmoved : Change (liveAt A) (Function.update (Function.update (liveAt A) b none) b (some l'))
        (some l.user) true (some l'.user) := .moved hb (Function.update_self ..)
    rwa [huser] at hmoved
  · have hworth : worth weight (f d.st) l.user = weight size l.len := by
      rw [← huser, hr'.worth_eq hb', hlen, hsize]
    rw [Counted.total_edit (by rw [Hooks.resizedTo, Counted.record_st, hcontrol.heapMaster]), Hooks.resizedTo,
      hblock.encodes.size, hrecord, if_pos rfl, Option.elim_some, Option.elim_some, hs.refines.worth_eq hb]
    change _ = _ + worth weight (f d.st) l.user
    rw [hworth, hI.resized size l.view.size l.len]
    abel

/-! ### Zero-filled allocations -/

theorem Answered.clear {user : ℕ}
    (hm : Answered cfg main net weight d d₁ status t A A₁ idle size al (some user)) :
    ∃ A', Posted cfg main net weight d
      (d₁.edit (zeroFill user (fakeHeader d₁.st.mem (headerAddr user)).1 size)) status t A A' idle none false
      (some user) := by
  obtain ⟨b, n, origin, hnone, hlive, _⟩ : Allocated (liveAt A) (liveAt A₁) d₁.st.mem user size al := hm.outcome
  have hb : liveAt A₁ b = some ⟨n, user, ⟨origin, false, size, al⟩⟩ := by rw [hlive, Function.update_self]
  obtain ⟨hblock, _⟩ := hm.standing.refines.liveBlock hb
  have hroom := hblock.room
  dsimp only at hroom
  rw [hblock.encodes.fakeHeader hblock.taggable]
  obtain ⟨A', hr', hlive', _⟩ := hm.standing.refines.zeroFill hb hroom
  have hb' : liveAt A' b = some ⟨n, user, ⟨origin, true, size, al⟩⟩ := by rw [hlive', Function.update_self]
  have hworth : worth weight (Llheap.zeroFill user b size d₁.st) user = worth weight d₁.st user :=
    (hr'.worth_eq hb').trans (hm.standing.refines.worth_eq hb).symm
  refine ⟨A', ⟨hr', hm.standing.nodup⟩, hm.calm.trans (.of_master rfl rfl rfl rfl), ?_, by simp, ?_⟩
  · rw [hlive', hlive, Function.update_idem]
    exact .obtained hnone
  · rw [Counted.total_edit rfl, hm.posted.total, Option.elim_some, Option.elim_some, Counted.edit_st, hworth]

theorem Answered.header {user : ℕ}
    (hm : Answered cfg main net weight d d₁ status t A A₁ idle size none (some user)) :
    (fakeHeader d₁.st.mem (headerAddr user)).1 = headerAddr user := by
  obtain ⟨b, n, origin, _, hlive, _⟩ : Allocated (liveAt A) (liveAt A₁) d₁.st.mem user size none := hm.outcome
  have hb : liveAt A₁ b = some ⟨n, user, ⟨origin, false, size, none⟩⟩ := by rw [hlive, Function.update_self]
  obtain ⟨hblock, _⟩ := hm.standing.refines.liveBlock hb
  have huser : user = b + sizeofStorage := hblock.encodes.plain rfl
  rw [hblock.encodes.fakeHeader hblock.taggable, huser, headerAddr, Nat.add_sub_cancel]

/-! ### Faults -/

theorem Hooks.touch_ok {α : Type} {f : Unit → Result α} {x : α} (h : (Hooks.touch t d >>= f) = .ok x) :
    d.st.heapManager t ≠ 1 ∧ f () = .ok x := by
  unfold Hooks.touch at h
  split at h
  · cases h
  · next hheap => exact ⟨hheap, h⟩

theorem Hooks.count_ok {α : Type} {f : Unit → Result α} {x : α} (h : (I.count t d >>= f) = .ok x) :
    f () = .ok x := by
  unfold Hooks.count at h
  split at h
  · exact (Hooks.touch_ok h).2
  · exact h

theorem Standing.touched (hs : Standing cfg main s status A idle) (hmay : MayCall main s status t)
    (hheap : s.heapManager t ≠ 1) : s.heapManager t ∈ s.heapMaster.heapManagersList :=
  hs.refines.heaps.owned.known t hmay.runs hheap

/-! ### Reallocating -/

theorem Standing.resize (hs : Standing cfg main d.st status A idle) (hI : I.Books net weight)
    (hmay : MayCall main d.st status t) (hb : liveAt A b = some l) (hne : size ≠ 0) (hsize : size < 2 ^ 64)
    (hcarry : I.Carries net t d)
    (hsettles : ∀ n ∈ resizeRequest d.st l.user size, ∀ d₁, I.doFree k t l.user d = .ok d₁ →
      I.Settles weight k t n d₁.st)
    (h : I.resize k t (some l.user) size d = .ok (r, d')) :
    ∃ A' idle', Posted cfg main net weight d d' status t A A' idle' (some l.user) true r := by
  obtain ⟨hdata, hafter, hroom, _⟩ := hs.refines.dataSize hb
  unfold resizeRequest at hsettles
  unfold Hooks.resize at h
  dsimp only at h hsettles
  rw [if_neg hne] at h
  split at h
  · next hfits =>
    obtain ⟨hheap, h⟩ := Hooks.touch_ok h
    cases h
    have hle := hfits.2.1
    rw [hdata] at hle
    rw [show (Llheap.headers d.st l.user).header = b by rw [hs.refines.headers hb]]
    obtain ⟨A', hr', hlive, _⟩ := hs.refines.resizeInPlace hb (show l.user + size ≤ b + l.len by omega)
    exact ⟨A', idle, hs.inPlace hI (hs.touched hmay hheap) hb hr' hlive rfl rfl rfl ⟨rfl, rfl, rfl, rfl⟩⟩
  · next hmiss =>
    rw [if_neg (not_or.mpr ⟨hne, hmiss⟩)] at hsettles
    have hmove : (do
        let d ← I.doFree k t l.user d
        I.memalignNoStats k t .resize libAlign size d) = .ok (r, d') := by
      rw [← h]
      rfl
    refine hs.freeThenMemalign hI hmay hb hsize ⟨4, rfl⟩ (by decide) hcarry (fun d₁ hfree => ?_) hmove
    rw [memalignRequest, if_pos (.inl le_rfl)]
    exact hsettles size rfl d₁ hfree

theorem Hooks.moved_cases {x : Option ℕ × Counted H} {oaddr osize nsize : ℕ} {z : Bool}
    (h : (match x with
      | (none, d) => .ok (none, d)
      | (some naddr, d) => do
        let d ← I.moveContents k t oaddr naddr osize nsize z d
        .ok (some naddr, d) : Result (Option ℕ × Counted H)) = .ok (r, d')) :
    (x.1 = none ∧ r = none ∧ d' = x.2) ∨ ∃ naddr, x.1 = some naddr ∧ r = some naddr ∧
      I.moveContents k t oaddr naddr osize nsize z x.2 = .ok d' := by
  obtain ⟨r₁, d₁⟩ := x
  cases r₁ with
  | none =>
    cases h
    exact .inl ⟨rfl, rfl, rfl⟩
  | some naddr =>
    obtain ⟨d₂, hmove, h⟩ := Result.bind_eq_ok.mp h
    cases h
    exact .inr ⟨naddr, rfl, rfl, hmove⟩

theorem Hooks.realloc_cases {oaddr : ℕ} (hne : nsize ≠ 0)
    (h : I.realloc k t (some oaddr) nsize d = .ok (r, d')) :
    let hd := headers d.st oaddr
    (reusable nsize (dataSize hd.size oaddr hd.header) ∧ d.st.heapManager t ≠ 1 ∧ r = some oaddr ∧
      d' = (I.resizedTo t hd.header nsize d).edit (reallocInPlace oaddr hd.header nsize)) ∨
    (¬ reusable nsize (dataSize hd.size oaddr hd.header) ∧ ∃ r₁ d₁,
      I.memalignNoStats k t .realloc hd.alignment nsize d = .ok (r₁, d₁) ∧
        ((r₁ = none ∧ r = none ∧ d' = d₁) ∨ ∃ naddr, r₁ = some naddr ∧ r = some naddr ∧
          I.moveContents k t oaddr naddr (d.st.mem.word (sizeField hd.header)) nsize
            (zeroFillBit (d.st.mem.word hd.header) ≠ 0) d₁ = .ok d')) := by
  unfold Hooks.realloc at h
  dsimp only at h ⊢
  rw [if_neg hne] at h
  split at h
  · next hreuse =>
    obtain ⟨hheap, h⟩ := Hooks.touch_ok h
    cases h
    exact .inl ⟨hreuse, hheap, rfl, rfl⟩
  · next hreuse =>
    replace h := Hooks.count_ok h
    have hplain : ∀ f : Option ℕ × Counted H → Result (Option ℕ × Counted H),
        (if (headers d.st oaddr).alignment ≤ libAlign then I.doMalloc k t .realloc nsize d >>= f
          else I.memalignNoStats k t .realloc (headers d.st oaddr).alignment nsize d >>= f) =
        I.memalignNoStats k t .realloc (headers d.st oaddr).alignment nsize d >>= f := by
      intro f
      split
      · next hle => rw [Hooks.memalignNoStats, if_pos (.inl hle)]
      · rfl
    rw [hplain] at h
    obtain ⟨⟨r₁, d₁⟩, hm, h⟩ := Result.bind_eq_ok.mp h
    exact .inr ⟨hreuse, r₁, d₁, hm, Hooks.moved_cases h⟩

theorem Standing.realloc (hs : Standing cfg main d.st status A idle) (hI : I.Books net weight)
    (hmay : MayCall main d.st status t) (hb : liveAt A b = some l) (hne : nsize ≠ 0) (hsize : nsize < 2 ^ 64)
    (hcarry : I.Carries net t d)
    (hsettles : ∀ n ∈ reallocRequest d.st l.user nsize, I.Settles weight k t n d.st)
    (h : I.realloc k t (some l.user) nsize d = .ok (r, d')) :
    ∃ A' idle', Posted cfg main net weight d d' status t A A' idle' (some l.user) r.isSome r := by
  obtain ⟨hblock, _⟩ := hs.refines.liveBlock hb
  obtain ⟨hpow, hle, halign, _⟩ := hs.refines.alignment_bounds hb
  obtain ⟨hdata, hafter, hroom, _⟩ := hs.refines.dataSize hb
  have hcases := Hooks.realloc_cases hne h
  unfold reallocRequest at hsettles
  dsimp only at hcases hsettles
  rw [hs.refines.headers hb] at hdata hcases hsettles
  dsimp only at hdata hcases hsettles
  rw [hdata, hblock.encodes.size, hblock.zeroFillBit] at hcases
  rw [hdata] at hsettles
  rcases hcases with ⟨hfits, hheap, rfl, rfl⟩ | ⟨hmiss, r₁, d₁, hm, hcases⟩
  · have hroom' : l.user + nsize ≤ b + l.len := by
      have := hfits.1
      omega
    obtain ⟨A', hr', hlive, _⟩ := hs.refines.reallocInPlace hb hroom'
    refine ⟨A', idle, hs.inPlace hI (hs.touched hmay hheap) hb hr' hlive rfl rfl rfl ?_⟩
    rw [reallocInPlace_eq]
    exact ⟨rfl, rfl, rfl, rfl⟩
  · rw [if_neg (not_or.mpr ⟨hne, hmiss⟩)] at hsettles
    exact hs.memalignThenMove hI hmay hb hsize hpow halign hcarry (hsettles _ rfl) hm hcases

/-! ### Other alignments -/

theorem Change.of_edited {l₁ : Live} (hinj : Injective (Function.update L b (some l₁))) (hb : L b = some l)
    (huser : l₁.user = l.user) (hchange : Change (Function.update L b (some l₁)) L' (some l.user) gone r) :
    Change L L' (some l.user) gone r := by
  have hself : Function.update L b (some l₁) b = some l₁ := Function.update_self ..
  generalize haddr : some l.user = oaddr at hchange
  cases hchange with
  | refused =>
    rw [← haddr]
    exact .edited hb huser
  | obtained hnone => cases haddr
  | freed hc =>
    obtain rfl := hinj _ _ _ _ hself hc (huser.trans (Option.some.inj haddr))
    rw [Function.update_idem, ← haddr]
    exact .freed hb
  | moved hc hnone =>
    obtain rfl := hinj _ _ _ _ hself hc (huser.trans (Option.some.inj haddr))
    rw [Function.update_idem] at hnone ⊢
    rw [← haddr]
    exact .moved hb hnone
  | edited hc hu =>
    obtain rfl := hinj _ _ _ _ hself hc (huser.trans (Option.some.inj haddr))
    rw [Function.update_idem, ← haddr]
    exact .edited hb (hu.trans (Option.some.inj haddr).symm)

theorem Posted.edited {f : State → State} {l₁ : Live} {idle' : List ℕ} (hs : Standing cfg main d.st status A idle)
    (hb : liveAt A b = some l) (hr₁ : Refines cfg main (f d.st) status A₁ idle₁)
    (hlive : liveAt A₁ = Function.update (liveAt A) b (some l₁)) (huser : l₁.user = l.user)
    (hlen : l₁.len = l.len) (hsize : l₁.view.size = l.view.size) (hcontrol : SameControl d.st (f d.st))
    (hm : Posted cfg main net weight (d.edit f) d' status t A₁ A' idle' (some l.user) gone r) :
    Posted cfg main net weight d d' status t A A' idle' (some l.user) gone r := by
  have hb₁ : liveAt A₁ b = some l₁ := by rw [hlive, Function.update_self]
  have hworth : worth weight (f d.st) l.user = worth weight d.st l.user := by
    rw [hs.refines.worth_eq hb, ← huser, hr₁.worth_eq hb₁, hlen, hsize]
  have hcalm : Calm t d (d.edit f) :=
    .of_master hcontrol.bootFlag hcontrol.heapManager (by rw [Counted.edit_st, hcontrol.heapMaster]) rfl
  refine ⟨hm.standing, hcalm.trans hm.calm, ?_, fun u hu hkeep => ?_, ?_⟩
  · have hinj := hr₁.injective
    have hchange := hm.change
    rw [hlive] at hinj hchange
    exact hchange.of_edited hinj hb huser
  · cases hu
    exact (hm.kept l.user rfl hkeep).trans hworth
  · rw [hm.total, Counted.total_edit (by rw [hcontrol.heapMaster]), Option.elim_some, Option.elim_some,
      Counted.edit_st, hworth]

/-- `aligned_resize` and `aligned_realloc` first record a new alignment that the old address happens to have. -/
def Counted.realigned (oaddr nalignment : ℕ) (d : Counted H) : Counted H :=
  let word := d.st.mem.word (headerAddr oaddr)
  if alignmentBit word ≠ 0 ∧ luckyMatch oaddr (clearAlignmentBit word) nalignment then
    d.edit (updateAlignment oaddr nalignment)
  else d

theorem Standing.alignedResize {nalignment : ℕ} (hs : Standing cfg main d.st status A idle)
    (hI : I.Books net weight) (hmay : MayCall main d.st status t) (hb : liveAt A b = some l) (hne : size ≠ 0)
    (hsize : size < 2 ^ 64) (hpow : nalignment.isPowerOfTwo) (halign : nalignment < 2 ^ 64)
    (hcarry : I.Carries net t d)
    (hsettles : ∀ n ∈ alignedResizeRequest d.st l.user nalignment size, ∀ d₁,
      I.doFree k t l.user (d.realigned l.user (max nalignment libAlign)) = .ok d₁ →
        I.Settles weight k t n d₁.st)
    (h : I.alignedResize k t (some l.user) nalignment size d = .ok (r, d')) :
    ∃ A' idle', Posted cfg main net weight d d' status t A A' idle' (some l.user) true r := by
  obtain ⟨hblock, _⟩ := hs.refines.liveBlock hb
  obtain ⟨hbit, hclear⟩ := hblock.encodes.fakeWord hblock.taggable
  have hmaxpow := max_libAlign_pow hpow
  have hmaxlt : max nalignment libAlign < 2 ^ 64 := max_lt halign (by decide)
  unfold alignedResizeRequest at hsettles
  unfold Hooks.alignedResize at h
  dsimp only at h hsettles
  rw [if_neg hne] at h hsettles
  cases hal : l.view.alignment with
  | none =>
    have hplain : ¬ alignmentBit (d.st.mem.word (headerAddr l.user)) ≠ 0 := not_not.mpr (hbit.mpr hal)
    have hkeep : d.realigned l.user (max nalignment libAlign) = d := if_neg fun hlucky => hplain hlucky.1
    rw [if_neg hplain] at h hsettles
    rw [hkeep] at hsettles
    split at h
    · next hsame =>
      rw [if_pos hsame] at hsettles
      exact hs.resize hI hmay hb hne hsize hcarry hsettles h
    · next hdiff =>
      rw [if_neg hdiff] at hsettles
      exact hs.freeThenMemalign hI hmay hb hsize hmaxpow hmaxlt hcarry (hsettles _ rfl) h
  | some a =>
    have hfake : alignmentBit (d.st.mem.word (headerAddr l.user)) ≠ 0 := by
      rw [ne_eq, hbit, hal]
      simp
    rw [if_pos hfake, hclear a hal] at h hsettles
    split at h
    · next hlucky =>
      have hedit : d.realigned l.user (max nalignment libAlign) =
          d.edit (updateAlignment l.user (max nalignment libAlign)) := if_pos ⟨hfake, by rwa [hclear a hal]⟩
      rw [if_pos hlucky] at hsettles
      rw [hedit] at hsettles
      obtain ⟨A₁, hr₁, hlive₁, _⟩ := hs.refines.updateAlignment hb hal hmaxpow (le_max_right _ _)
        hmaxlt (Nat.dvd_of_mod_eq_zero hlucky.1)
      have hb₁ : liveAt A₁ b =
          some { l with view := { l.view with alignment := some (max nalignment libAlign) } } := by
        rw [hlive₁, Function.update_self]
      have hs₁ : Standing cfg main (d.edit (updateAlignment l.user (max nalignment libAlign))).st status A₁ idle :=
        ⟨hr₁, hs.nodup⟩
      split at h
      · next hfits =>
        obtain ⟨hheap, h⟩ := Hooks.touch_ok h
        cases h
        rw [Counted.edit_st] at hfits
        have hle := hfits.1
        rw [(hr₁.dataSize hb₁).1] at hle
        have hheader : (Llheap.headers (updateAlignment l.user (max nalignment libAlign) d.st) l.user).header = b := by
          rw [hr₁.headers hb₁]
        -- the alignment is recorded a second time
        obtain ⟨A₂, hr₂, hlive₂, _⟩ := hr₁.updateAlignment hb₁ rfl hmaxpow (le_max_right _ _) hmaxlt
          (Nat.dvd_of_mod_eq_zero hlucky.1)
        have hb₂ : liveAt A₂ b =
            some { l with view := { l.view with alignment := some (max nalignment libAlign) } } := by
          rw [hlive₂, Function.update_self]
        have hs₂ : Standing cfg main ((d.edit (updateAlignment l.user (max nalignment libAlign))).edit
            (updateAlignment l.user (max nalignment libAlign))).st status A₂ idle := ⟨hr₂, hs.nodup⟩
        obtain ⟨A₃, hr₃, hlive₃, _⟩ := hr₂.resizeInPlace hb₂ (show l.user + size ≤ b + l.len by
          have := (hr₁.dataSize hb₁).2.1
          dsimp only at *
          omega)
        have hm := hs₂.inPlace hI (t := t) (hs.touched hmay hheap) hb₂ hr₃ hlive₃ rfl rfl rfl ⟨rfl, rfl, rfl, rfl⟩
        have hm₁ := hm.edited hs₁ hb₁ hr₂ hlive₂ rfl rfl rfl ⟨rfl, rfl, rfl, rfl⟩
        rw [Counted.edit_st, hheader]
        exact ⟨A₃, idle, hm₁.edited hs hb hr₁ hlive₁ rfl rfl rfl ⟨rfl, rfl, rfl, rfl⟩⟩
      · next hmiss =>
        rw [Counted.edit_st] at hmiss
        rw [if_neg hmiss] at hsettles
        obtain ⟨A', idle', hm⟩ := hs₁.freeThenMemalign hI (hmay.congr ⟨rfl, rfl, rfl, rfl⟩) hb₁ hsize hmaxpow
          hmaxlt hcarry (hsettles _ rfl) h
        exact ⟨A', idle', hm.edited hs hb hr₁ hlive₁ rfl rfl rfl ⟨rfl, rfl, rfl, rfl⟩⟩
    · next hmiss =>
      have hkeep : d.realigned l.user (max nalignment libAlign) = d :=
        if_neg fun hlucky => hmiss (by rw [← hclear a hal]; exact hlucky.2)
      rw [if_neg hmiss, hkeep] at hsettles
      exact hs.freeThenMemalign hI hmay hb hsize hmaxpow hmaxlt hcarry (hsettles _ rfl) h

theorem Standing.alignedReallocMove (hs : Standing cfg main d.st status A idle) (hI : I.Books net weight)
    (hmay : MayCall main d.st status t) (hb : liveAt A b = some l) (hsize : size < 2 ^ 64)
    (hpow : alignment.isPowerOfTwo) (halign : alignment < 2 ^ 64) (hcarry : I.Carries net t d)
    (hsettles : I.Settles weight k t (memalignRequest alignment size) d.st)
    (h : I.alignedReallocMove k t l.user alignment size d = .ok (r, d')) :
    ∃ A' idle', Posted cfg main net weight d d' status t A A' idle' (some l.user) r.isSome r := by
  obtain ⟨hblock, _⟩ := hs.refines.liveBlock hb
  unfold Hooks.alignedReallocMove at h
  dsimp only at h
  rw [hs.refines.headers hb] at h
  dsimp only at h
  rw [hblock.encodes.size, hblock.zeroFillBit] at h
  obtain ⟨⟨r₁, d₁⟩, hm, h⟩ := Result.bind_eq_ok.mp h
  exact hs.memalignThenMove hI hmay hb hsize hpow halign hcarry hsettles hm (Hooks.moved_cases h)

theorem Standing.alignedRealloc {nalignment : ℕ} (hs : Standing cfg main d.st status A idle)
    (hI : I.Books net weight) (hmay : MayCall main d.st status t) (hb : liveAt A b = some l) (hne : size ≠ 0)
    (hsize : size < 2 ^ 64) (hpow : nalignment.isPowerOfTwo) (halign : nalignment < 2 ^ 64)
    (hcarry : I.Carries net t d)
    (hsettles : ∀ n ∈ alignedReallocRequest d.st l.user nalignment size,
      I.Settles weight k t n (d.realigned l.user (max nalignment libAlign)).st)
    (h : I.alignedRealloc k t (some l.user) nalignment size d = .ok (r, d')) :
    ∃ A' idle', Posted cfg main net weight d d' status t A A' idle' (some l.user) r.isSome r := by
  obtain ⟨hblock, _⟩ := hs.refines.liveBlock hb
  obtain ⟨hbit, hclear⟩ := hblock.encodes.fakeWord hblock.taggable
  have hmaxpow := max_libAlign_pow hpow
  have hmaxlt : max nalignment libAlign < 2 ^ 64 := max_lt halign (by decide)
  unfold alignedReallocRequest at hsettles
  unfold Hooks.alignedRealloc at h
  dsimp only at h hsettles
  rw [if_neg hne] at h hsettles
  cases hal : l.view.alignment with
  | none =>
    have hplain : ¬ alignmentBit (d.st.mem.word (headerAddr l.user)) ≠ 0 := not_not.mpr (hbit.mpr hal)
    have hkeep : d.realigned l.user (max nalignment libAlign) = d := if_neg fun hlucky => hplain hlucky.1
    rw [if_neg hplain] at h hsettles
    rw [hkeep] at hsettles
    split at h
    · next hsame =>
      rw [if_pos hsame] at hsettles
      exact hs.realloc hI hmay hb hne hsize hcarry hsettles h
    · next hdiff =>
      rw [if_neg hdiff] at hsettles
      exact hs.alignedReallocMove hI hmay hb hsize hpow halign hcarry (hsettles _ rfl) h
  | some a =>
    have hfake : alignmentBit (d.st.mem.word (headerAddr l.user)) ≠ 0 := by
      rw [ne_eq, hbit, hal]
      simp
    rw [if_pos hfake, hclear a hal] at h hsettles
    split at h
    · next hlucky =>
      have hedit : d.realigned l.user (max nalignment libAlign) =
          d.edit (updateAlignment l.user (max nalignment libAlign)) := if_pos ⟨hfake, by rwa [hclear a hal]⟩
      rw [if_pos hlucky] at hsettles
      rw [hedit] at hsettles
      obtain ⟨A₁, hr₁, hlive₁, _⟩ := hs.refines.updateAlignment hb hal hmaxpow (le_max_right _ _)
        hmaxlt (Nat.dvd_of_mod_eq_zero hlucky.1)
      have hb₁ : liveAt A₁ b =
          some { l with view := { l.view with alignment := some (max nalignment libAlign) } } := by
        rw [hlive₁, Function.update_self]
      have hs₁ : Standing cfg main (d.edit (updateAlignment l.user (max nalignment libAlign))).st status A₁ idle :=
        ⟨hr₁, hs.nodup⟩
      obtain ⟨A', idle', hm⟩ := hs₁.realloc hI (hmay.congr ⟨rfl, rfl, rfl, rfl⟩) hb₁ hne hsize hcarry hsettles h
      exact ⟨A', idle', hm.edited hs hb hr₁ hlive₁ rfl rfl rfl ⟨rfl, rfl, rfl, rfl⟩⟩
    · next hmiss =>
      have hkeep : d.realigned l.user (max nalignment libAlign) = d :=
        if_neg fun hlucky => hmiss (by rw [← hclear a hal]; exact hlucky.2)
      rw [if_neg hmiss, hkeep] at hsettles
      exact hs.alignedReallocMove hI hmay hb hsize hmaxpow hmaxlt hcarry (hsettles _ rfl) h

/-! ### Calls -/

/-- The routine of a build; `malloc` and `memalign` are counted under `name`, which other routines that come to the same give them. -/
def Hooks.run (I : Hooks H) (k : Kernel cfg) (t : Tid) (name : Counter) :
    Call → Counted H → Result (Option ℕ × Counted H)
  | .malloc size => I.doMalloc k t name size
  | .calloc dimension elemSize => I.calloc k t dimension elemSize
  | .memalign alignment size => I.memalignNoStats k t name alignment size
  | .cmemalign alignment dimension elemSize => I.cmemalign k t alignment dimension elemSize
  | .resize oaddr size => I.resize k t oaddr size
  | .realloc oaddr size => I.realloc k t oaddr size
  | .alignedResize oaddr nalignment size => I.alignedResize k t oaddr nalignment size
  | .alignedRealloc oaddr nalignment size => I.alignedRealloc k t oaddr nalignment size

/-- What a call comes upon when it makes its request: the resizing calls have freed the old storage by then. -/
def Hooks.asked (I : Hooks H) (k : Kernel cfg) (t : Tid) : Call → Counted H → Result (Counted H)
  | .resize (some oaddr) _, d => I.doFree k t oaddr d
  | .alignedResize (some oaddr) nalignment _, d =>
    I.doFree k t oaddr (d.realigned oaddr (max nalignment libAlign))
  | .alignedRealloc (some oaddr) nalignment _, d => .ok (d.realigned oaddr (max nalignment libAlign))
  | _, d => .ok d

/-- The old allocation keeps its block. -/
def Call.Reuses (s : State) (c : Call) : Prop :=
  c.oaddr ≠ none ∧ c.size ≠ 0 ∧ c.request s = none

theorem Hooks.run_zero {c : Call} (hu : c.oaddr = some u) (hzero : c.size = 0) :
    I.run k t name c d = (do
      I.count t d
      let d ← I.doFree k t u d
      .ok (none, d)) := by
  cases c with
  | malloc size => cases hu
  | calloc dimension elemSize => cases hu
  | memalign alignment size => cases hu
  | cmemalign alignment dimension elemSize => cases hu
  | resize oaddr size =>
    cases hu
    exact if_pos hzero
  | realloc oaddr size =>
    cases hu
    exact if_pos hzero
  | alignedResize oaddr nalignment size =>
    cases hu
    exact if_pos hzero
  | alignedRealloc oaddr nalignment size =>
    cases hu
    exact if_pos hzero

theorem Call.gives_zero {c : Call} (hu : c.oaddr = some u) (hzero : c.size = 0) : c.gives r = true := by
  cases c with
  | malloc size => cases hu
  | calloc dimension elemSize => cases hu
  | memalign alignment size => cases hu
  | cmemalign alignment dimension elemSize => cases hu
  | resize oaddr size =>
    cases hu
    rfl
  | realloc oaddr size =>
    cases hu
    cases hzero
    simp [Call.gives]
  | alignedResize oaddr nalignment size =>
    cases hu
    rfl
  | alignedRealloc oaddr nalignment size =>
    cases hu
    cases hzero
    simp [Call.gives]

theorem Standing.callNew {c : Call} (hs : Standing cfg main d.st status A idle) (hI : I.Books net weight)
    (hmay : MayCall main d.st status t) (hvalid : c.Valid) (hnew : c.oaddr = none)
    (hcarry : I.Carries net t d) (hsettles : ∀ n ∈ c.request d.st, I.Settles weight k t n d.st)
    (h : I.run k t name c d = .ok (r, d')) :
    ∃ A' idle', Posted cfg main net weight d d' status t A A' idle' none false r := by
  have hplain : ∀ {name size d₁ r₁}, size < 2 ^ 64 → I.Settles weight k t size d.st →
      I.doMalloc k t name size d = .ok (r₁, d₁) →
      ∃ A' idle', Answered cfg main net weight d d₁ status t A A' idle' size none r₁ := by
    intro name size d₁ r₁ hsize hsettles h
    have hm : I.memalignNoStats k t name libAlign size d = .ok (r₁, d₁) := h
    have hrequest : memalignRequest libAlign size = size := if_pos (.inl le_rfl)
    have hrecorded : recordedAlignment libAlign size = none := if_pos (.inl le_rfl)
    have hpow : libAlign.isPowerOfTwo := ⟨4, rfl⟩
    rw [← hrequest] at hsettles
    rw [← hrecorded]
    exact hs.memalignNoStats hI hmay hsize hpow (by decide) hcarry hsettles hm
  cases c with
  | malloc size =>
    obtain ⟨A', idle', hm⟩ := hplain hvalid (hsettles _ rfl) h
    exact ⟨A', idle', hm.posted⟩
  | calloc dimension elemSize =>
    obtain ⟨⟨r₁, d₁⟩, hm, h⟩ := Result.bind_eq_ok.mp h
    obtain ⟨A', idle', hm⟩ := hplain (Nat.mod_lt _ (by decide)) (hsettles _ rfl) hm
    cases r₁ with
    | none =>
      cases h
      exact ⟨A', idle', hm.posted⟩
    | some user =>
      cases h
      obtain ⟨A₁, hm₁⟩ := hm.clear
      rw [hm.header] at hm₁
      exact ⟨A₁, idle', hm₁⟩
  | memalign alignment size =>
    obtain ⟨hsize, hpow, halign⟩ := hvalid
    obtain ⟨A', idle', hm⟩ := hs.memalignNoStats hI hmay hsize hpow halign hcarry (hsettles _ rfl) h
    exact ⟨A', idle', hm.posted⟩
  | cmemalign alignment dimension elemSize =>
    obtain ⟨_, hpow, halign⟩ := hvalid
    obtain ⟨⟨r₁, d₁⟩, hm, h⟩ := Result.bind_eq_ok.mp h
    obtain ⟨A', idle', hm⟩ := hs.memalignNoStats hI hmay (Nat.mod_lt _ (by decide)) hpow halign hcarry
      (hsettles _ rfl) hm
    cases r₁ with
    | none =>
      cases h
      exact ⟨A', idle', hm.posted⟩
    | some user =>
      cases h
      obtain ⟨A₁, hm₁⟩ := hm.clear
      exact ⟨A₁, idle', hm₁⟩
  | resize oaddr size =>
    cases hnew
    obtain ⟨A', idle', hm⟩ := hplain hvalid (hsettles _ rfl) h
    exact ⟨A', idle', hm.posted⟩
  | realloc oaddr size =>
    cases hnew
    obtain ⟨A', idle', hm⟩ := hplain hvalid (hsettles _ rfl) h
    exact ⟨A', idle', hm.posted⟩
  | alignedResize oaddr nalignment size =>
    cases hnew
    obtain ⟨hsize, hpow, halign⟩ := hvalid
    obtain ⟨A', idle', hm⟩ := hs.memalignNoStats hI hmay hsize hpow halign hcarry (hsettles _ rfl) h
    exact ⟨A', idle', hm.posted⟩
  | alignedRealloc oaddr nalignment size =>
    cases hnew
    obtain ⟨hsize, hpow, halign⟩ := hvalid
    obtain ⟨A', idle', hm⟩ := hs.memalignNoStats hI hmay hsize hpow halign hcarry (hsettles _ rfl) h
    exact ⟨A', idle', hm.posted⟩

theorem Standing.call {c : Call} (hs : Standing cfg main d.st status A idle) (hI : I.Books net weight)
    (hmay : MayCall main d.st status t) (hvalid : c.Valid) (hold : ∀ u ∈ c.oaddr, u ∈ users (liveAt A))
    (hcarry : I.Carries net t d)
    (hsettles : ∀ n ∈ c.request d.st, ∀ d₁, I.asked k t c d = .ok d₁ → I.Settles weight k t n d₁.st)
    (h : I.run k t name c d = .ok (r, d')) :
    ∃ A' idle', Posted cfg main net weight d d' status t A A' idle' c.oaddr (c.gives r) r := by
  cases haddr : c.oaddr with
  | none =>
    have hkept : c.gives r = false ∧ I.asked k t c d = .ok d := by
      cases c <;> cases haddr <;> exact ⟨rfl, rfl⟩
    rw [hkept.1]
    exact hs.callNew hI hmay hvalid haddr hcarry (fun n hn => hsettles n hn d hkept.2) h
  | some u =>
    obtain ⟨b, l, hb, rfl⟩ := hold u haddr
    by_cases hzero : c.size = 0
    · rw [Hooks.run_zero haddr hzero] at h
      rw [Call.gives_zero haddr hzero]
      exact hs.callFree hI hmay hb hcarry (Hooks.count_ok h)
    cases c with
    | malloc size => cases haddr
    | calloc dimension elemSize => cases haddr
    | memalign alignment size => cases haddr
    | cmemalign alignment dimension elemSize => cases haddr
    | resize oaddr size =>
      cases haddr
      exact hs.resize hI hmay hb hzero hvalid hcarry hsettles h
    | realloc oaddr size =>
      cases haddr
      obtain ⟨A', idle', hm⟩ := hs.realloc hI hmay hb hzero hvalid hcarry
        (fun n hn => hsettles n hn d rfl) h
      have hgives : (Call.realloc (some l.user) size).gives r = r.isSome := by
        simp [Call.gives, show size ≠ 0 from hzero]
      exact ⟨A', idle', hgives ▸ hm⟩
    | alignedResize oaddr nalignment size =>
      cases haddr
      obtain ⟨hsize, hpow, halign⟩ := hvalid
      exact hs.alignedResize hI hmay hb hzero hsize hpow halign hcarry hsettles h
    | alignedRealloc oaddr nalignment size =>
      cases haddr
      obtain ⟨hsize, hpow, halign⟩ := hvalid
      obtain ⟨A', idle', hm⟩ := hs.alignedRealloc hI hmay hb hzero hsize hpow halign hcarry
        (fun n hn => hsettles n hn _ rfl) h
      have hgives : (Call.alignedRealloc (some l.user) nalignment size).gives r = r.isSome := by
        simp [Call.gives, show size ≠ 0 from hzero]
      exact ⟨A', idle', hgives ▸ hm⟩

/-! ### In place -/

/-- A branch that keeps the block is taken where the call makes no request. -/
theorem Hooks.kept_reuses {fits : Prop} [Decidable fits] {header n : ℕ} {f : State → State}
    {rest : Result (Option ℕ × Counted H)} {rest' : Result (Option ℕ × State)} (hne : size ≠ 0)
    (hnone : (if size = 0 ∨ fits then none else some n) = none)
    (h : (if fits then Hooks.touch t d >>= fun _ => .ok (some u, (I.resizedTo t header size d).edit f)
      else rest) = .ok (r, d')) :
    r = some u ∧ (if fits then .ok (some u, f d.st) else rest') = .ok (r, d'.st) := by
  split at h
  · next hfits =>
    obtain ⟨_, h⟩ := Hooks.touch_ok h
    cases h
    rw [if_pos hfits]
    exact ⟨rfl, rfl⟩
  · next hmiss =>
    rw [if_neg (not_or.mpr ⟨hne, hmiss⟩)] at hnone
    cases hnone

theorem Hooks.resize_reuses (hne : size ≠ 0) (hnone : resizeRequest d.st u size = none)
    (h : I.resize k t (some u) size d = .ok (r, d')) :
    r = some u ∧ Llheap.resize k t (some u) size d.st = .ok (r, d'.st) := by
  unfold Hooks.resize at h
  unfold Llheap.resize
  dsimp only at h ⊢
  rw [if_neg hne] at h ⊢
  exact Hooks.kept_reuses hne hnone h

theorem Hooks.realloc_reuses (hne : size ≠ 0) (hnone : reallocRequest d.st u size = none)
    (h : I.realloc k t (some u) size d = .ok (r, d')) :
    r = some u ∧ Llheap.realloc k t (some u) size d.st = .ok (r, d'.st) := by
  unfold Hooks.realloc at h
  unfold Llheap.realloc
  dsimp only at h ⊢
  rw [if_neg hne] at h ⊢
  exact Hooks.kept_reuses hne hnone h

theorem Hooks.alignedResize_reuses (hne : size ≠ 0) (hnone : alignedResizeRequest d.st u alignment size = none)
    (h : I.alignedResize k t (some u) alignment size d = .ok (r, d')) :
    r = some u ∧ Llheap.alignedResize k t (some u) alignment size d.st = .ok (r, d'.st) := by
  unfold alignedResizeRequest at hnone
  unfold Hooks.alignedResize at h
  unfold Llheap.alignedResize
  dsimp only at hnone h ⊢
  rw [if_neg hne] at hnone h ⊢
  split at hnone
  · next hfake =>
    rw [if_pos hfake] at h ⊢
    split at hnone
    · next hlucky =>
      rw [if_pos hlucky] at h ⊢
      split at hnone
      · next hfits =>
        rw [if_pos (by exact hfits)] at h
        obtain ⟨_, h⟩ := Hooks.touch_ok h
        cases h
        rw [if_pos hfits]
        exact ⟨rfl, rfl⟩
      · cases hnone
    · cases hnone
  · next hplain =>
    rw [if_neg hplain] at h ⊢
    split at hnone
    · next hsame =>
      rw [if_pos hsame] at h ⊢
      exact Hooks.resize_reuses hne hnone h
    · cases hnone

theorem Hooks.alignedRealloc_reuses (hne : size ≠ 0)
    (hnone : alignedReallocRequest d.st u alignment size = none)
    (h : I.alignedRealloc k t (some u) alignment size d = .ok (r, d')) :
    r = some u ∧ Llheap.alignedRealloc k t (some u) alignment size d.st = .ok (r, d'.st) := by
  unfold alignedReallocRequest at hnone
  unfold Hooks.alignedRealloc at h
  unfold Llheap.alignedRealloc
  dsimp only at hnone h ⊢
  rw [if_neg hne] at hnone h ⊢
  split at hnone
  · next hfake =>
    rw [if_pos hfake] at h ⊢
    split at hnone
    · next hlucky =>
      rw [if_pos hlucky] at h ⊢
      exact Hooks.realloc_reuses (d := d.edit (updateAlignment u (max alignment libAlign))) hne hnone h
    · cases hnone
  · next hplain =>
    rw [if_neg hplain] at h ⊢
    split at hnone
    · next hsame =>
      rw [if_pos hsame] at h ⊢
      exact Hooks.realloc_reuses hne hnone h
    · cases hnone

/-- A call that reuses the block returns its old address, and does what it does in the default build. -/
theorem Hooks.run_reuses {c : Call} (hc : c.Reuses d.st) (h : I.run k t name c d = .ok (r, d')) :
    r = c.oaddr ∧ c.run k t d.st = .ok (r, d'.st) := by
  obtain ⟨haddr, hne, hnone⟩ := hc
  obtain ⟨u, hu⟩ := Option.ne_none_iff_exists'.mp haddr
  cases c with
  | malloc size => cases hu
  | calloc dimension elemSize => cases hu
  | memalign alignment size => cases hu
  | cmemalign alignment dimension elemSize => cases hu
  | resize oaddr size =>
    cases hu
    exact Hooks.resize_reuses hne hnone h
  | realloc oaddr size =>
    cases hu
    exact Hooks.realloc_reuses hne hnone h
  | alignedResize oaddr nalignment size =>
    cases hu
    exact Hooks.alignedResize_reuses hne hnone h
  | alignedRealloc oaddr nalignment size =>
    cases hu
    exact Hooks.alignedRealloc_reuses hne hnone h

end Llheap
