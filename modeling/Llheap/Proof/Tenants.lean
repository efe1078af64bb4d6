import Llheap.Proof.Sticky

/-!
# Tenants

What the program has at an address, whatever size it asked for: a block that nobody else has, with headers that lead back to it. A request that its block cannot hold gets such a block too. `doMalloc` finds a tenant a block, the routines edit its headers and contents, and `doFree` gives the block back.
-/

namespace Llheap

variable {cfg : Config} {main : Tid} {k : Kernel cfg} {t : Tid} {s s' : State} {status : Tid → Status}
  {A A' : Arena Tag} {idle : List ℕ} {b n u f h size : ℕ} {v v' : View} {r : Option ℕ} {mem : Memory}

/-- The program has the block `[b, b + n)` at the address `u`, and its headers record `v`. -/
structure Tenant (s : State) (A : Arena Tag) (b n u : ℕ) (v : View) : Prop where
  held : A.at? b = some ⟨n, .held⟩
  encodes : Encodes s.mem b n u v
  taggable : v.Taggable n
  inside : u ≤ b + n
  bucket : ∀ f, v.origin = .bucket f → ∃ h, IsBucket s.heapMaster h f n

theorem Tenant.congr (ht : Tenant s A b n u v) (hheld : A'.at? b = some ⟨n, .held⟩)
    (hbytes : Set.EqOn s'.mem s.mem (Set.Ico b (b + n)))
    (hlist : ∀ h ∈ s.heapMaster.heapManagersList, h ∈ s'.heapMaster.heapManagersList) :
    Tenant s' A' b n u v := by
  have hinside := ht.inside
  obtain ⟨hafter, hfake⟩ := ht.encodes.user_after
  refine ⟨hheld, ht.encodes.congr (hbytes.mono (Set.Ico_subset_Ico le_rfl (by omega))) fun hs =>
    hbytes.mono (Set.Ico_subset_Ico ?_ ?_), ht.taggable, hinside, fun f hf => ?_⟩
  · have := hfake hs
    obtain ⟨a, ha⟩ := Option.isSome_iff_exists.mp hs
    have := (ht.encodes.fake a ha).1
    simp only [sizeofStorage] at this
    omega
  · have := hfake hs
    omega
  · obtain ⟨h, hh, hi⟩ := ht.bucket f hf
    exact ⟨h, hlist h hh, hi⟩

/-- The home bucket of an address, if its block is not mapped. -/
def home (s : State) (addr : ℕ) : Option ℕ :=
  if (headers s addr).mapped then none else some (headers s addr).freeHead

def Origin.home : Origin → Option ℕ
  | .bucket freeHead => some freeHead
  | .mapped => none

theorem Tenant.home (ht : Tenant s A b n u v) : home s u = v.origin.home := by
  rw [Llheap.home, ht.encodes.headers ht.taggable]
  cases v.origin <;> simp [Origin.home, Origin.freeHead]

theorem Tenant.header (ht : Tenant s A b n u v) : (headers s u).header = b := by
  rw [ht.encodes.headers ht.taggable]

theorem Tenant.others {c : ℕ} (ht : Tenant s A b n u v) (hothers : OthersUndisturbed c s s' A A') (hne : b ≠ c)
    (hlist : ∀ h ∈ s.heapMaster.heapManagersList, h ∈ s'.heapMaster.heapManagersList) :
    Tenant s' A' b n u v := by
  obtain ⟨hheld, hbytes⟩ := hothers b _ .held hne ht.held
  exact ht.congr hheld hbytes hlist

/-! ### Edits -/

theorem Refines.writeHeld (hr : Refines cfg main s status A idle) (hb : A.at? b = some ⟨n, .held⟩)
    (mem : Memory) (hmem : ∀ x, x < b ∨ b + n ≤ x → mem x = s.mem x) :
    Refines cfg main { s with mem := mem } status A idle ∧ OthersUndisturbed b s { s with mem := mem } A A := by
  have hr' := hr.retag hb .held .held hmem (fun _ _ _ => rfl)
    (fun _ _ _ _ hin => by rcases hin with hin | hin <;> cases hin) nofun nofun
  rw [Arena.retag_same hb] at hr'
  exact ⟨hr', fun c p _ hne hc => ⟨hc, eqOn_of_outside hb hmem hc hne⟩⟩

/-- The headers still lead back to the block. -/
theorem Tenant.rewrite {u' : ℕ} (ht : Tenant s A b n u v) (hr : Refines cfg main s status A idle)
    (hmem : ∀ x, x < b ∨ b + n ≤ x → mem x = s.mem x) (henc : Encodes mem b n u' v') (hv : v'.Taggable n)
    (hinside : u' ≤ b + n) (horigin : v'.origin = v.origin) :
    Refines cfg main { s with mem := mem } status A idle ∧ Tenant { s with mem := mem } A b n u' v' ∧
      OthersUndisturbed b s { s with mem := mem } A A := by
  obtain ⟨hr', hothers⟩ := hr.writeHeld ht.held mem hmem
  exact ⟨hr', ⟨ht.held, henc, hv, hinside, horigin ▸ ht.bucket⟩, hothers⟩

/-- What the program and the routines write to an allocation. -/
inductive Edit
  | write (mem : Memory)
  | zeroFill (size : ℕ)
  | markZeroFilled
  | resizeInPlace (size : ℕ)
  | reallocInPlace (size : ℕ)
  | updateAlignment (alignment : ℕ)
  | usableSize

namespace Edit

def run (addr : ℕ) (s : State) : Edit → State
  | .write mem => { s with mem := mem }
  | .zeroFill size => Llheap.zeroFill addr (headers s addr).header size s
  | .markZeroFilled =>
    let header := (headers s addr).header
    { s with mem := s.mem.setWord header (markZeroFilledBit (s.mem.word header)) }
  | .resizeInPlace size => Llheap.resizeInPlace (headers s addr).header size s
  | .reallocInPlace size => Llheap.reallocInPlace addr (headers s addr).header size s
  | .updateAlignment alignment => Llheap.updateAlignment addr alignment s
  | .usableSize => (mallocUsableSize (some addr) s).2

/-- Contents are written within the data space, and only an aligned address has an alignment to change. -/
def Valid (addr : ℕ) (s : State) : Edit → Prop
  | .write mem => ∀ x, x < addr ∨ addr + dataSpace s addr ≤ x → mem x = s.mem x
  | .zeroFill size | .resizeInPlace size | .reallocInPlace size => size ≤ dataSpace s addr
  | .updateAlignment alignment => alignmentBit (s.mem.word (headerAddr addr)) ≠ 0 ∧
    alignment.isPowerOfTwo ∧ libAlign ≤ alignment ∧ alignment < 2 ^ 64
  | _ => True

/-- What the headers record afterwards. -/
def view (addr : ℕ) (s : State) (v : View) : Edit → View
  | .write _ => v
  | .zeroFill _ | .markZeroFilled => { v with zeroFill := true }
  | .resizeInPlace size => { v with zeroFill := false, size := size }
  | .reallocInPlace size => { v with size := size }
  | .updateAlignment alignment => { v with alignment := some alignment }
  | .usableSize => { v with size := dataSpace s addr }

@[simp] theorem view_origin {e : Edit} {addr : ℕ} : (e.view addr s v).origin = v.origin := by
  cases e <;> rfl

theorem sameControl {e : Edit} {addr : ℕ} : SameControl s (e.run addr s) := by
  cases e with
  | reallocInPlace size =>
    rw [run, reallocInPlace_eq]
    exact ⟨rfl, rfl, rfl, rfl⟩
  | _ => exact ⟨rfl, rfl, rfl, rfl⟩

theorem mappings_eq {e : Edit} {addr : ℕ} : (e.run addr s).mappings = s.mappings := by
  cases e with
  | reallocInPlace size => rw [run, reallocInPlace_eq]
  | _ => rfl

end Edit

theorem Tenant.size_eq (ht : Tenant s A b n u v) (hr : Refines cfg main s status A idle) :
    (headers s u).size = n := by
  rw [ht.encodes.headers ht.taggable]
  cases horigin : v.origin with
  | mapped => rfl
  | bucket f =>
    obtain ⟨h, hf⟩ := ht.bucket f horigin
    exact (hr.blocks.bucket h f n hf).blockSize

theorem Tenant.space (ht : Tenant s A b n u v) (hr : Refines cfg main s status A idle) :
    dataSpace s u = b + n - u ∧ b + 16 ≤ u ∧ b + n ≤ 2 ^ 63 := by
  have hafter := ht.encodes.user_after.1
  have hend := hr.blocks.end_le hr.heaps.laid ht.held
  have hinside := ht.inside
  dsimp only at hend
  rw [dataSpace, ht.size_eq hr, ht.header, dataSize, sub64_of_le (by omega) (by omega)]
  omega

theorem Tenant.plain_dvd (ht : Tenant s A b n u v) (hr : Refines cfg main s status A idle)
    (hplain : v.alignment = none) : 16 ∣ u := by
  rw [ht.encodes.plain hplain]
  exact Nat.dvd_add (hr.heaps.laid.aligned b _ ht.held) (dvd_refl 16)

theorem setWord_outside {m : Memory} {a x : ℕ} {w : ℕ} (hab : b ≤ a) (han : a + 8 ≤ b + n)
    (hx : x < b ∨ b + n ≤ x) : (m.setWord a w) x = m x :=
  Memory.setWord_apply_of_outside (by omega)

theorem Tenant.edit (ht : Tenant s A b n u v) (hr : Refines cfg main s status A idle) {e : Edit}
    (he : e.Valid u s) : Refines cfg main (e.run u s) status A idle ∧
      Tenant (e.run u s) A b n u (e.view u s v) ∧ OthersUndisturbed b s (e.run u s) A A := by
  obtain ⟨hspace, hafter, hend⟩ := ht.space hr
  have hinside := ht.inside
  have henc := ht.encodes
  have hheader := ht.header
  cases e with
  | write mem =>
    have hmem : ∀ x, x < u ∨ b + n ≤ x → mem x = s.mem x := fun x hx => he x (by omega)
    exact ht.rewrite hr (fun x hx => hmem x (by omega))
      (henc.of_contents fun x hx => hmem x (.inl hx)) ht.taggable hinside rfl
  | zeroFill size =>
    have hsize : size ≤ b + n - u := hspace ▸ he
    rw [Edit.run, hheader, zeroFill]
    have hfill : ∀ x, x < u ∨ b + n ≤ x →
        (if mmappedBit (s.mem.word b) = 0 then s.mem.fill u size 0 else s.mem) x = s.mem x := by
      intro x hx
      split
      · exact Memory.fill_apply_of_outside (by omega)
      · rfl
    have hfilled := henc.of_contents fun x hx => hfill x (.inl hx)
    exact ht.rewrite hr
      (fun x hx => (setWord_outside le_rfl (by omega) hx).trans (hfill x (by omega)))
      (hfilled.markZeroFilled ht.taggable) (ht.taggable.withZeroFill true) hinside rfl
  | markZeroFilled =>
    rw [Edit.run, hheader]
    exact ht.rewrite hr (fun x hx => setWord_outside le_rfl (by omega) hx)
      (henc.markZeroFilled ht.taggable) (ht.taggable.withZeroFill true) hinside rfl
  | resizeInPlace size =>
    have hsize : size ≤ b + n - u := hspace ▸ he
    have hlt : size < 2 ^ 64 := by omega
    rw [Edit.run, hheader, resizeInPlace]
    refine ht.rewrite hr (fun x hx => ?_) ((henc.clearZeroFill ht.taggable).setSize hlt)
      ((ht.taggable.withZeroFill false).withSize hlt) hinside rfl
    have hword : sizeField b + 8 ≤ b + n := by rw [sizeField]; omega
    exact (setWord_outside (Nat.le_add_right b 8) hword hx).trans (setWord_outside le_rfl (by omega) hx)
  | reallocInPlace size =>
    have hsize : size ≤ b + n - u := hspace ▸ he
    have hlt : size < 2 ^ 64 := by omega
    have hword : sizeField b + 8 ≤ b + n := by rw [sizeField]; omega
    have hset : ∀ x, x < b ∨ b + n ≤ x → (s.mem.setWord (sizeField b) size) x = s.mem x :=
      fun x hx => setWord_outside (Nat.le_add_right b 8) hword hx
    rw [Edit.run, hheader, reallocInPlace_eq, regrown]
    split
    · next hgrow =>
      have hfill : ∀ x, x < u ∨ b + n ≤ x →
          ((s.mem.setWord (sizeField b) size).fill (u + s.mem.word (sizeField b))
            (size - s.mem.word (sizeField b)) 0) x = (s.mem.setWord (sizeField b) size) x :=
        fun x hx => Memory.fill_apply_of_outside (by omega)
      exact ht.rewrite hr (fun x hx => (hfill x (by omega)).trans (hset x hx))
        ((henc.setSize hlt).of_contents fun x hx => hfill x (.inl hx)) (ht.taggable.withSize hlt) hinside rfl
    · exact ht.rewrite hr hset (henc.setSize hlt) (ht.taggable.withSize hlt) hinside rfl
  | updateAlignment alignment =>
    obtain ⟨hbit, hpow, hle, hlt⟩ := he
    obtain ⟨a, ha⟩ := Option.ne_none_iff_exists'.mp fun hplain => hbit ((henc.fakeWord ht.taggable).1.mpr hplain)
    have hfake := (henc.fake a ha).1
    have h8 : 8 ∣ alignment := word_dvd_of_le hpow hle
    rw [sizeofStorage] at hfake
    rw [Edit.run, updateAlignment]
    refine ht.rewrite hr (fun x hx => ?_) (henc.setAlignment ha h8 hlt)
      (ht.taggable.withAlignment h8 hlt) hinside rfl
    exact setWord_outside (by rw [headerAddr, sizeofStorage]; omega)
      (by rw [headerAddr, sizeofStorage]; omega) hx
  | usableSize =>
    have hlt : b + n - u < 2 ^ 64 := by omega
    have hword : sizeField b + 8 ≤ b + n := by rw [sizeField]; omega
    rw [Edit.view, hspace]
    rw [dataSpace] at hspace
    rw [Edit.run, mallocUsableSize]
    dsimp only at hspace ⊢
    rw [hspace, hheader]
    exact ht.rewrite hr (fun x hx => setWord_outside (Nat.le_add_right b 8) hword hx)
      (henc.setSize hlt) (ht.taggable.withSize hlt) hinside rfl

theorem Tenant.align {user alignment : ℕ} (ht : Tenant s A b n u v) (hr : Refines cfg main s status A idle)
    (hplain : v.alignment = none) (hpow : alignment.isPowerOfTwo) (hle : libAlign ≤ alignment)
    (hlt : alignment < 2 ^ 64) (hsize : size < 2 ^ 64) (huser : u + sizeofStorage ≤ user) (hin : user ≤ b + n) :
    Refines cfg main (setFakeHeader u user alignment size s) status A idle ∧
      Tenant (setFakeHeader u user alignment size s) A b n user
        { v with size := size, alignment := some alignment } ∧
      OthersUndisturbed b s (setFakeHeader u user alignment size s) A A := by
  obtain ⟨_, _, hend⟩ := ht.space hr
  have h8 : 8 ∣ alignment := word_dvd_of_le hpow hle
  have hword : user < 2 ^ 64 := by omega
  have haddr := ht.encodes.plain hplain
  exact ht.rewrite hr (fun x hx => setFakeHeader_mem_of_outside haddr huser (by omega))
    (setFakeHeader_encodes ht.encodes hplain huser hword h8 hlt hsize)
    ((ht.taggable.withSize hsize).withAlignment h8 hlt) hin rfl

/-! ### Giving the block back -/

theorem Tenant.mapped (ht : Tenant s A b n u v) (h : (Llheap.headers s u).mapped) :
    (Llheap.headers s u).header = b ∧ (Llheap.headers s u).size = n ∧ v.origin = .mapped := by
  rw [ht.encodes.headers ht.taggable] at h ⊢
  have horigin : v.origin = .mapped := by simpa using h
  rw [horigin]
  exact ⟨rfl, rfl, rfl⟩

theorem Tenant.doFree (ht : Tenant s A b n u v) (hr : Refines cfg main s status A idle)
    (h : Llheap.doFree t u s = .ok s') : ∃ A', Refines cfg main s' status A' idle ∧ SameControl s s' ∧
      OthersUndisturbed b s s' A A' ∧ ∀ f, v.origin = .bucket f → A'.at? b = some ⟨n, .free f⟩ := by
  have hinside := ht.inside
  have hafter := ht.encodes.user_after.1
  rw [Llheap.doFree, ht.encodes.headers ht.taggable] at h
  dsimp only at h
  cases horigin : v.origin with
  | bucket f =>
    obtain ⟨h', hf⟩ := ht.bucket f horigin
    rw [horigin] at h
    obtain ⟨l, rfl⟩ : ∃ l : ListField, s.push l f b = s' := ⟨_, Except.ok.inj h⟩
    have hmem : ∀ x, x < b ∨ b + n ≤ x → (s.push l f b).mem x = s.mem x :=
      fun x hx => setWord_outside le_rfl (by omega) hx
    refine ⟨_, hr.push hf ht.held .held (by simp) l, ⟨rfl, rfl, rfl, rfl⟩, fun c p _ hne hc => ?_, fun g hg => ?_⟩
    · exact ⟨(Arena.at?_retag_of_ne hne).trans hc, eqOn_of_outside ht.held hmem hc hne⟩
    · rw [← Origin.bucket.inj hg]
      exact Arena.at?_retag_self ht.held
  | mapped =>
    rw [horigin] at h
    simp only [decide_true, not_true_eq_false, if_false, if_true, unmapBlock_granting] at h
    split at h
    · cases h
      refine ⟨_, hr.munmap ht.held, ⟨rfl, rfl, rfl, rfl⟩, fun c p _ hne hc => ?_, by simp⟩
      exact ⟨Arena.at?_erase_eq_some.mpr ⟨hne, hc⟩, Set.eqOn_refl _ _⟩
    · cases h

/-! ### Obtaining a block -/

/-- Every heap that a thread has is on the list of heaps. -/
def HeapsListed (s : State) : Prop :=
  ∀ t, s.heapManager t ≠ 1 → s.heapManager t ∈ s.heapMaster.heapManagersList

/-- No heap leaves the list, and only a thread that has no heap gets one. -/
theorem bootHeapManager_keeps (hbooted : s.heapMasterBootFlag ≠ 0) (h : bootHeapManager k t s = .ok s') :
    (∀ h ∈ s.heapMaster.heapManagersList, h ∈ s'.heapMaster.heapManagersList) ∧
      ∀ u, s'.heapManager u = s.heapManager u ∨ u = t ∧ s.heapManager t = 1 := by
  obtain ⟨_, rfl⟩ | ⟨hnew, heap, s₁, hget, rfl⟩ := bootHeapManager_cases hbooted h
  · exact ⟨fun _ hh => hh, fun _ => .inl rfl⟩
  have hrest : (∀ h ∈ s.heapMaster.heapManagersList, h ∈ s₁.heapMaster.heapManagersList) ∧
      s₁.heapManager = s.heapManager := by
    rcases getHeap_cases hget with ⟨_, _, rfl⟩ | ⟨_, _, _, _, rfl⟩ | ⟨_, _, _, _, _, rfl⟩
    · exact ⟨fun _ hh => hh, rfl⟩
    · exact ⟨fun _ hh => List.mem_cons_of_mem _ hh, rfl⟩
    · exact ⟨fun _ hh => List.mem_cons_of_mem _ hh, rfl⟩
  rw [assignHeap_heapMaster, assignHeap_heapManager, hrest.2]
  refine ⟨hrest.1, fun u => ?_⟩
  by_cases hu : u = t
  · exact .inr ⟨hu, hnew⟩
  · exact .inl (Function.update_of_ne hu ..)

/-- A thread that has a heap goes on using it, whoever else does. -/
theorem Refines.boot_listed (hr : Refines cfg main s status A idle)
    (hmay : s.heapManager t = 1 → MayCall main s status t) (hlisted : HeapsListed s)
    (hboot : bootHeapManager k t s = .ok s') :
    ∃ A' idle', Refines cfg main s' status A' idle' ∧ SameBlocks A A' ∧
      (∀ c p, A.at? c = some p → Set.EqOn s'.mem s.mem (Set.Ico c (c + p.len))) ∧
      HeapsListed s' ∧ s'.heapManager t ∈ s'.heapMaster.heapManagersList := by
  obtain ⟨hlist, hmanager⟩ := bootHeapManager_keeps hr.booted hboot
  have hgoal : ∃ A' idle', Refines cfg main s' status A' idle' ∧ SameBlocks A A' ∧
      (∀ c p, A.at? c = some p → Set.EqOn s'.mem s.mem (Set.Ico c (c + p.len))) ∧
      s'.heapManager t ∈ s'.heapMaster.heapManagersList := by
    by_cases hnew : s.heapManager t = 1
    · obtain ⟨A', idle', hr', hsame, hbytes, _, hheap⟩ :=
        Refines.of_boot_same hr.booted hr.heaps hr.blocks (hmay hnew) hboot
      exact ⟨A', idle', hr', hsame, hbytes, hheap⟩
    · obtain rfl : s = s' := Except.ok.inj ((if_neg hnew).symm.trans hboot)
      exact ⟨A, idle, hr, fun _ _ _ _ => Iff.rfl, fun _ _ _ => Set.eqOn_refl _ _, hlisted t hnew⟩
  obtain ⟨A', idle', hr', hsame, hbytes, hheap⟩ := hgoal
  refine ⟨A', idle', hr', hsame, hbytes, fun u hu => ?_, hheap⟩
  rcases hmanager u with hu' | ⟨rfl, _⟩
  · rw [hu'] at hu ⊢
    exact hlist _ (hlisted u hu)
  · exact hheap

theorem Refines.tenant_of_bucket (hr : Refines cfg main s status A idle) (hf : IsBucket s.heapMaster h f n)
    (hb : A.at? b = some ⟨n, .held⟩) (hsize : size < 2 ^ 64) :
    Refines cfg main (Llheap.setHeader b f size s) status A idle ∧
      Tenant (Llheap.setHeader b f size s) A b n (b + sizeofStorage) ⟨.bucket f, false, size, none⟩ ∧
      OthersUndisturbed b s (Llheap.setHeader b f size s) A A := by
  have hlen := hf.le_len
  have hbounds := hr.bucket_bounds hf
  have hv : View.Taggable ⟨.bucket f, false, size, none⟩ n := ⟨hbounds.1, hbounds.2, hsize, nofun, nofun⟩
  obtain ⟨hr', hothers⟩ := hr.writeHeld hb (Llheap.setHeader b f size s).mem fun x hx =>
    setHeader_mem_of_outside (by omega)
  exact ⟨hr', ⟨hb, setHeader_encodes_bucket hv, hv, by rw [sizeofStorage]; omega,
    fun g hg => ⟨h, Origin.bucket.inj hg ▸ hf⟩⟩, hothers⟩

/-- `[b, b + n)` is a new mapping, and nothing else of the bookkeeping has changed. -/
structure MapsBlock (cfg : Config) (s s' : State) (b n : ℕ) : Prop where
  fresh : FreshRegion cfg s.mappings b n
  mappings : s'.mappings = ⟨b, n, .readWrite⟩ :: s.mappings
  heapMaster : s'.heapMaster = s.heapMaster

/-- A large request gets a mapping of its own, even if its length has wrapped around. -/
theorem Refines.tenant_of_mapping (hr : Refines cfg main s status A idle) (hsize : size < 2 ^ 64)
    (h : Llheap.mapLarge k t size s = .ok (some u, s')) :
    ∃ A' b n, Refines cfg main s' status A' idle ∧ Tenant s' A' b n u ⟨.mapped, false, size, none⟩ ∧
      A.at? b = none ∧ OthersUndisturbed b s s' A A' ∧ MapsBlock cfg s s' b n := by
  rcases mapLarge_cases h with ⟨hnone, _⟩ | ⟨a, hu, hfresh, rfl⟩
  · cases hnone
  obtain rfl := Option.some.inj hu
  have hpage := hr.blocks.page
  have hdvd : 16 ∣ ceiling ((size + sizeofStorage) % 2 ^ 64) s.heapMaster.pageSize := by
    rw [hpage]
    exact cfg.align_dvd_pageSize.trans
      (ceiling_dvd (Nat.mod_lt _ (by decide)) cfg.pageSize_pow2 cfg.pageSize_lt)
  generalize ceiling ((size + sizeofStorage) % 2 ^ 64) s.heapMaster.pageSize = len at *
  have hpos := hfresh.len_pos
  have huser := hfresh.user
  have hgrown := Grown.grant hfresh .readWrite
  have hfree := hr.heaps.laid.free_of_fresh hfresh
  have hr₁ := (hr.of_grown hgrown).insertHeld hfree covered_head hfresh.align_dvd hfresh.pos hpos
  have hpiece : (A.insert a len .held hpos hfree).at? a = some ⟨len, .held⟩ :=
    Arena.at?_insert_eq_some.mpr (.inl ⟨rfl, rfl⟩)
  have hlen8 : 8 ∣ len := (by decide : 8 ∣ 16).trans hdvd
  have hv : View.Taggable ⟨.mapped, false, size, none⟩ len :=
    ⟨hlen8, by change len < _; omega, hsize, nofun, nofun⟩
  obtain ⟨hr', hothers⟩ := hr₁.writeHeld hpiece
    (Llheap.setHeader a (markMmappedBit len) size (s.grant a len .readWrite)).mem
    fun x hx => setHeader_mem_of_outside (by omega)
  refine ⟨_, a, len, hr', ⟨hpiece, setHeader_encodes_mapped hlen8 hv, hv, by rw [sizeofStorage]; omega, nofun⟩,
    hfree.at?_eq_none hpos, fun c p hp hne hc => ?_, ⟨hfresh, rfl, rfl⟩⟩
  obtain ⟨hc', hbytes⟩ := hothers c p hp hne (Arena.at?_insert_eq_some.mpr (.inr hc))
  exact ⟨hc', hbytes.trans (hgrown.eqOn (hr.heaps.laid.covered c p hc))⟩

/-- The bucket that `doMalloc` carves a block for, if it finds the storage: both of its lists are empty. -/
def carves (k : Kernel cfg) (t : Tid) (size : ℕ) (s : State) : Option ℕ :=
  match bootHeapManager k t s with
  | .error _ => none
  | .ok s =>
    if size < s.heapMaster.mmapStart ∧ (s.freeHeader (requestBucket t size s)).Empty then
      some (requestBucket t size s)
    else none

/-- Where the block of a new tenant comes from, given the bucket that it is carved for and its origin. -/
inductive Obtains (A : Arena Tag) (b n : ℕ) : Option ℕ → Origin → Prop
  | reused {f : ℕ} : A.at? b = some ⟨n, .free f⟩ → Obtains A b n none (.bucket f)
  | carved {f : ℕ} : (∀ c m, A.at? c ≠ some ⟨m, .free f⟩) → (∀ p, A.at? b = some p → ¬ p.tag.IsBlock) →
      Obtains A b n (some f) (.bucket f)
  | mapped : (∀ p, A.at? b = some p → ¬ p.tag.IsBlock) → Obtains A b n none .mapped

theorem Obtains.not_held {o : Option ℕ} {origin : Origin} {m : ℕ} (h : Obtains A b n o origin) :
    A.at? b ≠ some ⟨m, .held⟩ := by
  intro hheld
  cases h with
  | reused hfree =>
    rw [hheld] at hfree
    cases hfree
  | carved _ hno => exact hno _ hheld .held
  | mapped hno => exact hno _ hheld .held

theorem Obtains.of_free {o : Option ℕ} {origin : Origin} {m : ℕ} (h : Obtains A b n o origin)
    (hfree : A.at? b = some ⟨m, .free f⟩) : origin = .bucket f := by
  cases h with
  | reused hfree' =>
    rw [hfree] at hfree'
    obtain rfl := Tag.free.inj (Piece.mk.inj (Option.some.inj hfree')).2
    rfl
  | carved _ hno => exact absurd .free (hno _ hfree)
  | mapped hno => exact absurd .free (hno _ hfree)

theorem Obtains.of_carved {origin : Origin} (h : Obtains A b n (some f) origin) :
    origin = .bucket f ∧ ∀ c m, A.at? c ≠ some ⟨m, .free f⟩ := by
  cases h with
  | carved hnone _ => exact ⟨rfl, hnone⟩

theorem OthersUndisturbed.trans {s'' : State} {A'' : Arena Tag} (hs : OthersUndisturbed b s s' A A')
    (hs' : OthersUndisturbed b s' s'' A' A'') : OthersUndisturbed b s s'' A A'' := by
  intro c p hp hne hc
  obtain ⟨hc', hbytes⟩ := hs c p hp hne hc
  obtain ⟨hc'', hbytes'⟩ := hs' c p hp hne hc'
  exact ⟨hc'', hbytes'.trans hbytes⟩

theorem SameBlocks.block {p : Piece Tag} {c : ℕ} (hA : SameBlocks A A') (hp : p.tag.IsBlock) :
    A'.at? c = some p ↔ A.at? c = some p :=
  hA c p (fun heap => hp.ne_heap (.inl rfl) heap.symm) (fun spare => hp.ne_heap (.inr rfl) spare.symm)

/-- What a request leaves behind, besides the block. -/
structure Served (cfg : Config) (main : Tid) (s s' : State) (status : Tid → Status) (t : Tid) (A' : Arena Tag)
    (idle' : List ℕ) : Prop where
  refines : Refines cfg main s' status A' idle'
  listed : HeapsListed s'
  list : ∀ h ∈ s.heapMaster.heapManagersList, h ∈ s'.heapMaster.heapManagersList
  manager : ∀ u, s'.heapManager u = s.heapManager u ∨ u = t ∧ s.heapManager t = 1

theorem Refines.doMalloc_tenant (hr : Refines cfg main s status A idle)
    (hmay : s.heapManager t = 1 → MayCall main s status t) (hlisted : HeapsListed s) (hsize : size < 2 ^ 64)
    (h : Llheap.doMalloc k t size s = .ok (r, s')) :
    ∃ A' idle', Served cfg main s s' status t A' idle' ∧ (r = none → ∀ b, OthersUndisturbed b s s' A A') ∧
      ∀ u ∈ r, ∃ b n origin, Tenant s' A' b n u ⟨origin, false, size, none⟩ ∧ OthersUndisturbed b s s' A A' ∧
        Obtains A b n (carves k t size s) origin ∧
        (origin = .mapped → ∃ s₁, bootHeapManager k t s = .ok s₁ ∧ MapsBlock cfg s₁ s' b n) := by
  obtain ⟨s₁, hboot, hcases⟩ := doMalloc_cases h
  obtain ⟨hlist₁, hmanager₁⟩ := bootHeapManager_keeps hr.booted hboot
  obtain ⟨A₁, idle', hr₁, hsame, hbytes, hlisted₁, hh⟩ := hr.boot_listed hmay hlisted hboot
  have hothers₁ : ∀ b, OthersUndisturbed b s s₁ A A₁ :=
    fun b c p hp _ hc => ⟨(hsame.block hp).mpr hc, hbytes c p hc⟩
  have hserved : ∀ {A₂ : Arena Tag}, Refines cfg main s' status A₂ idle' →
      Served cfg main s s' status t A₂ idle' := by
    intro A₂ hr₂
    obtain ⟨s₁', hboot', hsame⟩ := doMalloc_sameHeaps h
    cases hboot.symm.trans hboot'
    refine ⟨hr₂, ?_, ?_, ?_⟩
    · rw [HeapsListed, hsame.heapManager, hsame.heapManagersList]
      exact hlisted₁
    · rw [hsame.heapManagersList]
      exact hlist₁
    · rw [hsame.heapManager]
      exact hmanager₁
  rcases hcases with ⟨_, rfl, hblock⟩ | ⟨hsmall, block, s₂, rfl, hblock, rfl⟩ | ⟨hlarge, hmap⟩
  · obtain ⟨hgrown, _⟩ := allocateBlock_none hblock
    refine ⟨A₁, idle', hserved (hr₁.of_grown hgrown), fun _ b => ?_, nofun⟩
    exact (hothers₁ b).trans (hr₁.grown_undisturbed hgrown).others
  · have hf := hr₁.requestBucket hh hsmall
    obtain ⟨A₂, hr₂, hheld, hsupplies, hothers₂, _, hmaster⟩ := hr₁.allocateBlock_supplied hf hblock
    have hf₂ : IsBucket s₂.heapMaster _ _ _ := ⟨by rw [hmaster.heapManagersList]; exact hf.1, hf.2⟩
    obtain ⟨hr₃, htenant, hothers₃⟩ := hr₂.tenant_of_bucket hf₂ hheld hsize
    refine ⟨A₂, idle', hserved hr₃, nofun, fun u hu => ?_⟩
    cases hu
    refine ⟨block, _, _, htenant, ((hothers₁ block).trans hothers₂).trans hothers₃, ?_, nofun⟩
    rw [carves, hboot]
    dsimp only
    unfold Supplies at hsupplies
    split at hsupplies
    · next hempty =>
      rw [if_pos ⟨hsmall, hempty⟩]
      exact .carved (fun c m hc => hsupplies.1 c m ((hsame.block .free).mpr hc))
        fun p hp hblock => hsupplies.2 p ((hsame.block hblock).mpr hp) hblock
    · next hsome =>
      rw [if_neg fun hboth => hsome hboth.2]
      exact .reused ((hsame.block .free).mp hsupplies)
  · cases r with
    | none =>
      rcases mapLarge_cases hmap with ⟨_, rfl⟩ | ⟨_, hsome, _⟩
      · have hgrown := Grown.refuse (s := s₁) (t := t) ENOMEM
        refine ⟨A₁, idle', hserved (hr₁.of_grown hgrown), fun _ b => ?_, nofun⟩
        exact (hothers₁ b).trans (hr₁.grown_undisturbed hgrown).others
      · cases hsome
    | some user =>
      obtain ⟨A₂, b, n, hr₂, htenant, hfresh, hothers₂, hmaps⟩ := hr₁.tenant_of_mapping hsize hmap
      refine ⟨A₂, idle', hserved hr₂, nofun, fun u hu => ?_⟩
      cases hu
      refine ⟨b, n, _, htenant, (hothers₁ b).trans hothers₂, ?_, fun _ => ⟨s₁, hboot, hmaps⟩⟩
      rw [carves, hboot]
      dsimp only
      rw [if_neg fun hboth => absurd hboth.1 (not_lt.mpr hlarge)]
      refine .mapped fun p hp hblock => ?_
      rw [← hsame.block hblock, hfresh] at hp
      cases hp

end Llheap
