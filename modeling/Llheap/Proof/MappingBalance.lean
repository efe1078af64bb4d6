import Llheap.Base.Simulation
import Llheap.Proof.Reuse

/-!
# Mappings are accounted for

What is mapped is the allocator's own storage, which stays mapped for good, and one mapping for each live large object, which goes back to the kernel when the object is freed.
-/

namespace Llheap.Reuse

open TransitionSystem

variable {cfg : Config} {main : Tid} {k : Kernel cfg} {t : Tid} {s s' s₁ : State} {w w' : World}
  {A A' : Arena Tag} {idle idle' : List ℕ} {counted counted' : Tid → Status} {L L' : ℕ → Option Live}
  {ms ms' ms'' : List Mapping} {m : Mapping} {a b len size u n f : ℕ} {l : Live} {v : View} {r : Option ℕ}

/-! ### Tidy mappings -/

/-- Mappings are not empty and do not overlap. -/
structure Tidy (ms : List Mapping) : Prop where
  pos : ∀ m ∈ ms, 0 < m.len
  apart : ms.Pairwise fun m m' => m.base + m.len ≤ m'.base ∨ m'.base + m'.len ≤ m.base

theorem Tidy.cons {prot : Prot} (h : Tidy ms) (hfresh : FreshRegion cfg ms a len) : Tidy (⟨a, len, prot⟩ :: ms) := by
  refine ⟨fun m hm => ?_, List.pairwise_cons.mpr ⟨fun m hm => hfresh.apart m hm, h.apart⟩⟩
  rcases List.mem_cons.mp hm with rfl | hm
  · exact hfresh.len_pos
  · exact h.pos m hm

theorem Tidy.erase (h : Tidy ms) (m : Mapping) : Tidy (ms.erase m) :=
  ⟨fun m' hm' => h.pos m' (List.mem_of_mem_erase hm'), h.apart.sublist List.erase_sublist⟩

theorem remove_self (m : Mapping) : m.remove m.base m.len = [] := by
  apply List.eq_nil_iff_forall_not_mem.mpr
  intro m' hm'
  obtain ⟨_, hlow, hpos, hhigh, hout⟩ := remove_inside hm'
  omega

theorem remove_apart (hpos : 0 < m.len) (hlen : 0 < len) (hapart : a + len ≤ m.base ∨ m.base + m.len ≤ a) :
    m.remove a len = [m] := by
  obtain ⟨base, l, prot⟩ := m
  dsimp only at hpos hapart
  rcases hapart with hbelow | habove
  · have hleft : min (base + l) a - base = 0 := by omega
    have hmax : max base (a + len) = base := by omega
    simp [Mapping.remove, hleft, hmax, hpos]
  · have hmin : min (base + l) a - base = l := by omega
    have hright : base + l - max base (a + len) = 0 := by omega
    simp [Mapping.remove, hmin, hright, hpos]

/-- Unmapping one of the mappings takes it out and leaves the others whole. -/
theorem Tidy.unmap (h : Tidy ms) (hm : m ∈ ms) : ms.flatMap (Mapping.remove m.base m.len) = ms.erase m := by
  induction ms with
  | nil => cases hm
  | cons m' ms ih =>
    obtain ⟨hhead, htail⟩ := List.pairwise_cons.mp h.apart
    have hpos := h.pos
    by_cases heq : m' = m
    · subst m'
      have hrest : ms.flatMap (Mapping.remove m.base m.len) = ms := by
        rw [List.flatMap_congr fun c hc => remove_apart (hpos c (List.mem_cons_of_mem _ hc)) (hpos m hm) (hhead c hc)]
        exact List.flatMap_singleton' ms
      rw [List.flatMap_cons, remove_self, List.nil_append, List.erase_cons_head, hrest]
    · have hin : m ∈ ms := List.mem_of_ne_of_mem (Ne.symm heq) hm
      have hself : m'.remove m.base m.len = [m'] :=
        remove_apart (hpos m' List.mem_cons_self) (hpos m hm) (hhead m hin).symm
      have hbeq : (m' == m) = false := beq_false_of_ne heq
      rw [List.flatMap_cons, hself, List.erase_cons_tail (by simp [hbeq])]
      rw [ih ⟨fun c hc => hpos c (List.mem_cons_of_mem _ hc), htail⟩ hin]
      rfl

theorem Tidy.munmap {rest : Multiset Mapping} {prot : Prot} (h : Tidy s.mappings)
    (hms : (s.mappings : Multiset Mapping) = ⟨a, len, prot⟩ ::ₘ rest) :
    Tidy (s.munmap a len).mappings ∧ ((s.munmap a len).mappings : Multiset Mapping) = rest := by
  have hmem : ⟨a, len, prot⟩ ∈ s.mappings := by
    rw [← Multiset.mem_coe, hms]
    exact Multiset.mem_cons_self _ _
  have hunmap : (s.munmap a len).mappings = s.mappings.erase ⟨a, len, prot⟩ := h.unmap hmem
  rw [hunmap, ← Multiset.coe_erase, hms, Multiset.erase_cons_head]
  exact ⟨h.erase _, rfl⟩

/-- `ms'` is `ms` with regions that the kernel has granted since. -/
inductive MapsMore (cfg : Config) (ms : List Mapping) : List Mapping → Prop
  | same : MapsMore cfg ms ms
  | grant {ms' : List Mapping} {a len : ℕ} {prot : Prot} : MapsMore cfg ms ms' → FreshRegion cfg ms' a len →
      MapsMore cfg ms (⟨a, len, prot⟩ :: ms')

theorem MapsMore.trans (h : MapsMore cfg ms ms') (h' : MapsMore cfg ms' ms'') : MapsMore cfg ms ms'' := by
  induction h' with
  | same => exact h
  | grant _ hfresh ih => exact .grant ih hfresh

theorem MapsMore.tidy (h : MapsMore cfg ms ms') (htidy : Tidy ms) : Tidy ms' := by
  induction h with
  | same => exact htidy
  | grant _ hfresh ih => exact ih.cons hfresh

theorem MapsMore.le (h : MapsMore cfg ms ms') : (ms : Multiset Mapping) ≤ ms' := by
  induction h with
  | same => exact le_refl _
  | grant _ _ ih => exact ih.trans (Multiset.le_cons_self _ _)

/-! ### What calls map -/

theorem extendBlock_maps {rem : ℕ} (h : extendBlock k t size rem s = .ok (r, s')) :
    MapsMore cfg s.mappings s'.mappings := by
  obtain ⟨_, rfl⟩ | ⟨a, _, hfresh, rfl⟩ := extendBlock_cases h
  · exact .same
  · exact .grant .same hfresh

theorem masterExtend_maps (h : masterExtend k t size s = .ok (r, s')) : MapsMore cfg s.mappings s'.mappings := by
  rcases masterExtend_cases h with ⟨_, ⟨_, rfl⟩ | ⟨a, hfresh, hblock⟩⟩ | ⟨_, hblock⟩
  · exact .same
  · have hslab : MapsMore cfg s.mappings (⟨a, s.heapMaster.sbrkExtend, .none⟩ :: s.mappings) := .grant .same hfresh
    exact hslab.trans (extendBlock_maps hblock)
  · exact extendBlock_maps (s := locked s) hblock

theorem allocateBlock_maps (h : allocateBlock k t f s = .ok (r, s')) : MapsMore cfg s.mappings s'.mappings := by
  rcases allocateBlock_cases h with ⟨_, _, rfl⟩ | ⟨_, _, _, rfl⟩ | ⟨_, _, _, _, rfl⟩ | ⟨_, _, _, hext⟩
  · exact .same
  · exact .same
  · exact .same
  · rcases managerExtend_cases hext with ⟨_, hmaster⟩ | ⟨newblock, s₁, _, hmaster, rfl⟩
    · exact masterExtend_maps hmaster
    · rw [(Slab.replaceBuffer_mappings ..).1]
      exact masterExtend_maps hmaster

theorem bootHeapManager_maps (hbooted : s.heapMasterBootFlag ≠ 0) (h : bootHeapManager k t s = .ok s') :
    MapsMore cfg s.mappings s'.mappings := by
  obtain ⟨_, rfl⟩ | ⟨_, heap, s₁, hget, rfl⟩ := bootHeapManager_cases hbooted h
  · exact .same
  · rw [assignHeap_mappings]
    rcases getHeap_cases hget with ⟨_, _, rfl⟩ | ⟨_, _, _, _, rfl⟩ | ⟨_, _, a, hfresh, _, rfl⟩
    · exact .same
    · exact .same
    · exact .grant .same hfresh

/-! ### Large objects -/

/-- The mapping of an allocation, if it has one of its own. -/
def object (s : State) (addr : ℕ) : Multiset Mapping :=
  if (headers s addr).mapped then {⟨(headers s addr).header, (headers s addr).size, .readWrite⟩} else 0

def objects (w : World) : Multiset Mapping := ∑ u ∈ w.live, object w.st u

theorem tenant_object (ht : Tenant s A b n u v) :
    object s u = if v.origin = .mapped then {⟨b, n, .readWrite⟩} else 0 := by
  rw [object, ht.encodes.headers ht.taggable]
  by_cases hmapped : v.origin = .mapped
  · simp [hmapped]
  · simp [hmapped]

/-- What a call maps for the allocator itself: all of it for a bucket, and a heap only for a large object. -/
def storageMapped (w : World) : Label cfg → World → List Mapping
  | .doMalloc k t size, w' =>
    match bootHeapManager k t w.st with
    | .error _ => []
    | .ok s =>
      if size < s.heapMaster.mmapStart then w'.st.mappings.diff w.st.mappings
      else s.mappings.diff w.st.mappings
  | _, _ => []

theorem Behind.small_object {block : ℕ} (h : Behind cfg main w A idle counted L)
    (hheap : w.st.heapManager t ∈ w.st.heapMaster.heapManagersList) (hsmall : size < w.st.heapMaster.mmapStart)
    (hsize : size < 2 ^ 64) :
    object (setHeader block (requestBucket t size w.st) size s₁) (block + sizeofStorage) = 0 := by
  obtain ⟨hdvd, hlt⟩ := h.refines.bucket_bounds (h.refines.requestBucket hheap hsmall)
  have hv : View.Taggable ⟨.bucket (requestBucket t size w.st), false, size, none⟩ 0 := ⟨hdvd, hlt, hsize, by simp, by simp⟩
  rw [object, (setHeader_encodes_bucket hv).headers hv]
  simp

/-- A large object gets a mapping of its own. -/
theorem mapLarge_object (hpage : s.heapMaster.pageSize = cfg.pageSize) (hsize : size < 2 ^ 64)
    (h : mapLarge k t size s = .ok (some u, s')) :
    (s'.mappings : Multiset Mapping) = s.mappings + object s' u ∧ MapsMore cfg s.mappings s'.mappings := by
  rcases mapLarge_cases h with ⟨hnone, _⟩ | ⟨a, hu, hfresh, rfl⟩
  · cases hnone
  obtain rfl := Option.some.inj hu
  have hdvd : 8 ∣ ceiling ((size + sizeofStorage) % 2 ^ 64) s.heapMaster.pageSize := by
    rw [hpage]
    exact cfg.word_dvd_pageSize.trans (ceiling_dvd (Nat.mod_lt _ (by decide)) cfg.pageSize_pow2 cfg.pageSize_lt)
  generalize ceiling ((size + sizeofStorage) % 2 ^ 64) s.heapMaster.pageSize = len at *
  have hlt : len < 2 ^ 64 := by
    have := hfresh.user
    omega
  have hv : View.Taggable ⟨.mapped, false, size, none⟩ len := ⟨hdvd, hlt, hsize, by simp, by simp⟩
  have hobject : object (setHeader a (markMmappedBit len) size (s.grant a len .readWrite)) (a + sizeofStorage) =
      {⟨a, len, .readWrite⟩} := by
    rw [object, (setHeader_encodes_mapped hdvd hv).headers hv]
    simp
  rw [hobject]
  refine ⟨?_, .grant .same hfresh⟩
  show ((⟨a, len, .readWrite⟩ :: s.mappings : List Mapping) : Multiset Mapping) = _
  rw [← Multiset.cons_coe, ← Multiset.singleton_add, add_comm]

theorem added_diff (h : MapsMore cfg ms ms') : (ms' : Multiset Mapping) = ms + (ms'.diff ms : List Mapping) := by
  rw [← Multiset.coe_sub, add_tsub_cancel_of_le h.le]

theorem doMalloc_balance (h : Behind cfg main w A idle counted L) (hrun : w.status t ≠ .terminated)
    (hstarted : w.st.heapMasterBootFlag = 2 ∨ t = main) (hsize : size < 2 ^ 64)
    (hok : doMalloc k t size w.st = .ok (r, w'.st)) : MapsMore cfg w.st.mappings w'.st.mappings ∧
      (w'.st.mappings : Multiset Mapping) = w.st.mappings + storageMapped w (.doMalloc k t size) w' +
        ∑ u ∈ r.toFinset, object w'.st u := by
  obtain ⟨s₁, hboot, hcases⟩ := doMalloc_cases hok
  obtain ⟨A₁, idle₁, counted₁, h₁, _, hheap⟩ := boot_behind h hrun hstarted hboot
  have hmaps := bootHeapManager_maps h.refines.booted hboot
  rw [storageMapped, hboot]
  dsimp only
  rcases hcases with ⟨hsmall, rfl, hblock⟩ | ⟨hsmall, block, s₂, rfl, hblock, hst⟩ | ⟨hlarge, hmap⟩
  · have hmaps' := hmaps.trans (allocateBlock_maps hblock)
    rw [if_pos hsmall, ← added_diff hmaps']
    exact ⟨hmaps', by simp⟩
  · have hmaps₂ := hmaps.trans (allocateBlock_maps hblock)
    have hmaps' : MapsMore cfg w.st.mappings w'.st.mappings := by
      rw [hst]
      exact hmaps₂
    have hobject : object w'.st (block + sizeofStorage) = 0 := by
      rw [hst]
      exact h₁.small_object hheap hsmall hsize
    rw [if_pos hsmall, ← added_diff hmaps', Option.toFinset_some, Finset.sum_singleton, hobject, add_zero]
    exact ⟨hmaps', rfl⟩
  · rw [if_neg (not_lt.mpr hlarge), ← added_diff hmaps]
    cases r with
    | none =>
      rcases mapLarge_cases hmap with ⟨_, hst⟩ | ⟨_, hsome, _⟩
      · rw [hst]
        exact ⟨hmaps, by simp [State.refuse]⟩
      · cases hsome
    | some u =>
      obtain ⟨hbalance, hgrant⟩ := mapLarge_object h₁.refines.blocks.page hsize hmap
      rw [Option.toFinset_some, Finset.sum_singleton]
      exact ⟨hmaps.trans hgrant, hbalance⟩

/-! ### Runs -/

theorem objects_kept {live₀ : Finset ℕ} (h : Behind cfg main w A idle counted L)
    (h' : Behind cfg main w' A' idle' counted' L') (hsub : live₀ ⊆ w.live)
    (hkept : ∀ b l, L b = some l → l.user ∈ live₀ →
      ∃ l', L' b = some l' ∧ l'.user = l.user ∧ l'.len = l.len ∧ l'.view.origin = l.view.origin) :
    ∑ u ∈ live₀, object w'.st u = ∑ u ∈ live₀, object w.st u := by
  apply Finset.sum_congr rfl
  intro u hu
  obtain ⟨b, l, hb, rfl⟩ : u ∈ users L := h.live ▸ hsub hu
  obtain ⟨l', hb', huser, hlen, horigin⟩ := hkept b l hb hu
  have ht' := h'.tenants b l' hb'
  rw [huser, hlen] at ht'
  rw [tenant_object (h.tenants b l hb), tenant_object ht', horigin]

theorem objects_elsewhere {x : Option Live} (h : Behind cfg main w A idle counted L)
    (h' : Behind cfg main w' A' idle' counted' (Function.update L b x)) (hb : L b = some l) :
    ∑ u ∈ w.live.erase l.user, object w'.st u = ∑ u ∈ w.live.erase l.user, object w.st u := by
  apply objects_kept h h' (Finset.erase_subset ..)
  intro c l' hc hl'
  have hcb : c ≠ b := by
    intro hcb
    rw [hcb, hb] at hc
    obtain rfl := Option.some.inj hc
    exact Finset.notMem_erase _ _ hl'
  exact ⟨l', (Function.update_of_ne hcb ..).trans hc, rfl, rfl, rfl⟩

theorem Behind.user_fresh {x : Live} (h : Behind cfg main w A idle counted L)
    (h' : Behind cfg main w' A' idle' counted' (Function.update L b (some x))) (hu : u ∈ w.live)
    (hother : ∀ l, L b = some l → l.user ≠ u) : u ≠ x.user := by
  intro heq
  obtain ⟨c, l, hc, rfl⟩ : u ∈ users L := h.live ▸ hu
  have hcb : c ≠ b := by
    intro hcb
    exact hother l (hcb ▸ hc) rfl
  have hc' : Function.update L b (some x) c = some l := (Function.update_of_ne hcb ..).trans hc
  exact hcb (h'.injective c b l x hc' (Function.update_self ..) heq)

/-- What is mapped is the storage mapped so far, and the large objects. -/
structure Accounted (cfg : Config) (main : Tid) (storage : List Mapping) (w : World) : Prop where
  inv : Inv cfg main w
  tidy : Tidy w.st.mappings
  balance : (w.st.mappings : Multiset Mapping) = storage + objects w

variable {storage : List Mapping} {lab : Label cfg}

theorem Accounted.same (hacc : Accounted cfg main storage w) (h : Behind cfg main w A idle counted L)
    (h' : Behind cfg main w' A' idle' counted' L) (hlive : w'.live = w.live) (hmappings : w'.st.mappings = w.st.mappings) :
    Accounted cfg main storage w' := by
  have hobjects : objects w' = objects w := by
    rw [objects, hlive]
    exact objects_kept h h' (Finset.Subset.refl _) fun b l hb _ => ⟨l, hb, rfl, rfl, rfl⟩
  refine ⟨⟨A', idle', counted', L, h'⟩, hmappings ▸ hacc.tidy, ?_⟩
  rw [hmappings, hobjects]
  exact hacc.balance

theorem doMalloc_accounted (hacc : Accounted cfg main storage w) (hrun : w.status t ≠ .terminated)
    (hstarted : w.st.heapMasterBootFlag = 2 ∨ t = main) (hsize : size < 2 ^ 64)
    (hok : doMalloc k t size w.st = .ok (r, w'.st)) (hlive : w'.live = w.live ∪ r.toFinset)
    (hw' : w' = w.next w'.st w.status (w.live ∪ r.toFinset)
      (if r = none then w.carved else tally w.carved (carves k t size w.st))) :
    Accounted cfg main (storage ++ storageMapped w (.doMalloc k t size) w') w' := by
  obtain ⟨A, idle, counted, L, h⟩ := hacc.inv
  obtain ⟨hmaps, hbalance⟩ := doMalloc_balance h hrun hstarted hsize hok
  obtain ⟨A', idle', counted', L', h', hnone, hsome⟩ := doMalloc_behind h hrun hstarted hsize hok
  rw [← hw'] at h'
  refine ⟨⟨A', idle', counted', L', h'⟩, hmaps.tidy hacc.tidy, ?_⟩
  have hobjects : objects w' = objects w + ∑ u ∈ r.toFinset, object w'.st u := by
    rw [objects, hlive]
    cases r with
    | none =>
      obtain ⟨rfl, _⟩ := hnone rfl
      rw [Option.toFinset_none, Finset.union_empty, Finset.sum_empty, add_zero]
      exact objects_kept h h' (Finset.Subset.refl _) fun b l hb _ => ⟨l, hb, rfl, rfl, rfl⟩
    | some u =>
      obtain ⟨b, n, origin, rfl, _, hobtains⟩ := hsome u rfl
      have hfresh : L b = none := h.fresh hobtains
      have hnew : u ∉ w.live := by
        intro hu
        apply h.user_fresh h' hu ?_ rfl
        intro l hl
        rw [hfresh] at hl
        cases hl
      have hkept : ∑ v ∈ w.live, object w'.st v = objects w := by
        apply objects_kept h h' (Finset.Subset.refl _)
        intro c l hc _
        have hcb : c ≠ b := by
          intro hcb
          rw [hcb, hfresh] at hc
          cases hc
        exact ⟨l, (Function.update_of_ne hcb ..).trans hc, rfl, rfl, rfl⟩
      rw [Option.toFinset_some, Finset.sum_singleton, Finset.union_singleton, Finset.sum_insert hnew, hkept, add_comm]
  rw [hbalance, hacc.balance, hobjects, ← Multiset.coe_add]
  abel

/-- A large object goes back to the kernel, as it came. -/
theorem doFree_accounted {addr : ℕ} (hacc : Accounted cfg main storage w) (hlive : addr ∈ w.live)
    (hok : doFree t addr w.st = .ok s') :
    Accounted cfg main storage (w.next s' w.status (w.live.erase addr) w.carved) := by
  obtain ⟨A, idle, counted, L, h⟩ := hacc.inv
  obtain ⟨b, l, hb, rfl⟩ : addr ∈ users L := h.live ▸ hlive
  obtain ⟨A', h', _⟩ := doFree_behind h hb hok
  have hkept := objects_elsewhere h h' hb
  have hbalance := hacc.balance
  rw [objects, ← Finset.add_sum_erase _ _ hlive] at hbalance
  have hinv : Inv cfg main (w.next s' w.status (w.live.erase l.user) w.carved) := ⟨A', idle, counted, _, h'⟩
  rcases doFree_cases hok with ⟨hbucket, rfl⟩ | ⟨hmapped, _, _, rfl⟩
  · refine ⟨hinv, hacc.tidy, ?_⟩
    have hnone : object w.st l.user = 0 := by
      rw [object, hbucket]
      simp
    rw [hnone, zero_add] at hbalance
    rw [objects]
    exact hbalance.trans (congrArg _ hkept.symm)
  · have hobject : object w.st l.user =
        {⟨(headers w.st l.user).header, (headers w.st l.user).size, .readWrite⟩} := by
      rw [object, if_pos hmapped]
    rw [hobject, add_left_comm, Multiset.singleton_add] at hbalance
    obtain ⟨htidy, hrest⟩ := hacc.tidy.munmap hbalance
    refine ⟨hinv, htidy, hrest.trans ?_⟩
    rw [objects]
    exact congrArg _ hkept.symm

theorem rewrite_accounted {x : Live} (hacc : Accounted cfg main storage w) (h : Behind cfg main w A idle counted L)
    (hb : L b = some l) (h' : Behind cfg main w' A' idle' counted' (Function.update L b (some x)))
    (hlive : w'.live = insert x.user (w.live.erase l.user)) (hlen : x.len = l.len)
    (horigin : x.view.origin = l.view.origin) (hmappings : w'.st.mappings = w.st.mappings) :
    Accounted cfg main storage w' := by
  have hself : Function.update L b (some x) b = some x := Function.update_self ..
  have huser : l.user ∈ w.live := by
    have hmem : l.user ∈ users L := ⟨b, l, hb, rfl⟩
    rwa [← h.live, Finset.mem_coe] at hmem
  have hnew : x.user ∉ w.live.erase l.user := by
    intro hx
    obtain ⟨hne, hx⟩ := Finset.mem_erase.mp hx
    apply h.user_fresh h' hx ?_ rfl
    intro l' hl'
    obtain rfl := Option.some.inj (hb.symm.trans hl')
    exact hne.symm
  have hobject : object w'.st x.user = object w.st l.user := by
    rw [tenant_object (h'.tenants b x hself), tenant_object (h.tenants b l hb), hlen, horigin]
  have hobjects : objects w' = objects w := by
    rw [objects, hlive, Finset.sum_insert hnew, objects_elsewhere h h' hb, hobject, Finset.add_sum_erase _ _ huser, objects]
  refine ⟨⟨A', idle', counted', _, h'⟩, hmappings ▸ hacc.tidy, ?_⟩
  rw [hmappings, hobjects]
  exact hacc.balance

theorem step_accounted (hacc : Accounted cfg main storage w) (hs : Step main w lab w') :
    Accounted cfg main (storage ++ storageMapped w lab w') w' := by
  obtain ⟨A, idle, counted, L, h⟩ := hacc.inv
  have hsilent : storageMapped w lab w' = [] → Accounted cfg main storage w' →
      Accounted cfg main (storage ++ storageMapped w lab w') w' := by
    intro hnil hacc'
    rw [hnil, List.append_nil]
    exact hacc'
  cases lab with
  | doMalloc k t size =>
    obtain ⟨hrun, hstarted, hsize, r, st, hok, rfl⟩ := hs
    exact doMalloc_accounted hacc hrun hstarted hsize hok rfl rfl
  | doFree t addr =>
    obtain ⟨hlive, st, hok, rfl⟩ := hs
    apply hsilent rfl
    exact doFree_accounted hacc hlive hok
  | align addr alignment size =>
    obtain ⟨hlive, hbit, hpow, hle, hlt, hsize, huser, hin, rfl⟩ := hs
    obtain ⟨b, l, hb, rfl⟩ : addr ∈ users L := h.live ▸ hlive
    apply hsilent rfl
    exact rewrite_accounted hacc h hb (align_behind h hb hbit hpow hle hlt hsize huser hin) rfl rfl rfl rfl
  | edit addr e =>
    obtain ⟨hlive, hvalid, rfl⟩ := hs
    obtain ⟨b, l, hb, rfl⟩ : addr ∈ users L := h.live ▸ hlive
    apply hsilent rfl
    exact rewrite_accounted hacc h hb (edit_behind h hb hvalid) (Finset.insert_erase hlive).symm rfl
      Edit.view_origin Edit.mappings_eq
  | setErrno t e =>
    obtain rfl := hs
    apply hsilent rfl
    exact hacc.same h (setErrno_behind h) rfl rfl
  | mallopt option value =>
    obtain ⟨code, st, hopt, rfl⟩ := hs
    apply hsilent rfl
    exact hacc.same h (mallopt_behind h hopt).1 rfl (mallopt_slab hopt).1.2
  | startup k =>
    obtain ⟨st, hstart, rfl⟩ := hs
    apply hsilent rfl
    obtain ⟨s₁, ⟨hzero, _⟩ | ⟨_, rfl⟩, _, rfl⟩ := startup_cases hstart
    · exact absurd hzero h.refines.booted
    · exact hacc.same h (startup_behind h hstart).1 rfl rfl
  | dtor t =>
    obtain ⟨hflag, halive, hset, rfl⟩ := hs
    obtain ⟨idle', counted', h'⟩ := dtor_behind h hflag halive hset
    apply hsilent rfl
    exact hacc.same h h' rfl rfl
  | terminate t =>
    obtain ⟨hflag, hdone, rfl⟩ := hs
    obtain ⟨counted', h'⟩ := terminate_behind h hflag hdone
    apply hsilent rfl
    exact hacc.same h h' rfl rfl

theorem init_accounted (h0 : (system cfg main).init w) : Accounted cfg main w.st.mappings w := by
  obtain ⟨⟨k, hctor⟩, _, hlive, _⟩ := id h0
  have hnew : State.unbooted.heapManager main = 1 := rfl
  have hboot : bootHeapManager k main State.unbooted = .ok w.st := by
    rw [bootHeapManager, if_pos hnew]
    exact hctor
  obtain ⟨s₀, hmaster, hboot⟩ := boot_unbooted rfl hnew hboot
  obtain ⟨_, _, rfl⟩ := heapMasterCtor_ok hmaster
  refine ⟨init_inv h0, (bootHeapManager_maps Nat.one_ne_zero hboot).tidy ⟨?_, ?_⟩, ?_⟩
  · simp [State.unbooted]
  · simp [State.unbooted]
  · simp [objects, hlive]

/-- Storage that the allocator has mapped for itself is never unmapped, and besides there is one mapping for each live large object. -/
theorem mappings_accounted {ms : List Mapping} (h0 : (system cfg main).init w)
    (hrun : (system cfg main).Run storageMapped w ms w') :
    (w'.st.mappings : Multiset Mapping) = w.st.mappings + ms + objects w' ∧ Tidy w'.st.mappings := by
  have hacc := hrun.history (fun _ _ _ _ => step_accounted) (init_accounted h0)
  rw [Multiset.coe_add]
  exact ⟨hacc.balance, hacc.tidy⟩

private def large : World := World.eight.malloc (.above defaultConfig) 0 (2 ^ 26)

theorem mappings_accounted_large : ∃ w ms w', (system defaultConfig 0).init w ∧
    (system defaultConfig 0).Run storageMapped w ms w' ∧ (objects w').card = 1 ∧
    (w'.st.mappings : Multiset Mapping) = w.st.mappings + ms + objects w' ∧ Tidy w'.st.mappings := by
  have hok : (doMalloc (.above defaultConfig) 0 8 World.first.st).isOk = true := by decide +kernel
  have height : (system defaultConfig 0).step World.first (.doMalloc (.above defaultConfig) 0 8) World.eight :=
    World.malloc_step nofun (.inr rfl) (by decide) hok
  have hok' : (doMalloc (.above defaultConfig) 0 (2 ^ 26) World.eight.st).isOk = true := by decide +kernel
  have hlarge : (system defaultConfig 0).step World.eight (.doMalloc (.above defaultConfig) 0 (2 ^ 26)) large :=
    World.malloc_step nofun (.inr rfl) (by decide) hok'
  have hrun := (Run.single storageMapped height).append (Run.single storageMapped hlarge)
  have hinit : (system defaultConfig 0).init World.first := ⟨⟨_, heapManagerCtor_default⟩, rfl, rfl, rfl, rfl⟩
  have hcard : (objects large).card = 1 := by decide +kernel
  exact ⟨World.first, _, large, hinit, hrun, hcard, mappings_accounted hinit hrun⟩

end Llheap.Reuse
