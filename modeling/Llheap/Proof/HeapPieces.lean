import Llheap.Proof.Blocks

/-!
# Heap objects

Heaps are carved from superblocks one after the other. A heap that has been carved is a piece of its own, so a heap never comes into being twice at one address.
-/

namespace Llheap

variable {cfg : Config} {k : Kernel cfg} {t : Tid} {s s' : State} {A : Arena Tag} {a : ℕ}

/-- The heaps and the rest of the current superblock, as pieces. -/
structure HeapPieces (m : HeapMaster) (A : Arena Tag) : Prop where
  heap : ∀ b n, A.at? b = some ⟨n, .heap⟩ ↔ b ∈ m.heapManagersList ∧ n = sizeofHeap
  spare : ∀ b n, A.at? b = some ⟨n, .spare⟩ ↔
    b = m.heapManagersStorage ∧ b + n = m.heapManagersStorageEnd ∧ 0 < b ∧ 0 < n
  whole : m.heapManagersStorage ≠ 0 → m.heapManagersStorage ≤ m.heapManagersStorageEnd ∧
    sizeofHeap ∣ m.heapManagersStorageEnd - m.heapManagersStorage

theorem HeapPieces.one_not_mem {m : HeapMaster} {ms : List Mapping} (h : HeapPieces m A)
    (hlaid : Laid ms A) : 1 ∉ m.heapManagersList := by
  intro hmem
  have := hlaid.aligned 1 _ ((h.heap 1 _).mpr ⟨hmem, rfl⟩)
  omega

theorem HeapPieces.zero_not_mem {m : HeapMaster} {ms : List Mapping} (h : HeapPieces m A)
    (hlaid : Laid ms A) : 0 ∉ m.heapManagersList := by
  intro hmem
  have := hlaid.pos 0 _ ((h.heap 0 _).mpr ⟨hmem, rfl⟩)
  omega

/-- The two arenas have the same pieces besides heaps and the superblock. -/
def SameBlocks (A A' : Arena Tag) : Prop :=
  ∀ b p, p.tag ≠ .heap → p.tag ≠ .spare → (A'.at? b = some p ↔ A.at? b = some p)

theorem SameBlocks.trans {A' A'' : Arena Tag} (h : SameBlocks A A') (h' : SameBlocks A' A'') :
    SameBlocks A A'' :=
  fun b p hheap hspare => (h' b p hheap hspare).trans (h b p hheap hspare)

theorem superblock_dimension (hlen : 0 < superblockSize cfg) (huser : a + superblockSize cfg ≤ 2 ^ 63) :
    ∃ d, superblockSize cfg = d * sizeofHeap ∧
      (a + superblockDimension cfg * sizeofHeap).toNat = a + d * sizeofHeap := by
  have hlow : -(2 ^ 31 : ℤ) ≤ superblockDimension cfg :=
    BitVec.le_toInt _
  have hhigh : superblockDimension cfg < 2 ^ 31 := BitVec.toInt_lt
  unfold superblockSize at hlen huser ⊢
  rw [sizeofHeap] at *
  have hpos : 0 < superblockDimension cfg := by
    by_contra hneg
    have hwrap : superblockDimension cfg * (8256 : ℕ) / 2 ^ 64 = -1 ∨
        superblockDimension cfg = 0 := by omega
    omega
  refine ⟨(superblockDimension cfg).toNat, ?_, ?_⟩ <;> omega

theorem superblock_pieces (hlaid : Laid s.mappings A) (h : HeapPieces s.heapMaster A)
    (hspare : s.heapMaster.heapManagersStorage = 0 ∨
      (s.heapMaster.heapManagersStorageEnd - s.heapMaster.heapManagersStorage) / sizeofHeap = 0)
    (hfresh : FreshRegion cfg s.mappings a (superblockSize cfg)) :
    ∃ A', Laid (superblock cfg a s).mappings A' ∧ HeapPieces (superblock cfg a s).heapMaster A' ∧
      SameBlocks A A' := by
  obtain ⟨d, hsize, hend⟩ := superblock_dimension hfresh.len_pos hfresh.user
  have hnone : ∀ b n, A.at? b ≠ some ⟨n, .spare⟩ := by
    intro b n hb
    obtain ⟨rfl, hbn, hpos, hn⟩ := (h.spare b n).mp hb
    obtain ⟨hle, hdvd⟩ := h.whole (by omega)
    obtain ⟨e, he⟩ := hdvd
    rcases hspare with hzero | hzero
    · omega
    · rw [he, Nat.mul_div_cancel_left e (by decide)] at hzero
      subst hzero
      omega
  have hfree := hlaid.free_of_fresh hfresh
  refine ⟨A.insert a (superblockSize cfg) .spare hfresh.len_pos hfree,
    (hlaid.mono fun _ _ hb => hb.cons).insert covered_head hfresh.align_dvd hfresh.pos,
    ⟨fun b n => ?_, fun b n => ?_, fun _ => ?_⟩, fun b p hheap hspare => ?_⟩
  · rw [Arena.at?_insert_eq_some]
    change _ ↔ b ∈ s.heapMaster.heapManagersList ∧ _
    rw [← h.heap]
    constructor
    · rintro (⟨_, heq⟩ | hb)
      · cases heq
      · exact hb
    · exact .inr
  · rw [Arena.at?_insert_eq_some]
    change _ ↔ b = a ∧ b + n = (a + superblockDimension cfg * sizeofHeap).toNat ∧ _
    rw [hend, ← hsize]
    have := hfresh.pos
    have := hfresh.len_pos
    constructor
    · rintro (⟨rfl, heq⟩ | hb)
      · cases heq
        exact ⟨rfl, rfl, by omega, by omega⟩
      · exact absurd hb (hnone b n)
    · rintro ⟨rfl, hn, _, _⟩
      exact .inl ⟨rfl, by rw [Piece.mk.injEq]; exact ⟨by omega, rfl⟩⟩
  · change a ≤ (a + superblockDimension cfg * sizeofHeap).toNat ∧
      sizeofHeap ∣ (a + superblockDimension cfg * sizeofHeap).toNat - a
    rw [hend, Nat.add_sub_cancel_left]
    exact ⟨Nat.le_add_right _ _, dvd_mul_left _ _⟩
  · rw [Arena.at?_insert_eq_some]
    constructor
    · rintro (⟨_, rfl⟩ | hb)
      · exact absurd rfl hspare
      · exact hb
    · exact .inr

/-- The heap that is carved is new, and takes the front of the superblock. -/
theorem carveHeap_pieces (hlaid : Laid s.mappings A) (h : HeapPieces s.heapMaster A)
    (hstorage : s.heapMaster.heapManagersStorage ≠ 0)
    (hroom : (s.heapMaster.heapManagersStorageEnd - s.heapMaster.heapManagersStorage) / sizeofHeap ≠ 0) :
    s.heapMaster.heapManagersStorage ∉ s.heapMaster.heapManagersList ∧
      ∃ A', Laid (carveHeap s).2.mappings A' ∧ HeapPieces (carveHeap s).2.heapMaster A' ∧
        SameBlocks A A' := by
  obtain ⟨hle, e, he⟩ := h.whole hstorage
  rw [he, Nat.mul_div_cancel_left e (by decide)] at hroom
  have hlen : sizeofHeap ≤ s.heapMaster.heapManagersStorageEnd - s.heapMaster.heapManagersStorage := by
    rw [he]
    exact Nat.le_mul_of_pos_right _ (by omega)
  have hsize : 0 < sizeofHeap := by decide
  have hpiece : A.at? s.heapMaster.heapManagersStorage =
      some ⟨s.heapMaster.heapManagersStorageEnd - s.heapMaster.heapManagersStorage, .spare⟩ :=
    (h.spare _ _).mpr ⟨rfl, by omega, by omega, by omega⟩
  have hnew : s.heapMaster.heapManagersStorage ∉ s.heapMaster.heapManagersList := by
    intro hmem
    have := (h.heap _ _).mpr ⟨hmem, rfl⟩
    rw [hpiece] at this
    cases (Piece.mk.inj (Option.some.inj this)).2
  refine ⟨hnew, A.carve s.heapMaster.heapManagersStorage sizeofHeap .heap .spare hpiece hsize hlen,
    hlaid.carve (by decide), ⟨fun b n => ?_, fun b n => ?_, fun _ => ?_⟩, fun b p hheap hspare => ?_⟩
  · rw [Arena.at?_carve_eq_some]
    change _ ↔ b ∈ s.heapMaster.heapManagersStorage :: s.heapMaster.heapManagersList ∧ _
    rw [List.mem_cons]
    constructor
    · rintro (⟨rfl, heq⟩ | ⟨_, _, heq⟩ | ⟨_, hb⟩)
      · exact ⟨.inl rfl, (Piece.mk.inj heq).1⟩
      · cases (Piece.mk.inj heq).2
      · exact ⟨.inr ((h.heap b n).mp hb).1, ((h.heap b n).mp hb).2⟩
    · rintro ⟨rfl | hmem, rfl⟩
      · exact .inl ⟨rfl, rfl⟩
      · refine .inr (.inr ⟨?_, (h.heap b _).mpr ⟨hmem, rfl⟩⟩)
        rintro rfl
        exact hnew hmem
  · rw [Arena.at?_carve_eq_some]
    change _ ↔ b = s.heapMaster.heapManagersStorage + sizeofHeap ∧
      b + n = s.heapMaster.heapManagersStorageEnd ∧ _
    constructor
    · rintro (⟨_, heq⟩ | ⟨rfl, hlt, heq⟩ | ⟨hne, hb⟩)
      · cases (Piece.mk.inj heq).2
      · have hn := (Piece.mk.inj heq).1
        dsimp only at hlt hn
        exact ⟨rfl, by omega, by omega, by omega⟩
      · exact absurd ((h.spare b n).mp hb).1 hne
    · rintro ⟨rfl, hn, _, hpos⟩
      exact .inr (.inl ⟨rfl, by dsimp only; omega, by rw [Piece.mk.injEq]; exact ⟨by dsimp only; omega, rfl⟩⟩)
  · change s.heapMaster.heapManagersStorage + sizeofHeap ≤ s.heapMaster.heapManagersStorageEnd ∧
      sizeofHeap ∣ s.heapMaster.heapManagersStorageEnd - (s.heapMaster.heapManagersStorage + sizeofHeap)
    refine ⟨by omega, ?_⟩
    rw [← Nat.sub_sub, he]
    exact Nat.dvd_sub (dvd_mul_right _ _) dvd_rfl
  · rw [Arena.at?_carve_eq_some]
    constructor
    · rintro (⟨_, rfl⟩ | ⟨_, _, rfl⟩ | ⟨_, hb⟩)
      · exact absurd rfl hheap
      · exact absurd rfl hspare
      · exact hb
    · intro hb
      refine .inr (.inr ⟨?_, hb⟩)
      rintro rfl
      rw [hpiece] at hb
      cases hb
      exact absurd rfl hspare

end Llheap
