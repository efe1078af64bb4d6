import Llheap.Proof.Inversion

/-!
# What stays mapped

A range inside one mapping stays inside one when something disjoint from it is unmapped, and a region the kernel grants is disjoint from every range inside a mapping.
-/

namespace Llheap

variable {cfg : Config} {ms : List Mapping} {m : Mapping} {a b n len : ℕ}

theorem Config.align_dvd_pageSize (cfg : Config) : 16 ∣ cfg.pageSize :=
  align_dvd_of_le cfg.pageSize_pow2 cfg.le_pageSize

theorem Config.word_dvd_pageSize (cfg : Config) : 8 ∣ cfg.pageSize :=
  word_dvd_of_le cfg.pageSize_pow2 cfg.le_pageSize

/-- `[b, b + n)` lies inside one mapping. -/
def Covered (ms : List Mapping) (b n : ℕ) : Prop :=
  ∃ m ∈ ms, m.base ≤ b ∧ b + n ≤ m.base + m.len

theorem Covered.cons (h : Covered ms b n) : Covered (m :: ms) b n := by
  obtain ⟨m', hm', hin⟩ := h
  exact ⟨m', List.mem_cons_of_mem m hm', hin⟩

theorem covered_head {prot : Prot} : Covered (⟨a, len, prot⟩ :: ms) a len :=
  ⟨⟨a, len, prot⟩, List.mem_cons_self, le_rfl, le_rfl⟩

theorem Covered.mono {c l : ℕ} (h : Covered ms b n) (hbc : b ≤ c) (hend : c + l ≤ b + n) :
    Covered ms c l := by
  obtain ⟨m, hm, hlow, hhigh⟩ := h
  exact ⟨m, hm, by omega, by omega⟩

theorem FreshRegion.apart_of_covered (h : FreshRegion cfg ms a len) (hcov : Covered ms b n) :
    a + len ≤ b ∨ b + n ≤ a := by
  obtain ⟨m, hm, hlow, hhigh⟩ := hcov
  have := h.apart m hm
  omega

theorem mem_remove {m' : Mapping} : m' ∈ m.remove a len ↔ 0 < m'.len ∧
    (m' = ⟨m.base, min (m.base + m.len) a - m.base, m.prot⟩ ∨
      m' = ⟨max m.base (a + len), m.base + m.len - max m.base (a + len), m.prot⟩) := by
  rw [Mapping.remove, List.mem_filter, List.mem_cons, List.mem_singleton, decide_eq_true_eq, and_comm]

theorem remove_inside {m' : Mapping} (h : m' ∈ m.remove a len) :
    m'.prot = m.prot ∧ m.base ≤ m'.base ∧ 0 < m'.len ∧ m'.base + m'.len ≤ m.base + m.len ∧
      (m'.base + m'.len ≤ a ∨ a + len ≤ m'.base) := by
  obtain ⟨hpos, rfl | rfl⟩ := mem_remove.mp h <;> dsimp only at hpos ⊢ <;>
    refine ⟨rfl, ?_, ?_, ?_, ?_⟩ <;> omega

theorem mem_munmap {s : State} (hm : m ∈ s.mappings) (hlen : 0 < m.len)
    (hapart : a + len ≤ m.base ∨ m.base + m.len ≤ a) : m ∈ (s.munmap a len).mappings := by
  refine List.mem_flatMap.mpr ⟨m, hm, mem_remove.mpr ⟨hlen, ?_⟩⟩
  obtain ⟨base, l, prot⟩ := m
  rw [Mapping.mk.injEq, Mapping.mk.injEq]
  dsimp only at hapart ⊢
  rcases hapart with hbelow | habove
  · right
    exact ⟨by omega, by omega, rfl⟩
  · left
    exact ⟨rfl, by omega, rfl⟩

theorem Covered.munmap {s : State} (h : Covered s.mappings b n) (hn : 0 < n)
    (hapart : a + len ≤ b ∨ b + n ≤ a) : Covered (s.munmap a len).mappings b n := by
  obtain ⟨m, hm, hlow, hhigh⟩ := h
  rcases hapart with hbelow | habove
  · refine ⟨_, List.mem_flatMap.mpr ⟨m, hm, mem_remove.mpr ⟨?_, .inr rfl⟩⟩, ?_, ?_⟩ <;>
      dsimp only <;> omega
  · refine ⟨_, List.mem_flatMap.mpr ⟨m, hm, mem_remove.mpr ⟨?_, .inl rfl⟩⟩, ?_, ?_⟩ <;>
      dsimp only <;> omega

theorem not_covered_munmap {s : State} (hn : 0 < n) (hin : a ≤ b ∧ b + n ≤ a + len) :
    ¬ Covered (s.munmap a len).mappings b n := by
  rintro ⟨m', hm', hlow, hhigh⟩
  obtain ⟨m, _, hpart⟩ := List.mem_flatMap.mp hm'
  have := remove_inside hpart
  omega

end Llheap
