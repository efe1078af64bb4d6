import Mathlib.Data.Finset.Card
import Mathlib.Tactic

/-!
# Pools

A pool makes an item only when it has none in stock, and an item comes back into stock from use. Then it has never made more items than were in use at one time, whatever else gets into its stock.
-/

namespace Pool

variable {ι : Type*} {stock stock' used used' : Set ι} {made : Finset ι} {most most' : ℕ} {i : ι}

/-- The items that have been made are in stock or in use, and no more than were in use at one time. -/
structure Frugal (stock used : Set ι) (made : Finset ι) (most : ℕ) : Prop where
  accounted : ∀ i ∈ made, i ∈ stock ∨ i ∈ used
  card_le : made.card ≤ most

theorem Frugal.empty : Frugal stock used ∅ most :=
  ⟨fun i hi => absurd hi (Finset.notMem_empty i), by simp⟩

theorem Frugal.keep (h : Frugal stock used made most) (hkept : ∀ i, i ∈ stock ∨ i ∈ used → i ∈ stock' ∨ i ∈ used')
    (hmost : most ≤ most') : Frugal stock' used' made most' :=
  ⟨fun i hi => hkept i (h.accounted i hi), h.card_le.trans hmost⟩

theorem Frugal.not_made (h : Frugal stock used made most) (hstock : i ∉ stock) (hused : i ∉ used) : i ∉ made :=
  fun hi => (h.accounted i hi).elim hstock hused

/-- With nothing in stock an item is made, and goes into use. -/
theorem Frugal.make [DecidableEq ι] (h : Frugal stock used made most) (hstock : stock = ∅) (hused : used ⊆ used')
    (hi : i ∈ used') (hmost : ∀ items : Finset ι, (items : Set ι) ⊆ used' → items.card ≤ most') :
    Frugal stock' used' (insert i made) most' := by
  have hall : ∀ j ∈ insert i made, j ∈ used' := by
    intro j hj
    rcases Finset.mem_insert.mp hj with rfl | hj
    · exact hi
    · rcases h.accounted j hj with hin | hin
      · rw [hstock] at hin
        exact absurd hin (Set.notMem_empty j)
      · exact hused hin
  exact ⟨fun j hj => .inr (hall j hj), hmost _ hall⟩

end Pool
