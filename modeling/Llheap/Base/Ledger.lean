import Mathlib.Algebra.BigOperators.Group.Finset.Basic
import Mathlib.Algebra.BigOperators.Group.List.Basic
import Mathlib.Tactic

/-!
# Ledgers

Accounts that are credited where an entry is opened and debited where it is closed hold together what the open entries are worth, whichever account each end is booked on. Entries from before the books were opened are not on them, and closing one is written off.
-/

namespace Ledger

variable {ι κ M : Type*} [DecidableEq ι] [AddCommGroup M]

/-- The total of the accounts is what the open entries are worth, without those from before, less what has been written off. -/
def Balanced (total : M) (live old : Finset ι) (worth : ι → M) (off : M) : Prop :=
  total = ∑ e ∈ live \ old, worth e - off

variable {total off : M} {live old : Finset ι} {worth worth' : ι → M} {e : ι}

theorem Balanced.opened : Balanced 0 live live worth 0 := by
  rw [Balanced, Finset.sdiff_self, Finset.sum_empty, sub_zero]

theorem Balanced.congr (h : Balanced total live old worth off)
    (hsame : ∀ e ∈ live, e ∉ old → worth' e = worth e) : Balanced total live old worth' off := by
  rw [Balanced, h, Finset.sum_congr rfl fun e he => ?_]
  obtain ⟨hlive, hold⟩ := Finset.mem_sdiff.mp he
  exact (hsame e hlive hold).symm

theorem Balanced.post (h : Balanced total live old worth off) (he : e ∉ live) (hold : e ∉ old) :
    Balanced (total + worth e) (insert e live) old worth off := by
  have hout : e ∉ live \ old := fun hmem => he (Finset.mem_sdiff.mp hmem).1
  rw [Balanced, Finset.insert_sdiff_of_notMem live hold, Finset.sum_insert hout, h]
  abel

/-- An entry is closed, and written off if it is from before. -/
theorem Balanced.clear (h : Balanced total live old worth off) (he : e ∈ live) :
    Balanced (total - worth e) (live.erase e) (old.erase e) worth (off + if e ∈ old then worth e else 0) := by
  rw [Balanced, h]
  by_cases hold : e ∈ old
  · have hsame : live.erase e \ old.erase e = live \ old := by
      ext x
      simp only [Finset.mem_sdiff, Finset.mem_erase]
      grind
    rw [if_pos hold, hsame]
    abel
  · have hsame : live.erase e \ old.erase e = (live \ old).erase e := by
      ext x
      simp only [Finset.mem_sdiff, Finset.mem_erase]
      grind
    rw [if_neg hold, hsame, Finset.sum_erase_eq_sub (Finset.mem_sdiff.mpr ⟨he, hold⟩)]
    abel

theorem Balanced.revalue (h : Balanced total live old worth off) (he : e ∈ live)
    (hold : e ∈ old → worth' e = worth e) (hsame : ∀ x ∈ live, x ≠ e → worth' x = worth x) :
    Balanced (total - worth e + worth' e) live old worth' off := by
  by_cases hmem : e ∈ old
  · rw [hold hmem, sub_add_cancel]
    refine h.congr fun x hx _ => ?_
    by_cases hxe : x = e
    · subst x
      exact hold hmem
    · exact hsame x hx hxe
  · have hin : e ∈ live \ old := Finset.mem_sdiff.mpr ⟨he, hmem⟩
    have hrest : ∑ x ∈ (live \ old).erase e, worth' x = ∑ x ∈ (live \ old).erase e, worth x := by
      refine Finset.sum_congr rfl fun x hx => ?_
      obtain ⟨hxe, hx⟩ := Finset.mem_erase.mp hx
      exact hsame x (Finset.mem_sdiff.mp hx).1 hxe
    rw [Balanced, h, ← Finset.add_sum_erase _ worth hin, ← Finset.add_sum_erase _ worth' hin, hrest]
    abel

/-! ### Accounts -/

/-- Records that are merged one after another add up. -/
theorem foldl_merge {σ : Type*} {accounts : List κ} {net : σ → M} {merge : σ → σ → σ} {record : κ → σ}
    (hmerge : ∀ x y, net (merge x y) = net x + net y) (x : σ) :
    net (accounts.foldl (fun x a => merge x (record a)) x) =
      net x + (accounts.map fun a => net (record a)).sum := by
  induction accounts generalizing x with
  | nil => simp
  | cons a accounts ih => rw [List.foldl_cons, ih, hmerge, List.map_cons, List.sum_cons, add_assoc]

variable [DecidableEq κ] {accounts : List κ} {a : κ} {held : κ → M}

theorem sum_update_of_notMem (ha : a ∉ accounts) (x : M) :
    (accounts.map (Function.update held a x)).sum = (accounts.map held).sum := by
  congr 1
  refine List.map_congr_left fun c hc => Function.update_of_ne ?_ ..
  rintro rfl
  exact ha hc

theorem sum_update (held : κ → M) (hnodup : accounts.Nodup) (ha : a ∈ accounts) (x : M) :
    (accounts.map (Function.update held a x)).sum = (accounts.map held).sum + (x - held a) := by
  induction accounts with
  | nil => cases ha
  | cons b accounts ih =>
    obtain ⟨hb, hnodup⟩ := List.nodup_cons.mp hnodup
    rw [List.map_cons, List.sum_cons, List.map_cons, List.sum_cons]
    by_cases hab : a = b
    · subst a
      rw [Function.update_self, sum_update_of_notMem hb]
      abel
    · rw [Function.update_of_ne (Ne.symm hab), ih hnodup ((List.mem_cons.mp ha).resolve_left hab)]
      abel

end Ledger
