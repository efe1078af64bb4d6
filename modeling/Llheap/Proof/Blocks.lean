import Llheap.Base.Arena
import Llheap.Proof.Mappings

/-!
# What storage is in use as

An abstract view of the allocator's storage: every mapped byte that matters belongs to a heap object, to the rest of a superblock, to a thread's buffer or to a block, and a block is free, being handed out, or live with what its header records about it. An arena of such tags has no overlaps by construction.
-/

namespace Llheap

/-- Where a block came from, and where it goes back to. -/
inductive Origin
  | bucket (freeHead : ℕ)
  | mapped
deriving DecidableEq

/-- What the headers of a live block record. -/
structure View where
  origin : Origin
  zeroFill : Bool
  size : ℕ
  alignment : Option ℕ
deriving DecidableEq

inductive Tag
  | heap
  | spare
  | bump (heap : ℕ)
  | free (freeHead : ℕ)
  | held
  | live (user : ℕ) (view : View)
deriving DecidableEq

variable {cfg : Config} {s s' : State} {ms ms' : List Mapping} {A : Arena Tag} {b n : ℕ} {p : Piece Tag}
  {t : Tag}

/-- Every piece is mapped and aligned. -/
structure Laid (ms : List Mapping) (A : Arena Tag) : Prop where
  covered : ∀ b p, A.at? b = some p → Covered ms b p.len
  aligned : ∀ b p, A.at? b = some p → 16 ∣ b
  pos : ∀ b p, A.at? b = some p → 0 < b

namespace Laid

theorem mono (h : Laid ms A) (hcov : ∀ b n, Covered ms b n → Covered ms' b n) : Laid ms' A :=
  ⟨fun b p hb => hcov b p.len (h.covered b p hb), h.aligned, h.pos⟩

theorem free_of_fresh (h : Laid ms A) (hfresh : FreshRegion cfg ms b n) : A.Free b n :=
  fun c q hc => hfresh.apart_of_covered (h.covered c q hc)

theorem erase (h : Laid ms A) (b : ℕ) : Laid ms (A.erase b) where
  covered c q hc := h.covered c q (Arena.at?_erase_eq_some.mp hc).2
  aligned c q hc := h.aligned c q (Arena.at?_erase_eq_some.mp hc).2
  pos c q hc := h.pos c q (Arena.at?_erase_eq_some.mp hc).2

theorem insert (h : Laid ms A) {hn : 0 < n} {hfree : A.Free b n} (hcov : Covered ms b n)
    (halign : 16 ∣ b) (hpos : 0 < b) : Laid ms (A.insert b n t hn hfree) := by
  refine ⟨fun c q hc => ?_, fun c q hc => ?_, fun c q hc => ?_⟩ <;>
    rcases Arena.at?_insert_eq_some.mp hc with ⟨rfl, rfl⟩ | hc
  · exact hcov
  · exact h.covered c q hc
  · exact halign
  · exact h.aligned c q hc
  · exact hpos
  · exact h.pos c q hc

theorem retag (h : Laid ms A) (hb : A.at? b = some p) : Laid ms (A.retag b t) := by
  refine ⟨fun c q hc => ?_, fun c q hc => ?_, fun c q hc => ?_⟩ <;>
    rcases (Arena.at?_retag_eq_some hb).mp hc with ⟨rfl, rfl⟩ | ⟨_, hc⟩
  · exact h.covered c p hb
  · exact h.covered c q hc
  · exact h.aligned c p hb
  · exact h.aligned c q hc
  · exact h.pos c p hb
  · exact h.pos c q hc

theorem shrink (h : Laid ms A) {hb : A.at? b = some p} {hn : 0 < n} {hle : n ≤ p.len} :
    Laid ms (A.shrink b n t hb hn hle) :=
  (h.erase b).insert ((h.covered b p hb).mono le_rfl (by omega)) (h.aligned b p hb) (h.pos b p hb)

theorem carve (h : Laid ms A) {rest : Tag} {hb : A.at? b = some p} {hn : 0 < n} {hle : n ≤ p.len}
    (halign : 16 ∣ n) : Laid ms (A.carve b n t rest hb hn hle) := by
  have hcov := h.covered b p hb
  have hal := h.aligned b p hb
  unfold Arena.carve
  split
  · exact h.shrink.insert (hcov.mono (by omega) (by omega)) (hal.add halign) (by omega)
  · exact h.shrink

end Laid

theorem FreshRegion.align_dvd {a len : ℕ} (h : FreshRegion cfg ms a len) : 16 ∣ a :=
  cfg.align_dvd_pageSize.trans h.aligned

end Llheap
