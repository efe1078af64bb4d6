import Mathlib.Tactic

/-!
# Labelled transition systems

Initial states, a step relation that carries a label, and the states some finite run reaches. An invariant is proved once per label; the run is the induction below and nothing else.
-/

structure TransitionSystem (σ ℓ : Type*) where
  init : σ → Prop
  step : σ → ℓ → σ → Prop

namespace TransitionSystem

variable {σ ℓ : Type*} (S : TransitionSystem σ ℓ)

/-- The states that some finite run reaches. -/
inductive Reachable : σ → Prop
  | start {s : σ} : S.init s → Reachable s
  | next {s s' : σ} {l : ℓ} : Reachable s → S.step s l s' → Reachable s'

/-- The same system, taking only the steps that `ok` allows in the state before them. -/
def restrict (ok : σ → ℓ → Prop) : TransitionSystem σ ℓ where
  init := S.init
  step s l s' := ok s l ∧ S.step s l s'

variable {S}

theorem Reachable.invariant {I : σ → Prop} {s : σ} (h : S.Reachable s)
    (hinit : ∀ s, S.init s → I s) (hstep : ∀ s l s', I s → S.step s l s' → I s') : I s := by
  induction h with
  | start h0 => exact hinit _ h0
  | next _ hs ih => exact hstep _ _ _ ih hs

theorem Reachable.of_restrict {ok : σ → ℓ → Prop} {s : σ} (h : (S.restrict ok).Reachable s) :
    S.Reachable s := by
  induction h with
  | start h0 => exact .start h0
  | next _ hs ih => exact .next ih hs.2

end TransitionSystem
