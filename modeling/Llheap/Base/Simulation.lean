import Llheap.Base.Transition

/-!
# Runs and simulations

A view says which events a step is seen as, none if it is internal. A system simulates another one when it can answer every step with steps of its own that are seen as the same events, and then it can answer every run.
-/

namespace TransitionSystem

variable {σ τ ℓ μ ε : Type*}

/-- A run, and the events that its steps are seen as. -/
inductive Run (S : TransitionSystem σ ℓ) (view : σ → ℓ → σ → List ε) : σ → List ε → σ → Prop
  | refl (s : σ) : Run S view s [] s
  | step {s s' s'' : σ} {l : ℓ} {es : List ε} :
      S.step s l s' → Run S view s' es s'' → Run S view s (view s l s' ++ es) s''

/-- Every label is an event. -/
def labels (_ : σ) (l : ℓ) (_ : σ) : List ℓ := [l]

/-- `T` answers every step of `S` with steps whose labels are the events. -/
structure Simulation (S : TransitionSystem σ ℓ) (T : TransitionSystem τ μ) (view : σ → ℓ → σ → List μ)
    (rel : σ → τ → Prop) : Prop where
  init : ∀ s, S.init s → ∃ t, T.init t ∧ rel s t
  step : ∀ s l s' t, rel s t → S.step s l s' → ∃ t', T.Run labels t (view s l s') t' ∧ rel s' t'

variable {S : TransitionSystem σ ℓ} {T : TransitionSystem τ μ} {view : σ → ℓ → σ → List ε} {s s' s'' : σ}
  {l : ℓ} {es es' : List ε}

theorem Run.single (view : σ → ℓ → σ → List ε) (h : S.step s l s') : S.Run view s (view s l s') s' := by
  have hrun : S.Run view s (view s l s' ++ []) s' := .step h (.refl s')
  rwa [List.append_nil] at hrun

theorem Run.append (h : S.Run view s es s') (h' : S.Run view s' es' s'') : S.Run view s (es ++ es') s'' := by
  induction h with
  | refl s => exact h'
  | step hs _ ih =>
    rw [List.append_assoc]
    exact .step hs (ih h')

theorem Run.invariant {I : σ → Prop} (h : S.Run view s es s') (hI : I s)
    (hstep : ∀ s l s', I s → S.step s l s' → I s') : I s' := by
  induction h with
  | refl s => exact hI
  | step hs _ ih => exact ih (hstep _ _ _ hI hs)

theorem Run.history {I : List ε → σ → Prop} (hstep : ∀ es s l s', I es s → S.step s l s' → I (es ++ view s l s') s')
    (h : S.Run view s es s') (hI : I es' s) : I (es' ++ es) s' := by
  induction h generalizing es' with
  | refl s => rwa [List.append_nil]
  | step hs _ ih =>
    rw [← List.append_assoc]
    exact ih (hstep _ _ _ _ hI hs)

/-- What grows only to make room for a count is the peak of that count. -/
theorem Run.peak {I : σ → Prop} {size count : σ → ℕ} {ns : List ℕ}
    (hstep : ∀ s l s', I s → S.step s l s' → I s' ∧ size s' = max (size s) (count s'))
    (h : S.Run (fun _ _ s' => [count s']) s ns s') (hI : I s) : size s' = ns.foldl max (size s) := by
  induction h with
  | refl s => rfl
  | step hs _ ih =>
    obtain ⟨hI', hsize⟩ := hstep _ _ _ hI hs
    rw [ih hI', hsize, List.singleton_append, List.foldl_cons]

namespace Simulation

variable {view : σ → ℓ → σ → List μ} {rel : σ → τ → Prop} {es : List μ} {t : τ}

/-- A run is answered with a run that shows the same events. -/
theorem run (hsim : S.Simulation T view rel) (h : S.Run view s es s') (hrel : rel s t) :
    ∃ t', T.Run labels t es t' ∧ rel s' t' := by
  induction h generalizing t with
  | refl s => exact ⟨t, .refl t, hrel⟩
  | step hs _ ih =>
    obtain ⟨t₁, hrun, hrel₁⟩ := hsim.step _ _ _ t hrel hs
    obtain ⟨t₂, hrest, hrel₂⟩ := ih hrel₁
    exact ⟨t₂, hrun.append hrest, hrel₂⟩

end Simulation

end TransitionSystem
