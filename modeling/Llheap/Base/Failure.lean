import Mathlib.Logic.Basic

/-!
# How a computation can fail

A postcondition for the errors of a computation. It says nothing about what the computation returns, and the rule for a sequence hands over what the first part has returned.

A computation can also be compared with one that more is granted to. It does the same, or an error cuts it short.
-/

universe u v

namespace Except

variable {ε : Type u} {α β : Type v}

/-- Every error that the computation ends with satisfies `P`. -/
structure FailsWith (x : Except ε α) (P : ε → Prop) : Prop where
  post : ∀ e, x = .error e → P e

variable {x : Except ε α} {f : α → Except ε β} {P Q : ε → Prop}

theorem failsWith_ok (a : α) : FailsWith (.ok a : Except ε α) P := by
  constructor
  intro e h
  cases h

theorem failsWith_error {e : ε} (he : P e) : FailsWith (.error e : Except ε α) P := by
  constructor
  intro e' h
  cases h
  exact he

theorem FailsWith.of_eq_ok {a : α} (h : x = .ok a) : FailsWith x P := h ▸ failsWith_ok a

theorem FailsWith.imp (h : FailsWith x P) (himp : ∀ e, P e → Q e) : FailsWith x Q := by
  constructor
  intro e he
  exact himp e (h.post e he)

theorem FailsWith.bind (hx : FailsWith x P) (hf : ∀ a, x = .ok a → FailsWith (f a) P) :
    FailsWith (x >>= f) P := by
  cases x with
  | error e => exact failsWith_error (hx.post e rfl)
  | ok a => exact hf a rfl

theorem FailsWith.bind_of_ok {a : α} (hx : x = .ok a) (hf : FailsWith (f a) P) : FailsWith (x >>= f) P := by
  subst hx
  exact hf

/-- The computation does what `y` does, unless an error that satisfies `P` cuts it short. -/
inductive CutShort (P : ε → Prop) (y : Except ε α) : Except ε α → Prop
  | same : CutShort P y y
  | cut {e : ε} : P e → CutShort P y (.error e)

variable {y : Except ε α} {g : α → Except ε β} {a : α}

theorem CutShort.imp (h : CutShort P y x) (himp : ∀ e, P e → Q e) : CutShort Q y x := by
  cases h with
  | same => exact .same
  | cut he => exact .cut (himp _ he)

theorem CutShort.bind (h : CutShort P y x) (hf : ∀ a, y = .ok a → CutShort P (g a) (f a)) :
    CutShort P (y >>= g) (x >>= f) := by
  cases h with
  | same =>
    cases x with
    | error e => exact .same
    | ok a => exact hf a rfl
  | cut he => exact .cut he

theorem CutShort.ite {x' y' : Except ε α} {c : Prop} [Decidable c] (hpos : c → CutShort P y x)
    (hneg : ¬ c → CutShort P y' x') : CutShort P (if c then y else y') (if c then x else x') := by
  by_cases hc : c
  · rw [if_pos hc, if_pos hc]
    exact hpos hc
  · rw [if_neg hc, if_neg hc]
    exact hneg hc

/-- What is not cut short is granted all that `y` is. -/
theorem CutShort.eq_ok (h : CutShort P y x) (hx : x = .ok a) : y = .ok a := by
  cases h with
  | same => exact hx
  | cut he => cases hx

theorem CutShort.failsWith (h : CutShort P y x) (hy : FailsWith y P) : FailsWith x P := by
  cases h with
  | same => exact hy
  | cut he => exact failsWith_error he

end Except
