import Mathlib

/-!
Machines that answer each event with an outcome. A relation between the states
of two machines that every event keeps, with the same outcome on both sides,
makes the outcomes of all their runs the same.
-/

namespace Library.Machine

variable {σ τ ε ο : Type*}

def outcomes (step : σ → ε → ο × σ) : σ → List ε → List ο
  | _, [] => []
  | s, e :: es => (step s e).1 :: outcomes step (step s e).2 es

def final (step : σ → ε → ο × σ) : σ → List ε → σ
  | s, [] => s
  | s, e :: es => final step (step s e).2 es

structure Simulation (f : σ → ε → ο × σ) (g : τ → ε → ο × τ) (R : σ → τ → Prop) : Prop where
  outcome : ∀ {s t}, R s t → ∀ e, (f s e).1 = (g t e).1
  state : ∀ {s t}, R s t → ∀ e, R (f s e).2 (g t e).2

variable {f : σ → ε → ο × σ} {g : τ → ε → ο × τ} {R : σ → τ → Prop}

theorem Simulation.outcomes (h : Simulation f g R) {s : σ} {t : τ} (hr : R s t) (es : List ε) :
    Machine.outcomes f s es = Machine.outcomes g t es := by
  induction es generalizing s t with
  | nil => rfl
  | cons e es ih =>
    rw [Machine.outcomes, Machine.outcomes, h.outcome hr, ih (h.state hr e)]

theorem Simulation.final (h : Simulation f g R) {s : σ} {t : τ} (hr : R s t) (es : List ε) :
    R (Machine.final f s es) (Machine.final g t es) := by
  induction es generalizing s t with
  | nil => exact hr
  | cons e es ih => exact ih (h.state hr e)

section Conservation

variable {α : Type*} {step : σ → ε → ο × σ} {held : σ → List α} {taken : ε → ο → List α} {given : ο → List α}

theorem given_sublist
    (hs : ∀ s e, (given (step s e).1 ++ held (step s e).2).Sublist (held s ++ taken e (step s e).1)) (s : σ)
    (es : List ε) : ((outcomes step s es).flatMap given ++ held (final step s es)).Sublist
      (held s ++ (List.zipWith taken es (outcomes step s es)).flatten) := by
  induction es generalizing s with
  | nil => simp [outcomes, final]
  | cons e es ih =>
    simp only [outcomes, final, List.flatMap_cons, List.zipWith_cons_cons, List.flatten_cons, List.append_assoc]
    refine ((ih _).append_left _).trans ?_
    rw [← List.append_assoc, ← List.append_assoc]
    exact (hs s e).append_right _

theorem given_held {A : ε → Prop}
    (hs : ∀ s e, A e → given (step s e).1 ++ held (step s e).2 = held s ++ taken e (step s e).1) (s : σ) {es : List ε}
    (ha : ∀ e ∈ es, A e) : (outcomes step s es).flatMap given ++ held (final step s es) =
      held s ++ (List.zipWith taken es (outcomes step s es)).flatten := by
  induction es generalizing s with
  | nil => simp [outcomes, final]
  | cons e es ih =>
    simp only [outcomes, final, List.flatMap_cons, List.zipWith_cons_cons, List.flatten_cons, List.append_assoc]
    rw [ih _ fun e he => ha e (List.mem_cons_of_mem _ he), ← List.append_assoc, ← List.append_assoc,
      hs s e (ha e List.mem_cons_self)]

end Conservation

theorem never_outcome {step : σ → ε → ο × σ} {x : ο} (h : ∀ s e, (step s e).1 ≠ x) (s : σ) (es : List ε) :
    x ∉ outcomes step s es := by
  induction es generalizing s with
  | nil => simp [outcomes]
  | cons e es ih => simp [outcomes, (h s e).symm, ih]

theorem final_invariant {step : σ → ε → ο × σ} {I : σ → Prop} (hs : ∀ s e, I s → I (step s e).2) {s : σ} (h : I s)
    (es : List ε) : I (final step s es) := by
  induction es generalizing s with
  | nil => exact h
  | cons e es ih => exact ih (hs s e h)

section Countdown

variable {next : σ → ε → Option σ} {P : ℕ → σ → Prop}

end Countdown

end Library.Machine
