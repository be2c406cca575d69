import Mathlib

/-!
How long a condition has held without a break. The history is a list with the
latest entry first, and the streak is the length of its longest prefix that
satisfies the condition.
-/

namespace Library.Streak

variable {α : Type*} (p : α → Bool)

def streak (xs : List α) : ℕ := (xs.takeWhile p).length

@[simp] theorem streak_nil : streak p [] = 0 := rfl

theorem streak_cons (x : α) (xs : List α) :
    streak p (x :: xs) = if p x then streak p xs + 1 else 0 := by
  by_cases h : p x <;> simp [streak, h]

theorem le_streak_iff (n : ℕ) (xs : List α) :
    n ≤ streak p xs ↔ n ≤ xs.length ∧ ∀ x ∈ xs.take n, p x = true := by
  induction xs generalizing n with
  | nil => simp
  | cons x xs ih =>
    cases n with
    | zero => simp
    | succ n =>
      by_cases h : p x
      · simp [streak_cons, h, ih]
      · simp [streak_cons, h]

theorem replicate_infix_map {β : Type*} (f : α → β) (n : ℕ) (b : β) (xs : List (Option α)) :
    List.replicate n (some b) <:+: xs.map (Option.map f) ↔
      ∃ ys, ys <:+: xs ∧ ys.length = n ∧ ∀ y ∈ ys, ∃ a, y = some a ∧ f a = b := by
  rw [List.infix_map_iff]
  constructor
  · rintro ⟨ys, hys, hr⟩
    refine ⟨ys, hys, by rw [← List.length_map (Option.map f), ← hr, List.length_replicate], ?_⟩
    intro y hy
    have hm : y.map f ∈ List.replicate n (some b) := hr ▸ List.mem_map_of_mem hy
    obtain ⟨a, ha, hf⟩ := Option.map_eq_some_iff.mp (List.eq_of_mem_replicate hm)
    exact ⟨a, ha, hf⟩
  · rintro ⟨ys, hys, rfl, h⟩
    refine ⟨ys, hys, (List.eq_replicate_iff.mpr ⟨List.length_map _, ?_⟩).symm⟩
    intro y hy
    obtain ⟨x, hx, rfl⟩ := List.mem_map.mp hy
    obtain ⟨a, rfl, hf⟩ := h x hx
    exact congrArg some hf

end Library.Streak
