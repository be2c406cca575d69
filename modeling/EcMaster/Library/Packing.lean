import Mathlib

/-!
Items of given widths laid end to end. `place` pairs each item with its offset.
-/

namespace Library.Packing

variable {α β : Type*} (w : α → ℕ)

def place : ℕ → List α → List (ℕ × α)
  | _, [] => []
  | off, x :: xs => (off, x) :: place (off + w x) xs

variable {w}

theorem map_snd_place (off : ℕ) (xs : List α) : (place w off xs).map Prod.snd = xs := by
  induction xs generalizing off with
  | nil => rfl
  | cons x xs ih => rw [place, List.map_cons, ih]

theorem place_append (off : ℕ) (xs ys : List α) :
    place w off (xs ++ ys) = place w off xs ++ place w (off + (xs.map w).sum) ys := by
  induction xs generalizing off with
  | nil => rfl
  | cons x xs ih => rw [List.cons_append, place, place, ih, List.map_cons, List.sum_cons, ← Nat.add_assoc, List.cons_append]

theorem place_map (f : β → α) (off : ℕ) (xs : List β) :
    place w off (xs.map f) = (place (fun x => w (f x)) off xs).map fun p => (p.1, f p.2) := by
  induction xs generalizing off with
  | nil => rfl
  | cons x xs ih => rw [List.map_cons, place, place, List.map_cons, ih]

theorem place_congr {v : α → ℕ} {off : ℕ} {xs : List α} (h : ∀ x ∈ xs, v x = w x) : place v off xs = place w off xs := by
  induction xs generalizing off with
  | nil => rfl
  | cons x xs ih =>
    rw [place, place, h x List.mem_cons_self, ih fun y hy => h y (List.mem_cons_of_mem _ hy)]

theorem place_bounds {off : ℕ} {xs : List α} {p : ℕ × α} (h : p ∈ place w off xs) :
    off ≤ p.1 ∧ p.1 + w p.2 ≤ off + (xs.map w).sum := by
  induction xs generalizing off with
  | nil => exact absurd h List.not_mem_nil
  | cons x xs ih =>
    rw [List.map_cons, List.sum_cons]
    rcases List.mem_cons.mp h with rfl | h
    · dsimp only
      omega
    · have hp := ih h
      omega

theorem place_pairwise (off : ℕ) (xs : List α) : (place w off xs).Pairwise fun p q => p.1 + w p.2 ≤ q.1 := by
  induction xs generalizing off with
  | nil => exact List.Pairwise.nil
  | cons x xs ih => exact List.Pairwise.cons (fun q hq => (place_bounds hq).1) (ih _)

theorem place_covers {off : ℕ} {xs : List α} {b : ℕ} (h₁ : off ≤ b) (h₂ : b < off + (xs.map w).sum) :
    ∃ p ∈ place w off xs, p.1 ≤ b ∧ b < p.1 + w p.2 := by
  induction xs generalizing off with
  | nil =>
    rw [List.map_nil, List.sum_nil] at h₂
    omega
  | cons x xs ih =>
    rw [List.map_cons, List.sum_cons] at h₂
    rcases Nat.lt_or_ge b (off + w x) with hb | hb
    · exact ⟨(off, x), List.mem_cons_self, h₁, hb⟩
    · obtain ⟨p, hp, hb'⟩ := ih hb (by omega)
      exact ⟨p, List.mem_cons_of_mem _ hp, hb'⟩

theorem place_mem {off : ℕ} {xs : List α} {p : ℕ × α} (h : p ∈ place w off xs) : p.2 ∈ xs := by
  rw [← map_snd_place (w := w) off xs]
  exact List.mem_map_of_mem h

end Library.Packing
