import Mathlib

/-!
A memory of cells at numbered places: `peek` reads a range of it, `poke` writes
one. A range reads as it was written last, and keeps its contents when another
one is written.
-/

namespace Library.Memory

variable {α : Type}

def peek (mem : ℕ → α) (a n : ℕ) : List α := (List.range n).map fun i => mem (a + i)

def poke (mem : ℕ → α) (a : ℕ) (xs : List α) : ℕ → α := fun x => if a ≤ x then xs.getD (x - a) (mem x) else mem x

@[simp] theorem length_peek (mem : ℕ → α) (a n : ℕ) : (peek mem a n).length = n := by simp [peek]

theorem peek_congr {mem mem' : ℕ → α} {a n : ℕ} (h : ∀ x, a ≤ x → x < a + n → mem x = mem' x) :
    peek mem a n = peek mem' a n := by
  apply List.map_congr_left
  intro i hi
  have := List.mem_range.mp hi
  exact h (a + i) (by omega) (by omega)

theorem poke_apart {mem : ℕ → α} {a x : ℕ} {xs : List α} (h : x < a ∨ a + xs.length ≤ x) : poke mem a xs x = mem x := by
  rw [poke]
  split_ifs with ha
  · rw [List.getD_eq_default _ _ (by omega)]
  · rfl

theorem peek_poke (mem : ℕ → α) (a : ℕ) (xs : List α) : peek (poke mem a xs) a xs.length = xs := by
  apply List.ext_getElem
  · simp
  · intro i _ hi
    simp [peek, poke, hi]

theorem peek_poke_apart {mem : ℕ → α} {a b n : ℕ} {xs : List α} (h : b + n ≤ a ∨ a + xs.length ≤ b) :
    peek (poke mem a xs) b n = peek mem b n :=
  peek_congr fun x _ _ => poke_apart (by omega)

theorem peek_poke_within {mem : ℕ → α} {a i n : ℕ} {xs : List α} (h : i + n ≤ xs.length) :
    peek (poke mem a xs) (a + i) n = (xs.drop i).take n := by
  apply List.ext_getElem
  · simp
    omega
  · intro j hj _
    rw [length_peek] at hj
    have hin : i + j < xs.length := by omega
    simp [peek, poke, Nat.add_assoc, hin]

def Apart (v w : ℕ × List α) : Prop := v.1 + v.2.length ≤ w.1 ∨ w.1 + w.2.length ≤ v.1

def pokes (mem : ℕ → α) (writes : List (ℕ × List α)) : ℕ → α := writes.foldl (fun mem w => poke mem w.1 w.2) mem

theorem peek_pokes_apart {mem : ℕ → α} {b n : ℕ} {ws : List (ℕ × List α)}
    (h : ∀ w ∈ ws, b + n ≤ w.1 ∨ w.1 + w.2.length ≤ b) : peek (pokes mem ws) b n = peek mem b n := by
  induction ws generalizing mem with
  | nil => rfl
  | cons w ws ih =>
    obtain ⟨hw, hws⟩ := List.forall_mem_cons.mp h
    exact (ih hws).trans (peek_poke_apart hw)

theorem peek_pokes {mem : ℕ → α} {ws : List (ℕ × List α)} (h : ws.Pairwise Apart) {w : ℕ × List α} (hw : w ∈ ws) :
    peek (pokes mem ws) w.1 w.2.length = w.2 := by
  induction ws generalizing mem with
  | nil => exact absurd hw List.not_mem_nil
  | cons v ws ih =>
    obtain ⟨hv, hws⟩ := List.pairwise_cons.mp h
    rcases List.mem_cons.mp hw with rfl | hw
    · exact (peek_pokes_apart hv).trans (peek_poke mem w.1 w.2)
    · exact ih hws hw

def Within (lo hi : ℕ) (ws : List (ℕ × List α)) : Prop := ∀ w ∈ ws, lo ≤ w.1 ∧ w.1 + w.2.length ≤ hi

theorem Within.apart {lo hi lo' hi' : ℕ} {ws ws' : List (ℕ × List α)} (h : Within lo hi ws) (h' : Within lo' hi' ws')
    (hsep : hi ≤ lo' ∨ hi' ≤ lo) : ∀ v ∈ ws, ∀ w ∈ ws', Apart v w := by
  intro v hv w hw
  have hv' := h v hv
  have hw' := h' w hw
  rw [Apart]
  omega

end Library.Memory
