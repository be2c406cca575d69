import Mathlib

/-!
A circular array of `n` slots read as a queue: `len` items, the oldest in the
slot `head`, each next one a slot further on, modulo `n`.
-/

namespace Library.Circular

variable {α : Type*} {n : ℕ} [NeZero n]

def slot (head : Fin n) (i : ℕ) : Fin n := Fin.ofNat n (head + i)

def items (cells : Fin n → α) (head : Fin n) (len : ℕ) : List α :=
  (List.range len).map fun i => cells (slot head i)

@[simp] theorem length_items (cells : Fin n → α) (head : Fin n) (len : ℕ) :
    (items cells head len).length = len := by
  simp [items]

theorem slot_zero (head : Fin n) : slot head 0 = head := by
  apply Fin.ext
  simp [slot]

theorem slot_slot (head : Fin n) (i j : ℕ) : slot (slot head i) j = slot head (i + j) := by
  apply Fin.ext
  simp [slot, Nat.add_assoc]

theorem slot_injOn (head : Fin n) {i j : ℕ} (hi : i < n) (hj : j < n) (h : slot head i = slot head j) :
    i = j := by
  have hm : (head + i) % n = (head + j) % n := congrArg Fin.val h
  have hc : i ≡ j [MOD n] := Nat.ModEq.add_left_cancel' (head : ℕ) hm
  exact Nat.ModEq.eq_of_lt_of_lt hc hi hj

theorem items_congr {cells cells' : Fin n → α} (head : Fin n) {len : ℕ}
    (h : ∀ i < len, cells (slot head i) = cells' (slot head i)) :
    items cells head len = items cells' head len :=
  List.map_congr_left fun i hi => h i (List.mem_range.mp hi)

theorem items_succ (cells : Fin n → α) (head : Fin n) (len : ℕ) :
    items cells head (len + 1) = items cells head len ++ [cells (slot head len)] := by
  simp [items, List.range_succ]

theorem items_push (cells : Fin n → α) (head : Fin n) {len : ℕ} (x : α) (h : len < n) :
    items (Function.update cells (slot head len) x) head (len + 1) = items cells head len ++ [x] := by
  rw [items_succ, Function.update_self]
  congr 1
  apply items_congr
  intro i hi
  apply Function.update_of_ne
  intro he
  have := slot_injOn head (hi.trans h) h he
  omega

theorem items_pop (cells : Fin n → α) (head : Fin n) (len : ℕ) :
    items cells head (len + 1) = cells head :: items cells (slot head 1) len := by
  simp only [items, List.range_succ_eq_map, List.map_cons, List.map_map, slot_zero]
  congr 1
  apply List.map_congr_left
  intro i _
  simp [slot_slot, Nat.add_comm]

end Library.Circular
