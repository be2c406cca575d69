import EcMaster.Library.Circular

/-!
A ring of slots that two parties pass back and forth. A slot is `some x` while
it belongs to the party that empties it, and `none` while it belongs to the one
that fills it. Each party keeps its own position: what lies between the two is a
queue.
-/

namespace Library.OwnedRing

open Library.Circular

variable {α : Type*} {n : ℕ} [NeZero n]

structure Holds (cells : Fin n → Option α) (head tail : Fin n) (q : List α) : Prop where
  bound : q.length ≤ n
  next : tail = slot head q.length
  cell : ∀ k < n, cells (slot head k) = q[k]?

variable {cells : Fin n → Option α} {head tail : Fin n} {q : List α}

theorem slot_size (head : Fin n) : slot head n = head := by
  apply Fin.ext
  simp [slot, Nat.mod_eq_of_lt head.isLt]

theorem holds_nil (p : Fin n) (h : ∀ i, cells i = none) : Holds cells p p [] := by
  constructor
  · simp
  · simp [slot_zero]
  · intro k _
    simp [h]

theorem Holds.front (h : Holds cells head tail q) : cells head = q.head? := by
  have h₀ := h.cell 0 (Nat.pos_of_neZero n)
  rw [slot_zero] at h₀
  simpa [List.head?_eq_getElem?] using h₀

theorem Holds.free (h : Holds cells head tail q) (hq : q.length < n) : cells tail = none := by
  rw [h.next, h.cell _ hq]
  simp

theorem Holds.full (h : Holds cells head tail q) (hq : ¬ q.length < n) : cells tail ≠ none := by
  have hn : q.length = n := le_antisymm h.bound (not_lt.mp hq)
  have hp := Nat.pos_of_neZero n
  rw [h.next, hn, slot_size, h.front]
  intro hc
  rw [List.head?_eq_none_iff] at hc
  simp [hc] at hn
  omega

theorem Holds.fill (h : Holds cells head tail q) (x : α) (hq : q.length < n) :
    Holds (Function.update cells tail (some x)) head (slot tail 1) (q ++ [x]) := by
  constructor
  · simpa using hq
  · rw [h.next, slot_slot, List.length_append, List.length_singleton]
  · intro k hk
    rcases eq_or_ne k q.length with rfl | hne
    · rw [← h.next, Function.update_self]
      simp
    · rw [Function.update_of_ne, h.cell k hk]
      · rcases Nat.lt_or_gt_of_ne hne with hlt | hgt
        · rw [List.getElem?_append_left hlt]
        · rw [List.getElem?_eq_none hgt.le, List.getElem?_eq_none (by simp; omega)]
      · rw [h.next]
        intro hs
        exact hne (slot_injOn head hk hq hs)

theorem Holds.empty {x : α} (h : Holds cells head tail (x :: q)) :
    Holds (Function.update cells head none) (slot head 1) tail q := by
  have hb : q.length + 1 ≤ n := h.bound
  constructor
  · omega
  · rw [h.next, slot_slot, List.length_cons, Nat.add_comm]
  · intro k hk
    rw [slot_slot, Nat.add_comm]
    rcases Nat.lt_or_ge (k + 1) n with hlt | hge
    · rw [Function.update_of_ne, h.cell (k + 1) hlt, List.getElem?_cons_succ]
      intro hs
      rw [← slot_zero head, slot_slot, Nat.zero_add] at hs
      have := slot_injOn head hlt (Nat.pos_of_neZero n) hs
      omega
    · have hn : k + 1 = n := by omega
      rw [hn, slot_size, Function.update_self, List.getElem?_eq_none]
      omega

end Library.OwnedRing
