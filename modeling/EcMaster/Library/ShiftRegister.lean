import Mathlib

/-!
Error detection with a linear shift register. The register is a group in which
every element is its own opposite, one clock of it is a linear map, and an error
in the bit at place `k` changes the outcome by `k` clocks of the unit. The
residue of a set of errors is the sum of these changes.
-/

namespace Library.ShiftRegister

variable {R : Type*} [AddCommGroup R] (step : R →+ R) (unit : R)

def residue (places : List ℕ) : R := (places.map fun k => step^[k] unit).sum

@[simp] theorem residue_nil : residue step unit [] = 0 := rfl

@[simp] theorem residue_cons (k : ℕ) (places : List ℕ) :
    residue step unit (k :: places) = step^[k] unit + residue step unit places := rfl

@[simp] theorem residue_append (places places' : List ℕ) :
    residue step unit (places ++ places') = residue step unit places + residue step unit places' := by
  rw [residue, List.map_append, List.sum_append]
  rfl

variable {step unit}

theorem residue_map_add (k : ℕ) (places : List ℕ) :
    residue step unit (places.map fun place => k + place) = step^[k] (residue step unit places) := by
  induction places with
  | nil => exact (iterate_map_zero step k).symm
  | cons place places ih =>
    rw [List.map_cons, residue_cons, residue_cons, ih, iterate_map_add step, Function.iterate_add_apply]

theorem map_residue (f : R →+ R) {α : Type*} {place place' : α → ℕ} {l : List α}
    (h : ∀ a ∈ l, f (step^[place a] unit) = step^[place' a] unit) :
    f (residue step unit (l.map place)) = residue step unit (l.map place') := by
  induction l with
  | nil => exact map_zero f
  | cons a l ih =>
    obtain ⟨ha, hl⟩ := List.forall_mem_cons.mp h
    rw [List.map_cons, List.map_cons, residue_cons, residue_cons, map_add, ha, ih hl]

theorem iterate_ne (hinj : Function.Injective step) {n a b : ℕ} (hfresh : ∀ k, 0 < k → k < n → step^[k] unit ≠ unit)
    (hab : a < b) (hb : b < n) : step^[a] unit ≠ step^[b] unit := by
  intro he
  obtain ⟨d, rfl⟩ := Nat.exists_eq_add_of_lt hab
  have hstep : step^[a] (step^[d + 1] unit) = step^[a] unit := by
    rw [← Function.iterate_add_apply, ← Nat.add_assoc]
    exact he.symm
  exact hfresh (d + 1) (Nat.succ_pos d) (by omega) (hinj.iterate a hstep)

theorem residue_pair_ne (hself : ∀ r : R, r + r = 0) (hinj : Function.Injective step) {n a b : ℕ}
    (hfresh : ∀ k, 0 < k → k < n → step^[k] unit ≠ unit) (hab : a ≠ b) (ha : a < n) (hb : b < n) :
    residue step unit [a, b] ≠ 0 := by
  rw [residue_cons, residue_cons, residue_nil, add_zero]
  intro he
  have heq : step^[a] unit = step^[b] unit := add_right_cancel (he.trans (hself _).symm)
  rcases Nat.lt_or_gt_of_ne hab with h | h
  · exact iterate_ne hinj hfresh h hb heq
  · exact iterate_ne hinj hfresh h ha heq.symm

theorem parity_residue (parity : R →+ ZMod 2) (hstep : ∀ r, parity (step r) = parity r) (hunit : parity unit = 1)
    (places : List ℕ) : parity (residue step unit places) = places.length := by
  induction places with
  | nil => rw [residue_nil, map_zero, List.length_nil, Nat.cast_zero]
  | cons k places ih =>
    have hk : parity (step^[k] unit) = 1 := by
      induction k with
      | zero => exact hunit
      | succ k hk => rw [Function.iterate_succ_apply', hstep, hk]
    rw [residue_cons, map_add, hk, ih, List.length_cons, Nat.cast_succ, add_comm]

theorem residue_odd_ne (parity : R →+ ZMod 2) (hstep : ∀ r, parity (step r) = parity r) (hunit : parity unit = 1)
    {places : List ℕ} (hodd : Odd places.length) : residue step unit places ≠ 0 := by
  intro he
  have hp := parity_residue parity hstep hunit places
  rw [he, map_zero, ZMod.natCast_eq_one_iff_odd.mpr hodd] at hp
  exact absurd hp (by decide)

end Library.ShiftRegister
