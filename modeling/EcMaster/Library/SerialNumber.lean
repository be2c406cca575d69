import Mathlib

/-!
Serial numbers: 32-bit counters that wrap, compared by their difference read as
a signed number. `Before` is the strict order within half a turn.
-/

namespace Library.SerialNumber

theorem toInt_eq (x : UInt32) : x.toInt32.toInt = if x.toNat < 2 ^ 31 then (x.toNat : ℤ) else x.toNat - 2 ^ 32 := by
  change x.toBitVec.toInt = _
  rw [BitVec.toInt_eq_toNat_cond]
  change (if 2 * x.toNat < 2 ^ 32 then (x.toNat : ℤ) else (x.toNat : ℤ) - ((2 ^ 32 : ℕ) : ℤ)) = _
  have hc : 2 * x.toNat < 2 ^ 32 ↔ x.toNat < 2 ^ 31 := by omega
  simp only [hc]
  norm_num

def Before (a b : UInt32) : Prop := 0 < (b - a).toNat ∧ (b - a).toNat < 2 ^ 31

instance (a b : UInt32) : Decidable (Before a b) := inferInstanceAs (Decidable (_ ∧ _))

theorem before_iff_toInt (a b : UInt32) : 0 < (b - a).toInt32.toInt ↔ Before a b := by
  have hlt := (b - a).toNat_lt
  rw [toInt_eq, Before]
  split_ifs <;> omega

theorem ofNat_sub {m n : ℕ} (h : m ≤ n) : UInt32.ofNat n - UInt32.ofNat m = UInt32.ofNat (n - m) := by
  have he : UInt32.ofNat n = UInt32.ofNat (n - m) + UInt32.ofNat m := by
    rw [← UInt32.ofNat_add, Nat.sub_add_cancel h]
  rw [he]
  grind

theorem before_ofNat {m n : ℕ} (h : m < n) (hn : n < m + 2 ^ 31) : Before (UInt32.ofNat m) (UInt32.ofNat n) := by
  rw [Before, ofNat_sub h.le, UInt32.toNat_ofNat']
  omega

theorem ofNat_injOn {m n b : ℕ} (hm : b ≤ m) (hm' : m < b + 2 ^ 32) (hn : b ≤ n) (hn' : n < b + 2 ^ 32)
    (h : UInt32.ofNat m = UInt32.ofNat n) : m = n := by
  have ht := congrArg UInt32.toNat h
  rw [UInt32.toNat_ofNat', UInt32.toNat_ofNat'] at ht
  omega

theorem ofNat_toNat_sub {a : UInt32} {m : ℕ} (h : UInt32.ofNat m = a) (b : UInt32) :
    UInt32.ofNat (m + (b - a).toNat) = b := by
  rw [UInt32.ofNat_add, UInt32.ofNat_toNat, h]
  grind

theorem before_iff_of_window {base a b : UInt32} (ha : (a - base).toNat < 2 ^ 31) (hb : (b - base).toNat < 2 ^ 31) :
    Before a b ↔ (a - base).toNat < (b - base).toNat := by
  have he : b - a = (b - base) - (a - base) := by grind
  have hd : (b - a).toNat = (2 ^ 32 - (a - base).toNat + (b - base).toNat) % 2 ^ 32 := by
    rw [he, UInt32.toNat_sub]
  rw [Before, hd]
  omega

theorem pairwise_of_window {base : UInt32} {xs : List UInt32} (hw : ∀ x ∈ xs, (x - base).toNat < 2 ^ 31)
    (h : xs.IsChain Before) : xs.Pairwise Before := by
  have hm : (xs.map fun x => (x - base).toNat).IsChain (· < ·) := by
    rw [List.isChain_map]
    refine h.imp_of_mem_imp ?_
    intro a b ha hb hab
    exact (before_iff_of_window (hw a ha) (hw b hb)).mp hab
  have hp := List.pairwise_map.mp hm.pairwise
  refine hp.imp_of_mem ?_
  intro a b ha hb hab
  exact (before_iff_of_window (hw a ha) (hw b hb)).mpr hab

end Library.SerialNumber
