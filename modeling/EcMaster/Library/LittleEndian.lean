import Mathlib
import EcMaster.Library.Segment

/-! Little-endian byte strings: `to_le_bytes` and `from_le_bytes` at every width. -/

namespace Library.LittleEndian

open Library.Segment

def leBytes : ℕ → ℕ → List UInt8
  | 0, _ => []
  | n + 1, v => UInt8.ofNat v :: leBytes n (v / 256)

def leNat : List UInt8 → ℕ
  | [] => 0
  | b :: bs => b.toNat + 256 * leNat bs

@[simp] theorem length_leBytes (n v : ℕ) : (leBytes n v).length = n := by
  induction n generalizing v with
  | zero => rfl
  | succ n ih => simp [leBytes, ih]

theorem getElem?_leBytes {n i : ℕ} (hi : i < n) (v : ℕ) : (leBytes n v)[i]? = some (UInt8.ofNat (v / 256 ^ i)) := by
  induction n generalizing i v with
  | zero => omega
  | succ n ih =>
    cases i with
    | zero => simp [leBytes]
    | succ i => rw [leBytes, List.getElem?_cons_succ, ih (by omega), Nat.div_div_eq_div_mul, pow_succ']

theorem leNat_leBytes (n v : ℕ) : leNat (leBytes n v) = v % 256 ^ n := by
  induction n generalizing v with
  | zero => simp [leBytes, leNat, Nat.mod_one]
  | succ n ih =>
    have hm : v % (256 * 256 ^ n) = v % 256 + 256 * (v / 256 % 256 ^ n) := Nat.mod_mul
    rw [pow_succ' 256 n, hm, leBytes, leNat, ih, UInt8.toNat_ofNat']

theorem leNat_lt (bs : List UInt8) : leNat bs < 256 ^ bs.length := by
  induction bs with
  | nil => simp [leNat]
  | cons b bs ih =>
    have hb := b.toNat_lt
    rw [leNat, List.length_cons, pow_succ']
    omega

theorem leBytes_leNat (bs : List UInt8) : leBytes bs.length (leNat bs) = bs := by
  induction bs with
  | nil => rfl
  | cons b bs ih =>
    have hb := b.toNat_lt
    have hd : (b.toNat + 256 * leNat bs) / 256 = leNat bs := by omega
    have hm : UInt8.ofNat (b.toNat + 256 * leNat bs) = b := by
      apply UInt8.toNat_inj.mp
      rw [UInt8.toNat_ofNat']
      omega
    rw [List.length_cons, leNat, leBytes, hd, hm, ih]

theorem add_eq_xor {a n : ℕ} (h : a < 2 ^ n) (b : ℕ) : 2 ^ n * b + a = 2 ^ n * b ^^^ a := by
  apply Nat.eq_of_testBit_eq
  intro i
  rw [Nat.testBit_two_pow_mul_add _ h, Nat.testBit_xor, Nat.testBit_two_pow_mul]
  split_ifs with hi
  · simp [Nat.not_le.mpr hi]
  · have hzero : a.testBit i = false :=
      Nat.testBit_lt_two_pow (h.trans_le (Nat.pow_le_pow_right (by decide) (Nat.not_lt.mp hi)))
    simp [hzero, Nat.not_lt.mp hi]

theorem testBit_leNat (bs : List UInt8) (k : ℕ) :
    (leNat bs).testBit k = (bs.getD (k / 8) 0).toNat.testBit (k % 8) := by
  induction bs generalizing k with
  | nil => simp [leNat]
  | cons b bs ih =>
    have hsum : leNat (b :: bs) = 2 ^ 8 * leNat bs + b.toNat := Nat.add_comm _ _
    rw [hsum, Nat.testBit_two_pow_mul_add _ b.toNat_lt]
    by_cases hk : k < 8
    · rw [if_pos hk, Nat.div_eq_of_lt hk, Nat.mod_eq_of_lt hk, List.getD_cons_zero]
    · have hdiv : k / 8 = (k - 8) / 8 + 1 := by omega
      have hmod : k % 8 = (k - 8) % 8 := by omega
      rw [if_neg hk, ih, hdiv, hmod, List.getD_cons_succ]

theorem leNat_append_byte (bs : List UInt8) (b : UInt8) : leNat (bs ++ [b]) = leNat bs + 256 ^ bs.length * b.toNat := by
  induction bs with
  | nil => simp [leNat]
  | cons c bs ih =>
    rw [List.cons_append, leNat, ih, leNat, List.length_cons, pow_succ']
    ring

theorem leNat_or_byte (bs : List UInt8) (b : UInt8) :
    leNat bs ||| (2 ^ (8 * bs.length) * b.toNat) = leNat (bs ++ [b]) := by
  have hlt := leNat_lt bs
  have hpow : 256 ^ bs.length = 2 ^ (8 * bs.length) := by
    rw [pow_mul]
    norm_num
  rw [leNat_append_byte, Nat.or_comm, ← Nat.two_pow_add_eq_or_of_lt (by rw [← hpow]; exact hlt), hpow, Nat.add_comm]

def fetch (buf : List UInt8) (off n : ℕ) : List UInt8 := (List.range n).map fun i => buf.getD (off + i) 0

@[simp] theorem length_fetch (buf : List UInt8) (off n : ℕ) : (fetch buf off n).length = n := by simp [fetch]

theorem fetch_succ (buf : List UInt8) (off n : ℕ) :
    fetch buf off (n + 1) = fetch buf off n ++ [buf.getD (off + n) 0] := by
  rw [fetch, List.range_succ, List.map_append]
  rfl

theorem fetch_congr {buf buf' : List UInt8} {off off' n : ℕ}
    (h : ∀ i < n, buf.getD (off + i) 0 = buf'.getD (off' + i) 0) : fetch buf off n = fetch buf' off' n :=
  List.map_congr_left fun i hi => h i (List.mem_range.mp hi)

theorem fetch_eq_slice {buf : List UInt8} {off n : ℕ} (h : off + n ≤ buf.length) : fetch buf off n = slice buf off n := by
  apply List.ext_getElem?
  intro i
  rw [getElem?_slice, fetch, List.getElem?_map]
  split_ifs with hi
  · rw [List.getElem?_range hi, Option.map_some, List.getD_eq_getElem?_getD, List.getElem?_eq_getElem (by omega)]
    rfl
  · rw [List.getElem?_eq_none (by simpa using hi)]
    rfl

def u16Le (bs : List UInt8) : UInt16 := UInt16.ofNat (leNat bs)

def u32Le (bs : List UInt8) : UInt32 := UInt32.ofNat (leNat bs)

theorem u16Le_pair (low high : UInt8) : u16Le [low, high] = low.toUInt16 ^^^ (high.toUInt16 <<< 8) := by
  have hlow := low.toNat_lt
  have hhigh := high.toNat_lt
  have hsum : low.toNat ^^^ (high.toNat <<< 8) = 2 ^ 8 * high.toNat + low.toNat := by
    rw [add_eq_xor hlow, Nat.xor_comm, Nat.shiftLeft_eq, Nat.mul_comm]
  have hshift : (high.toUInt16 <<< 8).toNat = high.toNat <<< 8 := by
    rw [UInt16.toNat_shiftLeft, UInt8.toNat_toUInt16, Nat.shiftLeft_eq, Nat.shiftLeft_eq]
    exact Nat.mod_eq_of_lt (show high.toNat * 2 ^ 8 < 2 ^ 16 by omega)
  apply UInt16.toNat_inj.mp
  rw [UInt16.toNat_xor, hshift, UInt8.toNat_toUInt16, hsum, u16Le, leNat, leNat, leNat, UInt16.toNat_ofNat']
  omega

theorem u16Le_leBytes (v : UInt16) : u16Le (leBytes 2 v.toNat) = v := by
  have hv := v.toNat_lt
  rw [u16Le, leNat_leBytes, Nat.mod_eq_of_lt (by simpa using hv), UInt16.ofNat_toNat]

theorem u32Le_leBytes (v : UInt32) : u32Le (leBytes 4 v.toNat) = v := by
  have hv := v.toNat_lt
  rw [u32Le, leNat_leBytes, Nat.mod_eq_of_lt (by simpa using hv), UInt32.ofNat_toNat]

end Library.LittleEndian
