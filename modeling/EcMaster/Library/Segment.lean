import Mathlib

/-!
Byte buffers as lists. `overwrite` is `buf[off..off + n].copy_from_slice(src)`
and `slice` is `&buf[off..off + n]`; a write past the end leaves the tail alone.
-/

namespace Library.Segment

variable {α : Type*}

def overwrite : List α → ℕ → List α → List α
  | [], _, _ => []
  | b :: bs, 0, [] => b :: bs
  | _ :: bs, 0, s :: ss => s :: overwrite bs 0 ss
  | b :: bs, off + 1, src => b :: overwrite bs off src

def slice (xs : List α) (off n : ℕ) : List α := (xs.drop off).take n

@[simp] theorem overwrite_nil_src (buf : List α) (off : ℕ) : overwrite buf off [] = buf := by
  induction buf generalizing off with
  | nil => simp [overwrite]
  | cons b bs ih => cases off <;> simp [overwrite, ih]

@[simp] theorem length_overwrite (buf : List α) (off : ℕ) (src : List α) :
    (overwrite buf off src).length = buf.length := by
  fun_induction overwrite buf off src with
  | case1 => rfl
  | case2 => rfl
  | case3 b bs s ss ih => simp [ih]
  | case4 b bs off src ih => simp [ih]

theorem getElem?_overwrite (buf : List α) (off : ℕ) (src : List α) (i : ℕ) :
    (overwrite buf off src)[i]? =
      if off ≤ i ∧ i < off + src.length ∧ i < buf.length then src[i - off]? else buf[i]? := by
  fun_induction overwrite buf off src generalizing i with
  | case1 => simp
  | case2 => simp
  | case3 b bs s ss ih =>
    cases i with
    | zero => simp
    | succ i => simp [ih]
  | case4 b bs off src ih =>
    cases i with
    | zero => simp
    | succ i =>
      simp only [List.getElem?_cons_succ, ih, List.length_cons]
      split_ifs <;> first | omega | simp

theorem getElem?_overwrite_outside {buf : List α} {off : ℕ} {src : List α} {i : ℕ}
    (h : i < off ∨ off + src.length ≤ i) : (overwrite buf off src)[i]? = buf[i]? := by
  rw [getElem?_overwrite, if_neg (by omega)]

theorem getElem?_overwrite_inside {buf : List α} {off : ℕ} {src : List α} {i : ℕ}
    (h₁ : off ≤ i) (h₂ : i < off + src.length) (h₃ : i < buf.length) :
    (overwrite buf off src)[i]? = src[i - off]? := by
  rw [getElem?_overwrite, if_pos ⟨h₁, h₂, h₃⟩]

theorem getElem?_overwrite_congr {buf buf' : List α} {i : ℕ} (h : buf[i]? = buf'[i]?) (off : ℕ)
    (src : List α) : (overwrite buf off src)[i]? = (overwrite buf' off src)[i]? := by
  have hl : i < buf.length ↔ i < buf'.length := by
    rw [← not_iff_not, not_lt, not_lt, ← List.getElem?_eq_none_iff, ← List.getElem?_eq_none_iff, h]
  simp only [getElem?_overwrite, hl, h]

theorem overwrite_append_right (pre rest : List α) (k : ℕ) (src : List α) :
    overwrite (pre ++ rest) (pre.length + k) src = pre ++ overwrite rest k src := by
  induction pre with
  | nil => simp
  | cons b bs ih =>
    rw [List.length_cons, Nat.add_right_comm, List.cons_append, overwrite, ih, List.cons_append]

theorem overwrite_zero_append (mid post src : List α) (h : mid.length = src.length) :
    overwrite (mid ++ post) 0 src = src ++ post := by
  induction mid generalizing src with
  | nil =>
    have hs : src = [] := List.length_eq_zero_iff.mp (by simpa using h.symm)
    simp [hs]
  | cons b bs ih =>
    cases src with
    | nil => simp at h
    | cons s ss => simp [overwrite, ih ss (by simpa using h)]

theorem overwrite_front (buf src : List α) (h : src.length ≤ buf.length) :
    overwrite buf 0 src = src ++ buf.drop src.length := by
  have hb : buf = buf.take src.length ++ buf.drop src.length := (List.take_append_drop _ _).symm
  conv_lhs => rw [hb]
  exact overwrite_zero_append _ _ _ (by simpa using h)

theorem prefix_overwrite {pre buf : List α} (src : List α) (h : pre <+: buf) (hl : pre.length + src.length ≤ buf.length) :
    pre ++ src <+: overwrite buf pre.length src := by
  obtain ⟨rest, rfl⟩ := h
  have hr : src.length ≤ rest.length := by simpa using hl
  have ho := overwrite_append_right pre rest 0 src
  rw [Nat.add_zero, overwrite_front rest src hr] at ho
  rw [ho]
  exact (List.prefix_append_right_inj pre).mpr (List.prefix_append src _)

theorem prefix_overwrite_of_le {pre buf : List α} {off : ℕ} (src : List α) (h : pre <+: buf) (hl : pre.length ≤ off) :
    pre <+: overwrite buf off src := by
  obtain ⟨rest, rfl⟩ := h
  obtain ⟨k, rfl⟩ := Nat.exists_eq_add_of_le hl
  rw [overwrite_append_right]
  exact List.prefix_append _ _

theorem getElem?_slice (xs : List α) (off n i : ℕ) :
    (slice xs off n)[i]? = if i < n then xs[off + i]? else none := by
  simp only [slice, List.getElem?_take, List.getElem?_drop]

theorem length_slice (xs : List α) (off n : ℕ) : (slice xs off n).length = min n (xs.length - off) := by
  simp [slice]

theorem length_slice_of_le {xs : List α} {off n : ℕ} (h : off + n ≤ xs.length) :
    (slice xs off n).length = n := by
  rw [length_slice]; omega

theorem slice_congr {xs ys : List α} {off n : ℕ}
    (h : ∀ i, off ≤ i → i < off + n → xs[i]? = ys[i]?) : slice xs off n = slice ys off n := by
  apply List.ext_getElem?
  intro i
  rw [getElem?_slice, getElem?_slice]
  split_ifs with hi
  · exact h _ (by omega) (by omega)
  · rfl

theorem slice_overwrite_apart {buf src : List α} {off n o : ℕ}
    (h : off + n ≤ o ∨ o + src.length ≤ off) : slice (overwrite buf o src) off n = slice buf off n :=
  slice_congr fun i _ _ => getElem?_overwrite_outside (by omega)

theorem slice_overwrite_self (buf src : List α) (off : ℕ) (h : off + src.length ≤ buf.length) :
    slice (overwrite buf off src) off src.length = src := by
  apply List.ext_getElem?
  intro i
  rw [getElem?_slice]
  split_ifs with hi
  · rw [getElem?_overwrite_inside (by omega) (by omega) (by omega), Nat.add_sub_cancel_left]
  · rw [List.getElem?_eq_none (by omega)]

theorem slice_append (pre mid post : List α) : slice (pre ++ (mid ++ post)) pre.length mid.length = mid := by
  simp [slice]

theorem slice_append_right (pre rest : List α) (off n : ℕ) :
    slice (pre ++ rest) (pre.length + off) n = slice rest off n := by
  simp [slice]

theorem slice_prefix {xs ys : List α} {off n : ℕ} (hp : xs <+: ys) (h : off + n ≤ xs.length) :
    slice ys off n = slice xs off n := by
  obtain ⟨rest, rfl⟩ := hp
  exact slice_congr fun i _ hi => List.getElem?_append_left (by omega)

theorem slice_take {xs : List α} {off n k : ℕ} (h : off + n ≤ k) : slice (xs.take k) off n = slice xs off n :=
  slice_congr fun i _ hi => List.getElem?_take_of_lt (by omega)

theorem slice_slice {xs : List α} {off n o k : ℕ} (h : o + k ≤ n) :
    slice (slice xs off n) o k = slice xs (off + o) k := by
  apply List.ext_getElem?
  intro i
  simp only [getElem?_slice]
  split_ifs with h₁ h₂
  · rw [Nat.add_assoc]
  · omega
  · rfl

theorem slice_zero (xs : List α) (n : ℕ) : slice xs 0 n = xs.take n := rfl

def pushWithin (cap : ℕ) (xs : List α) (x : α) : List α := if xs.length < cap then xs ++ [x] else xs

theorem pushWithin_of_lt {cap : ℕ} {xs : List α} (x : α) (h : xs.length < cap) :
    pushWithin cap xs x = xs ++ [x] := if_pos h

theorem foldl_pushWithin (cap : ℕ) (xs ys : List α) (h : xs.length ≤ cap) :
    ys.foldl (pushWithin cap) xs = xs ++ ys.take (cap - xs.length) := by
  induction ys generalizing xs with
  | nil => simp
  | cons y ys ih =>
    rw [List.foldl_cons]
    by_cases hlt : xs.length < cap
    · have he : cap - xs.length = (cap - (xs.length + 1)) + 1 := by omega
      rw [pushWithin_of_lt y hlt, ih _ (by simp; omega), List.length_append, List.length_singleton, he,
        List.take_succ_cons, List.append_assoc, List.singleton_append]
    · have hc : cap - xs.length = 0 := by omega
      rw [pushWithin, if_neg hlt, ih _ h, hc, List.take_zero, List.take_zero]

end Library.Segment
