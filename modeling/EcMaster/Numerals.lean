import EcMaster.Cli

namespace EcMaster.Cli

def numeral (radix : ℕ) (s : Text) : Option ℕ :=
  let t := (stripPrefix "+".toList s).getD s
  if t = [] then none else (t.mapM (toDigit radix)).map fun ds => Nat.ofDigits radix ds.reverse

def unsigned (s : Text) : Option ℕ :=
  let s := trim s
  match (stripPrefix "0x".toList s).or (stripPrefix "0X".toList s) with
  | some h => numeral 16 h
  | none =>
    match (stripPrefix "0b".toList s).or (stripPrefix "0B".toList s) with
    | some b => numeral 2 b
    | none => numeral 10 s

def signed (s : Text) : Option ℤ :=
  match stripPrefix "-".toList (trim s) with
  | some rest => (unsigned rest).map fun n : ℕ => -(n : ℤ)
  | none => (unsigned (trim s)).map fun n : ℕ => (n : ℤ)

theorem ofDigits_snoc (radix v : ℕ) (ds : List ℕ) :
    Nat.ofDigits radix (ds.reverse ++ [v]) = Nat.ofDigits radix ds.reverse + radix ^ ds.length * v := by
  rw [Nat.ofDigits_append, Nat.ofDigits_singleton, List.length_reverse]

theorem ofDigits_shift (radix v d : ℕ) (ds : List ℕ) :
    Nat.ofDigits radix ((d :: ds).reverse ++ [v]) = Nat.ofDigits radix (ds.reverse ++ [v * radix + d]) := by
  rw [List.reverse_cons, List.append_assoc, List.singleton_append, Nat.ofDigits_append, Nat.ofDigits_append,
    Nat.ofDigits_cons, Nat.ofDigits_singleton, Nat.ofDigits_singleton, Nat.add_comm d, Nat.mul_comm radix]

theorem filter_fits {n : ℕ} (h : n < 2 ^ 64) : (some n).filter (· < 2 ^ 64) = some n := if_pos (decide_eq_true h)

theorem filter_big {n : ℕ} (h : ¬ n < 2 ^ 64) : (some n).filter (· < 2 ^ 64) = none :=
  if_neg fun hn => h (of_decide_eq_true hn)

theorem digitsFrom_eq {radix : ℕ} (hr : 0 < radix) {v : ℕ} (hv : v < 2 ^ 64) (s : Text) : digitsFrom radix v s =
    ((s.mapM (toDigit radix)).map fun ds => Nat.ofDigits radix (ds.reverse ++ [v])).filter (· < 2 ^ 64) := by
  induction s generalizing v with
  | nil =>
    rw [digitsFrom, List.mapM_nil]
    exact ((congrArg _ (congrArg some (Nat.ofDigits_singleton (b := radix) (n := v)))).trans (filter_fits hv)).symm
  | cons c s ih =>
    rw [digitsFrom, List.mapM_cons]
    cases toDigit radix c with
    | none => rfl
    | some d =>
      dsimp only
      split_ifs with hfit
      · rw [ih hfit]
        cases s.mapM (toDigit radix) with
        | none => rfl
        | some ds => exact congrArg (fun n => Option.filter _ (some n)) (ofDigits_shift radix v d ds).symm
      · cases s.mapM (toDigit radix) with
        | none => rfl
        | some ds =>
          have hbig : v * radix + d ≤ Nat.ofDigits radix ((d :: ds).reverse ++ [v]) := by
            rw [ofDigits_shift, ofDigits_snoc]
            exact Nat.le_add_left_of_le (Nat.le_mul_of_pos_left _ (Nat.pow_pos hr))
          exact (filter_big fun h => hfit (hbig.trans_lt h)).symm

theorem fromStrRadix_eq {radix : ℕ} (hr : 0 < radix) (s : Text) :
    fromStrRadix radix s = (numeral radix s).filter (· < 2 ^ 64) := by
  have hzero : ∀ t, digitsFrom radix 0 t =
      ((t.mapM (toDigit radix)).map fun ds => Nat.ofDigits radix ds.reverse).filter (· < 2 ^ 64) := by
    intro t
    rw [digitsFrom_eq hr (by decide)]
    congr 2
    funext ds
    rw [ofDigits_snoc, mul_zero, add_zero]
  cases s with
  | nil => rfl
  | cons c s =>
    by_cases hc : c = '+'
    · subst hc
      cases s with
      | nil => rfl
      | cons c s => exact hzero (c :: s)
    · have hstrip : stripPrefix "+".toList (c :: s) = none := by
        simp [stripPrefix, List.isPrefixOf, Ne.symm hc]
      have hcode : fromStrRadix radix (c :: s) = digitsFrom radix 0 (c :: s) := by
        rw [fromStrRadix]
        · exact List.cons_ne_nil c s
        · exact fun h => hc (List.cons.inj h).1
        · exact fun _ h => hc (List.cons.inj h).1
      rw [hcode, hzero, numeral, hstrip]
      rfl

theorem parseUint_eq (s : Text) : parseUint s = (unsigned s).filter (· < 2 ^ 64) := by
  rw [parseUint, unsigned]
  cases (stripPrefix "0x".toList (trim s)).or (stripPrefix "0X".toList (trim s)) with
  | some h => exact fromStrRadix_eq (by decide) h
  | none =>
    cases (stripPrefix "0b".toList (trim s)).or (stripPrefix "0B".toList (trim s)) with
    | some b => exact fromStrRadix_eq (by decide) b
    | none => exact fromStrRadix_eq (by decide) (trim s)

theorem unsigned_of_parse {s : Text} {n : ℕ} (h : parseUint s = some n) : unsigned s = some n := by
  rw [parseUint_eq] at h
  exact Option.eq_some_of_filter_eq_some h

end EcMaster.Cli
