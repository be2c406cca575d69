import Mathlib

/-!
A round-robin cursor that is moved in every other slot only. `visits` lists the
positions that the cursor is moved to, and twice as many slots as positions
visit each position once, wherever the cursor and the flag stand at the start.
-/

namespace Library.RoundRobin

def visits (n : ℕ) : Bool → ℕ → ℕ → List ℕ
  | _, _, 0 => []
  | true, m, k + 1 => visits n false m k
  | false, m, k + 1 => ((m + 1) % n) :: visits n true ((m + 1) % n) k

theorem range_succ_visited (n m k : ℕ) :
    (List.range (k + 1)).map (fun i => (m + 1 + i) % n) =
      ((m + 1) % n) :: (List.range k).map fun i => ((m + 1) % n + 1 + i) % n := by
  rw [List.range_succ_eq_map, List.map_cons, List.map_map]
  congr 1
  apply List.map_congr_left
  intro i _
  change (m + 1 + (i + 1)) % n = _
  rw [add_assoc ((m + 1) % n), Nat.mod_add_mod, Nat.add_comm i 1]

theorem visits_eq (n k : ℕ) : ∀ m,
    visits n false m k = (List.range ((k + 1) / 2)).map (fun i => (m + 1 + i) % n) ∧
      visits n true m k = (List.range (k / 2)).map fun i => (m + 1 + i) % n := by
  induction k with
  | zero => exact fun m => ⟨rfl, rfl⟩
  | succ k ih =>
    intro m
    constructor
    · rw [visits, (ih ((m + 1) % n)).2, show (k + 1 + 1) / 2 = k / 2 + 1 by omega, range_succ_visited]
    · rw [visits, (ih m).1]

theorem visits_double (n : ℕ) (flag : Bool) (m k : ℕ) :
    visits n flag m (2 * k) = (List.range k).map fun i => (m + 1 + i) % n := by
  obtain ⟨h₁, h₂⟩ := visits_eq n (2 * k) m
  cases flag with
  | false => rw [h₁, show (2 * k + 1) / 2 = k by omega]
  | true => rw [h₂, show 2 * k / 2 = k by omega]

theorem visits_perm (n : ℕ) (flag : Bool) (m : ℕ) : (visits n flag m (2 * n)).Perm (List.range n) := by
  have hr : visits n flag m (2 * n) = (List.range n).rotate (m + 1) := by
    rw [visits_double]
    apply List.ext_getElem
    · simp
    · intro i _ _
      rw [List.getElem_map, List.getElem_rotate, List.getElem_range, List.getElem_range, List.length_range,
        Nat.add_comm i]
  rw [hr]
  exact List.rotate_perm _ _

theorem mem_visits {n j : ℕ} (h : j < n) (flag : Bool) (m : ℕ) : j ∈ visits n flag m (2 * n) :=
  (visits_perm n flag m).mem_iff.mpr (List.mem_range.mpr h)

theorem filterMap_range {α : Type*} (xs : List α) : (List.range xs.length).filterMap (fun i => xs[i]?) = xs := by
  induction xs using List.reverseRecOn with
  | nil => rfl
  | append_singleton xs x ih =>
    have hc : (List.range xs.length).filterMap (fun i => (xs ++ [x])[i]?) =
        (List.range xs.length).filterMap fun i => xs[i]? := by
      apply List.filterMap_congr
      intro j hj
      exact List.getElem?_append_left (List.mem_range.mp hj)
    rw [List.length_append, List.length_singleton, List.range_succ, List.filterMap_append, hc, ih]
    simp

theorem visited_perm {α : Type*} (xs : List α) (flag : Bool) (m : ℕ) :
    ((visits xs.length flag m (2 * xs.length)).filterMap fun i => xs[i]?).Perm xs := by
  have h := (visits_perm xs.length flag m).filterMap fun i => xs[i]?
  rwa [filterMap_range] at h

end Library.RoundRobin
