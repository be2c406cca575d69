import EcMaster.Feeding

namespace EcMaster

namespace Stream

variable {target cap k i lead : ℕ} {a : Stream}

theorem Draining.fed {c : UInt32} (h : Draining target k c i a) (hcap : 0 < cap) :
    a.refuses target cap = false ∧ (i + 1 < k → a.feeds target cap = true) := by
  have hd : motionRingDepth = 32 := rfl
  have hlt := h.lt_depth
  have hi := h.lt
  refine ⟨?_, fun hi => ?_⟩
  · obtain ⟨later, hring, hlen, -⟩ := h.ring
    rw [refuses, want_full hcap h.primed h.lastBufDepth, hring, List.length_append, Tags.length_ahead,
      decide_eq_false_iff_not]
    omega
  · obtain ⟨later, hring, -, -⟩ := h.ring_afterFrame hcap
    have hs : k - 1 - i = k - 1 - (i + 1) + 1 := by omega
    rw [feeds, finds, hring, hs, Tags.ahead_cons, List.cons_append]
    exact Tags.ready_due

theorem Settled.drains (h : a.Settled target k) (hcap : 0 < cap) (hc : 2 ≤ a.cycle.toNat) {w : ℕ}
    (hw : a.cycle.toNat + w + k + 1 = 2 ^ 32) (hi : i < k) :
    ∃ c, Draining target k c i (a.rounds target cap (i + (w + 1))) := by
  have hs := h.rounds hcap (by omega) w (by omega)
  have hcycle : (a.rounds target cap w).cycle.toNat = a.cycle.toNat + w := by
    rw [rounds_cycle, UInt32.toNat_add, UInt32.toNat_ofNat']
    omega
  have hnext : (a.rounds target cap w).nextTag = 0 := by
    apply UInt32.toNat_inj.mp
    rw [hs.nextTag, UInt32.toNat_add, hcycle, UInt32.toNat_ofNat']
    change _ = 0
    omega
  have hd := (hs.wraps hcap hnext (by omega)).run hcap hi
  rw [← rounds_succ, ← rounds_add] at hd
  exact ⟨_, hd⟩

theorem Settled.fed (h : a.Settled target k) (hcap : 0 < cap) (hc : 2 ≤ a.cycle.toNat)
    (hk : a.cycle.toNat + k < 2 ^ 32) (n : ℕ) (hn : a.cycle.toNat + n + 1 < 2 ^ 32) :
    (a.rounds target cap n).refuses target cap = false ∧ (a.rounds target cap n).feeds target cap = true := by
  by_cases hw : a.cycle.toNat + n + k < 2 ^ 32
  · have hs := h.rounds hcap (by omega) n hw
    exact ⟨hs.roomy hcap, hs.finds false⟩
  · obtain ⟨i, hi⟩ : ∃ i, n = i + (2 ^ 32 - k - 1 - a.cycle.toNat + 1) :=
      ⟨n - (2 ^ 32 - k - 1 - a.cycle.toNat + 1), by omega⟩
    obtain ⟨c, hd⟩ := h.drains hcap hc (w := 2 ^ 32 - k - 1 - a.cycle.toNat) (i := i) (by omega) (by omega)
    rw [← hi] at hd
    obtain ⟨hroom, hfeeds⟩ := hd.fed hcap
    exact ⟨hroom, hfeeds (by omega)⟩

theorem Settled.starves (h : a.Settled target k) (hcap : 0 < cap) (hc : 2 ≤ a.cycle.toNat)
    (hk : a.cycle.toNat + k < 2 ^ 32) (n : ℕ) (hn : a.cycle.toNat + n + 1 = 2 ^ 32) :
    (a.rounds target cap n).feeds target cap = false := by
  have hpos := h.target_lt
  obtain ⟨c, hd⟩ := h.drains hcap hc (w := 2 ^ 32 - k - 1 - a.cycle.toNat) (i := k - 1) (by omega) (by omega)
  have hi : n = k - 1 + (2 ^ 32 - k - 1 - a.cycle.toNat + 1) := by omega
  rw [← hi] at hd
  exact hd.starves hcap

structure Single (late : UInt32) (a : Stream) : Prop where
  ring : a.ring = []
  nextTag : a.nextTag + late = a.cycle + 1
  lastCycleIndex : a.lastCycleIndex + 2 = a.cycle
  tx : ∃ d, a.tx = some (a.cycle - 1, d)
  reply : ∃ d, a.reply = some (a.cycle, d)

theorem want_single : a.want 1 1 = 1 := by
  simp only [want]
  split_ifs <;> omega

theorem Single.ring_afterFrame {late : UInt32} (h : a.Single late) : (a.afterFrame 1 1 false).ring = [a.resync] := by
  simp only [afterFrame, Bool.false_eq_true, ↓reduceIte, h.ring, sent, want_single]
  simp [motionRingDepth]

theorem Single.roomy {late : UInt32} (h : a.Single late) : a.refuses 1 1 = false := by
  rw [refuses, h.ring, want_single]
  rfl

theorem Single.next {late late' : UInt32} (h : a.Single late) (hr : a.resync + late' = a.cycle + 1)
    (hrest : Tags.rest [a.resync] (a.cycle + 1) = []) : (a.round 1 1 false).Single late' := by
  obtain ⟨d, htx⟩ := h.tx
  obtain ⟨d', hreply⟩ := h.reply
  refine ⟨?_, ?_, ?_, ⟨d', ?_⟩, ⟨_, rfl⟩⟩
  · change Tags.rest (a.afterFrame 1 1 false).ring (a.cycle + 1) = []
    rw [h.ring_afterFrame, hrest]
  · change a.resync + UInt32.ofNat (a.want 1 1) + late' = a.cycle + 1 + 1
    have h1 : UInt32.ofNat 1 = 1 := rfl
    rw [want_single, h1]
    grind
  · change (a.tx.map Prod.fst).getD a.lastCycleIndex + 2 = a.cycle + 1
    rw [htx, Option.map_some, Option.getD_some]
    grind
  · change a.reply = some (a.cycle + 1 - 1, d')
    rw [hreply]
    congr 2
    grind

theorem Single.onTime (h : a.Single 0) (hc : 2 ≤ a.cycle.toNat) (hn : a.cycle.toNat + 1 < 2 ^ 32) :
    a.feeds 1 1 = true ∧ (a.round 1 1 false).Single 0 := by
  have h1 : (1 : UInt32).toNat = 1 := rfl
  have hnext : a.nextTag = a.cycle + 1 := by
    rw [← h.nextTag, add_zero]
  have hr : a.resync = a.cycle + 1 := by
    have hlast := h.lastCycleIndex
    have hl : a.lastCycleIndex + 1 = a.cycle - 1 := by grind
    rw [resync, hnext, hl, if_neg]
    rw [UInt32.lt_iff_toNat_lt, UInt32.toNat_add, h1,
      UInt32.toNat_sub_of_le _ _ (UInt32.le_iff_toNat_le.mpr (by omega))]
    omega
  refine ⟨?_, h.next (by rw [hr, add_zero]) (by rw [hr, Tags.rest_due])⟩
  rw [feeds, finds, h.ring_afterFrame, hr]
  exact Tags.ready_due

theorem Single.resync_ne {late : UInt32} (h : a.Single late) (hr : a.resync ≠ a.cycle + 1) : a.feeds 1 1 = false := by
  rw [feeds, finds, h.ring_afterFrame, Bool.eq_false_iff]
  exact fun hf => hr (List.mem_singleton.mp (Tags.mem_of_ready hf)).symm

theorem Single.late {late : UInt32} (h : a.Single late) (hl : late = 1 ∨ late = 2) :
    a.feeds 1 1 = false ∧ ∃ late', (late' = 1 ∨ late' = 2) ∧ (a.round 1 1 false).Single late' := by
  obtain ⟨late', hl', hr⟩ : ∃ late', (late' = 1 ∨ late' = 2) ∧ a.resync + late' = a.cycle + 1 := by
    rw [resync]
    split_ifs
    · have hlast := h.lastCycleIndex
      exact ⟨2, Or.inr rfl, by grind⟩
    · exact ⟨late, hl, h.nextTag⟩
  have hne : a.resync ≠ a.cycle + 1 := by
    intro he
    rw [he] at hr
    have hz : late' = 0 := by grind
    rcases hl' with hl' | hl' <;> rw [hl'] at hz <;> exact absurd hz (by decide)
  refine ⟨h.resync_ne hne, late', hl', h.next hr ?_⟩
  apply Tags.rest_stale
  intro t ht
  have hd : a.cycle + 1 - a.resync = late' := by grind
  rw [List.mem_singleton.mp ht, cycleBefore, hd]
  rcases hl' with hl' | hl' <;> rw [hl'] <;> decide

theorem Single.late_rounds {late : UInt32} (h : a.Single late) (hl : late = 1 ∨ late = 2) (n : ℕ) :
    ∃ late', (late' = 1 ∨ late' = 2) ∧ (a.rounds 1 1 n).Single late' := by
  induction n with
  | zero => exact ⟨late, hl, h⟩
  | succ n ih =>
    obtain ⟨late', hl', hs⟩ := ih
    rw [rounds_succ]
    exact (hs.late hl').2

theorem Single.onTime_rounds (h : a.Single 0) (hc : 2 ≤ a.cycle.toNat) (n : ℕ) (hn : a.cycle.toNat + n < 2 ^ 32) :
    (a.rounds 1 1 n).Single 0 := by
  induction n with
  | zero => exact h
  | succ n ih =>
    have hcycle : (a.rounds 1 1 n).cycle.toNat = a.cycle.toNat + n := by
      rw [rounds_cycle, UInt32.toNat_add, UInt32.toNat_ofNat']
      omega
    rw [rounds_succ]
    exact ((ih (by omega)).onTime (by omega) (by omega)).2

end Stream

end EcMaster
