import EcMaster.Stream

namespace EcMaster

namespace Stream

variable {target cap k i : ℕ} {a : Stream}

theorem ofNat_ne {m n : ℕ} (hm : m < 2 ^ 32) (hn : n < 2 ^ 32) (h : m ≠ n) (c : UInt32) :
    c + UInt32.ofNat m ≠ c + UInt32.ofNat n := by
  intro he
  have ht := congrArg UInt32.toNat (show UInt32.ofNat m = UInt32.ofNat n by grind)
  rw [UInt32.toNat_ofNat', UInt32.toNat_ofNat', Nat.mod_eq_of_lt hm, Nat.mod_eq_of_lt hn] at ht
  exact h ht

structure Draining (target k : ℕ) (c : UInt32) (i : ℕ) (a : Stream) : Prop where
  target_lt : target < k
  lt_depth : k < motionRingDepth
  lt : i < k
  cycle : a.cycle = c + UInt32.ofNat (i + 1)
  ring : ∃ later : List UInt32, a.ring = Tags.ahead a.cycle (k - 1 - i) ++ later ∧
    (later.length = i ∨ later.length = i + 1) ∧ c + UInt32.ofNat (k + 1) ∉ later
  nextTag : a.nextTag = c + UInt32.ofNat (k + 2 + i) ∨ a.nextTag = c + UInt32.ofNat i
  primed : a.primed = true
  lastCycleIndex : a.lastCycleIndex + 1 = c + UInt32.ofNat i
  lastBufDepth : target ≤ a.lastBufDepth
  tx : ∃ depth, a.tx = some (c + UInt32.ofNat i, depth) ∧ target ≤ depth
  reply : ∃ depth, a.reply = some (a.cycle, depth) ∧ target ≤ depth

theorem Settled.misses (h : a.Settled target k) (hcap : 0 < cap) (lost : Bool) (later : List UInt32)
    (hring : (a.afterFrame target cap lost).ring = Tags.ahead a.cycle k ++ later)
    (hlen : later.length = 0 ∨ later.length = 1) (hnot : a.cycle + UInt32.ofNat (k + 1) ∉ later) :
    Draining target k a.cycle 0 (a.round target cap lost) := by
  have hk := h.target_lt
  have hd : motionRingDepth = 32 := rfl
  have hlt := h.lt_depth
  have hzero : UInt32.ofNat 0 = 0 := rfl
  have hwant := want_full hcap h.primed h.full
  have hrest : Tags.rest (a.afterFrame target cap lost).ring (a.cycle + 1) = Tags.ahead (a.cycle + 1) (k - 1) ++ later := by
    have hs : k = k - 1 + 1 := by omega
    rw [hring, hs, Tags.ahead_cons, List.cons_append, Tags.rest_due, Nat.add_sub_cancel]
  obtain ⟨cycle, htx, hcycle⟩ := h.tx
  refine ⟨hk, hlt, by omega, rfl, ⟨later, hrest, hlen, hnot⟩, ?_, rfl, ?_, ?_, ⟨k, ?_, hk.le⟩,
    ⟨k - 1 + later.length, ?_, by omega⟩⟩
  · change a.resync + UInt32.ofNat (a.want target cap) = _ ∨ a.resync + UInt32.ofNat (a.want target cap) = _
    have hlast := h.lastCycleIndex
    rw [hwant, resync, hzero]
    split_ifs
    · exact Or.inr (by grind)
    · rw [h.nextTag, Nat.add_zero, UInt32.ofNat_add k 2, UInt32.ofNat_add k 1]
      exact Or.inl (by grind)
  · change (a.tx.map Prod.fst).getD a.lastCycleIndex + 1 = a.cycle + UInt32.ofNat 0
    rw [htx, ← hcycle, hzero]
    simp
  · change target ≤ (a.tx.map Prod.snd).getD a.lastBufDepth
    rw [htx]
    exact hk.le
  · rw [hzero, add_zero]
    exact h.reply
  · change some (a.cycle + 1, min (Tags.rest (a.afterFrame target cap lost).ring (a.cycle + 1)).length 255) = _
    rw [hrest, List.length_append, Tags.length_ahead, min_eq_left (by omega)]
    rfl

theorem Settled.loses (h : a.Settled target k) (hcap : 0 < cap) :
    Draining target k a.cycle 0 (a.round target cap true) := by
  apply h.misses hcap true [] _ (Or.inl rfl) List.not_mem_nil
  rw [List.append_nil]
  exact h.ring

theorem Settled.wraps (h : a.Settled target k) (hcap : 0 < cap) (hwrap : a.nextTag = 0) (hc : 2 ≤ a.cycle.toNat) :
    Draining target k a.cycle 0 (a.round target cap false) := by
  have hd : motionRingDepth = 32 := rfl
  have hlt := h.lt_depth
  have h1 : (1 : UInt32).toNat = 1 := rfl
  have h0 : (0 : UInt32).toNat = 0 := rfl
  have hlast := h.lastCycleIndex
  have hback : a.resync = a.cycle - 1 := by
    have hl : a.lastCycleIndex + 1 = a.cycle - 1 := by grind
    rw [resync, hwrap, hl, if_pos]
    rw [UInt32.lt_iff_toNat_lt, UInt32.toNat_sub_of_le _ _ (UInt32.le_iff_toNat_le.mpr (by omega))]
    omega
  refine h.misses hcap false [a.resync] ?_ (Or.inr rfl) ?_
  · simp only [afterFrame, Bool.false_eq_true, ↓reduceIte, sent_full hcap h.primed h.full]
    rw [List.take_of_length_le (by rw [h.ring]; simp; omega), h.ring]
  · rw [List.mem_singleton, hback]
    have hne := ofNat_ne (m := 0) (n := k + 2) (by omega) (by omega) (by omega) (a.cycle - 1)
    rw [UInt32.ofNat_add k 1]
    rw [UInt32.ofNat_add k 2] at hne
    exact fun he => hne (by grind)

theorem Draining.resync_ne {c : UInt32} (h : Draining target k c i a) : a.resync ≠ c + UInt32.ofNat (k + 1) := by
  have hi := h.lt
  have hd : motionRingDepth = 32 := rfl
  have hlt := h.lt_depth
  rw [resync, h.lastCycleIndex]
  split_ifs
  · exact ofNat_ne (by omega) (by omega) (by omega) c
  · rcases h.nextTag with hn | hn
    · rw [hn]
      exact ofNat_ne (by omega) (by omega) (by omega) c
    · rw [hn]
      exact ofNat_ne (by omega) (by omega) (by omega) c

theorem Draining.ring_afterFrame {c : UInt32} (h : Draining target k c i a) (hcap : 0 < cap) :
    ∃ later : List UInt32, (a.afterFrame target cap false).ring = Tags.ahead a.cycle (k - 1 - i) ++ later ∧
      (later.length = i + 1 ∨ later.length = i + 2) ∧ c + UInt32.ofNat (k + 1) ∉ later := by
  have hi := h.lt
  have hd : motionRingDepth = 32 := rfl
  have hlt := h.lt_depth
  obtain ⟨later, hring, hlen, hnot⟩ := h.ring
  refine ⟨later ++ [a.resync], ?_, by rw [List.length_append, List.length_singleton]; omega, ?_⟩
  · simp only [afterFrame, Bool.false_eq_true, ↓reduceIte, sent_full hcap h.primed h.lastBufDepth]
    rw [List.take_of_length_le (by rw [hring]; simp; omega), hring, List.append_assoc]
  · rw [List.mem_append, List.mem_singleton, not_or]
    exact ⟨hnot, h.resync_ne.symm⟩

theorem Draining.round {c : UInt32} (h : Draining target k c i a) (hcap : 0 < cap) (hi : i + 1 < k) :
    Draining target k c (i + 1) (a.round target cap false) := by
  have hk := h.target_lt
  have hd : motionRingDepth = 32 := rfl
  have hlt := h.lt_depth
  have hcycle : a.cycle + 1 = c + UInt32.ofNat (i + 1 + 1) := by
    rw [h.cycle, UInt32.ofNat_add (i + 1) 1, ← add_assoc]
    rfl
  obtain ⟨later, hring, hlen, hnot⟩ := h.ring_afterFrame hcap
  have hrest : Tags.rest (a.afterFrame target cap false).ring (a.cycle + 1) =
      Tags.ahead (a.cycle + 1) (k - 1 - (i + 1)) ++ later := by
    have hs : k - 1 - i = k - 1 - (i + 1) + 1 := by omega
    rw [hring, hs, Tags.ahead_cons, List.cons_append, Tags.rest_due]
  obtain ⟨depth, htx, hdepth⟩ := h.tx
  obtain ⟨depth', hreply, hdepth'⟩ := h.reply
  refine ⟨hk, hlt, hi, hcycle, ⟨later, hrest, hlen, hnot⟩, ?_, rfl, ?_, ?_, ⟨depth', ?_, hdepth'⟩,
    ⟨k - 1 - (i + 1) + later.length, ?_, by omega⟩⟩
  · change a.resync + UInt32.ofNat (a.want target cap) = _ ∨ a.resync + UInt32.ofNat (a.want target cap) = _
    rw [want_full hcap h.primed h.lastBufDepth, resync, h.lastCycleIndex]
    split_ifs
    · exact Or.inr (by rw [UInt32.ofNat_add i 1, add_assoc])
    · rcases h.nextTag with hn | hn
      · exact Or.inl (by rw [hn, ← Nat.add_assoc, UInt32.ofNat_add (k + 2 + i) 1, add_assoc])
      · exact Or.inr (by rw [hn, UInt32.ofNat_add i 1, add_assoc])
  · change (a.tx.map Prod.fst).getD a.lastCycleIndex + 1 = _
    rw [htx, Option.map_some, Option.getD_some, UInt32.ofNat_add i 1, ← add_assoc]
    rfl
  · change target ≤ (a.tx.map Prod.snd).getD a.lastBufDepth
    rw [htx]
    exact hdepth
  · rw [← h.cycle]
    exact hreply
  · change some (a.cycle + 1, min (Tags.rest (a.afterFrame target cap false).ring (a.cycle + 1)).length 255) = _
    rw [hrest, List.length_append, Tags.length_ahead, min_eq_left (by omega)]
    rfl

theorem Draining.run {c : UInt32} (h : Draining target k c 0 a) (hcap : 0 < cap) (hi : i < k) :
    Draining target k c i (a.rounds target cap i) := by
  induction i with
  | zero => exact h
  | succ i ih =>
    rw [rounds_succ]
    exact (ih (by omega)).round hcap hi

theorem Draining.starves {c : UInt32} (h : Draining target k c (k - 1) a) (hcap : 0 < cap) :
    (a.afterFrame target cap false).finds = false := by
  have hi := h.lt
  obtain ⟨later, hring, -, hnot⟩ := h.ring_afterFrame hcap
  have hcycle : a.cycle + 1 = c + UInt32.ofNat (k + 1) := by
    rw [h.cycle, Nat.sub_add_cancel (by omega), UInt32.ofNat_add, ← add_assoc]
    rfl
  rw [Nat.sub_self, Tags.ahead_zero, List.nil_append] at hring
  rw [finds, hring, Bool.eq_false_iff]
  change Tags.ready later (a.cycle + 1) ≠ true
  rw [hcycle]
  exact fun hr => hnot (Tags.mem_of_ready hr)

end Stream

end EcMaster
