import EcMaster.Stream

namespace EcMaster

open Library.SerialNumber

namespace Tags

variable {tags : List UInt32} {current : UInt32}

theorem cycleBefore_of_lt {a b : UInt32} (h : a.toNat < b.toNat) (hb : b.toNat < 2 ^ 31 + a.toNat) :
    cycleBefore a b = true := by
  rw [cycleBefore_iff, Before, UInt32.toNat_sub_of_le _ _ (UInt32.le_iff_toNat_le.mpr h.le)]
  omega

theorem rest_stale (h : ∀ t ∈ tags, cycleBefore t current = true) : rest tags current = [] := by
  have hf : fresh tags current = [] := List.dropWhile_eq_nil_iff.mpr h
  rw [rest, hf]
  split_ifs <;> rfl

variable (d : UInt32)

theorem fresh_shift : fresh (tags.map (· + d)) (current + d) = (fresh tags current).map (· + d) := by
  rw [fresh, fresh, List.dropWhile_map]
  congr 2
  funext t
  rw [Function.comp_apply, cycleBefore, cycleBefore]
  congr 4
  grind

theorem ready_shift : ready (tags.map (· + d)) (current + d) = ready tags current := by
  rw [ready, ready, fresh_shift]
  cases fresh tags current with
  | nil => rfl
  | cons t tl => simp

theorem rest_shift : rest (tags.map (· + d)) (current + d) = (rest tags current).map (· + d) := by
  rw [rest, rest, ready_shift, fresh_shift]
  split_ifs
  · rw [List.map_tail]
  · rfl

theorem ahead_shift (c : UInt32) (k : ℕ) : (ahead c k).map (· + d) = ahead (c + d) k := by
  rw [ahead, ahead, List.map_map]
  apply List.map_congr_left
  intro i _
  rw [Function.comp_apply]
  grind

end Tags

namespace Stream

variable {target cap k : ℕ} {a : Stream}

def shift (d : UInt32) (a : Stream) : Stream :=
  { a with
    nextTag := a.nextTag + d
    lastCycleIndex := a.lastCycleIndex + d
    cycle := a.cycle + d
    ring := a.ring.map (· + d)
    tx := a.tx.map fun p => (p.1 + d, p.2)
    reply := a.reply.map fun p => (p.1 + d, p.2) }

def Low (a : Stream) : Prop := a.nextTag.toNat < 512 ∧ a.lastCycleIndex.toNat < 512

instance (a : Stream) : Decidable a.Low := inferInstanceAs (Decidable (_ ∧ _))

theorem resync_shift (h : a.Low) {d : UInt32} (hd : d.toNat + 1024 < 2 ^ 32) : (a.shift d).resync = a.resync + d := by
  obtain ⟨hn, hl⟩ := h
  have h1 : (1 : UInt32).toNat = 1 := rfl
  have hlt : a.nextTag + d < a.lastCycleIndex + d + 1 ↔ a.nextTag < a.lastCycleIndex + 1 := by
    simp only [UInt32.lt_iff_toNat_lt, UInt32.toNat_add, h1]
    omega
  rw [resync, resync]
  change (if a.nextTag + d < a.lastCycleIndex + d + 1 then a.lastCycleIndex + d + 1 else a.nextTag + d) = _
  simp only [hlt]
  split_ifs
  · grind
  · rfl

theorem afterFrame_shift (h : a.Low) {d : UInt32} (hd : d.toNat + 1024 < 2 ^ 32) :
    (a.shift d).afterFrame target cap false = (a.afterFrame target cap false).shift d := by
  have hr := resync_shift h hd
  have hw : (a.shift d).want target cap = a.want target cap := rfl
  have hs : (a.shift d).sent target cap = (a.sent target cap).map (· + d) := by
    rw [sent, sent, hr, hw, List.map_map]
    apply List.map_congr_left
    intro j _
    rw [Function.comp_apply]
    grind
  have hl : (a.shift d).ring.length = a.ring.length := List.length_map _
  rw [afterFrame, hr, hw, hs, hl]
  simp only [afterFrame, shift, Bool.false_eq_true, ↓reduceIte, List.map_append, List.map_take]
  congr 1
  · grind
  · cases a.tx <;> rfl
  · cases a.tx <;> rfl

theorem afterTick_shift (d : UInt32) : (a.shift d).afterTick = a.afterTick.shift d := by
  have hc : a.cycle + d + 1 = a.cycle + 1 + d := by grind
  simp only [afterTick, shift, hc, Tags.rest_shift, List.length_map, Option.map_some]

theorem rounds_shift {d : UInt32} (hd : d.toNat + 1024 < 2 ^ 32) (n : ℕ)
    (h : ∀ i < n, (a.rounds target cap i).Low) :
    (a.shift d).rounds target cap n = (a.rounds target cap n).shift d := by
  induction n with
  | zero => rfl
  | succ n ih =>
    rw [rounds_succ, rounds_succ, ih fun i hi => h i (by omega), round, round,
      afterFrame_shift (h n (by omega)) hd, afterTick_shift]

theorem Settled.shift (h : a.Settled target k) (d : UInt32) : (a.shift d).Settled target k := by
  obtain ⟨cycle, htx, hcycle⟩ := h.tx
  refine ⟨h.target_lt, h.lt_depth, ?_, ?_, h.primed, ?_, h.lastBufDepth, ⟨cycle + d, ?_, ?_⟩, ?_⟩
  · simp only [Stream.shift, h.ring, Tags.ahead_shift]
  · simp only [Stream.shift, h.nextTag]
    grind
  · simp only [Stream.shift, ← h.lastCycleIndex]
    grind
  · simp only [Stream.shift, htx, Option.map_some]
  · simp only [Stream.shift, ← hcycle]
    grind
  · simp only [Stream.shift, h.reply, Option.map_some]

def steady (cycle : UInt32) (k : ℕ) : Stream :=
  ⟨cycle + UInt32.ofNat (k + 1), true, cycle - 2, k, cycle, Tags.ahead cycle k, some (cycle - 1, k), some (cycle, k)⟩

theorem steady_settled (ht : target < k) (hk : k < motionRingDepth) (cycle : UInt32) :
    (steady cycle k).Settled target k := by
  refine ⟨ht, hk, rfl, rfl, rfl, ?_, rfl, ⟨cycle - 1, rfl, ?_⟩, rfl⟩
  · change cycle - 2 + 2 = cycle
    grind
  · change cycle - 1 + 1 = cycle
    grind

def start (cycle : UInt32) : Stream :=
  ⟨0, false, 0, 0, cycle, [], none, if cycle = 0 then none else some (cycle, 0)⟩

def caughtUp (cycle : UInt32) (lead : ℕ) : Stream :=
  ⟨UInt32.ofNat (2 * lead + 1), true, cycle, 0, cycle + 2, [], some (cycle + 1, 0), some (cycle + 2, 0)⟩

theorem rest_sent {lead m : ℕ} {c : UInt32} (hm : m + lead ≤ c.toNat) (hc : c.toNat < 2 ^ 31 + m) :
    Tags.rest ((List.range lead).map fun j => UInt32.ofNat m + UInt32.ofNat j) c = [] := by
  apply Tags.rest_stale
  intro t ht
  obtain ⟨j, hj, rfl⟩ := List.mem_map.mp ht
  have hj := List.mem_range.mp hj
  have hmj : (UInt32.ofNat m + UInt32.ofNat j).toNat = m + j := by
    have hlt := c.toNat_lt
    rw [← UInt32.ofNat_add, UInt32.toNat_ofNat']
    omega
  exact Tags.cycleBefore_of_lt (by omega) (by omega)

structure Trailing (lead m : ℕ) (a : Stream) : Prop where
  ring : a.ring = []
  want : a.want lead lead = lead
  resync : a.resync = UInt32.ofNat m
  stale : m + lead ≤ (a.cycle + 1).toNat
  near : (a.cycle + 1).toNat < 2 ^ 31 + m

theorem Trailing.ring_afterFrame {lead m : ℕ} (h : a.Trailing lead m) (hl : lead ≤ 32) :
    (a.afterFrame lead lead false).ring = (List.range lead).map fun j => UInt32.ofNat m + UInt32.ofNat j := by
  have hsent : a.sent lead lead = (List.range lead).map fun j => UInt32.ofNat m + UInt32.ofNat j := by
    rw [sent, h.want, h.resync]
  simp only [afterFrame, Bool.false_eq_true, ↓reduceIte, h.ring, hsent, List.nil_append, List.length_nil, Nat.sub_zero]
  have hd : motionRingDepth = 32 := rfl
  exact List.take_of_length_le (by rw [List.length_map, List.length_range]; omega)

theorem Trailing.round {lead m : ℕ} (h : a.Trailing lead m) (hl : lead ≤ 32) :
    a.round lead lead false = ⟨UInt32.ofNat (m + lead), true, (a.tx.map Prod.fst).getD a.lastCycleIndex,
      (a.tx.map Prod.snd).getD a.lastBufDepth, a.cycle + 1, [], a.reply, some (a.cycle + 1, 0)⟩ := by
  have hrest : Tags.rest (a.afterFrame lead lead false).ring (a.cycle + 1) = [] := by
    rw [h.ring_afterFrame hl, rest_sent h.stale h.near]
  have hc : (a.afterFrame lead lead false).cycle = a.cycle := rfl
  have hn : (a.afterFrame lead lead false).nextTag = UInt32.ofNat (m + lead) := by
    rw [afterFrame, h.want, h.resync, ← UInt32.ofNat_add]
  rw [Stream.round, afterTick, hc, hrest, hn]
  rfl

theorem Trailing.not_finds {lead m : ℕ} (h : a.Trailing lead m) (hl : lead ≤ 32) :
    (a.afterFrame lead lead false).finds = false := by
  rw [finds, h.ring_afterFrame hl, Bool.eq_false_iff]
  intro hr
  obtain ⟨j, hj, hm⟩ := List.mem_map.mp (Tags.mem_of_ready hr)
  have hj := List.mem_range.mp hj
  have hs := h.stale
  have ht := congrArg UInt32.toNat hm
  rw [← UInt32.ofNat_add, UInt32.toNat_ofNat'] at ht
  change (m + j) % 2 ^ 32 = (a.cycle + 1).toNat at ht
  have hlt := (a.cycle + 1).toNat_lt
  omega

section LateStart

variable {lead : ℕ} {cycle : UInt32}

theorem start_trailing (hc : 2 * lead ≤ cycle.toNat) (hd : cycle.toNat < 2 ^ 31) (h₁ : 1 ≤ lead) :
    (start cycle).Trailing lead 1 := by
  have hone : (1 : UInt32).toNat = 1 := rfl
  have h1 : ((start cycle).cycle + 1).toNat = cycle.toNat + 1 := by
    change (cycle + 1).toNat = _
    rw [UInt32.toNat_add, hone]
    omega
  refine ⟨rfl, ?_, rfl, by omega, by omega⟩
  simp only [want, start, Bool.not_false, ↓reduceIte, gt_iff_lt, lt_irrefl]
  exact if_neg (by omega)

theorem start_round (h₁ : 1 ≤ lead) (h₃₂ : lead ≤ 32) (hc : 2 * lead ≤ cycle.toNat) (hd : cycle.toNat < 2 ^ 31) :
    (start cycle).round lead lead false =
      ⟨UInt32.ofNat (1 + lead), true, 0, 0, cycle + 1, [], some (cycle, 0), some (cycle + 1, 0)⟩ := by
  have hne : cycle ≠ 0 := by
    rintro rfl
    have hz : (0 : UInt32).toNat = 0 := rfl
    omega
  rw [(start_trailing hc hd h₁).round h₃₂, start, if_neg hne]
  rfl

theorem start_round_trailing (h₁ : 1 ≤ lead) (h₃₂ : lead ≤ 32) (hc : 2 * lead ≤ cycle.toNat)
    (hd : cycle.toNat < 2 ^ 31) : ((start cycle).round lead lead false).Trailing lead (1 + lead) := by
  have hone : (1 : UInt32).toNat = 1 := rfl
  have h2 : (cycle + 1 + 1).toNat = cycle.toNat + 2 := by
    rw [UInt32.toNat_add, UInt32.toNat_add, hone]
    omega
  rw [start_round h₁ h₃₂ hc hd]
  refine ⟨rfl, ?_, ?_, ?_, ?_⟩
  · have hlead : 0 < lead := h₁
    simp only [want, Bool.not_true, Bool.false_eq_true, ↓reduceIte, if_pos hlead, Nat.sub_zero]
    split_ifs <;> omega
  · rw [resync, if_neg]
    change ¬ UInt32.ofNat (1 + lead) < 0 + 1
    rw [UInt32.lt_iff_toNat_lt, UInt32.toNat_ofNat', UInt32.toNat_add, hone]
    have hz : (0 : UInt32).toNat = 0 := rfl
    omega
  · change _ ≤ (cycle + 1 + 1).toNat
    omega
  · change (cycle + 1 + 1).toNat < _
    omega

theorem start_rounds (h₁ : 1 ≤ lead) (h₃₂ : lead ≤ 32) (hc : 2 * lead ≤ cycle.toNat) (hd : cycle.toNat < 2 ^ 31) :
    ((start cycle).round lead lead false).round lead lead false = caughtUp cycle lead := by
  have hs : 1 + lead + lead = 2 * lead + 1 := by omega
  have hcc : cycle + 1 + 1 = cycle + 2 := by grind
  rw [(start_round_trailing h₁ h₃₂ hc hd).round h₃₂, start_round h₁ h₃₂ hc hd, caughtUp, hs]
  simp only [hcc]
  rfl

end LateStart

theorem resync_resync : ({ a with nextTag := a.resync } : Stream).resync = a.resync := by
  have hr : ({ a with nextTag := a.resync } : Stream).resync =
      if a.resync < a.lastCycleIndex + 1 then a.lastCycleIndex + 1 else a.resync := rfl
  by_cases h : a.nextTag < a.lastCycleIndex + 1
  · have hs : a.resync = a.lastCycleIndex + 1 := if_pos h
    rw [hr, hs, ite_self]
  · have hs : a.resync = a.nextTag := if_neg h
    rw [hr, hs, if_neg h]

theorem round_resync : ({ a with nextTag := a.resync } : Stream).round target cap false = a.round target cap false := by
  simp only [round, afterFrame, sent, resync_resync]
  rfl

theorem early_settles {lead : ℕ} (h₂ : 2 ≤ lead) (h₁₁ : lead ≤ 11) {c : ℕ} (hc : c < 2 * lead) :
    (start (UInt32.ofNat c)).rounds lead lead 10 = steady (UInt32.ofNat (c + 10)) (3 * lead - 2) := by
  have h : ∀ i < 10, ∀ c < 2 * (i + 2), (start (UInt32.ofNat c)).rounds (i + 2) (i + 2) 10 =
      steady (UInt32.ofNat (c + 10)) (3 * (i + 2) - 2) := by decide +kernel
  have hl := h (lead - 2) (by omega) c (by omega)
  rwa [Nat.sub_add_cancel h₂] at hl

def caughtUpEarly (lead : ℕ) : Stream := caughtUp (UInt32.ofNat (2 * lead)) lead

theorem caughtUp_low {lead : ℕ} (h₁ : 1 ≤ lead) (h₃₂ : lead ≤ 32) : ∀ i < 8, ((caughtUpEarly lead).rounds lead lead i).Low := by
  have h : ∀ l < 32, ∀ i < 8, ((caughtUpEarly (l + 1)).rounds (l + 1) (l + 1) i).Low := by decide +kernel
  have hl := h (lead - 1) (by omega)
  rwa [Nat.sub_add_cancel h₁] at hl

theorem caughtUp_settles {lead : ℕ} (h₂ : 2 ≤ lead) (h₁₁ : lead ≤ 11) :
    (caughtUpEarly lead).rounds lead lead 8 = steady (UInt32.ofNat (2 * lead + 10)) (3 * lead - 2) := by
  have h : ∀ i < 10, (caughtUpEarly (i + 2)).rounds (i + 2) (i + 2) 8 =
      steady (UInt32.ofNat (2 * (i + 2) + 10)) (3 * (i + 2) - 2) := by decide +kernel
  have hl := h (lead - 2) (by omega)
  rwa [Nat.sub_add_cancel h₂] at hl

theorem caughtUp_resync {lead : ℕ} (h₃₂ : lead ≤ 32) {cycle : UInt32} (hc : 2 * lead ≤ cycle.toNat)
    (hd : cycle.toNat < 2 ^ 31) : (caughtUp cycle lead).resync = cycle + 1 := by
  have hone : (1 : UInt32).toNat = 1 := rfl
  have hlt : UInt32.ofNat (2 * lead + 1) < cycle + 1 ∨ UInt32.ofNat (2 * lead + 1) = cycle + 1 := by
    rw [UInt32.lt_iff_toNat_lt, ← UInt32.toNat_inj, UInt32.toNat_ofNat', UInt32.toNat_add, hone]
    omega
  rw [resync]
  change (if UInt32.ofNat (2 * lead + 1) < cycle + 1 then cycle + 1 else UInt32.ofNat (2 * lead + 1)) = _
  rcases hlt with hlt | heq
  · rw [if_pos hlt]
  · rw [heq, ite_self]

theorem caughtUp_shift {lead : ℕ} (h₃₂ : lead ≤ 32) {cycle : UInt32} (hc : 2 * lead ≤ cycle.toNat)
    (hd : cycle.toNat < 2 ^ 31) :
    { caughtUp cycle lead with nextTag := (caughtUp cycle lead).resync } =
      (caughtUpEarly lead).shift (cycle - UInt32.ofNat (2 * lead)) := by
  have hb : UInt32.ofNat (2 * lead + 1) = UInt32.ofNat (2 * lead) + 1 := UInt32.ofNat_add _ 1
  generalize hz : UInt32.ofNat (2 * lead) = z at hb ⊢
  have h0 : z + (cycle - z) = cycle := by grind
  have h1 : z + 1 + (cycle - z) = cycle + 1 := by grind
  have h2 : z + 2 + (cycle - z) = cycle + 2 := by grind
  rw [caughtUp_resync h₃₂ hc hd]
  simp only [shift, caughtUpEarly, caughtUp, hz, hb, h0, h1, h2, List.map_nil, Option.map_some]

theorem late_shift {lead : ℕ} (h₃₂ : lead ≤ 32) {cycle : UInt32} (hc : 2 * lead ≤ cycle.toNat)
    (hd : cycle.toNat < 2 ^ 31) : (cycle - UInt32.ofNat (2 * lead)).toNat + 1024 < 2 ^ 32 := by
  have hb : (UInt32.ofNat (2 * lead)).toNat = 2 * lead := by
    rw [UInt32.toNat_ofNat']
    omega
  rw [UInt32.toNat_sub_of_le _ _ (UInt32.le_iff_toNat_le.mpr (by omega)), hb]
  omega

theorem late_rounds {lead : ℕ} (h₁ : 1 ≤ lead) (h₃₂ : lead ≤ 32) {cycle : UInt32} (hc : 2 * lead ≤ cycle.toNat)
    (hd : cycle.toNat < 2 ^ 31) {n : ℕ} (hn : n < 8) :
    (start cycle).rounds lead lead (n + 1 + 2) =
      ((caughtUpEarly lead).rounds lead lead (n + 1)).shift (cycle - UInt32.ofNat (2 * lead)) := by
  rw [rounds_add, rounds_two, start_rounds h₁ h₃₂ hc hd, rounds_head, ← round_resync, caughtUp_shift h₃₂ hc hd,
    ← rounds_head, rounds_shift (late_shift h₃₂ hc hd) _ fun i hi => caughtUp_low h₁ h₃₂ i (by omega)]

theorem start_settles {lead : ℕ} (h₂ : 2 ≤ lead) (h₁₁ : lead ≤ 11) {cycle : UInt32} (hd : cycle.toNat < 2 ^ 31) :
    ((start cycle).rounds lead lead 10).Settled lead (3 * lead - 2) := by
  have hdepth : motionRingDepth = 32 := rfl
  by_cases hc : cycle.toNat < 2 * lead
  · rw [← UInt32.ofNat_toNat (x := cycle), early_settles h₂ h₁₁ hc]
    exact steady_settled (by omega) (by omega) _
  · rw [late_rounds (n := 7) (by omega) (by omega) (by omega) hd (by omega), caughtUp_settles h₂ h₁₁]
    exact (steady_settled (by omega) (by omega) _).shift _

theorem rounds_cycle (n : ℕ) : (a.rounds target cap n).cycle = a.cycle + UInt32.ofNat n := by
  induction n with
  | zero => exact (add_zero _).symm
  | succ n ih =>
    rw [rounds_succ, UInt32.ofNat_add n 1, ← add_assoc, ← ih]
    rfl

theorem Settled.rounds (h : a.Settled target k) (hcap : 0 < cap) (hpos : 0 < a.cycle.toNat) (n : ℕ)
    (hn : a.cycle.toNat + n + k < 2 ^ 32) : (a.rounds target cap n).Settled target k := by
  induction n with
  | zero => exact h
  | succ n ih =>
    have hc : (a.rounds target cap n).cycle.toNat = a.cycle.toNat + n := by
      rw [rounds_cycle, UInt32.toNat_add, UInt32.toNat_ofNat']
      omega
    rw [rounds_succ]
    exact (ih (by omega)).round hcap (by omega) (by omega)

end Stream

end EcMaster
