import EcMaster.LostFrame
import EcMaster.Settling

namespace EcMaster

open Library.SerialNumber

namespace Stream

variable {target cap k lead : ℕ} {a : Stream}

def refuses (target cap : ℕ) (a : Stream) : Bool := motionRingDepth < a.ring.length + a.want target cap

def feeds (target cap : ℕ) (a : Stream) : Bool := (a.afterFrame target cap false).finds

structure Fed (target cap : ℕ) (a : Stream) (n : ℕ) : Prop where
  room : ∀ i < n, (a.rounds target cap i).refuses target cap = false
  steady : ∀ j < n, ∀ i < j, (a.rounds target cap i).feeds target cap = true → (a.rounds target cap j).feeds target cap = true

def checkFed (target cap : ℕ) : ℕ → Bool → Stream → Bool
  | 0, _, _ => true
  | n + 1, started, a =>
    !a.refuses target cap && (!started || a.feeds target cap) &&
      checkFed target cap n (started || a.feeds target cap) (a.round target cap false)

theorem checkFed_sound {n : ℕ} {started : Bool} (h : checkFed target cap n started a = true) :
    (∀ i < n, (a.rounds target cap i).refuses target cap = false) ∧
      ∀ j < n, (started = true ∨ ∃ i < j, (a.rounds target cap i).feeds target cap = true) →
        (a.rounds target cap j).feeds target cap = true := by
  induction n generalizing started a with
  | zero => exact ⟨fun i hi => absurd hi (by omega), fun j hj => absurd hj (by omega)⟩
  | succ n ih =>
    simp only [checkFed, Bool.and_eq_true, Bool.not_eq_true', Bool.or_eq_true] at h
    obtain ⟨⟨hroom, hfeeds⟩, hrest⟩ := h
    obtain ⟨h₁, h₂⟩ := ih hrest
    refine ⟨fun i hi => ?_, fun j hj hs => ?_⟩
    · cases i with
      | zero => exact hroom
      | succ i =>
        rw [rounds_head]
        exact h₁ i (by omega)
    · cases j with
      | zero =>
        rcases hs with hs | ⟨i, hi, -⟩
        · rcases hfeeds with hf | hf
          · rw [hs] at hf
            exact absurd hf (by decide)
          · exact hf
        · exact absurd hi (by omega)
      | succ j =>
        rw [rounds_head]
        apply h₂ j (by omega)
        rcases hs with hs | ⟨i, hi, hf⟩
        · exact Or.inl (by rw [hs, Bool.true_or])
        · cases i with
          | zero => exact Or.inl (by rw [show a.feeds target cap = true from hf, Bool.or_true])
          | succ i =>
            rw [rounds_head] at hf
            exact Or.inr ⟨i, by omega, hf⟩

theorem fed_of_check {n : ℕ} (h : checkFed target cap n false a = true) : a.Fed target cap n := by
  obtain ⟨h₁, h₂⟩ := checkFed_sound h
  exact ⟨h₁, fun j hj i hi hf => h₂ j hj (Or.inr ⟨i, hi, hf⟩)⟩

theorem refuses_shift (d : UInt32) : (a.shift d).refuses target cap = a.refuses target cap := by
  have hl : (a.shift d).ring.length = a.ring.length := List.length_map _
  rw [refuses, refuses, hl]
  rfl

theorem feeds_shift (h : a.Low) {d : UInt32} (hd : d.toNat + 1024 < 2 ^ 32) :
    (a.shift d).feeds target cap = a.feeds target cap := by
  have hc : a.cycle + d + 1 = a.cycle + 1 + d := by grind
  rw [feeds, feeds, afterFrame_shift h hd]
  simp only [finds, shift, afterFrame, hc, Tags.ready_shift]

theorem refuses_resync (n : ℕ) : (({ a with nextTag := a.resync } : Stream).rounds target cap n).refuses target cap =
    (a.rounds target cap n).refuses target cap := by
  cases n with
  | zero => rfl
  | succ n => rw [rounds_head, rounds_head, round_resync]

theorem feeds_resync (n : ℕ) : (({ a with nextTag := a.resync } : Stream).rounds target cap n).feeds target cap =
    (a.rounds target cap n).feeds target cap := by
  cases n with
  | zero =>
    change ({ a with nextTag := a.resync } : Stream).feeds target cap = a.feeds target cap
    simp only [feeds, afterFrame, sent, resync_resync]
    rfl
  | succ n => rw [rounds_head, rounds_head, round_resync]

theorem Trailing.roomy {m : ℕ} (h : a.Trailing lead m) (hl : lead ≤ 32) : a.refuses lead lead = false := by
  have hd : motionRingDepth = 32 := rfl
  rw [refuses, h.ring, h.want, decide_eq_false_iff_not, List.length_nil]
  omega

theorem Settled.roomy (h : a.Settled target k) (hcap : 0 < cap) : a.refuses target cap = false := by
  have hk := h.target_lt
  have hd : motionRingDepth = 32 := rfl
  have hlt := h.lt_depth
  have hw := want_full hcap h.primed h.full
  rw [refuses, hw, h.ring, Tags.length_ahead, decide_eq_false_iff_not]
  omega

structure Blocked (a : Stream) : Prop where
  head : a.ring.head? = some 1
  cycle : 2 ^ 31 ≤ a.cycle.toNat

theorem want_pos : 0 < a.want target cap := by
  simp only [want]
  split_ifs <;> omega

theorem ring_afterFrame (h : a.refuses target cap = false) :
    (a.afterFrame target cap false).ring = a.ring ++ a.sent target cap := by
  rw [refuses, decide_eq_false_iff_not] at h
  have hl : (a.sent target cap).length = a.want target cap := by simp [sent]
  simp only [afterFrame, Bool.false_eq_true, ↓reduceIte]
  rw [List.take_of_length_le (by omega)]

theorem rest_blocked {c : UInt32} (hc : 2 ^ 31 < c.toNat) (tl : List UInt32) : Tags.rest (1 :: tl) c = 1 :: tl := by
  have h1 : (1 : UInt32).toNat = 1 := rfl
  have hs : (c - 1).toNat = c.toNat - 1 := UInt32.toNat_sub_of_le _ _ (UInt32.le_iff_toNat_le.mpr (by omega))
  have hb : cycleBefore 1 c = false := by
    rw [Bool.eq_false_iff, Ne, cycleBefore_iff, Before, hs]
    omega
  have hf : Tags.fresh (1 :: tl) c = 1 :: tl := by
    rw [Tags.fresh, List.dropWhile_cons_of_neg (by simp [hb])]
  have hr : Tags.ready (1 :: tl) c = false := by
    rw [Tags.ready, hf, List.head?_cons, beq_eq_false_iff_ne]
    intro he
    have ht := congrArg UInt32.toNat (Option.some.inj he)
    omega
  rw [Tags.rest, hr, hf, if_neg (by decide)]

theorem Blocked.round (h : a.Blocked) (hc : a.cycle.toNat + 1 < 2 ^ 32) (hroom : a.refuses target cap = false) :
    (a.round target cap false).Blocked ∧
      (a.round target cap false).ring.length = a.ring.length + a.want target cap := by
  have h1 : (1 : UInt32).toNat = 1 := rfl
  have hcycle : (a.cycle + 1).toNat = a.cycle.toNat + 1 := by
    rw [UInt32.toNat_add, h1]
    omega
  have hlow := h.cycle
  obtain ⟨tl, htl⟩ := List.head?_eq_some_iff.mp h.head
  have hring : (a.round target cap false).ring = 1 :: (tl ++ a.sent target cap) := by
    change Tags.rest (a.afterFrame target cap false).ring (a.cycle + 1) = _
    rw [ring_afterFrame hroom, htl, List.cons_append, rest_blocked (by omega)]
  refine ⟨⟨by rw [hring]; rfl, ?_⟩, ?_⟩
  · change 2 ^ 31 ≤ (a.cycle + 1).toNat
    omega
  · rw [hring, htl]
    simp [sent]
    omega

theorem start_blocks {cycle : UInt32} (hc : 2 ^ 31 ≤ cycle.toNat)
    (hd : cycle.toNat + 33 < 2 ^ 32) : ∃ i < 33, ((start cycle).rounds lead lead i).refuses lead lead = true := by
  by_contra hno
  have hroom : ∀ i < 33, ((start cycle).rounds lead lead i).refuses lead lead = false := by
    intro i hi
    by_contra hr
    exact hno ⟨i, hi, by simpa using hr⟩
  have hrun : ∀ i, i < 33 → ((start cycle).rounds lead lead (i + 1)).Blocked ∧
      i < ((start cycle).rounds lead lead (i + 1)).ring.length := by
    intro i
    induction i with
    | zero =>
      intro _
      have h1 : (1 : UInt32).toNat = 1 := rfl
      have hcyc : (cycle + 1).toNat = cycle.toNat + 1 := by
        rw [UInt32.toNat_add, h1]
        omega
      obtain ⟨tl, htl⟩ : ∃ tl, (start cycle).sent lead lead = 1 :: tl := by
        obtain ⟨w, hw⟩ : ∃ w, (start cycle).want lead lead = w + 1 := ⟨_, (Nat.sub_add_cancel want_pos).symm⟩
        rw [sent, hw, List.range_succ_eq_map]
        exact ⟨_, rfl⟩
      have hring : ((start cycle).rounds lead lead 1).ring = 1 :: tl := by
        change Tags.rest ((start cycle).afterFrame lead lead false).ring (cycle + 1) = _
        have hr : ((start cycle).afterFrame lead lead false).ring = 1 :: tl := by
          have hf : (start cycle).refuses lead lead = false := hroom 0 (by decide)
          rw [ring_afterFrame hf, htl]
          rfl
        rw [hr]
        exact rest_blocked (by omega) tl
      refine ⟨⟨by rw [hring]; rfl, ?_⟩, by rw [hring]; exact Nat.succ_pos _⟩
      change 2 ^ 31 ≤ (cycle + 1).toNat
      omega
    | succ i ih =>
      intro hi
      obtain ⟨hb, hlen⟩ := ih (by omega)
      have hcyc : ((start cycle).rounds lead lead (i + 1)).cycle.toNat = cycle.toNat + (i + 1) := by
        rw [rounds_cycle, UInt32.toNat_add, UInt32.toNat_ofNat']
        change (cycle.toNat + (i + 1) % 2 ^ 32) % 2 ^ 32 = _
        omega
      obtain ⟨hb', hlen'⟩ := hb.round (by omega) (hroom (i + 1) hi)
      have hw : 0 < ((start cycle).rounds lead lead (i + 1)).want lead lead := want_pos
      rw [rounds_succ]
      exact ⟨hb', by omega⟩
  have hlast := hroom 32 (by decide)
  have hlen : 31 < ((start cycle).rounds lead lead 32).ring.length := (hrun 31 (by decide)).2
  have hw : 0 < ((start cycle).rounds lead lead 32).want lead lead := want_pos
  rw [refuses, decide_eq_false_iff_not] at hlast
  have hdepth : motionRingDepth = 32 := rfl
  omega

theorem start_overshoots (h₁₂ : 12 ≤ lead) (h₃₂ : lead ≤ 32) {cycle : UInt32} (hd : cycle.toNat < 2 ^ 31) :
    ∃ i < 6, ((start cycle).rounds lead lead i).refuses lead lead = true := by
  by_cases hc : cycle.toNat < 2 * lead
  · have h : ∀ l < 21, ∀ c < 2 * (l + 12), ∃ i < 6,
        ((start (UInt32.ofNat c)).rounds (l + 12) (l + 12) i).refuses (l + 12) (l + 12) = true := by decide +kernel
    have hl := h (lead - 12) (by omega) cycle.toNat (by omega)
    rwa [Nat.sub_add_cancel h₁₂, UInt32.ofNat_toNat] at hl
  · have h : ∀ l < 21, ∃ i < 3,
        ((caughtUpEarly (l + 12)).rounds (l + 12) (l + 12) (i + 1)).refuses (l + 12) (l + 12) = true := by decide +kernel
    obtain ⟨i, hi, hr⟩ := h (lead - 12) (by omega)
    rw [Nat.sub_add_cancel h₁₂] at hr
    refine ⟨i + 1 + 2, by omega, ?_⟩
    rw [late_rounds (by omega) h₃₂ (by omega) hd (by omega), refuses_shift]
    exact hr

theorem start_fed (h₂ : 2 ≤ lead) (h₁₁ : lead ≤ 11) {cycle : UInt32} (hd : cycle.toNat < 2 ^ 31) :
    (start cycle).Fed lead lead 10 := by
  by_cases hc : cycle.toNat < 2 * lead
  · have h : ∀ l < 10, ∀ c < 2 * (l + 2), checkFed (l + 2) (l + 2) 10 false (start (UInt32.ofNat c)) = true := by
      decide +kernel
    have hl := h (lead - 2) (by omega) cycle.toNat (by omega)
    rw [Nat.sub_add_cancel h₂, UInt32.ofNat_toNat] at hl
    exact fed_of_check hl
  · have hc := not_lt.mp hc
    have h : ∀ l < 10, checkFed (l + 2) (l + 2) 8 false (caughtUpEarly (l + 2)) = true := by decide +kernel
    have hfed := h (lead - 2) (by omega)
    rw [Nat.sub_add_cancel h₂] at hfed
    have hfed := fed_of_check hfed
    have h₃₂ : lead ≤ 32 := by omega
    have ht₀ := start_trailing hc hd (by omega)
    have ht₁ := start_round_trailing (by omega) h₃₂ hc hd
    have hlate : ∀ i < 8, ((start cycle).rounds lead lead (i + 2)).refuses lead lead =
          ((caughtUpEarly lead).rounds lead lead i).refuses lead lead ∧
        ((start cycle).rounds lead lead (i + 2)).feeds lead lead =
          ((caughtUpEarly lead).rounds lead lead i).feeds lead lead := by
      intro i hi
      have hlow := caughtUp_low (by omega) h₃₂
      have hshift : ((caughtUpEarly lead).shift (cycle - UInt32.ofNat (2 * lead))).rounds lead lead i = _ :=
        rounds_shift (late_shift h₃₂ hc hd) i fun j hj => hlow j (by omega)
      rw [rounds_add, rounds_two, start_rounds (by omega) h₃₂ hc hd, ← refuses_resync, ← feeds_resync,
        caughtUp_shift h₃₂ hc hd, hshift, refuses_shift, feeds_shift (hlow i hi) (late_shift h₃₂ hc hd)]
      exact ⟨rfl, rfl⟩
    refine ⟨fun i hi => ?_, fun j hj i hi hf => ?_⟩
    · rcases i with _ | _ | i
      · exact ht₀.roomy h₃₂
      · exact ht₁.roomy h₃₂
      · rw [(hlate i (by omega)).1]
        exact hfed.room i (by omega)
    · rcases i with _ | _ | i
      · exact absurd hf (by rw [show ((start cycle).rounds lead lead 0).feeds lead lead = false from ht₀.not_finds h₃₂]; decide)
      · exact absurd hf (by rw [show ((start cycle).rounds lead lead 1).feeds lead lead = false from ht₁.not_finds h₃₂]; decide)
      · obtain ⟨j, rfl⟩ : ∃ n, j = n + 2 := ⟨j - 2, by omega⟩
        rw [(hlate i (by omega)).2] at hf
        rw [(hlate j (by omega)).2]
        exact hfed.steady j (by omega) i (by omega) hf

end Stream

end EcMaster
