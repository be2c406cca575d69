import EcMaster.SelfHealing
import EcMaster.Wrapping

namespace EcMaster

namespace Stream

variable {lead : ℕ} {cycle : UInt32}

theorem start_zero_single (n : ℕ) (hn : n + 2 < 2 ^ 32) : ((start 0).rounds 1 1 (n + 2)).Single 0 := by
  have h : ((start 0).rounds 1 1 2).Single 0 := ⟨by decide, by decide, by decide, ⟨0, by decide⟩, ⟨0, by decide⟩⟩
  have hc : ((start 0).rounds 1 1 2).cycle.toNat = 2 := rfl
  rw [rounds_add]
  exact h.onTime_rounds hc.ge n (by rw [hc]; omega)

theorem start_zero_feeds (n : ℕ) (hn : n + 1 < 2 ^ 32) : ((start 0).rounds 1 1 n).feeds 1 1 = true := by
  rcases n with _ | _ | n
  · decide
  · decide
  · have hs := start_zero_single n (by omega)
    have hc : ((start 0).rounds 1 1 (n + 2)).cycle.toNat = n + 2 := by
      rw [rounds_cycle]
      change (0 + UInt32.ofNat (n + 2)).toNat = _
      rw [zero_add, UInt32.toNat_ofNat']
      omega
    exact (hs.onTime (by omega) (by omega)).1

theorem start_zero_roomy (n : ℕ) (hn : n < 2 ^ 32) : ((start 0).rounds 1 1 n).refuses 1 1 = false := by
  rcases n with _ | _ | n
  · decide
  · decide
  · exact (start_zero_single n (by omega)).roomy

theorem start_zero_starves {n : ℕ} (hn : n + 1 = 2 ^ 32) : ((start 0).rounds 1 1 n).feeds 1 1 = false := by
  obtain ⟨m, rfl⟩ : ∃ m, n = m + 2 := ⟨n - 2, by omega⟩
  have hs := start_zero_single m (by omega)
  have hc : ((start 0).rounds 1 1 (m + 2)).cycle + 1 = 0 := by
    rw [rounds_cycle]
    change 0 + UInt32.ofNat (m + 2) + 1 = 0
    apply UInt32.toNat_inj.mp
    have h1 : (1 : UInt32).toNat = 1 := rfl
    have h0 : (0 : UInt32).toNat = 0 := rfl
    rw [zero_add, UInt32.toNat_add, UInt32.toNat_ofNat', h1, h0]
    omega
  have hlast := hs.lastCycleIndex
  have hnext := hs.nextTag
  have hl : ((start 0).rounds 1 1 (m + 2)).lastCycleIndex + 1 = 0 - 2 := by grind
  have hz : ((start 0).rounds 1 1 (m + 2)).nextTag = 0 := by grind
  apply hs.resync_ne
  rw [resync, hl, hz, hc]
  decide

theorem start_late_single (h₀ : cycle ≠ 0) (hd : cycle.toNat < 2 ^ 31) (n : ℕ) :
    ((start cycle).rounds 1 1 n).refuses 1 1 = false ∧ ((start cycle).rounds 1 1 n).feeds 1 1 = false := by
  by_cases hc : cycle = 1
  · rw [hc]
    rcases n with _ | _ | n
    · decide
    · decide
    · have h : ((start 1).rounds 1 1 2).Single 1 := ⟨by decide, by decide, by decide, ⟨0, by decide⟩, ⟨0, by decide⟩⟩
      obtain ⟨late, hl, hs⟩ := h.late_rounds (Or.inl rfl) n
      rw [rounds_add]
      exact ⟨hs.roomy, (hs.late hl).1⟩
  · have hlate : 2 * 1 ≤ cycle.toNat := by
      by_contra hlt
      have hcases : cycle.toNat = 0 ∨ cycle.toNat = 1 := by omega
      rcases hcases with hz | hz
      · exact h₀ (UInt32.toNat_inj.mp hz)
      · exact hc (UInt32.toNat_inj.mp hz)
    have ht₀ := start_trailing hlate hd le_rfl
    have ht₁ := start_round_trailing le_rfl (by decide) hlate hd
    have hstart := start_rounds le_rfl (by decide) hlate hd
    rcases n with _ | _ | n
    · exact ⟨ht₀.roomy (by decide), ht₀.not_finds (by decide)⟩
    · exact ⟨ht₁.roomy (by decide), ht₁.not_finds (by decide)⟩
    · have hr := caughtUp_resync (by decide) hlate hd
      have h : ({ caughtUp cycle 1 with nextTag := (caughtUp cycle 1).resync } : Stream).Single 2 := by
        refine ⟨rfl, ?_, ?_, ⟨0, ?_⟩, ⟨0, rfl⟩⟩
        · change (caughtUp cycle 1).resync + 2 = cycle + 2 + 1
          rw [hr]
          grind
        · rfl
        · change some (cycle + 1, 0) = some (cycle + 2 - 1, 0)
          congr 2
          grind
      obtain ⟨late, hl, hs⟩ := h.late_rounds (Or.inr rfl) n
      have hn : (start cycle).rounds 1 1 (n + 1 + 1) = (caughtUp cycle 1).rounds 1 1 n := by
        rw [← hstart, rounds_head, rounds_head]
      rw [hn, ← refuses_resync, ← feeds_resync]
      exact ⟨hs.roomy, (hs.late hl).1⟩

theorem start_cycle (n : ℕ) (hn : cycle.toNat + n < 2 ^ 32) :
    ((start cycle).rounds lead lead n).cycle.toNat = cycle.toNat + n := by
  rw [rounds_cycle]
  change (cycle + UInt32.ofNat n).toNat = _
  rw [UInt32.toNat_add, UInt32.toNat_ofNat']
  omega

theorem start_fed_until (h₂ : 2 ≤ lead) (h₁₁ : lead ≤ 11) (hd : cycle.toNat < 2 ^ 31) (n : ℕ) :
    (start cycle).Fed lead lead n ↔ cycle.toNat + n < 2 ^ 32 := by
  have hs := start_settles h₂ h₁₁ hd
  have hc : ((start cycle).rounds lead lead 10).cycle.toNat = cycle.toNat + 10 := start_cycle 10 (by omega)
  constructor
  · intro hf
    by_contra hn
    obtain ⟨j, hj⟩ : ∃ j, cycle.toNat + (j + 10) + 1 = 2 ^ 32 := ⟨2 ^ 32 - 11 - cycle.toNat, by omega⟩
    have hfeeds : ((start cycle).rounds lead lead 10).feeds lead lead = true :=
      (hs.fed (by omega) (by omega) (by omega) 0 (by omega)).2
    have hdry : (((start cycle).rounds lead lead 10).rounds lead lead j).feeds lead lead = false :=
      hs.starves (by omega) (by omega) (by omega) j (by omega)
    rw [← rounds_add, hf.steady (j + 10) (by omega) 10 (by omega) hfeeds] at hdry
    exact absurd hdry (by decide)
  · intro hn
    have hfed := start_fed h₂ h₁₁ hd
    have hlater : ∀ i, cycle.toNat + (i + 10) + 1 < 2 ^ 32 →
        ((start cycle).rounds lead lead (i + 10)).refuses lead lead = false ∧
          ((start cycle).rounds lead lead (i + 10)).feeds lead lead = true := by
      intro i hi
      rw [rounds_add]
      exact hs.fed (by omega) (by omega) (by omega) i (by omega)
    refine ⟨fun i hi => ?_, fun j hj i hi hf => ?_⟩
    · rcases Nat.lt_or_ge i 10 with h | h
      · exact hfed.room i h
      · obtain ⟨i, rfl⟩ : ∃ m, i = m + 10 := ⟨i - 10, by omega⟩
        exact (hlater i (by omega)).1
    · rcases Nat.lt_or_ge j 10 with h | h
      · exact hfed.steady j h i hi hf
      · obtain ⟨j, rfl⟩ : ∃ m, j = m + 10 := ⟨j - 10, by omega⟩
        exact (hlater j (by omega)).2

theorem start_fed_single (hd : cycle.toNat < 2 ^ 31) (n : ℕ) :
    (start cycle).Fed 1 1 n ↔ cycle.toNat + n < 2 ^ 32 ∨ cycle ≠ 0 := by
  by_cases h₀ : cycle = 0
  · rw [h₀]
    have hz : (0 : UInt32).toNat = 0 := rfl
    constructor
    · intro hf
      by_contra hn
      obtain ⟨j, hj⟩ : ∃ j, j + 1 = 2 ^ 32 := ⟨2 ^ 32 - 1, by omega⟩
      have hfirst := start_zero_feeds 0 (by omega)
      have hdry := start_zero_starves hj
      rw [hf.steady j (by omega) 0 (by omega) hfirst] at hdry
      exact absurd hdry (by decide)
    · intro hn
      have hn : n < 2 ^ 32 := by
        rcases hn with hn | hn
        · omega
        · exact absurd rfl hn
      exact ⟨fun i hi => start_zero_roomy i (by omega), fun j hj i hi hf => start_zero_feeds j (by omega)⟩
  · refine ⟨fun _ => Or.inr h₀, fun _ => ⟨fun i _ => (start_late_single h₀ hd i).1, fun j _ i _ hf => ?_⟩⟩
    rw [(start_late_single h₀ hd i).2] at hf
    exact absurd hf (by decide)

/-- The lead is at most 11, the start is in the lower half of the clock, and the clock does not wrap while samples
are applied: with a lead of one they never are, except after a start in cycle 0. -/
def Sustained (lead : ℕ) (cycle : UInt32) (n : ℕ) : Prop :=
  lead ≤ 11 ∧ cycle.toNat < 2 ^ 31 ∧ (cycle.toNat + n < 2 ^ 32 ∨ lead = 1 ∧ cycle ≠ 0)

theorem start_fed_of (h₁ : 1 ≤ lead) {n : ℕ} (h : Sustained lead cycle n) : (start cycle).Fed lead lead n := by
  obtain ⟨h₁₁, hd, hw⟩ := h
  rcases h₁.eq_or_lt with rfl | h₂
  · exact (start_fed_single hd n).mpr (hw.imp_right fun h => h.2)
  · have hne : ¬ (lead = 1 ∧ cycle ≠ 0) := fun h => by omega
    exact (start_fed_until h₂ h₁₁ hd n).mpr (hw.resolve_right hne)

theorem sustained_of_fed (h₁ : 1 ≤ lead) (h₃₂ : lead ≤ 32) (hc : cycle.toNat + 33 < 2 ^ 32) {n : ℕ} (hn : 33 ≤ n)
    (hf : (start cycle).Fed lead lead n) : Sustained lead cycle n := by
  by_cases hd : cycle.toNat < 2 ^ 31
  · rcases Nat.lt_or_ge 11 lead with h₁₂ | h₁₁
    · obtain ⟨i, hi, hr⟩ := start_overshoots h₁₂ h₃₂ hd
      rw [hf.room i (by omega)] at hr
      exact absurd hr (by decide)
    · refine ⟨h₁₁, hd, ?_⟩
      rcases h₁.eq_or_lt with rfl | h₂
      · exact ((start_fed_single hd n).mp hf).imp_right fun h => ⟨rfl, h⟩
      · exact Or.inl ((start_fed_until h₂ h₁₁ hd n).mp hf)
  · obtain ⟨i, hi, hr⟩ := (start_blocks (not_lt.mp hd) hc :
      ∃ i < 33, ((start cycle).rounds lead lead i).refuses lead lead = true)
    rw [hf.room i (by omega)] at hr
    exact absurd hr (by decide)

end Stream

namespace MotionRing

def refusesAny (r : MotionRing) : MotionQueue → Bool
  | [] => false
  | x :: xs => !(r.push x.1 x.2).1 || refusesAny (r.push x.1 x.2).2 xs

theorem refusesAny_iff (r : MotionRing) (xs : MotionQueue) :
    r.refusesAny xs = true ↔ motionRingDepth < r.len + xs.length := by
  induction xs generalizing r with
  | nil => simp [refusesAny, r.len_le]
  | cons x xs ih =>
    rw [refusesAny, Bool.or_eq_true, ih, List.length_cons]
    rcases r.len_le.lt_or_eq with h | h
    · have hp : (r.push x.1 x.2).1 = true ∧ (r.push x.1 x.2).2.len = r.len + 1 := by
        rw [push, dif_neg (by omega)]
        exact ⟨rfl, rfl⟩
      rw [hp.1, hp.2]
      simp only [Bool.not_true, Bool.false_eq_true, false_or]
      omega
    · rw [push_full h]
      simp only [Bool.not_false, true_or, true_iff]
      omega

end MotionRing

namespace LockStep

variable {L : Layout}

def Refuses (s : LockStep L) (r : Round L) : Prop :=
  s.fw.host.motion.refusesAny (frameSamples L (arriving r (s.host.update L r.hal (some s.tx)).1)) = true

/-- In `n` rounds no sample is refused, and no tick goes without a sample once one has had its own. -/
structure NeverStarves (s : LockStep L) (r : ℕ → Round L) (n : ℕ) : Prop where
  room : ∀ i < n, ¬ Refuses (before s r i) (r i)
  steady : ∀ j < n, ∀ i < j, Finds (before s r i) (r i) → Finds (before s r j) (r j)

theorem Tracks.refuses (hL : L.Streams) {target : ℕ} {s : LockStep L} {a : Stream} (h : Tracks target s a) {r : Round L}
    (hr : r.corrupted = none) : Refuses s r ↔ a.refuses target L.maxSamplesPerFrame = true := by
  have hsends := s.host.buildFrame_sends hL.sampleFits hL.fields hL.cap_pos hL.cap_lt r.hal
  have harr : arriving r (s.host.update L r.hal (some s.tx)).1 = (s.host.buildFrame L r.hal).1 := by
    rw [arriving, hr]
    rfl
  have hlen : (frameSamples L (s.host.buildFrame L r.hal).1).length = a.want target L.maxSamplesPerFrame := by
    rw [← List.length_map (f := Prod.fst), hsends.tags, List.length_map, List.length_range, h.want]
  have hring : s.fw.host.motion.len = a.ring.length := by
    rw [← MotionRing.length_samples, ← h.ring, List.length_map]
  rw [Refuses, harr, MotionRing.refusesAny_iff, hlen, hring, Stream.refuses, decide_eq_true_iff]

theorem neverStarves_iff_fed (hL : L.Streams) {target : ℕ} {s : LockStep L} {a : Stream} (h : Tracks target s a)
    {r : ℕ → Round L} {n : ℕ} (hr : ∀ i < n, (r i).corrupted = none) :
    NeverStarves s r n ↔ a.Fed target L.maxSamplesPerFrame n := by
  have ht : ∀ i < n, Tracks target (before s r i) (a.rounds target L.maxSamplesPerFrame i) := by
    intro i hi
    exact tracks_before hL h r i fun j hj => hr j (by omega)
  have hroom : ∀ i < n, Refuses (before s r i) (r i) ↔
      (a.rounds target L.maxSamplesPerFrame i).refuses target L.maxSamplesPerFrame = true :=
    fun i hi => (ht i hi).refuses hL (hr i hi)
  have hfinds : ∀ i < n, Finds (before s r i) (r i) ↔
      (a.rounds target L.maxSamplesPerFrame i).feeds target L.maxSamplesPerFrame = true := by
    intro i hi
    have hf := (ht i hi).finds hL (r i)
    rwa [hr i hi] at hf
  constructor
  · intro hs
    refine ⟨fun i hi => ?_, fun j hj i hi hf => ?_⟩
    · exact Bool.eq_false_iff.mpr fun hn => hs.room i hi ((hroom i hi).mpr hn)
    · exact (hfinds j hj).mp (hs.steady j hj i hi ((hfinds i (by omega)).mpr hf))
  · intro hs
    refine ⟨fun i hi hn => ?_, fun j hj i hi hf => ?_⟩
    · have hn := (hroom i hi).mp hn
      rw [hs.room i hi] at hn
      exact absurd hn (by decide)
    · exact (hfinds j hj).mpr (hs.steady j hj i hi ((hfinds i (by omega)).mp hf))

/-- A run of intact rounds is fed if its lead, its start and its length are among those that can be sustained; and
in 33 rounds no other run is. -/
theorem neverStarves_sustained (hL : L.Streams) (h₃₂ : L.maxSamplesPerFrame ≤ 32) (slaves : List CyclicSlave)
    (cycleNs : UInt64) (index : UInt8) (ticks : List (Device × UInt32)) (hticks : ticks.length < 2 ^ 32)
    (r : ℕ → Round L) (n : ℕ) (hr : ∀ i < n, (r i).corrupted = none) :
    (Stream.Sustained L.maxSamplesPerFrame (UInt32.ofNat ticks.length) n →
      NeverStarves (loaded L slaves cycleNs index ticks) r n) ∧
    (33 ≤ n → ticks.length + 33 < 2 ^ 32 → NeverStarves (loaded L slaves cycleNs index ticks) r n →
      Stream.Sustained L.maxSamplesPerFrame (UInt32.ofNat ticks.length) n) := by
  have hc : (UInt32.ofNat ticks.length).toNat = ticks.length := by
    rw [UInt32.toNat_ofNat']
    omega
  rw [neverStarves_iff_fed hL (loaded_tracks hL slaves cycleNs index ticks hticks) hr]
  refine ⟨Stream.start_fed_of hL.cap_pos, fun hn ht => ?_⟩
  exact Stream.sustained_of_fed hL.cap_pos h₃₂ (by rw [hc]; exact ht) hn

def intactRound (L : Layout) : Round L := ⟨idleHal, none, Device.receiving [], 0⟩

theorem neverStarves_sustained_two :
    NeverStarves (loaded (oneDrive 2) [⟨0x1001, 0⟩] 1000000 0 []) (fun _ => intactRound _) 40 :=
  (neverStarves_sustained (oneDrive_streams (by decide) (by decide)) (by decide) _ _ _ [] (by decide) _ 40
    fun _ _ => rfl).1 ⟨by decide, by decide, Or.inl (by decide)⟩

theorem lead_overshoots : ¬ ∀ L : Layout, L.Streams → L.maxSamplesPerFrame ≤ 32 → ∀ slaves cycleNs index
    (ticks : List (Device × UInt32)), ticks.length < 2 ^ 32 → ∀ (r : ℕ → Round L) n, (∀ i < n, (r i).corrupted = none) →
      NeverStarves (loaded L slaves cycleNs index ticks) r n := by
  intro h
  have hL : (oneDrive 12).Streams := oneDrive_streams (by decide) (by decide)
  have hn := h _ hL (by decide) [⟨0x1001, 0⟩] 1000000 0 [] (by decide) (fun _ => intactRound _) 6 fun _ _ => rfl
  have hf := (neverStarves_iff_fed hL (loaded_tracks hL _ _ _ [] (by decide)) fun _ _ => rfl).mp hn
  obtain ⟨i, hi, hr⟩ := (Stream.start_overshoots le_rfl (by decide) (by decide) :
    ∃ i < 6, ((Stream.start 0).rounds 12 12 i).refuses 12 12 = true)
  have hroom := hf.room i hi
  change ((Stream.start 0).rounds 12 12 i).refuses 12 12 = false at hroom
  rw [hroom] at hr
  exact absurd hr (by decide)

end LockStep

end EcMaster
