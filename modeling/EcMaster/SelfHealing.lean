import EcMaster.LockStep
import EcMaster.LostFrame
import EcMaster.Settling

namespace EcMaster

open Library.Run

namespace LockStep

variable {L : Layout}

def loaded (L : Layout) (slaves : List CyclicSlave) (cycleNs : UInt64) (index : UInt8)
    (ticks : List (Device × UInt32)) : LockStep L where
  host := .load L.maxSamplesPerFrame
  fw := run Firmware.step (Firmware.init L) (.start slaves cycleNs index :: ticks.map fun t => .tick t.1 t.2)
  tx := stageTx L (HostBridge.new L).reply

theorem loaded_tracks (hL : L.Streams) (slaves : List CyclicSlave) (cycleNs : UInt64) (index : UInt8)
    (ticks : List (Device × UInt32)) (hn : ticks.length < 2 ^ 32) :
    Tracks L.maxSamplesPerFrame (loaded L slaves cycleNs index ticks) (Stream.start (UInt32.ofNat ticks.length)) := by
  induction ticks using List.reverseRecOn with
  | nil =>
    have ht : (HostComponent.load L.maxSamplesPerFrame).target = L.maxSamplesPerFrame := by
      have hp := hL.cap_pos
      have hpos : (L.maxSamplesPerFrame : ℤ) > 0 := by omega
      exact (if_pos hpos).trans (Int.toNat_natCast _)
    exact ⟨ht, rfl, rfl, rfl, rfl, ⟨_, rfl, rfl⟩, rfl, fun _ => rfl, HostComponent.zeros_not_intact,
      HostComponent.zeros_not_intact⟩
  | append_singleton ticks t ih =>
    rw [List.length_append, List.length_singleton] at hn ⊢
    have hfw : (loaded L slaves cycleNs index (ticks ++ [t])).fw =
        Firmware.step (loaded L slaves cycleNs index ticks).fw (.tick t.1 t.2) := by
      rw [loaded, List.map_append, ← List.cons_append]
      exact run_concat _ _ _ _
    have hstart : (Stream.start (UInt32.ofNat ticks.length)).afterTick = Stream.start (UInt32.ofNat (ticks.length + 1)) := by
      have hne : UInt32.ofNat ticks.length + 1 ≠ 0 := by
        intro h
        have ht := congrArg UInt32.toNat h
        rw [UInt32.toNat_add, UInt32.toNat_ofNat'] at ht
        change (ticks.length % 2 ^ 32 + 1) % 2 ^ 32 = 0 at ht
        omega
      rw [UInt32.ofNat_add]
      change Stream.afterTick _ = Stream.start (UInt32.ofNat ticks.length + 1)
      rw [Stream.start, Stream.start, if_neg hne]
      rfl
    have ht := tracks_tick hL (ih (by omega)) t.1 t.2
    rw [hstart] at ht
    have hl : loaded L slaves cycleNs index (ticks ++ [t]) =
        { loaded L slaves cycleNs index ticks with
          fw := Firmware.step (loaded L slaves cycleNs index ticks).fw (.tick t.1 t.2) } := by
      rw [← hfw]
      rfl
    rw [hl]
    exact ht

/-- Streaming has settled: the ring is as far ahead of the clock as the component takes it to be. -/
def Settled (s : LockStep L) : Prop :=
  ∃ a k, Tracks L.maxSamplesPerFrame s a ∧ a.Settled L.maxSamplesPerFrame k

/-- Exactly one frame of the run is corrupted, after streaming has settled. -/
structure LosesOne (s : LockStep L) (r : ℕ → Round L) (m : ℕ) : Prop where
  settled : Settled (before s r m)
  corrupted : ∀ n, (r n).corrupted.isSome ↔ n = m

/-- Every tick from round `m` on finds the sample of its cycle. -/
def Heals (s : LockStep L) (r : ℕ → Round L) (m : ℕ) : Prop := ∀ n ≥ m, Finds (before s r n) (r n)

theorem not_accepted_nil : ¬ Accepted L [] := by
  intro h
  have hl := h.1
  rw [Layout.mosiLen, mosiHdr, List.length_nil] at hl
  omega

theorem before_add (s : LockStep L) (r : ℕ → Round L) (m n : ℕ) :
    before s r (m + n) = before (before s r m) (fun i => r (m + i)) n := by
  induction n with
  | zero => rfl
  | succ n ih => rw [← Nat.add_assoc, before, before, ih]

theorem loaded_settles (hL : L.Streams) (h₂ : 2 ≤ L.maxSamplesPerFrame) (h₁₁ : L.maxSamplesPerFrame ≤ 11)
    (slaves : List CyclicSlave) (cycleNs : UInt64) (index : UInt8) (ticks : List (Device × UInt32))
    (hn : ticks.length < 2 ^ 31) (r : ℕ → Round L) (m : ℕ) (hr : ∀ n < m, (r n).corrupted = none) (hm : 10 ≤ m)
    (hwrap : ticks.length + m + motionRingDepth ≤ 2 ^ 32) :
    Settled (before (loaded L slaves cycleNs index ticks) r m) := by
  have hdepth : motionRingDepth = 32 := rfl
  have hc : (UInt32.ofNat ticks.length).toNat = ticks.length := by
    rw [UInt32.toNat_ofNat']
    omega
  have ht := tracks_before hL (loaded_tracks hL slaves cycleNs index ticks (by omega)) r m hr
  obtain ⟨j, rfl⟩ : ∃ j, m = j + 10 := ⟨m - 10, by omega⟩
  have hs : ((Stream.start (UInt32.ofNat ticks.length)).rounds L.maxSamplesPerFrame L.maxSamplesPerFrame 10).Settled
      L.maxSamplesPerFrame (3 * L.maxSamplesPerFrame - 2) := Stream.start_settles h₂ h₁₁ (by omega)
  have hcycle : ((Stream.start (UInt32.ofNat ticks.length)).rounds L.maxSamplesPerFrame L.maxSamplesPerFrame 10).cycle.toNat =
      ticks.length + 10 := by
    rw [Stream.rounds_cycle]
    change (UInt32.ofNat ticks.length + UInt32.ofNat 10).toNat = _
    rw [← UInt32.ofNat_add, UInt32.toNat_ofNat']
    omega
  have hlt := hs.lt_depth
  have hstays := hs.rounds hL.cap_pos (by omega) j (by omega)
  rw [← Stream.rounds_add] at hstays
  exact ⟨_, _, ht, hstays⟩

theorem starves (hL : L.Streams) {s : LockStep L} {r : ℕ → Round L} {m : ℕ} (h : LosesOne s r m) :
    ∃ n ≥ m, ¬ Finds (before s r n) (r n) := by
  obtain ⟨a, k, ht, hs⟩ := h.settled
  have hk := hs.target_lt
  have hlost := tracks_round hL ht (r m)
  rw [(h.corrupted m).mpr rfl] at hlost
  have hclean : ∀ i, (r (m + 1 + i)).corrupted = none := by
    intro i
    have hne := (h.corrupted (m + 1 + i)).not.mpr (by omega)
    simpa using hne
  have hrun := tracks_before hL hlost (fun i => r (m + 1 + i)) (k - 1) fun i _ => hclean i
  refine ⟨m + 1 + (k - 1), by omega, ?_⟩
  rw [before_add, before]
  intro hf
  have hfinds := (hrun.finds hL (r (m + 1 + (k - 1)))).mp hf
  rw [hclean, Option.isSome_none] at hfinds
  have hdry := ((hs.loses hL.cap_pos).run hL.cap_pos (i := k - 1) (by omega)).starves hL.cap_pos
  rw [hdry] at hfinds
  exact absurd hfinds (by decide)

/-- A frame that is lost after streaming has settled always costs a later cycle its sample. -/
theorem selfHealing_never (hL : L.Streams) (s : LockStep L) (r : ℕ → Round L) (m : ℕ) (h : LosesOne s r m) :
    ¬ Heals s r m := by
  obtain ⟨n, hn, hf⟩ := starves hL h
  exact fun hh => hf (hh n hn)

def idleHal : Hal := ⟨false, false, false, fun _ => false, fun _ => 0, fun _ => 0⟩

def eleventhLost (L : Layout) (n : ℕ) : Round L :=
  ⟨idleHal, if n = 10 then some ⟨[], not_accepted_nil⟩ else none, Device.receiving [], 0⟩

theorem oneDrive_streams {n : ℕ} (h₀ : 0 < n) (h : n < 256) : (oneDrive n).Streams :=
  ⟨oneDrive_sound n, by simp [Layout.SampleFits, oneDrive], rfl, by simp [oneDrive], h₀, h⟩

theorem eleventhLost_losesOne :
    LosesOne (loaded (oneDrive 2) [⟨0x1001, 0⟩] 1000000 0 []) (eleventhLost (oneDrive 2)) 10 := by
  refine ⟨?_, fun n => ?_⟩
  · apply loaded_settles (oneDrive_streams (by decide) (by decide)) (by decide) (by decide) _ _ _ _ (by decide)
    · intro n hn
      exact if_neg (by omega)
    · exact le_rfl
    · decide
  · rw [eleventhLost]
    split_ifs with h <;> simp [h]

theorem selfHealing_never_eleventh :
    ¬ Heals (loaded (oneDrive 2) [⟨0x1001, 0⟩] 1000000 0 []) (eleventhLost (oneDrive 2)) 10 :=
  selfHealing_never (oneDrive_streams (by decide) (by decide)) _ _ _ eleventhLost_losesOne

theorem lostFrame_starves : ¬ ∀ L : Layout, L.Streams → 2 ≤ L.maxSamplesPerFrame → L.maxSamplesPerFrame ≤ 11 →
    ∀ (s : LockStep L) (r : ℕ → Round L) (m : ℕ), LosesOne s r m → Heals s r m := by
  intro h
  have hL : (oneDrive 2).Streams := oneDrive_streams (by decide) (by decide)
  obtain ⟨n, hn, hf⟩ := starves hL eleventhLost_losesOne
  exact hf (h _ hL (by decide) (by decide) _ _ _ eleventhLost_losesOne n hn)

end LockStep

end EcMaster
