import EcMaster.History
import EcMaster.Library.Streak

namespace EcMaster

open Library.Run Library.Streak Library.Segment Library.LittleEndian

/-- What a tick sees of the host: whether a frame was accepted before, and the latest heartbeat. -/
structure Observation where
  attached : Bool
  heartbeat : UInt16
  deriving DecidableEq

def observation {L : Layout} (host : HostBridge L) : Observation := ⟨host.outValid, host.hostWdog⟩

def lastHeartbeat : List Observation → UInt16
  | [] => 0
  | o :: _ => o.heartbeat

def stalls : List Observation → List Bool
  | [] => []
  | o :: os => (o.attached && o.heartbeat == lastHeartbeat os) :: stalls os

@[simp] theorem length_stalls (os : List Observation) : (stalls os).length = os.length := by
  induction os with
  | nil => rfl
  | cons o os ih => rw [stalls, List.length_cons, List.length_cons, ih]

namespace Firmware

variable {L : Layout}

def observe (s : Firmware L) : Event → Option Observation
  | .tick _ _ => s.cyclic.map fun _ => observation s.host
  | _ => none

def observations (L : Layout) (es : List Event) : List Observation := log step observe (init L) es

structure Watched (os : List Observation) (host : HostBridge L) : Prop where
  lastSeen : host.lastSeenWdog = lastHeartbeat os
  count : host.wdogStallCycles.toNat = min 65535 (streak id (stalls os))
  idle : host.outValid = false → host.hostWdog = 0 ∧ host.lastSeenWdog = 0 ∧ host.wdogStallCycles = 0

theorem watched_ingest {os : List Observation} {host : HostBridge L} (h : Watched os host) (mosi : List UInt8) :
    Watched os (host.ingest mosi) := by
  by_cases ha : Accepted L mosi
  · have hi := HostBridge.ingest_accepted ha host
    refine ⟨hi.lastSeenWdog.trans h.lastSeen, ?_, ?_⟩
    · rw [hi.wdogStallCycles, h.count]
    · intro hv
      rw [hi.outValid] at hv
      exact absurd hv (by decide)
  · rw [HostBridge.ingest_rejected ha]
    exact ⟨h.lastSeen, h.count, h.idle⟩

theorem saturate_count {w : UInt16} {n : ℕ} (h : w.toNat = min 65535 n) :
    (if w = 0xFFFF then 0xFFFF else w + 1 : UInt16).toNat = min 65535 (n + 1) := by
  by_cases hw : w = 0xFFFF
  · have ht : w.toNat = 65535 := by rw [hw]; rfl
    rw [if_pos hw]
    change 65535 = _
    omega
  · have hne : w.toNat ≠ 65535 := fun ht => hw (UInt16.toNat_inj.mp ht)
    rw [if_neg hw, UInt16.toNat_add]
    change (w.toNat + 1) % 65536 = _
    omega

theorem stall_count {os : List Observation} {host : HostBridge L} (h : Watched os host) :
    host.stall.toNat = min 65535 (streak id (stalls (observation host :: os))) := by
  have hls := h.lastSeen
  have hc := h.count
  rw [HostBridge.stall, stalls, streak_cons]
  by_cases hw : host.hostWdog = host.lastSeenWdog
  · rw [if_neg (not_not.mpr hw)]
    cases hv : host.outValid with
    | false =>
      rw [(h.idle hv).2.2]
      simp [observation, hv]
    | true =>
      have hs : (observation host).attached && (observation host).heartbeat == lastHeartbeat os := by
        simp [observation, hv, hw, hls]
      rw [if_pos rfl, hs]
      exact saturate_count hc
  · rw [if_pos hw]
    have hs : ((observation host).attached && (observation host).heartbeat == lastHeartbeat os) = false := by
      rw [← hls]
      simp [observation, hw]
    rw [hs]
    simp

theorem watched_served {os : List Observation} {host host' : HostBridge L} {cycle : UInt32} (h : Watched os host)
    (hs : host.Served cycle host') : Watched (observation host :: os) host' := by
  refine ⟨hs.lastSeenWdog, ?_, ?_⟩
  · rw [hs.wdogStallCycles]
    exact stall_count h
  · intro hv
    rw [hs.outValid] at hv
    obtain ⟨hw, hl, hc⟩ := h.idle hv
    refine ⟨hs.hostWdog.trans hw, hs.lastSeenWdog.trans hw, ?_⟩
    rw [hs.wdogStallCycles, HostBridge.stall, hw, hl, if_neg (by simp), hv, if_neg (by simp), hc]

theorem watched_run (es : List Event) : Watched (observations L es) (run step (init L) es).host := by
  apply run_history step (P := fun es s => Watched (observations L es) s.host)
  · exact ⟨rfl, rfl, fun _ => ⟨rfl, rfl, rfl⟩⟩
  · intro es e h
    have hlog : observations L (es ++ [e]) = (observe (run step (init L) es) e).toList ++ observations L es :=
      log_concat observe _ es e
    rw [hlog]
    generalize run step (init L) es = s at h ⊢
    cases e with
    | frame mosi => exact watched_ingest h mosi
    | tick dev latency =>
      cases hc : s.cyclic with
      | none => simpa [step, observe, hc] using h
      | some c =>
        simp only [step, observe, hc, ofTicked]
        exact watched_served h (c.tickWithHost_served dev s.index latency s.host)
    | start slaves cycleNs index =>
      cases hc : s.cyclic with
      | none => simpa [step, observe, hc] using h
      | some c => simpa [step, observe, hc] using h
    | stop index => exact h

theorem timedOut_iff {os : List Observation} {host : HostBridge L} (h : Watched os host) :
    Cyclic.timedOut host = true ↔ 20 ≤ streak id (stalls (observation host :: os)) := by
  have hc := stall_count h
  have hl : hostWdogLimitCycles.toNat = 20 := rfl
  rw [Cyclic.timedOut, decide_eq_true_iff, ge_iff_le, UInt16.le_iff_toNat_le, hl, hc]
  omega

/-- The host is declared timed out in a tick exactly when in each of the last twenty ticks, this one included,
a frame had been accepted and the heartbeat was the one that the tick before had seen. -/
theorem hostTimeout_exact (es : List Event) (c : Cyclic L) (host : HostBridge L) (index : UInt8) (dev : Device)
    (latency : UInt32) (hs : run step (init L) es = ⟨some c, host, index⟩) :
    let os := observations L es
    (host.outValid = (lastAccepted L es).isSome ∧ host.hostWdog = heartbeat (lastAccepted L es)) ∧
      (((c.received dev latency).control host).hostTimeout = true ↔
        20 ≤ (observation host :: os).length ∧ ∀ b ∈ (stalls (observation host :: os)).take 20, b = true) ∧
      (∀ mosi, ¬ Accepted L mosi →
        ((c.received dev latency).control (host.ingest mosi)).hostTimeout =
          ((c.received dev latency).control host).hostTimeout) ∧
      ∀ mosi, Accepted L mosi → heartbeat (some mosi) ≠ lastHeartbeat os →
        ((c.received dev latency).control (host.ingest mosi)).hostTimeout = false := by
  have hr := reflects_run (L := L) es
  have hw := watched_run (L := L) es
  rw [hs] at hr hw
  refine ⟨⟨hr.outValid, hr.hostWdog⟩, ?_, ?_, ?_⟩
  · rw [Cyclic.control_hostTimeout, timedOut_iff hw, le_streak_iff, length_stalls]
    rfl
  · intro mosi hm
    rw [Cyclic.control_hostTimeout, Cyclic.control_hostTimeout, HostBridge.ingest_rejected hm]
    rfl
  · intro mosi ha hne
    have hi := HostBridge.ingest_accepted ha host
    have hfresh : (host.ingest mosi).hostWdog ≠ (host.ingest mosi).lastSeenWdog := by
      rw [hi.hostWdog, hi.lastSeenWdog, hw.lastSeen]
      exact hne
    rw [Cyclic.control_hostTimeout, Cyclic.timedOut, HostBridge.stall, if_pos hfresh]
    decide

def silenced : List Event :=
  .frame (enableFrame 7) :: .start [⟨0x1001, 0⟩] 1000000 0 :: List.replicate 20 (.tick (Device.receiving []) 0)

theorem hostTimeout_exact_silenced : ∃ c host index, run step (init (oneDrive 1)) silenced = ⟨some c, host, index⟩ ∧
    host.outValid = true ∧ host.hostWdog = 1 ∧
    ((c.received (Device.receiving []) 0).control host).hostTimeout = true := by
  obtain ⟨c, host, index, hs, hl, hb⟩ : ∃ c host index,
      run step (init (oneDrive 1)) silenced = ⟨some c, host, index⟩ ∧
      20 ≤ (observation host :: observations (oneDrive 1) silenced).length ∧
      ∀ b ∈ (stalls (observation host :: observations (oneDrive 1) silenced)).take 20, b = true :=
    ⟨_, _, _, rfl, by decide +kernel, by decide +kernel⟩
  have ha : Accepted (oneDrive 1) (enableFrame 7) := sealFrame_accepted rfl rfl
  have hf : lastAccepted (oneDrive 1) silenced = some (enableFrame 7) := by
    simp [silenced, lastAccepted, acceptedFrame, ha]
  have h := hostTimeout_exact silenced c host index (Device.receiving []) 0 hs
  refine ⟨c, host, index, hs, ?_, ?_, h.2.1.mpr ⟨hl, hb⟩⟩
  · rw [h.1.1, hf]
    rfl
  · rw [h.1.2, hf]
    rfl

end Firmware

end EcMaster
