import EcMaster.OpCursor
import EcMaster.OpRequest
import EcMaster.SafeState

namespace EcMaster

open Library.Run Library.Segment Library.LittleEndian

namespace Cyclic

variable {L : Layout}

def LosesData (c : Cyclic L) (dev : Device) : Prop :=
  c.processed dev = none ∨
    ∃ p, c.processed dev = some p ∧ (p.1.workingCounter = 0 ∨ p.1.workingCounter ≠ c.domain.expectedWkc)

structure StopsDrives (c : Cyclic L) (dev : Device) (index : UInt8) (latency : UInt32) (host : HostBridge L) : Prop where
  quickStop : ∀ d ∈ discovered L,
    d.cw.byteOffset + d.cw.nbytes ≤ (c.tickWithHost dev index latency host).cyclic.lrwData.length →
    statusword (c.received dev latency).domain.image d &&& swStateMask = swOperationEnabled →
    wordAt (c.tickWithHost dev index latency host).cyclic.lrwData d.cw = cwQuickStop
  reported : ∃ b, (c.tickWithHost dev index latency host).host.reply[15]? = some b ∧ b &&& 0x01 ≠ 0

theorem replyStatus_busFault (c : Cyclic L) (hostTimeout underrun : Bool) :
    (c.replyStatus hostTimeout underrun).faultFlags &&& 0x01 ≠ 0 ↔ c.phase = .faulted := by
  rw [replyStatus]
  dsimp only
  by_cases hp : c.phase = .faulted
  · simp only [hp, ↓reduceIte]
    split_ifs <;> decide
  · simp only [hp, ↓reduceIte, iff_false, not_not]
    split_ifs <;> decide

theorem reported_iff (c : Cyclic L) (dev : Device) (index : UInt8) (latency : UInt32) (host : HostBridge L) :
    (∃ b, (c.tickWithHost dev index latency host).host.reply[15]? = some b ∧ b &&& 0x01 ≠ 0) ↔
      (c.received dev latency).phase = .faulted := by
  rw [tickWithHost_host, HostBridge.reply_faultFlags, ← (c.tickWithHost_settles dev index latency host).phase,
    ← replyStatus_busFault _ ((c.received dev latency).control host).hostTimeout
      ((c.received dev latency).control host).underrun]
  constructor
  · rintro ⟨b, hb, h⟩
    obtain rfl := Option.some.inj hb
    exact h
  · intro h
    exact ⟨_, rfl, h⟩

theorem received_faulted_iff {c : Cyclic L} (hp : c.phase = .operational)
    (hasked : ∀ j, .status j ∈ c.appended → c.phase = .requestingOp) (dev : Device) (latency : UInt32) :
    (c.received dev latency).phase = .faulted ↔ ∃ dg, (.alPoll, dg) ∈ c.answered dev ∧ SaysFault dg := by
  have hm := c.received_moves dev latency
  constructor
  · intro hf
    by_contra hn
    push Not at hn
    have hno : ∀ p ∈ c.answered dev, decodeAppended p.1 p.2 ≠ .fault := by
      rintro ⟨kind, dg⟩ hmem hd
      rcases decodeAppended_fault hd with ⟨j, rfl⟩ | ⟨rfl, hs⟩
      · exact absurd (hp.symm.trans (hasked j (mem_answered hmem))) (by decide)
      · exact hn dg hmem hs
    rcases hm.noFault hno with hs | ⟨hc, -⟩ | ⟨hc | hc, -, -⟩
    · exact absurd (hf.symm.trans (hs.trans hp)) (by decide)
    · exact absurd (hp.symm.trans hc) (by decide)
    · exact absurd (hp.symm.trans hc) (by decide)
    · exact absurd (hp.symm.trans hc) (by decide)
  · rintro ⟨dg, hmem, hs⟩
    exact hm.fault ⟨_, hmem, decodeAppended_alPoll hs⟩

theorem status_asked (c : Cyclic L) (e : EngineTick L) {j : ℕ} (h : .status j ∈ (engineStep c e).appended) :
    (engineStep c e).phase = .requestingOp := by
  have hq := c.engineStep_requests e
  rw [hq.appended] at h
  obtain ⟨p, hp, hk⟩ := List.mem_map.mp h
  rw [hq.phase]
  rcases mem_appendix hp with ⟨hr, -⟩ | ⟨-, hc | hc | hc, -⟩
  · exact hr
  all_goals exact absurd (hk.symm.trans hc) (by simp)

end Cyclic

namespace Firmware

variable {L : Layout}

theorem status_asked_run (es : List Event) :
    ∀ c, (run step (init L) es).cyclic = some c → ∀ j, .status j ∈ c.appended → c.phase = .requestingOp := by
  apply run_invariant step (I := fun s : Firmware L => ∀ c, s.cyclic = some c →
    ∀ j, .status j ∈ c.appended → c.phase = .requestingOp)
  · intro c hc
    exact absurd hc (by simp [init])
  · intro s e h c hc j hj
    rcases step_cyclic s e with hs | hs | ⟨slaves, cycleNs, -, hs⟩ | ⟨dev, latency, c', -, -, hs⟩
    · exact h c (hs ▸ hc) j hj
    · exact absurd (hs.symm.trans hc) (by simp)
    · obtain rfl := Option.some.inj (hs.symm.trans hc)
      exact absurd hj List.not_mem_nil
    · obtain rfl := Option.some.inj (hs.symm.trans hc)
      exact c'.status_asked ⟨dev, s.index, latency, some s.host⟩ hj

theorem stopsDrives_iff (hL : L.Sound) (ha : ∀ d ∈ discovered L, d.cw.ByteAligned) {es : List Event} {c : Cyclic L}
    {host : HostBridge L} {dev : Device} {index : UInt8} {latency : UInt32}
    (ht : TakesTick es c host dev index latency) (hv : host.outValid = true) (hp : c.phase = .operational) :
    c.StopsDrives dev index latency host ↔ ∃ dg, (.alPoll, dg) ∈ c.answered dev ∧ SaysFault dg := by
  obtain ⟨pre, -, -, hs⟩ := ht
  have hasked := status_asked_run (L := L) pre c (by rw [← hs])
  rw [← Cyclic.received_faulted_iff hp hasked dev latency]
  constructor
  · intro h
    exact (c.reported_iff dev index latency host).mp h.reported
  · intro hf
    refine ⟨?_, (c.reported_iff dev index latency host).mpr hf⟩
    intro d hd hin hsw
    obtain ⟨frHigh, hw⟩ := controlword_run hL ha hs.symm hv dev latency hd hin
    rw [hw]
    exact (nextControlword_safe _ ((Cyclic.command_quickStop _ _).mpr (Or.inr (Or.inr (Or.inr hf)))) frHigh).enabled hsw

/-- In every tick in OP that loses process data while a host is attached, the drives are stopped. -/
def StopsOnLoss (L : Layout) (es : List Event) : Prop :=
  ∀ c host dev index latency, TakesTick (L := L) es c host dev index latency → host.outValid = true →
    c.phase = .operational → c.LosesData dev → c.StopsDrives dev index latency host

/-- In every such tick the reply brings an AL poll of a slave that is not in OP. -/
def PollsOnLoss (L : Layout) (es : List Event) : Prop :=
  ∀ c host dev index latency, TakesTick (L := L) es c host dev index latency → host.outValid = true →
    c.phase = .operational → c.LosesData dev → ∃ dg, (.alPoll, dg) ∈ c.answered dev ∧ SaysFault dg

theorem stopsOnLoss_iff (hL : L.Sound) (ha : ∀ d ∈ discovered L, d.cw.ByteAligned) (es : List Event) :
    StopsOnLoss L es ↔ PollsOnLoss L es := by
  constructor
  · intro h c host dev index latency ht hv hp hl
    exact (stopsDrives_iff hL ha ht hv hp).mp (h c host dev index latency ht hv hp hl)
  · intro h c host dev index latency ht hv hp hl
    exact (stopsDrives_iff hL ha ht hv hp).mpr (h c host dev index latency ht hv hp hl)

def cutOff : List Event :=
  let lrw := fun index => answerFrame .lrw index [0, 0, 0, 0, 0] 3 []
  let status := [0x04, 6, 0x01, 0x10, 0x30, 0x01, 2, 0, 0, 0, 0x08, 0, 1, 0]
  let rx := [[], [lrw 0], [lrw 1], [lrw 2], [lrw 3], [answerFrame .lrw 5 [0, 0, 0, 0, 0] 3 status]]
  .start [⟨0x1001, 0⟩] 1000000 0 :: rx.map (fun fs => .tick (Device.receiving fs) 0) ++
    [.frame (enableFrame 7), .tick (Device.receiving []) 0]

theorem cutOff_loses : ∃ c host index, TakesTick (L := oneDrive 1) cutOff c host (Device.receiving []) index 0 ∧
    host.outValid = true ∧ c.phase = .operational ∧ c.processed (Device.receiving []) = none := by
  obtain ⟨c, host, index, hs, hp, hn⟩ : ∃ c host index, run step (init (oneDrive 1)) (cutOff.take 7) =
      ⟨some c, host, index⟩ ∧ c.phase = .operational ∧ c.processed (Device.receiving []) = none :=
    ⟨_, _, _, rfl, by decide +kernel, by decide +kernel⟩
  have hf : Accepted (oneDrive 1) (enableFrame 7) := sealFrame_accepted rfl rfl
  refine ⟨c, host.ingest (enableFrame 7), index, ?_, (HostBridge.ingest_accepted hf host).outValid, hp, hn⟩
  refine ⟨cutOff.take 7 ++ [.frame (enableFrame 7)], [], rfl, ?_⟩
  rw [run_concat, hs]
  rfl

theorem stopsOnLoss_iff_cutOff : ¬ StopsOnLoss (oneDrive 1) cutOff := by
  obtain ⟨c, host, index, ht, hv, hp, hn⟩ := cutOff_loses
  intro h
  obtain ⟨dg, hm, -⟩ := (stopsOnLoss_iff (oneDrive_sound 1) (oneDrive_aligned 1) cutOff).mp h c host _ index 0 ht hv hp
    (Or.inl hn)
  rw [Cyclic.answered_of_unprocessed hn] at hm
  exact absurd hm List.not_mem_nil

theorem dataLoss_unnoticed :
    ¬ ∀ L : Layout, L.Sound → (∀ d ∈ discovered L, d.cw.ByteAligned) → ∀ es, StopsOnLoss L es := by
  obtain ⟨c, host, index, ht, hv, hp, hn⟩ := cutOff_loses
  intro h
  have hstop := h (oneDrive 1) (oneDrive_sound 1) (oneDrive_aligned 1) cutOff c host _ index 0 ht hv hp (Or.inl hn)
  obtain ⟨dg, hm, -⟩ := (stopsDrives_iff (oneDrive_sound 1) (oneDrive_aligned 1) ht hv hp).mp hstop
  rw [Cyclic.answered_of_unprocessed hn] at hm
  exact absurd hm List.not_mem_nil

end Firmware

end EcMaster
