import EcMaster.TickEffect
import EcMaster.Library.Run

namespace EcMaster

open Library.Run

structure Firmware (L : Layout) where
  cyclic : Option (Cyclic L)
  host : HostBridge L
  index : UInt8

/-- What happens to the firmware: the SPI task completes a frame, the PIT fires, and the worker starts
or stops the cyclic engine. A tick finds the NIC in any condition; bringing the bus up or down moves the
datagram index on by any amount. -/
inductive Event
  | frame (mosi : List UInt8)
  | tick (dev : Device) (latency : UInt32)
  | start (slaves : List CyclicSlave) (cycleNs : UInt64) (index : UInt8)
  | stop (index : UInt8)

namespace Firmware

variable {L : Layout}

def init (L : Layout) : Firmware L := ⟨none, HostBridge.new L, 0⟩

def ofTicked (r : Ticked L) : Firmware L := ⟨some r.cyclic, r.host, r.index⟩

def step (s : Firmware L) : Event → Firmware L
  | .frame mosi => { s with host := s.host.ingest mosi }
  | .tick dev latency =>
    match s.cyclic with
    | none => s
    | some c => ofTicked (c.tickWithHost dev s.index latency s.host)
  | .start slaves cycleNs index =>
    match s.cyclic with
    | none => { s with cyclic := some (Cyclic.new L slaves L.bus.refClockSlave cycleNs), index := index }
    | some _ => s
  | .stop index => { s with cyclic := none, index := index }

/-- A run from power-up takes a tick in which `c` is the engine and `host` the bridge. -/
def TakesTick (es : List Event) (c : Cyclic L) (host : HostBridge L) (dev : Device) (index : UInt8)
    (latency : UInt32) : Prop :=
  Takes step (init L) es ⟨some c, host, index⟩ (.tick dev latency)

theorem step_host (s : Firmware L) (e : Event) :
    (step s e).host = s.host ∨
      (∃ mosi, e = .frame mosi ∧ (step s e).host = s.host.ingest mosi) ∨
      ∃ dev latency c, e = .tick dev latency ∧ s.cyclic = some c ∧
        (step s e).host = (c.tickWithHost dev s.index latency s.host).host := by
  cases e with
  | frame mosi => exact Or.inr (Or.inl ⟨mosi, rfl, rfl⟩)
  | tick dev latency =>
    cases hc : s.cyclic with
    | none => exact Or.inl (by simp only [step, hc])
    | some c => exact Or.inr (Or.inr ⟨dev, latency, c, rfl, rfl, by simp only [step, hc, ofTicked]⟩)
  | start slaves cycleNs index =>
    apply Or.inl
    cases hc : s.cyclic <;> simp only [step, hc]
  | stop index => exact Or.inl rfl

theorem step_cyclic (s : Firmware L) (e : Event) :
    (step s e).cyclic = s.cyclic ∨ (step s e).cyclic = none ∨
      (∃ slaves cycleNs, s.cyclic = none ∧ (step s e).cyclic = some (Cyclic.new L slaves L.bus.refClockSlave cycleNs)) ∨
      ∃ dev latency c, e = .tick dev latency ∧ s.cyclic = some c ∧
        (step s e).cyclic = some (c.tickWithHost dev s.index latency s.host).cyclic := by
  cases e with
  | frame mosi => exact Or.inl rfl
  | tick dev latency =>
    cases hc : s.cyclic with
    | none => exact Or.inl (by simp only [step, hc])
    | some c => exact Or.inr (Or.inr (Or.inr ⟨dev, latency, c, rfl, rfl, by simp only [step, hc, ofTicked]⟩))
  | start slaves cycleNs index =>
    cases hc : s.cyclic with
    | none => exact Or.inr (Or.inr (Or.inl ⟨slaves, cycleNs, rfl, by simp only [step, hc]⟩))
    | some c => exact Or.inl (by simp only [step, hc])
  | stop index => exact Or.inr (Or.inl rfl)

end Firmware

namespace Cyclic

variable {L : Layout}

def received (c : Cyclic L) (dev : Device) (latency : UInt32) : Cyclic L := (c.intake dev latency).1

variable (c : Cyclic L) (dev : Device) (index : UInt8) (latency : UInt32) (host : HostBridge L)

theorem tickWithHost_cyclic : (c.tickWithHost dev index latency host).cyclic =
    (((c.received dev latency).control host).cyclic.send (c.intake dev latency).2 index).1 := rfl

theorem tickWithHost_host : (c.tickWithHost dev index latency host).host =
    ((c.received dev latency).control host).host.buildReply (c.tickWithHost dev index latency host).cyclic.domain.image
      ((c.tickWithHost dev index latency host).cyclic.replyStatus ((c.received dev latency).control host).hostTimeout
        ((c.received dev latency).control host).underrun) := rfl

theorem tickWithHost_keeps :
    Keeps ((c.received dev latency).control host).cyclic (c.tickWithHost dev index latency host).cyclic :=
  send_keeps _ _ _

theorem tickWithHost_settles :
    (c.received dev latency).Settles (c.tickWithHost dev index latency host).cyclic := by
  have hk := c.tickWithHost_keeps dev index latency host
  have hs := (c.received dev latency).control_settles host
  refine ⟨hk.slaves.trans hs.slaves, hk.phase.trans hs.phase, hk.totalCycles.trans hs.totalCycles, ?_, ?_⟩
  · rw [hk.domain, hs.lastWkc]
  · rw [hk.domain, hs.expectedWkc]

theorem tickWithHost_served :
    host.Served (c.received dev latency).totalCycles (c.tickWithHost dev index latency host).host := by
  have hs := (c.received dev latency).control_served host
  obtain ⟨f, w, hf, hb⟩ := HostBridge.buildReply_frame ((c.received dev latency).control host).host
    (c.tickWithHost dev index latency host).cyclic.domain.image
    ((c.tickWithHost dev index latency host).cyclic.replyStatus ((c.received dev latency).control host).hostTimeout
      ((c.received dev latency).control host).underrun)
  rw [tickWithHost_host, hb]
  exact ⟨hs.stagedOut, hs.flags, hs.hostSeq, hs.hostWdog, hs.outValid, hs.crcErrs, hs.framesIn, hs.lastSeenWdog,
    hs.wdogStallCycles, hs.samples⟩

theorem tickWithHost_lrwData :
    (c.tickWithHost dev index latency host).cyclic.lrwData =
      ((c.received dev latency).control host).cyclic.domain.image :=
  lrwData_send _ _ _

end Cyclic

end EcMaster
