import EcMaster.Receive

namespace EcMaster

/-- A tick of the engine, alone or with a host attached. -/
structure EngineTick (L : Layout) where
  dev : Device
  index : UInt8
  latency : UInt32
  host : Option (HostBridge L)

def engineStep {L : Layout} (c : Cyclic L) (e : EngineTick L) : Cyclic L :=
  match e.host with
  | none => (c.tick e.dev e.index e.latency).1
  | some host => (c.tickWithHost e.dev e.index e.latency host).cyclic

namespace Cyclic

variable {L : Layout}

structure SameRequest (r d : Cyclic L) : Prop where
  slaves : d.slaves = r.slaves
  phase : d.phase = r.phase
  opCursor : d.opCursor = r.opCursor
  seek : d.seekOp.opCursor = r.seekOp.opCursor
  appendix : ∀ index, d.appendix index = r.appendix index

theorem engineStep_controlled (c : Cyclic L) (e : EngineTick L) : ∃ image hi drives dev, engineStep c e =
    (({ (c.received e.dev e.latency).putImage image hi with cia402 := drives } : Cyclic L).send dev e.index).1 := by
  rcases e with ⟨dev, index, latency, _ | host⟩
  · exact ⟨_, rfl, (c.received dev latency).cia402, (c.intake dev latency).2, rfl⟩
  · obtain ⟨image, hi, drives, hc, -, -⟩ := (c.received dev latency).control_cyclic host
    refine ⟨image, hi, ⟨drives⟩, (c.intake dev latency).2, ?_⟩
    rw [← hc]
    rfl

theorem engineStep_eq (c : Cyclic L) (e : EngineTick L) :
    ∃ d dev, (c.received e.dev e.latency).SameRequest d ∧ engineStep c e = (d.send dev e.index).1 := by
  obtain ⟨image, hi, drives, dev, he⟩ := c.engineStep_controlled e
  refine ⟨_, dev, ?_, he⟩
  exact ⟨rfl, rfl, rfl, rfl, fun _ => rfl⟩

theorem engineStep_goodCycles (c : Cyclic L) (e : EngineTick L) :
    (engineStep c e).goodCycles = (c.received e.dev e.latency).goodCycles := by
  obtain ⟨image, hi, drives, dev, he⟩ := c.engineStep_controlled e
  rw [he]
  exact (send_keeps _ dev e.index).goodCycles

theorem appendOpRequest_opCursor (c : Cyclic L) (index : UInt8) :
    (c.appendOpRequest index).1.opCursor = c.seekOp.opCursor := by
  rw [appendOpRequest]
  dsimp only
  generalize c.seekOp = d
  cases d.slaves[d.opCursor]? with
  | none => rfl
  | some s =>
    dsimp only
    split_ifs <;> rfl

theorem appendTelemetry_opCursor (c : Cyclic L) (index : UInt8) : (c.appendTelemetry index).opCursor = c.opCursor := by
  rw [appendTelemetry]
  split_ifs <;> rfl

theorem appendMonitor_opCursor (c : Cyclic L) (index : UInt8) : (c.appendMonitor index).1.opCursor = c.opCursor := by
  rw [appendMonitor]
  split_ifs
  · split <;> rfl
  · exact appendTelemetry_opCursor _ _

theorem send_opCursor (c : Cyclic L) (dev : Device) (index : UInt8) :
    (c.send dev index).1.opCursor = if c.phase = .requestingOp then c.seekOp.opCursor else c.opCursor := by
  have hphase : (c.startFrame index).phase = c.phase := rfl
  change (c.buildFrame index).1.opCursor = _
  rw [buildFrame, hphase]
  cases c.phase with
  | requestingOp => exact appendOpRequest_opCursor _ _
  | operational => exact appendMonitor_opCursor _ _
  | priming | faulted => rfl

theorem mem_appendix {c : Cyclic L} {index : UInt8} {p : Appended × Datagram} (h : p ∈ c.appendix index) :
    (c.phase = .requestingOp ∧ (c.slaves.map SlaveRt.station)[c.seekOp.opCursor]? = some p.2.adp ∧
      (p.1 = .control ∧ p.2.command = Command.code .fpwr ∧ p.2.ado = regAlControl ∨
        p.1 = .status c.seekOp.opCursor ∧ p.2.command = Command.code .fprd ∧ p.2.ado = regAlStatus)) ∨
    c.phase = .operational ∧ (p.1 = .dcArmw ∨ p.1 = .dcDiff ∨ p.1 = .alPoll) ∧ p.2.ado ≠ regAlControl := by
  rw [appendix] at h
  cases hp : c.phase with
  | priming | faulted =>
    rw [hp] at h
    exact absurd h List.not_mem_nil
  | requestingOp =>
    refine Or.inl ⟨rfl, ?_⟩
    simp only [hp, opRequest] at h
    rw [List.getElem?_map]
    cases hs : c.slaves[c.seekOp.opCursor]? with
    | none =>
      rw [hs] at h
      exact absurd h List.not_mem_nil
    | some s =>
      simp only [hs] at h
      split_ifs at h
      · obtain rfl := List.mem_singleton.mp h
        exact ⟨rfl, Or.inl ⟨rfl, rfl, rfl⟩⟩
      · obtain rfl := List.mem_singleton.mp h
        exact ⟨rfl, Or.inr ⟨rfl, rfl, rfl⟩⟩
  | operational =>
    refine Or.inr ⟨rfl, ?_⟩
    simp only [hp, monitor] at h
    split_ifs at h
    · cases hs : c.slaves.head? with
      | none =>
        rw [hs] at h
        exact absurd h List.not_mem_nil
      | some s =>
        rw [hs] at h
        obtain rfl := List.mem_singleton.mp h
        exact ⟨Or.inr (Or.inl rfl), (by decide : regDcSysTimeDiff ≠ regAlControl)⟩
    · rcases List.mem_cons.mp h with rfl | h
      · exact ⟨Or.inl rfl, (by decide : regDcSysTime ≠ regAlControl)⟩
      · obtain rfl := List.mem_singleton.mp h
        rw [telemetry]
        split_ifs
        · exact ⟨Or.inr (Or.inl rfl), (by decide : regDcSysTimeDiff ≠ regAlControl)⟩
        · exact ⟨Or.inr (Or.inr rfl), (by decide : regAlStatus ≠ regAlControl)⟩

structure Requests (r c' : Cyclic L) (index : UInt8) : Prop where
  slaves : c'.slaves = r.slaves
  phase : c'.phase = r.phase
  opCursor : c'.opCursor = if r.phase = .requestingOp then r.seekOp.opCursor else r.opCursor
  appended : c'.appended = (r.appendix (index + 1)).map Prod.fst
  datagrams : ∃ image, EcMaster.datagrams c'.sentFrame =
    ⟨Command.code .lrw, index, 0x0000, 0x0000, image⟩ :: (r.appendix (index + 1)).map Prod.snd

theorem engineStep_requests (c : Cyclic L) (e : EngineTick L) :
    (c.received e.dev e.latency).Requests (engineStep c e) e.index := by
  obtain ⟨d, dev, hd, he⟩ := c.engineStep_eq e
  have hk := d.send_keeps dev e.index
  rw [he]
  refine ⟨hk.slaves.trans hd.slaves, hk.phase.trans hd.phase, ?_, ?_, d.domain.image, ?_⟩
  · rw [send_opCursor, hd.phase, hd.seek, hd.opCursor]
  · rw [appended_send, hd.appendix]
  · rw [datagrams_send, hd.appendix]
    rfl

end Cyclic

end EcMaster
