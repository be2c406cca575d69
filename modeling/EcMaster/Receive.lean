import EcMaster.Firmware

namespace EcMaster

open Library.Segment Library.LittleEndian

namespace Cyclic

variable {L : Layout}

structure Holds (c c' : Cyclic L) : Prop where
  totalCycles : c'.totalCycles = c.totalCycles
  cia402 : c'.cia402 = c.cia402
  refRingPos : c'.refRingPos = c.refRingPos
  appended : c'.appended = c.appended
  opCursor : c'.opCursor = c.opCursor
  opCtrlPhase : c'.opCtrlPhase = c.opCtrlPhase
  stations : c'.slaves.map SlaveRt.station = c.slaves.map SlaveRt.station

theorem Holds.refl (c : Cyclic L) : c.Holds c := ⟨rfl, rfl, rfl, rfl, rfl, rfl, rfl⟩

theorem Holds.trans {a b c : Cyclic L} (h : a.Holds b) (h' : b.Holds c) : a.Holds c :=
  ⟨h'.totalCycles.trans h.totalCycles, h'.cia402.trans h.cia402, h'.refRingPos.trans h.refRingPos,
    h'.appended.trans h.appended, h'.opCursor.trans h.opCursor, h'.opCtrlPhase.trans h.opCtrlPhase,
    h'.stations.trans h.stations⟩

theorem Holds.slaveCount {c c' : Cyclic L} (h : c.Holds c') : c'.slaves.length = c.slaves.length := by
  simpa using congrArg List.length h.stations

theorem opReached_stations (c : Cyclic L) (idx : ℕ) :
    (c.applyAction (.opReached idx)).slaves.map SlaveRt.station = c.slaves.map SlaveRt.station := by
  apply List.ext_getElem?
  intro j
  simp only [applyAction, List.getElem?_map, List.getElem?_modify]
  cases c.slaves[j]? with
  | none => rfl
  | some s =>
    simp only [Option.map_eq_map, Option.map_some]
    split_ifs <;> rfl

theorem applyAction_holds (c : Cyclic L) (a : AppliedReply) : c.Holds (c.applyAction a) := by
  cases a with
  | opReached idx => exact ⟨rfl, rfl, rfl, rfl, rfl, rfl, c.opReached_stations idx⟩
  | none | fault | drift => exact ⟨rfl, rfl, rfl, rfl, rfl, rfl, rfl⟩

theorem applyAction_domain (c : Cyclic L) (a : AppliedReply) : (c.applyAction a).domain = c.domain := by
  cases a <;> rfl

theorem foldl_applyAction (c : Cyclic L) (actions : List AppliedReply) :
    c.Holds (actions.foldl applyAction c) ∧ (actions.foldl applyAction c).domain = c.domain := by
  induction actions generalizing c with
  | nil => exact ⟨Holds.refl c, rfl⟩
  | cons a actions ih =>
    obtain ⟨hh, hd⟩ := ih (c.applyAction a)
    exact ⟨(c.applyAction_holds a).trans hh, hd.trans (c.applyAction_domain a)⟩

theorem primed_holds (c : Cyclic L) : c.Holds c.primed ∧ c.primed.domain = c.domain := by
  rw [primed]
  split_ifs
  · exact ⟨⟨rfl, rfl, rfl, rfl, rfl, rfl, rfl⟩, rfl⟩
  · exact ⟨Holds.refl c, rfl⟩

theorem entered_holds (c : Cyclic L) : c.Holds c.entered ∧ c.entered.domain = c.domain := by
  rw [entered]
  split_ifs
  · exact ⟨⟨rfl, rfl, rfl, rfl, rfl, rfl, rfl⟩, rfl⟩
  · exact ⟨Holds.refl c, rfl⟩

theorem absorb_holds (c : Cyclic L) (lrw : Reply) (answers : List (Appended × Reply)) :
    c.Holds (c.absorb lrw answers) ∧ (c.absorb lrw answers).domain = (c.domain.applyReply lrw).2 := by
  set d := ({ c with domain := (c.domain.applyReply lrw).2 : Cyclic L }.countGood lrw.workingCounter) with hd
  have h₀ : c.Holds d := ⟨rfl, rfl, rfl, rfl, rfl, rfl, rfl⟩
  obtain ⟨h₁, d₁⟩ := d.primed_holds
  obtain ⟨h₂, d₂⟩ := d.primed.foldl_applyAction (answers.map fun p => decodeAppended p.1 p.2)
  obtain ⟨h₃, d₃⟩ := ((answers.map fun p => decodeAppended p.1 p.2).foldl applyAction d.primed).entered_holds
  exact ⟨((h₀.trans h₁).trans h₂).trans h₃, (d₃.trans d₂).trans d₁⟩

theorem received_eq (c : Cyclic L) (dev : Device) (latency : UInt32) :
    c.received dev latency = match c.processed dev with
      | some (lrw, _) => ((c.beginTick latency).absorb lrw (c.answered dev)).clearOutstanding
      | none => (c.beginTick latency).clearOutstanding := by
  have ho : (c.beginTick latency).outstanding = c.outstanding := rfl
  rw [received, intake, processed, answered, matched]
  cases hout : c.outstanding with
  | false =>
    have hb : (c.beginTick latency).clearOutstanding = c.beginTick latency := by
      rw [clearOutstanding, ← hout]
      rfl
    simp [ho, hout, hb]
  | true =>
    have hr := receive_eq ecatRxLen (c.beginTick latency) dev
    have hi : (c.beginTick latency).expectedIndex = c.expectedIndex := rfl
    rw [hi] at hr
    simp only [ho, hout, ↓reduceIte, hr]
    cases matchedReply c.expectedIndex ecatRxLen dev with
    | none => rfl
    | some frame =>
      simp only [process, Option.bind_some]
      cases parseAt frame ecFrameHeaderSize <;> rfl

theorem received_holds (c : Cyclic L) (dev : Device) (latency : UInt32) :
    (c.beginTick latency).Holds (c.received dev latency) ∧
      (c.received dev latency).domain = match c.processed dev with
        | some (lrw, _) => (c.domain.applyReply lrw).2
        | none => c.domain := by
  rw [received_eq]
  cases c.processed dev with
  | none => exact ⟨⟨rfl, rfl, rfl, rfl, rfl, rfl, rfl⟩, rfl⟩
  | some p =>
    obtain ⟨hh, hd⟩ := (c.beginTick latency).absorb_holds p.1 (c.answered dev)
    exact ⟨hh.trans ⟨rfl, rfl, rfl, rfl, rfl, rfl, rfl⟩, hd⟩

theorem received_lastWkc (c : Cyclic L) (dev : Device) (latency : UInt32) :
    (c.received dev latency).domain.lastWkc = match c.processed dev with
      | some (lrw, _) => lrw.workingCounter
      | none => c.domain.lastWkc := by
  rw [(c.received_holds dev latency).2]
  cases c.processed dev <;> rfl

theorem received_totalCycles (c : Cyclic L) (dev : Device) (latency : UInt32) :
    (c.received dev latency).totalCycles = c.totalCycles + 1 :=
  (c.received_holds dev latency).1.totalCycles

theorem received_drives (c : Cyclic L) (dev : Device) (latency : UInt32) :
    (c.received dev latency).cia402 = c.cia402 :=
  (c.received_holds dev latency).1.cia402

theorem received_length (c : Cyclic L) (dev : Device) (latency : UInt32) :
    (c.received dev latency).domain.image.length = c.domain.image.length := by
  rw [(c.received dev latency).domain.length_image, c.domain.length_image]

theorem lrwData_length (c : Cyclic L) (dev : Device) (index : UInt8) (latency : UInt32) (host : HostBridge L) :
    (c.tickWithHost dev index latency host).cyclic.lrwData.length = (c.received dev latency).domain.image.length := by
  rw [tickWithHost_lrwData, control_image]
  split_ifs
  · rw [length_stepDrives, length_outputImage]
  · rw [length_outputImage]

end Cyclic

end EcMaster
