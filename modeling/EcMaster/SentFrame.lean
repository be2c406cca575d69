import EcMaster.Engine

namespace EcMaster

open Library.Segment Library.LittleEndian

def frameRoom (ds : List Datagram) : ℕ := (ds.map fun d => d.data.length + 12).sum

theorem length_chain (ds : List Datagram) (last : Datagram) : (chain ds last).length = frameRoom (ds ++ [last]) := by
  induction ds with
  | nil => simp [chain, frameRoom]
  | cons d ds ih => simp [chain_cons, frameRoom, ih]

namespace Cyclic

variable {L : Layout}

def Carries (c : Cyclic L) (ds : List Datagram) : Prop :=
  ∃ init last, ds = init ++ [last] ∧ Encodes (c.tx, c.txLen) init last

def sentFrame (c : Cyclic L) : List UInt8 := c.tx.take c.txLen

theorem Carries.datagrams {c : Cyclic L} {ds : List Datagram} (h : c.Carries ds) (hr : frameRoom ds < 2048) :
    EcMaster.datagrams c.sentFrame = ds := by
  obtain ⟨init, last, rfl, he⟩ := h
  exact he.datagrams (by rwa [length_chain])

theorem Carries.append {c : Cyclic L} {ds : List Datagram} (h : c.Carries ds) (index : UInt8) (cmd : Command)
    (adp ado : UInt16) (payload : List UInt8) (kind : Appended)
    (hr : frameRoom ds + (payload.length + 12) + 2 ≤ cyclicBuf) :
    (c.appendDatagram index cmd adp ado payload kind).Carries (ds ++ [⟨cmd.code, index, adp, ado, payload⟩]) := by
  obtain ⟨init, last, rfl, he⟩ := h
  have hc := length_chain init last
  have hb : cyclicBuf = 576 := rfl
  refine ⟨init ++ [last], _, rfl, append_encodes he.starts index cmd adp ado payload (by omega) ?_⟩
  rw [c.length_tx]
  omega

def opRequest (c : Cyclic L) (index : UInt8) : List (Appended × Datagram) :=
  match c.slaves[c.seekOp.opCursor]? with
  | none => []
  | some s =>
    if c.seekOp.opCtrlPhase then [(.control, ⟨Command.code .fpwr, index, s.station, regAlControl, [alStateOp, 0]⟩)]
    else [(.status c.seekOp.opCursor, ⟨Command.code .fprd, index, s.station, regAlStatus, [0, 0]⟩)]

def telemetry (c : Cyclic L) (index : UInt8) : Appended × Datagram :=
  if c.monToggle then (.dcDiff, ⟨Command.code .fprd, index, c.followerStation, regDcSysTimeDiff, [0, 0, 0, 0]⟩)
  else (.alPoll, ⟨Command.code .fprd, index, c.advanceMonitor.pollStation, regAlStatus, [0, 0]⟩)

def monitor (c : Cyclic L) (index : UInt8) : List (Appended × Datagram) :=
  if c.slaves.length ≤ 1 then
    match c.slaves.head? with
    | some s => [(.dcDiff, ⟨Command.code .fprd, index, s.station, regDcSysTimeDiff, [0, 0, 0, 0]⟩)]
    | none => []
  else
    [(.dcArmw, ⟨Command.code .armw, index, autoincAdp c.refRingPos, regDcSysTime, [0, 0, 0, 0, 0, 0, 0, 0]⟩),
      c.telemetry (index + 1)]

def appendix (c : Cyclic L) (index : UInt8) : List (Appended × Datagram) :=
  match c.phase with
  | .requestingOp => c.opRequest index
  | .operational => c.monitor index
  | .priming | .faulted => []

def lrwDatagram (c : Cyclic L) (index : UInt8) : Datagram :=
  ⟨Command.code .lrw, index, 0x0000, 0x0000, c.domain.image⟩

structure Builds (c : Cyclic L) (ds : List (Appended × Datagram)) (lrw : Datagram) : Prop where
  carries : c.Carries (lrw :: ds.map Prod.snd)
  appended : c.appended = ds.map Prod.fst

theorem Builds.append {c : Cyclic L} {ds : List (Appended × Datagram)} {lrw : Datagram} (h : c.Builds ds lrw)
    (index : UInt8) (cmd : Command) (adp ado : UInt16) (payload : List UInt8) (kind : Appended)
    (hr : frameRoom (lrw :: ds.map Prod.snd) + (payload.length + 12) + 2 ≤ cyclicBuf) (hn : ds.length < maxAppended) :
    (c.appendDatagram index cmd adp ado payload kind).Builds
      (ds ++ [(kind, ⟨cmd.code, index, adp, ado, payload⟩)]) lrw := by
  refine ⟨?_, ?_⟩
  · rw [List.map_append]
    exact h.carries.append index cmd adp ado payload kind hr
  · change pushWithin maxAppended c.appended kind = _
    rw [pushWithin_of_lt _ (by rw [h.appended, List.length_map]; exact hn), h.appended, List.map_append]
    rfl

theorem Builds.congr {c c' : Cyclic L} {ds : List (Appended × Datagram)} {lrw : Datagram} (h : c.Builds ds lrw)
    (ht : c'.tx = c.tx) (hl : c'.txLen = c.txLen) (ha : c'.appended = c.appended) : c'.Builds ds lrw := by
  refine ⟨?_, ha.trans h.appended⟩
  rw [Carries, ht, hl]
  exact h.carries

theorem image_le (c : Cyclic L) : c.domain.image.length ≤ maxImage := by
  rw [c.domain.length_image]
  exact min_le_right _ _

theorem appendOpRequest_builds {c : Cyclic L} {lrw : Datagram} (h : c.Builds [] lrw) (index : UInt8)
    (hl : lrw.data.length ≤ maxImage) : (c.appendOpRequest index).1.Builds (c.opRequest index) lrw := by
  have hr : frameRoom [lrw] + (2 + 12) + 2 ≤ cyclicBuf := by
    simp only [frameRoom, List.map_cons, List.map_nil, List.sum_cons, List.sum_nil, cyclicBuf]
    omega
  have hs : c.seekOp.Builds [] lrw := h.congr rfl rfl rfl
  have hslaves : c.seekOp.slaves = c.slaves := rfl
  rw [appendOpRequest, opRequest]
  dsimp only
  rw [hslaves]
  generalize c.seekOp = d at hs ⊢
  cases c.slaves[d.opCursor]? with
  | none => exact hs
  | some s =>
    dsimp only
    split_ifs
    · exact (hs.append index .fpwr _ _ [alStateOp, 0] .control hr (by decide)).congr rfl rfl rfl
    · exact (hs.append index .fprd _ _ [0, 0] (.status _) hr (by decide)).congr rfl rfl rfl

theorem appendTelemetry_builds {c : Cyclic L} {ds : List (Appended × Datagram)} {lrw : Datagram} (h : c.Builds ds lrw)
    (index : UInt8) (hr : frameRoom (lrw :: ds.map Prod.snd) + 18 ≤ cyclicBuf) (hn : ds.length < maxAppended) :
    (c.appendTelemetry index).Builds (ds ++ [c.telemetry index]) lrw := by
  rw [appendTelemetry, telemetry]
  split_ifs
  · exact h.append index .fprd _ _ [0, 0, 0, 0] .dcDiff (by simp; omega) hn
  · have ha : c.advanceMonitor.Builds ds lrw := h.congr rfl rfl rfl
    exact ha.append index .fprd _ _ [0, 0] .alPoll (by simp; omega) hn

theorem appendMonitor_builds {c : Cyclic L} {lrw : Datagram} (h : c.Builds [] lrw) (index : UInt8)
    (hl : lrw.data.length ≤ maxImage) : (c.appendMonitor index).1.Builds (c.monitor index) lrw := by
  have hb : cyclicBuf = maxImage + 64 := rfl
  have hroom : frameRoom [lrw] = lrw.data.length + 12 := by simp [frameRoom]
  rw [appendMonitor, monitor]
  split_ifs with hn
  · cases c.slaves.head? with
    | none => exact h
    | some s => exact h.append index .fprd _ _ [0, 0, 0, 0] .dcDiff (by simp [hroom, hb]; omega) (by decide)
  · have h₁ := h.append index .armw (autoincAdp c.refRingPos) regDcSysTime [0, 0, 0, 0, 0, 0, 0, 0] .dcArmw
      (by simp [hroom, hb]; omega) (by decide)
    have h₂ := appendTelemetry_builds h₁ (index + 1) (by simp [frameRoom, hb]; omega) (by simp [maxAppended])
    exact h₂.congr rfl rfl rfl

theorem startFrame_builds (c : Cyclic L) (index : UInt8) : (c.startFrame index).Builds [] (c.lrwDatagram index) := by
  have hl := c.image_le
  refine ⟨⟨[], _, rfl, build_encodes index .lrw 0 0 c.domain.image ?_⟩, rfl⟩
  rw [c.length_tx]
  simp only [cyclicBuf]
  omega

theorem buildFrame_builds (c : Cyclic L) (index : UInt8) :
    (c.buildFrame index).1.Builds (c.appendix (index + 1)) (c.lrwDatagram index) := by
  have hl := c.image_le
  have h := c.startFrame_builds index
  have hphase : (c.startFrame index).phase = c.phase := rfl
  rw [buildFrame, appendix, hphase]
  cases c.phase with
  | priming => exact h
  | requestingOp => exact appendOpRequest_builds h _ hl
  | operational => exact appendMonitor_builds h _ hl
  | faulted => exact h

theorem frameRoom_appendix (c : Cyclic L) (index : UInt8) (lrw : Datagram) :
    frameRoom (lrw :: (c.appendix index).map Prod.snd) ≤ lrw.data.length + 48 := by
  have hnil : frameRoom [lrw] = lrw.data.length + 12 := by simp [frameRoom]
  rw [appendix]
  split
  · rw [opRequest]
    split
    · simp [hnil]
    · split_ifs <;> simp [frameRoom]
  · rw [monitor]
    split_ifs
    · split <;> simp [frameRoom]
    · rw [telemetry]
      split_ifs <;> simp [frameRoom]
  · simp [hnil]
  · simp [hnil]

theorem datagrams_buildFrame (c : Cyclic L) (index : UInt8) :
    EcMaster.datagrams (c.buildFrame index).1.sentFrame =
      c.lrwDatagram index :: (c.appendix (index + 1)).map Prod.snd := by
  apply (c.buildFrame_builds index).carries.datagrams
  have hr := c.frameRoom_appendix (index + 1) (c.lrwDatagram index)
  have hl : (c.lrwDatagram index).data.length ≤ maxImage := c.image_le
  simp only [maxImage] at hl
  omega

theorem bytes_head (d : Datagram) (more : Bool) (hdr rest : List UInt8) (hl : hdr.length = 2) :
    slice (hdr ++ (d.bytes more ++ rest)) 2 6 = [d.command, d.index] ++ leBytes 2 d.adp.toNat ++ leBytes 2 d.ado.toNat := by
  have hs := slice_append_right hdr (d.bytes more ++ rest) 0 6
  rw [hl] at hs
  exact hs

theorem Carries.slice_head {c : Cyclic L} {d : Datagram} {ds : List Datagram} (h : c.Carries (d :: ds)) :
    slice c.sentFrame 2 6 = [d.command, d.index] ++ leBytes 2 d.adp.toNat ++ leBytes 2 d.ado.toNat := by
  obtain ⟨init, last, heq, he⟩ := h
  have hlen : 8 ≤ c.txLen := by
    have hl := he.length_eq
    simp only [ecMinEcatFrame] at hl
    omega
  rw [sentFrame, slice_take hlen, slice_prefix he.starts (by rw [length_frameBytes, length_chain]; simp [← heq, frameRoom]; omega)]
  cases init with
  | nil =>
    obtain ⟨rfl, -⟩ := List.cons.inj heq
    rw [frameBytes, chain]
    simpa using bytes_head d false _ [] (length_leBytes 2 _)
  | cons d' init =>
    obtain ⟨rfl, -⟩ := List.cons.inj heq
    rw [frameBytes, chain_cons]
    exact bytes_head d true _ _ (length_leBytes 2 _)

theorem slice_buildFrame (c : Cyclic L) (index : UInt8) :
    slice (c.buildFrame index).1.sentFrame 2 6 = [0x0C, index, 0, 0, 0, 0] := by
  have hz : leBytes 2 (0 : UInt16).toNat = [0, 0] := by decide
  have hs := (c.buildFrame_builds index).carries.slice_head
  rw [show (c.lrwDatagram index).adp = 0 from rfl, show (c.lrwDatagram index).ado = 0 from rfl, hz] at hs
  exact hs

def lrwData (c : Cyclic L) : List UInt8 :=
  match EcMaster.datagrams c.sentFrame with
  | [] => []
  | d :: _ => d.data

theorem lrwData_send (c : Cyclic L) (dev : Device) (index : UInt8) :
    (c.send dev index).1.lrwData = c.domain.image := by
  change (c.buildFrame index).1.lrwData = _
  rw [lrwData, datagrams_buildFrame]
  rfl

theorem datagrams_send (c : Cyclic L) (dev : Device) (index : UInt8) :
    EcMaster.datagrams (c.send dev index).1.sentFrame =
      c.lrwDatagram index :: (c.appendix (index + 1)).map Prod.snd :=
  c.datagrams_buildFrame index

theorem appended_send (c : Cyclic L) (dev : Device) (index : UInt8) :
    (c.send dev index).1.appended = (c.appendix (index + 1)).map Prod.fst :=
  (c.buildFrame_builds index).appended

end Cyclic

end EcMaster
