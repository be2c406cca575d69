import EcMaster.Cia402
import EcMaster.Device
import EcMaster.Domain
import EcMaster.HostBridge

namespace EcMaster

open Library.Segment Library.LittleEndian

def cyclicBuf : ℕ := maxImage + 64
def maxAppended : ℕ := 3
def primingCycles : UInt32 := 3
def hostWdogLimitCycles : UInt16 := 20

def regAlControl : UInt16 := 0x0120
def regAlStatus : UInt16 := 0x0130
def regDcSysTime : UInt16 := 0x0910
def regDcSysTimeDiff : UInt16 := 0x092C

def alStateOp : UInt8 := 0x08
def alStateError : UInt8 := 0x10
def alStateMask : UInt8 := 0x0F

inductive Phase
  | priming
  | requestingOp
  | operational
  | faulted
  deriving DecidableEq, Repr

def Phase.code : Phase → UInt8
  | priming => 0
  | requestingOp => 1
  | operational => 2
  | faulted => 3

/-- A datagram appended after the LRW, in build order, so that the reply can be dispatched by kind. -/
inductive Appended
  | control
  | status (idx : ℕ)
  | dcArmw
  | dcDiff
  | alPoll
  deriving DecidableEq, Repr

inductive AppliedReply
  | none
  | opReached (idx : ℕ)
  | fault
  | drift (v : Int32)
  deriving DecidableEq

structure CyclicSlave where
  station : UInt16
  ringPos : UInt16
  deriving DecidableEq

structure SlaveRt where
  station : UInt16
  ringPos : UInt16
  reachedOp : Bool
  deriving DecidableEq

structure Cyclic (L : Layout) where
  domain : EcDomain L.bus
  slaves : List SlaveRt
  refRingPos : UInt16
  phase : Phase
  tx : List UInt8
  txLen : ℕ
  outstanding : Bool
  expectedIndex : UInt8
  goodCycles : UInt32
  totalCycles : UInt32
  appended : List Appended
  opCursor : ℕ
  opCtrlPhase : Bool
  monToggle : Bool
  monCursor : ℕ
  cycleNs : UInt64
  latMinTicks : UInt32
  latMaxTicks : UInt32
  dcDiffNs : Int32
  dcDiffMaxNs : Int32
  dcValid : Bool
  cia402 : Cia402
  length_tx : tx.length = cyclicBuf

def decodeDcDiff (raw : UInt32) : Int32 :=
  let mag := (raw &&& 0x7FFFFFFF).toInt32
  if raw &&& 0x80000000 ≠ 0 then -mag else mag

def decodeAppended (kind : Appended) (dg : Reply) : AppliedReply :=
  match kind with
  | .control | .dcArmw => .none
  | .status idx =>
    if dg.workingCounter = 0 then .none
    else
      let status := dg.data.headD 0
      if status &&& alStateError ≠ 0 then .fault
      else if status &&& alStateMask = alStateOp then .opReached idx
      else .none
  | .alPoll =>
    if dg.workingCounter = 0 then .none
    else
      let status := dg.data.headD 0
      if status &&& alStateError ≠ 0 ∨ status &&& alStateMask ≠ alStateOp then .fault else .none
  | .dcDiff =>
    if dg.workingCounter > 0 ∧ dg.data.length ≥ 4 then
      .drift (decodeDcDiff (u32Le (slice dg.data 0 4)))
    else .none

def pairReplies (frame : List UInt8) : List Appended → ℕ → List (Appended × Reply)
  | [], _ => []
  | kind :: kinds, next =>
    if next = 0 then []
    else
      match parseAt frame next with
      | none => []
      | some (dg, n2) => (kind, dg) :: pairReplies frame kinds n2

def skipReached (slaves : List SlaveRt) : ℕ → ℕ → Bool → ℕ × Bool
  | 0, cursor, ctrl => (cursor, ctrl)
  | fuel + 1, cursor, ctrl =>
    match slaves[cursor]? with
    | some s => if s.reachedOp then skipReached slaves fuel (cursor + 1) true else (cursor, ctrl)
    | none => (cursor, ctrl)

namespace Cyclic

variable {L : Layout}

def new (L : Layout) (slaves : List CyclicSlave) (refRingPos : UInt16) (cycleNs : UInt64) : Cyclic L where
  domain := EcDomain.fromConfig L.bus
  slaves := (slaves.map fun s => ⟨s.station, s.ringPos, false⟩).foldl (pushWithin ecMaxSlaves) []
  refRingPos := refRingPos
  phase := .priming
  tx := List.replicate cyclicBuf 0
  txLen := 0
  outstanding := false
  expectedIndex := 0
  goodCycles := 0
  totalCycles := 0
  appended := []
  opCursor := 0
  opCtrlPhase := true
  monToggle := true
  monCursor := 0
  cycleNs := cycleNs
  latMinTicks := 0xFFFFFFFF
  latMaxTicks := 0
  dcDiffNs := 0
  dcDiffMaxNs := 0
  dcValid := false
  cia402 := Cia402.new L.bus
  length_tx := List.length_replicate

def allReachedOp (c : Cyclic L) : Bool := c.slaves.all SlaveRt.reachedOp

def beginTick (c : Cyclic L) (latency : UInt32) : Cyclic L :=
  { c with
    latMinTicks := if latency < c.latMinTicks then latency else c.latMinTicks
    latMaxTicks := if latency > c.latMaxTicks then latency else c.latMaxTicks
    totalCycles := c.totalCycles + 1 }

def applyAction (c : Cyclic L) : AppliedReply → Cyclic L
  | .opReached idx => { c with slaves := c.slaves.modify idx fun s => { s with reachedOp := true } }
  | .fault => { c with phase := .faulted }
  | .drift v =>
    { c with
      dcDiffNs := v
      dcValid := true
      dcDiffMaxNs := if v.toInt.natAbs > c.dcDiffMaxNs.toInt.natAbs then v else c.dcDiffMaxNs }
  | .none => c

def countGood (c : Cyclic L) (wkc : UInt16) : Cyclic L :=
  { c with
    goodCycles := if wkc > 0 then if c.goodCycles = 0xFFFFFFFF then c.goodCycles else c.goodCycles + 1 else 0 }

def primed (c : Cyclic L) : Cyclic L :=
  if c.phase = .priming ∧ c.goodCycles ≥ primingCycles then { c with phase := .requestingOp } else c

def entered (c : Cyclic L) : Cyclic L :=
  if c.phase = .requestingOp ∧ c.allReachedOp then { c with phase := .operational } else c

def absorb (c : Cyclic L) (lrw : Reply) (answers : List (Appended × Reply)) : Cyclic L :=
  let actions := answers.map fun p => decodeAppended p.1 p.2
  let c := { c with domain := (c.domain.applyReply lrw).2 }
  let c := (c.countGood lrw.workingCounter).primed
  (actions.foldl applyAction c).entered

def process (c : Cyclic L) (frame : List UInt8) : Cyclic L :=
  match parseAt frame ecFrameHeaderSize with
  | none => c
  | some (lrw, next) => c.absorb lrw (pairReplies frame c.appended next)

def receive : ℕ → Cyclic L → Device → Cyclic L × Device
  | 0, c, dev => (c, dev)
  | n + 1, c, dev =>
    match dev.poll cyclicBuf with
    | (some frame, dev) =>
      if frame.length ≥ 4 ∧ frame.getD 3 0 = c.expectedIndex then (c.process frame, dev)
      else receive n c dev
    | (none, dev) => (c, dev)

def clearOutstanding (c : Cyclic L) : Cyclic L := { c with outstanding := false }

def intake (c : Cyclic L) (dev : Device) (latency : UInt32) : Cyclic L × Device :=
  let c := c.beginTick latency
  if c.outstanding then
    let (c, dev) := receive ecatRxLen c dev
    (c.clearOutstanding, dev)
  else (c, dev)

def followerStation (c : Cyclic L) : UInt16 :=
  match c.slaves.find? fun s => s.ringPos ≠ c.refRingPos with
  | some s => s.station
  | none => (c.slaves.head?.map SlaveRt.station).getD 0

def appendDatagram (c : Cyclic L) (index : UInt8) (cmd : Command) (adp ado : UInt16) (payload : List UInt8)
    (kind : Appended) : Cyclic L :=
  let f := append c.tx index cmd adp ado payload
  { c with
    tx := f.1
    txLen := f.2
    appended := pushWithin maxAppended c.appended kind
    length_tx := by rw [length_append, c.length_tx] }

/-- The `while` loop of `append_op_request`. -/
def seekOp (c : Cyclic L) : Cyclic L :=
  let at' := skipReached c.slaves c.slaves.length c.opCursor c.opCtrlPhase
  { c with opCursor := at'.1, opCtrlPhase := at'.2 }

def toggleCtrl (c : Cyclic L) : Cyclic L := { c with opCtrlPhase := !c.opCtrlPhase }

def appendOpRequest (c : Cyclic L) (index : UInt8) : Cyclic L × UInt8 :=
  let c := c.seekOp
  match c.slaves[c.opCursor]? with
  | none => (c, index)
  | some s =>
    let d :=
      if c.opCtrlPhase then c.appendDatagram index .fpwr s.station regAlControl [alStateOp, 0] .control
      else c.appendDatagram index .fprd s.station regAlStatus [0, 0] (.status c.opCursor)
    (d.toggleCtrl, index + 1)

def advanceMonitor (c : Cyclic L) : Cyclic L := { c with monCursor := (c.monCursor + 1) % c.slaves.length }

def toggleMonitor (c : Cyclic L) : Cyclic L := { c with monToggle := !c.monToggle }

def pollStation (c : Cyclic L) : UInt16 := (c.slaves[c.monCursor]?.map SlaveRt.station).getD 0

def appendTelemetry (c : Cyclic L) (index : UInt8) : Cyclic L :=
  if c.monToggle then c.appendDatagram index .fprd c.followerStation regDcSysTimeDiff [0, 0, 0, 0] .dcDiff
  else
    let c := c.advanceMonitor
    c.appendDatagram index .fprd c.pollStation regAlStatus [0, 0] .alPoll

def appendMonitor (c : Cyclic L) (index : UInt8) : Cyclic L × UInt8 :=
  if c.slaves.length ≤ 1 then
    match c.slaves.head? with
    | some s => (c.appendDatagram index .fprd s.station regDcSysTimeDiff [0, 0, 0, 0] .dcDiff, index + 1)
    | none => (c, index)
  else
    let c := c.appendDatagram index .armw (autoincAdp c.refRingPos) regDcSysTime [0, 0, 0, 0, 0, 0, 0, 0] .dcArmw
    ((c.appendTelemetry (index + 1)).toggleMonitor, index + 2)

def startFrame (c : Cyclic L) (index : UInt8) : Cyclic L :=
  let f := c.domain.buildLrw c.tx index
  { c with
    tx := f.1
    txLen := f.2
    expectedIndex := index
    appended := []
    length_tx := by rw [EcDomain.length_buildLrw, c.length_tx] }

def buildFrame (c : Cyclic L) (index : UInt8) : Cyclic L × UInt8 :=
  let c := c.startFrame index
  match c.phase with
  | .requestingOp => c.appendOpRequest (index + 1)
  | .operational => c.appendMonitor (index + 1)
  | .priming | .faulted => (c, index + 1)

def send (c : Cyclic L) (dev : Device) (index : UInt8) : Cyclic L × Device × UInt8 :=
  let (c, index) := c.buildFrame index
  let (sent, dev) := dev.send (c.tx.take c.txLen)
  ({ c with outstanding := sent }, dev, index)

def tick (c : Cyclic L) (dev : Device) (index : UInt8) (latency : UInt32) : Cyclic L × Device × UInt8 :=
  let (c, dev) := c.intake dev latency
  c.send dev index

def putImage (c : Cyclic L) (image : List UInt8) (h : image.length = c.domain.image.length) : Cyclic L :=
  { c with domain := c.domain.withImage image h }

def driveCommand (c : Cyclic L) (host : HostBridge L) (hostTimeout underrun : Bool) : DriveCommand where
  enable := host.enableRequested
  faultReset := host.faultResetRequested
  quickStop := host.quickStopRequested || hostTimeout || underrun || c.phase = .faulted

def applyDriveControl (c : Cyclic L) (host : HostBridge L) (hostTimeout underrun : Bool) : Cyclic L :=
  if !host.hasHost || !c.cia402.hasDrives then c
  else
    let stepped := c.cia402.step c.domain.image (c.driveCommand host hostTimeout underrun)
    { c.putImage stepped.2 (length_stepDrives _ _ _) with cia402 := stepped.1 }

def replyStatus (c : Cyclic L) (hostTimeout underrun : Bool) : ReplyStatus where
  linkUp := c.domain.lastWkc > 0
  phase := c.phase.code
  wkc := UInt8.ofNat (min c.domain.lastWkc.toNat 255)
  expectedWkc := UInt8.ofNat (min c.domain.expectedWkc.toNat 255)
  cycleIndex := c.totalCycles
  faultFlags := (if c.phase = .faulted then 0x01 else 0) ||| (if c.cia402.anyFault c.domain.image then 0x02 else 0) |||
    (if hostTimeout then 0x04 else 0) ||| (if underrun then 0x08 else 0)
  hostTimeout := hostTimeout

end Cyclic

end EcMaster
