import EcMaster.Cyclic
import EcMaster.Fsm
import EcMaster.SlaveSetup

namespace EcMaster

open Library.Dialogue Library.Dialogue.Script Library.Segment Library.LittleEndian

def regDcRecvTime : UInt16 := 0x0900
def regDcSysTimeOffset : UInt16 := 0x0920
def regDcSysTimeDelay : UInt16 := 0x0928
def regDcActivation : UInt16 := 0x0980
def regDcCycleStart : UInt16 := 0x0990
def regDcSync0Cycle : UInt16 := 0x09A0

def startMarginNs : UInt64 := 100000000
def maxDelayNs : ℤ := 10000

structure DcRef where
  refStation : UInt16
  compensate : Bool
  deriving DecidableEq

def DcRef.reference : DcRef := ⟨0, false⟩

inductive DcState
  | compLatch
  | compReadPorts
  | compWriteDelay
  | compReadTimes
  | compWriteOffset
  | latchTime
  | readTime
  | writeCycle
  | writeStart
  | activate
  | done
  deriving DecidableEq

structure FsmDc where
  station : UInt16
  cfg : DcCfg
  dcRef : DcRef
  state : DcState
  x : Exchange
  startTime : UInt64
  offset : UInt64
  delay : UInt32

def u64Le (bs : List UInt8) : UInt64 := UInt64.ofNat (leNat bs)

def cyclicStart (cfg : DcCfg) (now : UInt64) : UInt64 :=
  let cycle := (max cfg.sync0CycleNs 1).toUInt64
  let target := now + startMarginNs
  (target / cycle + 1) * cycle + cfg.sync0ShiftNs.toUInt64

def propagationDelay (refPorts folPorts : List UInt32) : UInt32 :=
  let refRt : ℤ := (refPorts.getD 1 0 - refPorts.getD 0 0).toNat
  let folRt : ℤ := (folPorts.getD 1 0 - folPorts.getD 0 0).toNat
  let oneWay := (refRt - folRt).tdiv 2
  if 0 ≤ oneWay ∧ oneWay ≤ maxDelayNs then UInt32.ofNat oneWay.toNat else 0

def readPorts (data : List UInt8) : Except EcError (List UInt32) :=
  if data.length < 16 then .error .frameTooShort
  else .ok [u32Le (slice data 0 4), u32Le (slice data 4 4), u32Le (slice data 8 4), u32Le (slice data 12 4)]

def readU64 (data : List UInt8) : Except EcError UInt64 :=
  if data.length < 8 then .error .frameTooShort else .ok (u64Le (data.take 8))

def nextDatagram (frame : List UInt8) (off : ℕ) : Except EcError (Reply × ℕ) :=
  match parseAt frame off with
  | none => .error .frameTooShort
  | some d => .ok d

def parseTwoPortReads (frame : List UInt8) : Except EcError (List UInt32 × List UInt32) := do
  let (d0, n1) ← nextDatagram frame ecFrameHeaderSize
  let (d1, _) ← nextDatagram frame n1
  if d0.workingCounter ≠ 1 ∨ d1.workingCounter ≠ 1 then .error .workingCounter
  else
    let refPorts ← readPorts d0.data
    let folPorts ← readPorts d1.data
    .ok (refPorts, folPorts)

/-- The system times of the reference and of the follower, and the follower's offset. -/
structure DcTimes where
  refSys : UInt64
  folSys : UInt64
  oldOff : UInt64

def parseThreeU64Reads (frame : List UInt8) : Except EcError DcTimes := do
  let (d0, n1) ← nextDatagram frame ecFrameHeaderSize
  let (d1, n2) ← nextDatagram frame n1
  let (d2, _) ← nextDatagram frame n2
  if d0.workingCounter ≠ 1 ∨ d1.workingCounter ≠ 1 ∨ d2.workingCounter ≠ 1 then .error .workingCounter
  else
    let refSys ← readU64 d0.data
    let folSys ← readU64 d1.data
    let oldOff ← readU64 d2.data
    .ok ⟨refSys, folSys, oldOff⟩

def zeros (n : ℕ) : List UInt8 := List.replicate n 0

namespace FsmDc

def new (station : UInt16) (cfg : DcCfg) (dcRef : DcRef) : FsmDc :=
  ⟨station, cfg, dcRef, if dcRef.compensate then .compLatch else .latchTime, .idle, 0, 0, 0⟩

def buffers : Buffers := ⟨96, 128⟩

def advance (s : FsmDc) (next : DcState) : FsmDc := { s with state := next, x := .idle }

def poll (s : FsmDc) (request : List Access) (k : Link) (hear : List UInt8 → Except EcError (Bool × FsmDc)) :
    Except EcError (Bool × FsmDc) × Link :=
  s.x.step buffers request k (fun x => (false, { s with x := x })) hear

def write (s : FsmDc) (ado : UInt16) (payload : List UInt8) (k : Link) (next : Bool × FsmDc) :
    Except EcError (Bool × FsmDc) × Link :=
  s.poll [⟨.fpwr, s.station, ado, payload⟩] k (onReply fun reply =>
    if reply.workingCounter ≠ 1 then .error .workingCounter else .ok next)

def step (s : FsmDc) (k : Link) : Except EcError (Bool × FsmDc) × Link :=
  match s.state with
  | .compLatch =>
    s.poll [⟨.bwr, 0x0000, regDcRecvTime, zeros 4⟩] k (onReply fun reply =>
      if reply.workingCounter = 0 then .error .workingCounter else .ok (false, s.advance .compReadPorts))
  | .compReadPorts =>
    s.poll [⟨.fprd, s.dcRef.refStation, regDcRecvTime, zeros 16⟩, ⟨.fprd, s.station, regDcRecvTime, zeros 16⟩] k
      fun rx =>
        match parseTwoPortReads rx with
        | .error e => .error e
        | .ok (refPorts, folPorts) =>
          .ok (false, { s with delay := propagationDelay refPorts folPorts }.advance .compWriteDelay)
  | .compWriteDelay => s.write regDcSysTimeDelay (leBytes 4 s.delay.toNat) k (false, s.advance .compReadTimes)
  | .compReadTimes =>
    s.poll [⟨.fprd, s.dcRef.refStation, regDcSysTime, zeros 8⟩, ⟨.fprd, s.station, regDcSysTime, zeros 8⟩,
        ⟨.fprd, s.station, regDcSysTimeOffset, zeros 8⟩] k fun rx =>
      match parseThreeU64Reads rx with
      | .error e => .error e
      | .ok t =>
        .ok (false, { s with
          offset := t.oldOff + (t.refSys - t.folSys)
          startTime := cyclicStart s.cfg t.refSys }.advance .compWriteOffset)
  | .compWriteOffset => s.write regDcSysTimeOffset (leBytes 8 s.offset.toNat) k (false, s.advance .writeCycle)
  | .latchTime => s.write regDcRecvTime (zeros 4) k (false, s.advance .readTime)
  | .readTime =>
    s.poll [⟨.fprd, s.station, regDcSysTime, zeros 8⟩] k (onReply fun reply =>
      let now := if reply.data.length ≥ 8 then u64Le (reply.data.take 8) else 0
      .ok (false, { s with startTime := cyclicStart s.cfg now }.advance .writeCycle))
  | .writeCycle =>
    s.write regDcSync0Cycle (leBytes 4 s.cfg.sync0CycleNs.toNat ++ leBytes 4 s.cfg.sync1CycleNs.toNat) k
      (false, s.advance .writeStart)
  | .writeStart => s.write regDcCycleStart (leBytes 8 s.startTime.toNat) k (false, s.advance .activate)
  | .activate =>
    s.write regDcActivation (leBytes 2 s.cfg.assignActivate.toNat) k (true, { s with state := .done })
  | .done => (.ok (true, s), k)

end FsmDc

def put (station ado : UInt16) (payload : List UInt8) (next : Procedure Unit) : Procedure Unit :=
  exchange [⟨.fpwr, station, ado, payload⟩] (replied (confirmed next))

def activateSync (station : UInt16) (cfg : DcCfg) : Procedure Unit :=
  put station regDcActivation (leBytes 2 cfg.assignActivate.toNat) (.done ())

def writeSyncStart (station : UInt16) (cfg : DcCfg) (start : UInt64) : Procedure Unit :=
  put station regDcCycleStart (leBytes 8 start.toNat) (activateSync station cfg)

def writeSync (station : UInt16) (cfg : DcCfg) (start : UInt64) : Procedure Unit :=
  put station regDcSync0Cycle (leBytes 4 cfg.sync0CycleNs.toNat ++ leBytes 4 cfg.sync1CycleNs.toNat)
    (writeSyncStart station cfg start)

def readSystemTime (station : UInt16) (cfg : DcCfg) : Procedure Unit :=
  exchange [⟨.fprd, station, regDcSysTime, zeros 8⟩] (replied fun reply =>
    writeSync station cfg (cyclicStart cfg (if reply.data.length ≥ 8 then u64Le (reply.data.take 8) else 0)))

def writeOffset (station : UInt16) (cfg : DcCfg) (offset start : UInt64) : Procedure Unit :=
  put station regDcSysTimeOffset (leBytes 8 offset.toNat) (writeSync station cfg start)

def readTimes (station : UInt16) (cfg : DcCfg) (dcRef : DcRef) : Procedure Unit :=
  exchange [⟨.fprd, dcRef.refStation, regDcSysTime, zeros 8⟩, ⟨.fprd, station, regDcSysTime, zeros 8⟩,
      ⟨.fprd, station, regDcSysTimeOffset, zeros 8⟩] fun rx =>
    match parseThreeU64Reads rx with
    | .error e => .fail e
    | .ok t => writeOffset station cfg (t.oldOff + (t.refSys - t.folSys)) (cyclicStart cfg t.refSys)

def writeDelay (station : UInt16) (cfg : DcCfg) (dcRef : DcRef) (delay : UInt32) : Procedure Unit :=
  put station regDcSysTimeDelay (leBytes 4 delay.toNat) (readTimes station cfg dcRef)

def readPortTimes (station : UInt16) (cfg : DcCfg) (dcRef : DcRef) : Procedure Unit :=
  exchange [⟨.fprd, dcRef.refStation, regDcRecvTime, zeros 16⟩, ⟨.fprd, station, regDcRecvTime, zeros 16⟩] fun rx =>
    match parseTwoPortReads rx with
    | .error e => .fail e
    | .ok (refPorts, folPorts) => writeDelay station cfg dcRef (propagationDelay refPorts folPorts)

def compensated (station : UInt16) (cfg : DcCfg) (dcRef : DcRef) : Procedure Unit :=
  exchange [⟨.bwr, 0x0000, regDcRecvTime, zeros 4⟩] (replied fun reply =>
    if reply.workingCounter = 0 then .fail .workingCounter else readPortTimes station cfg dcRef)

def uncompensated (station : UInt16) (cfg : DcCfg) : Procedure Unit :=
  put station regDcRecvTime (zeros 4) (readSystemTime station cfg)

def configureDc (station : UInt16) (cfg : DcCfg) (dcRef : DcRef) : Procedure Unit :=
  if dcRef.compensate then compensated station cfg dcRef else uncompensated station cfg

namespace FsmDc

def plan (s : FsmDc) : Procedure Unit :=
  match s.state with
  | .compLatch => compensated s.station s.cfg s.dcRef
  | .compReadPorts => readPortTimes s.station s.cfg s.dcRef
  | .compWriteDelay => writeDelay s.station s.cfg s.dcRef s.delay
  | .compReadTimes => readTimes s.station s.cfg s.dcRef
  | .compWriteOffset => writeOffset s.station s.cfg s.offset s.startTime
  | .latchTime => uncompensated s.station s.cfg
  | .readTime => readSystemTime s.station s.cfg
  | .writeCycle => writeSync s.station s.cfg s.startTime
  | .writeStart => writeSyncStart s.station s.cfg s.startTime
  | .activate => activateSync s.station s.cfg
  | .done => .skip (.done ())

def script (s : FsmDc) : Procedure Unit := s.x.resume s.plan

def left (s : FsmDc) : ℕ := s.x.left

abbrev pos : Except EcError (Bool × FsmDc) → Procedure Unit × ℕ := position script left fun _ => ()

theorem pos_idle {s : FsmDc} (h : s.x = .idle) : (pos (.ok (false, s))).1 = s.plan := by
  change s.x.resume s.plan = _
  rw [h, Exchange.resume_idle]

theorem poll_turns {s : FsmDc} {request : List Access} {hear : List UInt8 → Except EcError (Bool × FsmDc)}
    {next : List UInt8 → Procedure Unit} (hplan : s.plan = exchange request next)
    (hhear : ∀ rx, (pos (hear rx)).1 = next rx) (k : Link) :
    Turns (s.script, s.left) k (pos (s.poll request k hear).1) (s.poll request k hear).2 := by
  rw [script, hplan]
  refine Exchange.poll_turns (fun y => ?_) (fun y => rfl) hhear
  rw [script, ← hplan]
  rfl

theorem write_turns {s : FsmDc} {ado : UInt16} {payload : List UInt8} {next : Bool × FsmDc} {p : Procedure Unit}
    (hplan : s.plan = put s.station ado payload p) (hnext : (pos (.ok next)).1 = p) (k : Link) :
    Turns (s.script, s.left) k (pos (s.write ado payload k next).1) (s.write ado payload k next).2 := by
  refine poll_turns hplan (hear_onReply fun reply => ?_) k
  rw [confirmed]
  split
  · rfl
  · exact hnext

theorem step_turns (s : FsmDc) (k : Link) : Turns (s.script, s.left) k (pos (s.step k).1) (s.step k).2 := by
  rw [step]
  rcases hs : s.state
  case compLatch =>
    refine poll_turns (by rw [plan, hs, compensated]) (hear_onReply fun reply => ?_) k
    split
    · rfl
    · exact pos_idle rfl
  case compReadPorts =>
    refine poll_turns (by rw [plan, hs, readPortTimes]) (fun rx => ?_) k
    rcases parseTwoPortReads rx with _ | ⟨refPorts, folPorts⟩
    · rfl
    · exact pos_idle rfl
  case compWriteDelay => exact write_turns (by rw [plan, hs]; rfl) (pos_idle rfl) k
  case compReadTimes =>
    refine poll_turns (by rw [plan, hs, readTimes]) (fun rx => ?_) k
    rcases parseThreeU64Reads rx with _ | t
    · rfl
    · exact pos_idle rfl
  case compWriteOffset => exact write_turns (by rw [plan, hs]; rfl) (pos_idle rfl) k
  case latchTime => exact write_turns (by rw [plan, hs]; rfl) (pos_idle rfl) k
  case readTime =>
    refine poll_turns (by rw [plan, hs, readSystemTime]) (hear_onReply fun reply => ?_) k
    exact pos_idle rfl
  case writeCycle => exact write_turns (by rw [plan, hs]; rfl) (pos_idle rfl) k
  case writeStart => exact write_turns (by rw [plan, hs]; rfl) (pos_idle rfl) k
  case activate => exact write_turns (by rw [plan, hs]; rfl) rfl k
  case done =>
    have hscript : s.script = .skip (.done ()) := by rw [script, plan, hs]; rfl
    rw [hscript]
    exact Turns.skip _ _ _ _

def fsm : Fsm FsmDc Unit := .simple step script left (fun _ => ()) (fun s => s.x.left_le) step_turns

theorem script_new (station : UInt16) (cfg : DcCfg) (dcRef : DcRef) :
    (new station cfg dcRef).script = configureDc station cfg dcRef := by
  refine (Exchange.resume_idle _).trans ?_
  rw [plan, new, configureDc]
  cases dcRef.compensate <;> rfl

end FsmDc

end EcMaster
