import EcMaster.CoeSeq
import EcMaster.FsmChange
import EcMaster.FsmDc

namespace EcMaster

open Library.Dialogue Library.Dialogue.Script Library.Segment Library.LittleEndian

def wdDividerValue : UInt16 := 0x09C2
def wdPdataValue : UInt16 := 0x07D0

inductive ConfigPhase
  | clearFmmus
  | dcClear
  | mboxSm0
  | mboxSm1
  | toPreop
  | sdoInit
  | pdoMapping
  | pdoAssign
  | pdSm
  | watchdogDiv
  | watchdogTime
  | fmmu
  | dcCycle
  | toSafeop
  | done
  deriving DecidableEq

structure FsmSlaveConfig where
  slave : SlaveSetup
  station : UInt16
  mbox : Mailbox
  dcRef : DcRef
  phase : ConfigPhase
  x : Exchange
  change : Option FsmChange
  seq : Option CoeSeq
  dc : Option FsmDc
  smIdx : ℕ
  pdoIdx : ℕ
  fmmuIdx : ℕ

def smRegister (index : UInt8) : UInt16 := regSm0 + index.toUInt16 * ecSyncPageSize

def fmmuRegister (idx : ℕ) : UInt16 := regFmmuBase + UInt16.ofNat idx * fmmuPageSize

namespace FsmSlaveConfig

def new (station : UInt16) (mbox : Mailbox) (slave : SlaveSetup) (dcRef : DcRef) : FsmSlaveConfig :=
  ⟨slave, station, mbox, dcRef, .clearFmmus, .idle, none, none, none, 0, 0, 0⟩

def buffers : Buffers := ⟨96, 128⟩

def goto (s : FsmSlaveConfig) (next : ConfigPhase) : FsmSlaveConfig := { s with phase := next, x := .idle }

def fpwr (s : FsmSlaveConfig) (ado : UInt16) (payload : List UInt8) (k : Link) (next : FsmSlaveConfig) :
    Except EcError (Bool × FsmSlaveConfig) × Link :=
  s.x.step buffers [⟨.fpwr, s.station, ado, payload⟩] k (fun x => (false, { s with x := x })) (onReply fun reply =>
    if reply.workingCounter ≠ 1 then .error .workingCounter else .ok (false, { next with x := .idle }))

/-- `run_change`, with the result when the target is reached. -/
def runChange (s : FsmSlaveConfig) (target : UInt8) (k : Link) (next : Bool × FsmSlaveConfig) :
    Except EcError (Bool × FsmSlaveConfig) × Link :=
  nested ((s.change.getD (FsmChange.new s.station target)).step k) (fun c => (false, { s with change := some c }))
    fun _ => .ok (next.1, { next.2 with change := none })

/-- `run_seq` of the sequence `seq`, with the state when it is complete. -/
def runSeq (s : FsmSlaveConfig) (seq : CoeSeq) (k : Link) (next : FsmSlaveConfig) :
    Except EcError (Bool × FsmSlaveConfig) × Link :=
  nested (seq.step k) (fun q => (false, { s with seq := some q })) fun _ => .ok (false, { next with seq := none })

def step (s : FsmSlaveConfig) (k : Link) : Except EcError (Bool × FsmSlaveConfig) × Link :=
  match s.phase with
  | .clearFmmus => s.fpwr regFmmuBase (zeros 48) k (s.goto .dcClear)
  | .dcClear => s.fpwr regDcActivation (zeros 2) k (s.goto .mboxSm0)
  | .mboxSm0 => s.fpwr regSm0 (mailboxOutPage s.mbox.rxOffset s.mbox.rxSize) k (s.goto .mboxSm1)
  | .mboxSm1 => s.fpwr regSm1 (mailboxInPage s.mbox.txOffset s.mbox.txSize) k (s.goto .toPreop)
  | .toPreop =>
    s.runChange alStatePreop k (false, { s with seq := some (buildInit s.mbox s.slave.sdoInit) }.goto .sdoInit)
  | .sdoInit =>
    let next := { s with smIdx := 0, pdoIdx := 0 }.goto .pdoMapping
    match s.seq with
    | none => (.ok (false, next), k)
    | some seq => s.runSeq seq k next
  | .pdoMapping =>
    match s.slave.sms[s.smIdx]? with
    | none => (.ok (false, { s with smIdx := 0 }.goto .pdoAssign), k)
    | some sm =>
      match sm.pdos[s.pdoIdx]? with
      | none => (.ok (false, { s with smIdx := s.smIdx + 1, pdoIdx := 0 }), k)
      | some pdo => s.runSeq (s.seq.getD (buildMapping s.mbox pdo)) k { s with pdoIdx := s.pdoIdx + 1 }
  | .pdoAssign =>
    match s.slave.sms[s.smIdx]? with
    | none => (.ok (false, { s with smIdx := 0 }.goto .pdSm), k)
    | some sm => s.runSeq (s.seq.getD (buildAssign s.mbox sm.index sm.pdos)) k { s with smIdx := s.smIdx + 1 }
  | .pdSm =>
    match s.slave.sms[s.smIdx]? with
    | none => (.ok (false, s.goto .watchdogDiv), k)
    | some sm =>
      s.fpwr (smRegister sm.index) (processPage sm.physStart sm.size sm.control) k { s with smIdx := s.smIdx + 1 }
  | .watchdogDiv => s.fpwr regWdDivider (leBytes 2 wdDividerValue.toNat) k (s.goto .watchdogTime)
  | .watchdogTime => s.fpwr regWdPdata (leBytes 2 wdPdataValue.toNat) k ({ s with fmmuIdx := 0 }.goto .fmmu)
  | .fmmu =>
    match s.slave.fmmus[s.fmmuIdx]? with
    | none => (.ok (false, s.goto .dcCycle), k)
    | some f => s.fpwr (fmmuRegister s.fmmuIdx) (fmmuPage f) k { s with fmmuIdx := s.fmmuIdx + 1 }
  | .dcCycle =>
    match s.slave.dc with
    | none => (.ok (false, s.goto .toSafeop), k)
    | some cfg =>
      nested ((s.dc.getD (FsmDc.new s.station cfg s.dcRef)).step k) (fun d => (false, { s with dc := some d })) fun _ =>
        .ok (false, { s with dc := none }.goto .toSafeop)
  | .toSafeop => s.runChange alStateSafeop k (true, { s with phase := .done })
  | .done => (.ok (true, s), k)

end FsmSlaveConfig

namespace BringUp

def dcStage (station : UInt16) (dcRef : DcRef) (next : Procedure Unit) : Option DcCfg → Procedure Unit
  | none => .skip next
  | some cfg => (configureDc station cfg dcRef).bind fun _ => next

def fmmuPages (station : UInt16) (next : Procedure Unit) : ℕ → List FmmuCfg → Procedure Unit
  | _, [] => .skip next
  | i, f :: fs => put station (fmmuRegister i) (fmmuPage f) (fmmuPages station next (i + 1) fs)

def smPages (station : UInt16) (next : Procedure Unit) : List SmCfg → Procedure Unit
  | [] => .skip next
  | sm :: sms => put station (smRegister sm.index) (processPage sm.physStart sm.size sm.control) (smPages station next sms)

def assigns (mbox : Mailbox) (next : Procedure Unit) : List SmCfg → Procedure Unit
  | [] => .skip next
  | sm :: sms =>
    (sequence mbox ((assignWrites sm.index sm.pdos).take maxSeq)).bind fun _ => assigns mbox next sms

def pdoMappings (mbox : Mailbox) (next : Procedure Unit) : List PdoCfg → Procedure Unit
  | [] => .skip next
  | pdo :: pdos => (sequence mbox ((mappingWrites pdo).take maxSeq)).bind fun _ => pdoMappings mbox next pdos

def mappings (mbox : Mailbox) (next : Procedure Unit) : List SmCfg → Procedure Unit
  | [] => .skip next
  | sm :: sms => pdoMappings mbox (mappings mbox next sms) sm.pdos

end BringUp

namespace FsmSlaveConfig

open BringUp

variable (s : FsmSlaveConfig)

def afterDc : Procedure Unit := changeState s.station alStateSafeop

def afterFmmus : Procedure Unit := dcStage s.station s.dcRef s.afterDc s.slave.dc

def afterTime : Procedure Unit := fmmuPages s.station s.afterFmmus 0 s.slave.fmmus

def afterDiv : Procedure Unit := put s.station regWdPdata (leBytes 2 wdPdataValue.toNat) s.afterTime

def afterPages : Procedure Unit := put s.station regWdDivider (leBytes 2 wdDividerValue.toNat) s.afterDiv

def afterAssign : Procedure Unit := smPages s.station s.afterPages s.slave.sms

def afterMapping : Procedure Unit := assigns s.mbox s.afterAssign s.slave.sms

def afterInit : Procedure Unit := mappings s.mbox s.afterMapping s.slave.sms

def afterPreop : Procedure Unit :=
  (sequence s.mbox ((initWrites s.slave.sdoInit).take maxSeq)).bind fun _ => s.afterInit

def afterSm1 : Procedure Unit := (changeState s.station alStatePreop).bind fun _ => s.afterPreop

def afterSm0 : Procedure Unit := put s.station regSm1 (mailboxInPage s.mbox.txOffset s.mbox.txSize) s.afterSm1

def afterDcClear : Procedure Unit := put s.station regSm0 (mailboxOutPage s.mbox.rxOffset s.mbox.rxSize) s.afterSm0

def afterClear : Procedure Unit := put s.station regDcActivation (zeros 2) s.afterDcClear

def plan : Procedure Unit :=
  match s.phase with
  | .clearFmmus => put s.station regFmmuBase (zeros 48) s.afterClear
  | .dcClear => s.afterClear
  | .mboxSm0 => s.afterDcClear
  | .mboxSm1 => s.afterSm0
  | .toPreop => (s.change.getD (FsmChange.new s.station alStatePreop)).script.bind fun _ => s.afterPreop
  | .sdoInit =>
    match s.seq with
    | none => .skip s.afterInit
    | some seq => seq.script.bind fun _ => s.afterInit
  | .pdoMapping =>
    match s.slave.sms.drop s.smIdx with
    | [] => .skip s.afterMapping
    | sm :: sms =>
      match sm.pdos.drop s.pdoIdx with
      | [] => .skip (mappings s.mbox s.afterMapping sms)
      | pdo :: pdos =>
        (s.seq.getD (buildMapping s.mbox pdo)).script.bind fun _ =>
          pdoMappings s.mbox (mappings s.mbox s.afterMapping sms) pdos
  | .pdoAssign =>
    match s.slave.sms.drop s.smIdx with
    | [] => .skip s.afterAssign
    | sm :: sms =>
      (s.seq.getD (buildAssign s.mbox sm.index sm.pdos)).script.bind fun _ => assigns s.mbox s.afterAssign sms
  | .pdSm => smPages s.station s.afterPages (s.slave.sms.drop s.smIdx)
  | .watchdogDiv => s.afterPages
  | .watchdogTime => s.afterDiv
  | .fmmu => fmmuPages s.station s.afterFmmus s.fmmuIdx (s.slave.fmmus.drop s.fmmuIdx)
  | .dcCycle =>
    match s.slave.dc with
    | none => .skip s.afterDc
    | some cfg => (s.dc.getD (FsmDc.new s.station cfg s.dcRef)).script.bind fun _ => s.afterDc
  | .toSafeop => (s.change.getD (FsmChange.new s.station alStateSafeop)).script.bind fun _ => .done ()
  | .done => .skip (.done ())

def own : Bool :=
  match s.phase with
  | .clearFmmus | .dcClear | .mboxSm0 | .mboxSm1 | .pdSm | .watchdogDiv | .watchdogTime | .fmmu => true
  | .toPreop | .sdoInit | .pdoMapping | .pdoAssign | .dcCycle | .toSafeop | .done => false

def script : Procedure Unit := if s.own then s.x.resume s.plan else s.plan

def left : ℕ :=
  if s.own then s.x.left
  else
    match s.phase with
    | .toPreop | .toSafeop => s.change.elim Exchange.fresh FsmChange.left
    | .dcCycle => s.dc.elim Exchange.fresh FsmDc.left
    | _ => s.seq.elim Exchange.fresh CoeSeq.left

abbrev pos : Except EcError (Bool × FsmSlaveConfig) → Procedure Unit × ℕ := position script left fun _ => ()

end FsmSlaveConfig

end EcMaster
