import EcMaster.ConfigSeq
import EcMaster.HostTick
import EcMaster.PreOp
import EcMaster.ScanFsm

namespace EcMaster

open Library.Dialogue Library.Dialogue.Script Library.Segment

/-- `stations`; both lists hold `ecMaxSlaves`. -/
def Cyclic.slaveStations {L : Layout} (c : Cyclic L) : List UInt16 := c.slaves.map SlaveRt.station

/-- A runtime request, by the slave's place in the scanned list. -/
inductive Master.Request
  | rescan
  | setState (slave : UInt16) (target : UInt8)
  | sdoUpload (slave index : UInt16) (subindex : UInt8)
  | sdoDownload (slave index : UInt16) (subindex : UInt8) (data : List UInt8)
  | startCyclic (cycleNs : UInt64)
  | stopCyclic
  deriving DecidableEq

inductive Outcome
  | rescanned (count : ℕ)
  | stateReached (target : UInt8)
  | sdoUploaded (len : ℕ)
  | sdoDownloaded
  | cyclicStarted
  | cyclicStopped
  deriving DecidableEq

inductive SdoOp
  | upload (index : UInt16) (subindex : UInt8)
  | download (index : UInt16) (subindex : UInt8) (data : List UInt8)

def SdoOp.build (request : SdoOp) (mbox : Mailbox) : FsmCoe :=
  match request with
  | .upload index subindex => .upload mbox index subindex
  | .download index subindex data => .download mbox index subindex data

inductive Op
  | rescan (fsm : ScanFsm)
  | state (pre : PreOp)
  | sdo (slave : UInt16) (pre : PreOp) (coe : Option FsmCoe) (request : SdoOp)
  | startCyclic (seq : ConfigSeq) (cycleNs : UInt64)
  | stopCyclic (down : DownSeq)

def needsMailbox (target : UInt8) : Bool := target = alStatePreop ∨ target = alStateSafeop ∨ target = alStateOp

def sdoState (s : SlaveInfo) : UInt8 :=
  if needsMailbox (s.alState &&& alStateMask) then s.alState &&& alStateMask else alStatePreop

def updateState (slaves : List SlaveInfo) (station : UInt16) (target : UInt8) : List SlaveInfo :=
  slaves.map fun s => if s.stationAddr = station then { s with alState := target &&& alStateMask } else s

/-- The master of a bus; `log` are the exchanges of its operations that have ended. -/
structure Master (B : Bus) where
  slaves : List SlaveInfo
  index : UInt8
  op : Option Op
  sdoBuf : List UInt8
  cyclic : Option (Cyclic B.layout)
  log : Exchanged

/-- A tick of the PIT, with a host attached or without. -/
structure PitTick (L : Layout) where
  dev : Device
  latency : UInt32
  host : Option (HostBridge L)

namespace Master

variable {B : Bus}

def new (B : Bus) : Master B := ⟨[], 0, none, [], none, []⟩

def prepare (m : Master B) : Request → Except EcError Op
  | .rescan => .ok (.rescan .new)
  | .setState slave target =>
    match m.slaves[slave.toNat]? with
    | none => .error .noSuchSlave
    | some s => .ok (.state (.new s.stationAddr s.mailbox target (needsMailbox target)))
  | .sdoUpload slave index subindex =>
    match m.slaves[slave.toNat]? with
    | none => .error .noSuchSlave
    | some s =>
      if !s.supportsCoe then .error .coeUnsupported
      else .ok (.sdo slave (.new s.stationAddr s.mailbox (sdoState s) true) none (.upload index subindex))
  | .sdoDownload slave index subindex data =>
    match m.slaves[slave.toNat]? with
    | none => .error .noSuchSlave
    | some s =>
      if !s.supportsCoe then .error .coeUnsupported
      else .ok (.sdo slave (.new s.stationAddr s.mailbox (sdoState s) true) none (.download index subindex data))
  | .startCyclic cycleNs => if m.slaves = [] then .error .noSuchSlave else .ok (.startCyclic .new cycleNs)
  | .stopCyclic => .ok (.stopCyclic (.new (m.cyclic.elim [] Cyclic.slaveStations)))

def begin (m : Master B) (request : Request) : Except EcError Unit × Master B :=
  match m.prepare request with
  | .error e => (.error e, m)
  | .ok op => (.ok (), { m with slaves := if request = .rescan then [] else m.slaves, op := some op })

/-- What `drive` finds: an error, or an outcome, or the operation as it goes on. -/
abbrev Driven (B : Bus) := Except EcError (Outcome ⊕ Op) × Master B × Link

def drive (m : Master B) (op : Op) (k : Link) : Driven B :=
  match op with
  | .rescan fsm =>
    match ScanFsm.rescanStep (fsm, m.slaves) k with
    | (.error e, k) => (.error e, m, k)
    | (.ok (false, fsm, slaves), k) => (.ok (.inr (.rescan fsm)), { m with slaves := slaves }, k)
    | (.ok (true, _, slaves), k) => (.ok (.inl (.rescanned slaves.length)), { m with slaves := slaves }, k)
  | .state pre =>
    match pre.step k with
    | (.error e, k) => (.error e, m, k)
    | (.ok (false, pre), k) => (.ok (.inr (.state pre)), m, k)
    | (.ok (true, pre), k) =>
      (.ok (.inl (.stateReached pre.target)), { m with slaves := updateState m.slaves pre.station pre.target }, k)
  | .sdo slave pre none request =>
    match pre.step k with
    | (.error e, k) => (.error e, m, k)
    | (.ok (false, pre), k) => (.ok (.inr (.sdo slave pre none request)), m, k)
    | (.ok (true, pre), k) =>
      let m := { m with slaves := updateState m.slaves pre.station pre.target }
      match m.slaves[slave.toNat]? with
      | none => (.error .noSuchSlave, m, k)
      | some s => (.ok (.inr (.sdo slave pre (some (request.build s.mailbox)) request)), m, k)
  | .sdo slave pre (some coe) request =>
    match coe.step k with
    | (.error e, k) => (.error e, m, k)
    | (.ok (false, coe), k) => (.ok (.inr (.sdo slave pre (some coe) request)), m, k)
    | (.ok (true, coe), k) =>
      match request with
      | .upload _ _ => (.ok (.inl (.sdoUploaded (coe.result.take 4).length)), { m with sdoBuf := coe.result.take 4 }, k)
      | .download _ _ _ => (.ok (.inl .sdoDownloaded), m, k)
  | .startCyclic seq cycleNs =>
    match seq.step B m.slaves k with
    | (.error e, k) => (.error e, m, k)
    | (.ok (false, seq), k) => (.ok (.inr (.startCyclic seq cycleNs)), m, k)
    | (.ok (true, seq), k) =>
      (.ok (.inl .cyclicStarted),
        { m with
          slaves := seq.ready.foldl (fun slaves c => updateState slaves c.station alStateSafeop) m.slaves
          cyclic := some (Cyclic.new B.layout seq.ready B.layout.bus.refClockSlave cycleNs) }, k)
  | .stopCyclic down =>
    let ((complete, reached, down), k) := down.step k
    let m := { m with slaves := reached.elim m.slaves fun station => updateState m.slaves station alStatePreop }
    if complete then (.ok (.inl .cyclicStopped), { m with cyclic := none }, k) else (.ok (.inr (.stopCyclic down)), m, k)

def settle : Driven B → Option (Except EcError Outcome) × Master B × Device
  | (.error e, m, k) => (some (.error e), { m with index := k.index, log := k.log }, k.device)
  | (.ok (.inl outcome), m, k) => (some (.ok outcome), { m with index := k.index, log := k.log }, k.device)
  | (.ok (.inr op), m, k) => (none, { m with op := some op, index := k.index, log := k.log }, k.device)

def pollOp (m : Master B) (dev : Device) : Option (Except EcError Outcome) × Master B × Device :=
  match m.op with
  | none => (none, m, dev)
  | some op => settle (drive { m with op := none } op ⟨dev, m.index, m.log⟩)

/-- `cyclic_tick` or `host_cycle`. -/
def tick (m : Master B) (e : PitTick B.layout) : Master B :=
  match m.cyclic with
  | none => m
  | some c =>
    match e.host with
    | none =>
      let (c, _, index) := c.tick e.dev m.index e.latency
      { m with cyclic := some c, index := index }
    | some host =>
      let r := c.tickWithHost e.dev m.index e.latency host
      { m with cyclic := some r.cyclic, index := r.index }

end Master

end EcMaster
