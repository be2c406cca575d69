import EcMaster.DatagramCodec
import EcMaster.Device
import EcMaster.Library.Dialogue

namespace EcMaster

open Library.Dialogue Library.Dialogue.Script

inductive EcError
  | timeout
  | workingCounter
  | frameTooShort
  | siiError
  | siiTimeout
  | tooManySlaves
  | transport
  | noSuchSlave
  | coeUnsupported
  | mailboxTimeout
  | mailboxProtocol
  | stateChange (code : UInt16)
  | sdoAbort (code : UInt32)
  deriving DecidableEq, Repr

structure Pump where
  sent : Bool
  expected : UInt8
  attempts : ℕ
  deriving DecidableEq

namespace Pump

def new : Pump := ⟨false, 0, 0⟩

def reset (p : Pump) : Pump := { p with sent := false, attempts := 0 }

def miss (p : Pump) (maxAttempts : ℕ) : Except EcError (Option (List UInt8)) × Pump :=
  let p := { p with attempts := p.attempts + 1 }
  if p.attempts ≥ maxAttempts then (.error .timeout, { p with sent := false }) else (.ok none, p)

end Pump

def Device.pump (dev : Device) (p : Pump) (frame : List UInt8) (outLen maxAttempts : ℕ) :
    Except EcError (Option (List UInt8)) × Pump × Device :=
  if !p.sent then
    match dev.send frame with
    | (true, dev) => (.ok none, ⟨true, frame.getD 3 0, 0⟩, dev)
    | (false, dev) => (.error .transport, p, dev)
  else
    match dev.poll outLen with
    | (some rx, dev) =>
      if rx.length ≥ 4 ∧ rx.getD 3 0 = p.expected then (.ok (some rx), { p with sent := false }, dev)
      else ((p.miss maxAttempts).1, (p.miss maxAttempts).2, dev)
    | (none, dev) => ((p.miss maxAttempts).1, (p.miss maxAttempts).2, dev)

def pumpMaxAttempts : ℕ := 2000

structure Access where
  command : Command
  adp : UInt16
  ado : UInt16
  payload : List UInt8
  deriving DecidableEq

namespace Access

def request (a : Access) (index : UInt8) : Request := ⟨index, a.command, a.adp, a.ado, a.payload⟩

def numbered : UInt8 → List Access → List Request
  | _, [] => []
  | index, a :: as => a.request index :: numbered (index + 1) as

def frame (cap : ℕ) (index : UInt8) : List Access → List UInt8
  | [] => []
  | a :: as =>
    let f := packed (List.replicate cap 0) (a.request index) (numbered (index + 1) as)
    f.1.take f.2

end Access

/-- Each exchange that has come to its end: the datagrams of the frame, and the error or the reply frame. -/
abbrev Exchanged := Record (List Access) (List UInt8) EcError

/-- What a step of the master's state machines works on: the NIC, the next datagram index, and the exchanges
so far. -/
structure Link where
  device : Device
  index : UInt8
  log : Exchanged

/-- The `pump` and `tx` of a state machine, `tx` as the index and the datagrams that `tx[..tx_len]` was built from,
with none for `tx_len = 0`. -/
structure Exchange where
  pump : Pump
  tx : Option (UInt8 × List Access)

/-- The sizes of a state machine's `tx` and `rx`. -/
structure Buffers where
  tx : ℕ
  rx : ℕ

def ended (request : List Access) : Except EcError (Option (List UInt8)) → Exchanged
  | .error e => [(request, .error e)]
  | .ok none => []
  | .ok (some rx) => [(request, .ok rx)]

namespace Exchange

def idle : Exchange := ⟨Pump.new, none⟩

def drive (x : Exchange) (b : Buffers) (request : List Access) (k : Link) :
    Except EcError (Option (List UInt8)) × Exchange × Link :=
  let (pump, index, asked, next) := match x.tx with
    | some (index, asked) => (x.pump, index, asked, k.index)
    | none => (x.pump.reset, k.index, request, k.index + UInt8.ofNat request.length)
  let (r, pump, device) := k.device.pump pump (Access.frame b.tx index asked) b.rx pumpMaxAttempts
  (r, ⟨pump, some (index, asked)⟩, ⟨device, next, k.log ++ ended asked r⟩)

def step {β : Type} (x : Exchange) (b : Buffers) (request : List Access) (k : Link) (stay : Exchange → β)
    (hear : List UInt8 → Except EcError β) : Except EcError β × Link :=
  match x.drive b request k with
  | (.error e, _, k) => (.error e, k)
  | (.ok none, x, k) => (.ok (stay x), k)
  | (.ok (some rx), _, k) => (hear rx, k)

def asked (x : Exchange) (request : List Access) : List Access :=
  match x.tx with
  | some (_, asked) => asked
  | none => request

def fresh : ℕ := pumpMaxAttempts + 1

def left (x : Exchange) : ℕ := if x.tx = none ∨ !x.pump.sent then fresh else pumpMaxAttempts - x.pump.attempts

end Exchange

def answering (data : List UInt8) (wkc : UInt16) : Device × UInt8 :=
  (Device.receiving [answerFrame .fpwr 0 data wkc []], 0)

def onReply {β : Type} (hear : Reply → Except EcError β) (rx : List UInt8) : Except EcError β :=
  match parse rx with
  | none => .error .frameTooShort
  | some reply => hear reply

end EcMaster
