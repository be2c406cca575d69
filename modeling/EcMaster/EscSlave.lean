import EcMaster.DcStart
import EcMaster.SdoRoundTrip
import EcMaster.Library.Memory
import EcMaster.Library.Partner

namespace EcMaster

open Library.Dialogue Library.Dialogue.Script Library.Segment Library.LittleEndian Library.Memory

abbrev Objects := UInt16 → UInt8 → List UInt8

/-- What a slave is by its make: its mailboxes, in the memory behind the registers and no larger than a message of the
master, the polls that each of its jobs takes, and the configurations that it goes to SAFE-OP with. -/
structure EscMake where
  mailbox : Mailbox
  delays : ℕ → ℕ
  accepts : (ℕ → UInt8) → Objects → Bool
  rx_behind : 0x1000 ≤ mailbox.rxOffset
  tx_behind : 0x1000 ≤ mailbox.txOffset
  rx_fits : mailbox.rxSize.toNat ≤ maxMboxWrite
  tx_fits : mailbox.txSize.toNat ≤ maxMboxRead
  prompt : ∀ job, delays job < min maxStateWaits maxMboxWaits

/-- A slave as its configuration meets it: the registers, the AL state with the one that it still shows for some polls,
and the CANopen server with the polls for which its answer is not there yet. -/
structure Esc where
  make : EscMake
  mem : ℕ → UInt8
  al : UInt8
  shown : UInt8
  lag : ℕ
  server : SdoServer
  busy : ℕ
  job : ℕ

def clocked (ado : UInt16) : Bool := ado = regDcRecvTime || ado = regDcSysTime

def Mailbox.isSet (mbox : Mailbox) (mem : ℕ → UInt8) : Bool :=
  peek mem regSm0.toNat 8 = mailboxOutPage mbox.rxOffset mbox.rxSize &&
    peek mem regSm1.toNat 8 = mailboxInPage mbox.txOffset mbox.txSize

def EscMake.mailboxOn (t : EscMake) (al : UInt8) (mem : ℕ → UInt8) : Bool :=
  al &&& alStateMask ≠ alStateInit && t.mailbox.isSet mem

namespace Esc

def mailboxOn (s : Esc) : Bool := s.make.mailboxOn s.al s.mem

def allows (s : Esc) (target : UInt8) : Bool :=
  if target ≤ s.al &&& alStateMask then target ∈ [alStateInit, alStatePreop, alStateSafeop, alStateOp]
  else if target = alStatePreop then s.al &&& alStateMask = alStateInit && s.make.mailbox.isSet s.mem
  else if target = alStateSafeop then s.al &&& alStateMask = alStatePreop && s.make.accepts s.mem s.server.objects
  else target = alStateOp && s.al &&& alStateMask = alStateSafeop

def control (s : Esc) (ctl : UInt8) : Esc :=
  if s.al &&& alStateError ≠ 0 ∧ ctl &&& alStateAckError = 0 then s
  else if s.allows (ctl &&& alStateMask) then
    { s with al := ctl &&& alStateMask, shown := s.al &&& alStateMask, lag := s.make.delays s.job, job := s.job + 1 }
  else { s with al := (s.al &&& alStateMask) ||| alStateError, lag := 0 }

def write (s : Esc) (ado : UInt16) (data : List UInt8) : Esc :=
  if ado = regAlControl then s.control (data.headD 0)
  else if clocked ado then s
  else if s.mailboxOn ∧ ado = s.make.mailbox.rxOffset then
    if s.make.mailbox.rxSize.toNat ≤ data.length then
      { s with server := s.server.take data, busy := s.make.delays s.job, job := s.job + 1 }
    else s
  else { s with mem := poke s.mem ado.toNat data }

def read (s : Esc) (ado : UInt16) (n : ℕ) : Option (List UInt8) × Esc :=
  if ado = regAlStatus then
    if s.lag = 0 then (some ((s.al :: zeros n).take n), s)
    else (some ((s.shown :: zeros n).take n), { s with lag := s.lag - 1 })
  else if s.mailboxOn ∧ ado = regSm1Status then
    if s.server.answer.isSome ∧ s.busy = 0 then (some ((smStatusMboxFull :: zeros n).take n), s)
    else (some (zeros n), { s with busy := s.busy - 1 })
  else if s.mailboxOn ∧ ado = s.make.mailbox.txOffset then
    match s.server.answer with
    | none => (none, s)
    | some msg =>
      (some ((msg ++ zeros n).take n),
        if s.make.mailbox.txSize.toNat ≤ n then { s with server := { s.server with answer := none } } else s)
  else (some (peek s.mem ado.toNat n), s)

end Esc

/-- The slaves by the addresses that they have been given. -/
abbrev Stations := UInt16 → Option Esc

namespace Stations

def put (w : Stations) (station : UInt16) (s : Esc) : Stations := Function.update w station (some s)

def takes (w : Stations) (a : Access) (reply : Reply) : Option Stations :=
  match a.command with
  | .fprd =>
    match w a.adp with
    | none => if reply.workingCounter = 0 then some w else none
    | some s =>
      match s.read a.ado a.payload.length with
      | (none, _) => if reply.workingCounter = 0 then some w else none
      | (some data, s') =>
        if reply.workingCounter = 1 ∧ reply.data.length = a.payload.length ∧ (clocked a.ado ∨ reply.data = data) then
          some (w.put a.adp s')
        else none
  | .fpwr =>
    match w a.adp with
    | none => if reply.workingCounter = 0 then some w else none
    | some s => if reply.workingCounter = 1 then some (w.put a.adp (s.write a.ado a.payload)) else none
  | .bwr =>
    if reply.workingCounter ≠ 0 then some fun station => (w station).map fun s => s.write a.ado a.payload else none
  | _ => none

def takesAll : Stations → List Access → List Reply → Option Stations
  | w, [], [] => some w
  | w, a :: as, r :: rs => (w.takes a r).bind fun w => w.takesAll as rs
  | _, _, _ => none

end Stations

def stationAnswers : Partner Stations (List Access) (List UInt8) EcError := fun w request o =>
  match o with
  | .error _ => none
  | .ok rx => (replies rx ecFrameHeaderSize request).bind (w.takesAll request)

end EcMaster
