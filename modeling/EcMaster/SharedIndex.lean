import EcMaster.FrameIndex
import EcMaster.OpRequest
import EcMaster.Library.Run

namespace EcMaster

open Library.Run Library.Segment

/-- An exchange of a state machine: the sizes of its buffers and the datagrams it asks with. -/
structure Transaction where
  buffers : Buffers
  request : List Access
  request_ne : request ≠ []
  tx_le : 4 ≤ buffers.tx

/-- A NIC shared by the state machines and the cyclic engine. Beside it stand the number of indices allocated so
far, the number that each frame on the wire began with, the frame on the wire that each frame in the ring is the
reply to, and the frames that the exchange and the engine have sent last. -/
structure Shared (L : Layout) where
  device : Device
  index : UInt8
  exchange : Exchange
  cyclic : Option (Cyclic L)
  allocated : ℕ
  numbers : List ℕ
  tags : List ℕ
  opFrame : ℕ
  tickFrame : ℕ

inductive SharedEvent (L : Layout) where
  | arrive (sent : ℕ) (reply : List UInt8)
  | abandon
  | drive (t : Transaction) (txReady : Bool)
  | start (slaves : List CyclicSlave) (refRingPos : UInt16) (cycleNs : UInt64)
  | stop
  | tick (txReady : Bool) (latency : UInt32) (host : Option (HostBridge L))

def SharedEvent.answers {L : Layout} : SharedEvent L → Option ℕ
  | .arrive sent _ => some sent
  | _ => none

def Positional (cmd : UInt8) : Prop := cmd ∈ [Command.aprd, .apwr, .aprw, .brd, .bwr, .brw, .armw].map Command.code

instance (cmd : UInt8) : Decidable (Positional cmd) := by unfold Positional; infer_instance

/-- An EtherCAT frame that comes back, its first datagram with the command, the index and the address that it went
out with; the slaves on the way count a position up. -/
def IsReply (sent reply : List UInt8) : Prop :=
  slice reply 12 2 = [0x88, 0xA4] ∧ 28 ≤ reply.length ∧ slice reply 16 2 = slice sent 16 2 ∧
    slice reply 20 2 = slice sent 20 2 ∧ (Positional (sent.getD 16 0) ∨ slice reply 18 2 = slice sent 18 2)

instance (sent reply : List UInt8) : Decidable (IsReply sent reply) := by unfold IsReply; infer_instance

theorem IsReply.index {sent reply : List UInt8} (h : IsReply sent reply) : reply[17]? = sent[17]? := by
  have hs := congrArg (fun xs : List UInt8 => xs[1]?) h.2.2.1
  simpa [getElem?_slice] using hs

def engineTick {L : Layout} (c : Cyclic L) (e : EngineTick L) : Cyclic L × Device × UInt8 :=
  match e.host with
  | none => c.tick e.dev e.index e.latency
  | some host =>
    let r := c.tickWithHost e.dev e.index e.latency host
    (r.cyclic, r.dev, r.index)

namespace Shared

variable {L : Layout}

def init (L : Layout) (srcMac : List UInt8) : Shared L :=
  ⟨⟨srcMac, [], true, []⟩, 0, .idle, none, 0, [], [], 0, 0⟩

def nic (s : Shared L) (txReady : Bool) : Device := { s.device with txReady := txReady }

def grew (s : Shared L) (device : Device) : Bool := s.device.wire.length < device.wire.length

def consumed (s : Shared L) (device : Device) : ℕ := s.device.rx.length - device.rx.length

def moved (s : Shared L) (device : Device) (index : UInt8) (count : ℕ) : Shared L :=
  { s with
    device := device
    index := index
    allocated := s.allocated + count
    numbers := if s.grew device then s.numbers ++ [s.allocated] else s.numbers
    tags := s.tags.drop (s.consumed device) }

def arrive (s : Shared L) (sent : ℕ) (reply : List UInt8) : Shared L :=
  match s.device.wire[sent]? with
  | none => s
  | some frame =>
    if IsReply frame reply ∧ s.device.rx.length < ecatRxLen then
      { s with device := { s.device with rx := s.device.rx ++ [reply] }, tags := s.tags ++ [sent] }
    else s

def driven (s : Shared L) (t : Transaction) (txReady : Bool) : Except EcError (Option (List UInt8)) × Exchange × Link :=
  s.exchange.drive t.buffers t.request ⟨s.nic txReady, s.index, []⟩

def drive (s : Shared L) (t : Transaction) (txReady : Bool) : Shared L :=
  let d := s.driven t txReady
  { s.moved d.2.2.device d.2.2.index (if s.exchange.tx.isNone then t.request.length else 0) with
    exchange := match d.1 with
      | .ok none => d.2.1
      | _ => .idle
    opFrame := if s.grew d.2.2.device then s.device.wire.length else s.opFrame }

def engineEvent (s : Shared L) (txReady : Bool) (latency : UInt32) (host : Option (HostBridge L)) : EngineTick L :=
  ⟨s.nic txReady, s.index, latency, host⟩

def tick (s : Shared L) (e : EngineTick L) : Shared L :=
  match s.cyclic with
  | none => s
  | some c =>
    let r := engineTick c e
    { s.moved r.2.1 r.2.2 (1 + r.1.appended.length) with
      cyclic := some r.1
      tickFrame := if s.grew r.2.1 then s.device.wire.length else s.tickFrame }

def step (s : Shared L) : SharedEvent L → Shared L
  | .arrive sent reply => s.arrive sent reply
  | .abandon => { s with exchange := .idle }
  | .drive t txReady => s.drive t txReady
  | .start slaves refRingPos cycleNs => { s with cyclic := some (.new L slaves refRingPos cycleNs) }
  | .stop => { s with cyclic := none }
  | .tick txReady latency host => s.tick (s.engineEvent txReady latency host)

/-- A frame that is accepted is the reply to the frame that is waited for. -/
def Attributed (s : Shared L) : SharedEvent L → Prop
  | .drive t txReady => ∀ rx, (s.driven t txReady).1 = .ok (some rx) → s.tags.head? = some s.opFrame
  | .tick txReady latency host => ∀ c, s.cyclic = some c → ∀ reply, c.matched (s.nic txReady) = some reply →
      s.tags[s.consumed (engineTick c (s.engineEvent txReady latency host)).2.1 - 1]? = some s.tickFrame
  | _ => True

def Near (s : Shared L) (i j : ℕ) : Prop :=
  ∀ m n, s.numbers[i]? = some m → s.numbers[j]? = some n → m < n + 256 ∧ n < m + 256

/-- Whoever waits for a reply finds none in the ring that belongs to a frame 256 or more indices away from its own. -/
def Fresh (s : Shared L) : SharedEvent L → Prop
  | .drive _ _ => s.exchange.tx.isSome → ∀ i ∈ s.tags.head?, s.Near s.opFrame i
  | .tick _ _ _ => ∀ c, s.cyclic = some c → c.outstanding = true → ∀ i ∈ s.tags, s.Near s.tickFrame i
  | _ => True

/-- A reply comes before 256 more indices have been allocated. -/
def Prompt (s : Shared L) : SharedEvent L → Prop
  | .arrive sent _ => ∀ n, s.numbers[sent]? = some n → s.allocated ≤ n + 256
  | _ => True

end Shared

end EcMaster
