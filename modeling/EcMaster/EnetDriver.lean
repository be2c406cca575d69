import EcMaster.Library.OwnedRing
import EcMaster.Library.Machine
import EcMaster.Library.Segment

namespace EcMaster

open Library.Segment Library.Circular Library.OwnedRing

structure Descriptor where
  len : UInt16
  flags : UInt16

def DmaBuffer (mtu : ℕ) : Type := { bytes : List UInt8 // bytes.length = mtu }

def DmaBuffer.write {mtu : ℕ} (b : DmaBuffer mtu) (off : ℕ) (src : List UInt8) : DmaBuffer mtu :=
  ⟨overwrite b.1 off src, by rw [length_overwrite]; exact b.2⟩

def DmaBuffer.assemble {mtu : ℕ} (b : DmaBuffer mtu) (header payload : List UInt8) : ℕ × DmaBuffer mtu :=
  let hlen := min header.length mtu
  let plen := min payload.length (mtu - hlen)
  let b := (b.write 0 (header.take hlen)).write hlen (payload.take plen)
  let total := hlen + plen
  let len := min (max total 60) mtu
  (len, b.write total (List.replicate (len - total) 0))

structure DescriptorTable (mtu n : ℕ) where
  desc : Fin n → Descriptor
  bufs : Fin n → DmaBuffer mtu

namespace DescriptorTable

variable {mtu n : ℕ}

def put (dt : DescriptorTable mtu n) (pos : Fin n) (d : Descriptor) (b : DmaBuffer mtu) : DescriptorTable mtu n :=
  ⟨Function.update dt.desc pos d, Function.update dt.bufs pos b⟩

def resetFlags (base : UInt16) (i : Fin n) : UInt16 := if i.val + 1 = n then 0x2000 ||| base else base

def reset (dt : DescriptorTable mtu n) (base : UInt16) : DescriptorTable mtu n :=
  { dt with desc := fun i => ⟨0, resetFlags base i⟩ }

end DescriptorTable

def RxDT.default (mtu n : ℕ) : DescriptorTable mtu n :=
  ⟨fun _ => ⟨0, 0x8000⟩, fun _ => ⟨List.replicate mtu 0, List.length_replicate⟩⟩

def TxDT.default (mtu n : ℕ) : DescriptorTable mtu n :=
  ⟨fun _ => ⟨0, 0⟩, fun _ => ⟨List.replicate mtu 0, List.length_replicate⟩⟩

def nextEntry {n : ℕ} (pos : Fin n) : Fin n :=
  if h : pos.val + 1 < n then ⟨pos.val + 1, h⟩ else ⟨0, by omega⟩

structure EnetDevice (mtu rxLen txLen : ℕ) where
  txPos : Fin txLen
  rxPos : Fin rxLen
  txdt : DescriptorTable mtu txLen
  rxdt : DescriptorTable mtu rxLen

namespace EnetDevice

variable {mtu rxLen txLen : ℕ}

def resetDescriptorTables [NeZero rxLen] [NeZero txLen] (dev : EnetDevice mtu rxLen txLen) : EnetDevice mtu rxLen txLen :=
  ⟨0, 0, dev.txdt.reset 0x0000, dev.rxdt.reset 0x8000⟩

def new [NeZero rxLen] [NeZero txLen] (rxdt : DescriptorTable mtu rxLen) (txdt : DescriptorTable mtu txLen) :
    EnetDevice mtu rxLen txLen := resetDescriptorTables ⟨0, 0, txdt, rxdt⟩

def sendFrame (dev : EnetDevice mtu rxLen txLen) (header payload : List UInt8) :
    Bool × EnetDevice mtu rxLen txLen :=
  let pos := dev.txPos
  let d := dev.txdt.desc pos
  if d.flags &&& 0x8000 ≠ 0 then (false, dev)
  else
    let (len, buf) := (dev.txdt.bufs pos).assemble header payload
    (true, { dev with
      txdt := dev.txdt.put pos ⟨UInt16.ofNat len, d.flags ||| 0x8C00⟩ buf
      txPos := nextEntry pos })

/-- The bytes that the callback of `poll_raw` sees, and the driver after it. -/
def pollRaw (dev : EnetDevice mtu rxLen txLen) : Option (List UInt8) × EnetDevice mtu rxLen txLen :=
  let pos := dev.rxPos
  let d := dev.rxdt.desc pos
  if d.flags &&& 0x8000 ≠ 0 then (none, dev)
  else
    let len := min d.len.toNat mtu
    (some ((dev.rxdt.bufs pos).1.take len), { dev with
      rxdt := dev.rxdt.put pos { d with flags := d.flags ||| 0x8000 } (dev.rxdt.bufs pos)
      rxPos := nextEntry pos })

end EnetDevice

/-- The driver, and the entries that the DMA engine has come to in each table. -/
structure Nic (mtu rxLen txLen : ℕ) where
  enet : EnetDevice mtu rxLen txLen
  txNext : ℕ
  rxNext : ℕ

inductive NicEvent (mtu : ℕ)
  | send (header payload : List UInt8)
  | poll
  | transmit
  | arrive (frame : { f : List UInt8 // f.length ≤ mtu }) (status : UInt16)
  | restart

inductive NicOutcome
  | sent (ok : Bool)
  | polled (frame : Option (List UInt8))
  | transmitted (frame : Option (List UInt8))
  | arrived (kept : Bool)
  | restarted
  | astray
  deriving DecidableEq

namespace Nic

variable {mtu rxLen txLen : ℕ}

def follow (flags : UInt16) (pos : ℕ) : ℕ := if flags &&& 0x2000 ≠ 0 then 0 else pos + 1

def transmit (nic : Nic mtu rxLen txLen) : NicOutcome × Nic mtu rxLen txLen :=
  if h : nic.txNext < txLen then
    let d := nic.enet.txdt.desc ⟨nic.txNext, h⟩
    let b := nic.enet.txdt.bufs ⟨nic.txNext, h⟩
    if d.flags &&& 0x8000 = 0 then (.transmitted none, nic)
    else
      (.transmitted (some (b.1.take d.len.toNat)),
        { nic with
          enet := { nic.enet with txdt := nic.enet.txdt.put ⟨nic.txNext, h⟩ { d with flags := d.flags &&& 0x7FFF } b }
          txNext := follow d.flags nic.txNext })
  else (.astray, nic)

def arrive (nic : Nic mtu rxLen txLen) (frame : List UInt8) (status : UInt16) : NicOutcome × Nic mtu rxLen txLen :=
  if h : nic.rxNext < rxLen then
    let d := nic.enet.rxdt.desc ⟨nic.rxNext, h⟩
    let b := nic.enet.rxdt.bufs ⟨nic.rxNext, h⟩
    if d.flags &&& 0x8000 = 0 then (.arrived false, nic)
    else
      (.arrived true,
        { nic with
          enet := { nic.enet with
            rxdt := nic.enet.rxdt.put ⟨nic.rxNext, h⟩
              ⟨UInt16.ofNat frame.length, (d.flags &&& 0x7000) ||| (status &&& 0x0FFF)⟩ (b.write 0 frame) }
          rxNext := follow d.flags nic.rxNext })
  else (.astray, nic)

def restart [NeZero rxLen] [NeZero txLen] (nic : Nic mtu rxLen txLen) : Nic mtu rxLen txLen :=
  ⟨nic.enet.resetDescriptorTables, 0, 0⟩

def new [NeZero rxLen] [NeZero txLen] (rxdt : DescriptorTable mtu rxLen) (txdt : DescriptorTable mtu txLen) :
    Nic mtu rxLen txLen := ⟨EnetDevice.new rxdt txdt, 0, 0⟩

def step [NeZero rxLen] [NeZero txLen] (nic : Nic mtu rxLen txLen) : NicEvent mtu → NicOutcome × Nic mtu rxLen txLen
  | .send header payload =>
    (.sent (nic.enet.sendFrame header payload).1, { nic with enet := (nic.enet.sendFrame header payload).2 })
  | .poll => (.polled nic.enet.pollRaw.1, { nic with enet := nic.enet.pollRaw.2 })
  | .transmit => nic.transmit
  | .arrive frame status => nic.arrive frame.1 status
  | .restart => (.restarted, nic.restart)

end Nic

end EcMaster
