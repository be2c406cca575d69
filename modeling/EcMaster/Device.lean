import EcMaster.Library.Segment

namespace EcMaster

open Library.Segment

def ethHeaderLen : ℕ := 14
def ecatMtu : ℕ := 1536
def ecatRxLen : ℕ := 4
def ethMinFrame : ℕ := 60

/-- The NIC as one tick sees it: the frames waiting in the receive ring, whether the next transmit
descriptor is free, and what has been handed to it for the wire. -/
structure Device where
  srcMac : List UInt8
  rx : List (List UInt8)
  txReady : Bool
  wire : List (List UInt8)

namespace Device

def header (dev : Device) : List UInt8 := List.replicate 6 0xFF ++ dev.srcMac ++ [0x88, 0xA4]

def send (dev : Device) (ecatFrame : List UInt8) : Bool × Device :=
  if ethHeaderLen + ecatFrame.length > ecatMtu then (false, dev)
  else if !dev.txReady then (false, dev)
  else
    let frame := dev.header ++ ecatFrame
    (true, { dev with wire := dev.wire ++ [frame ++ List.replicate (ethMinFrame - frame.length) 0] })

def ecatPayload (outLen : ℕ) (frame : List UInt8) : List UInt8 :=
  if frame.length < ethHeaderLen then []
  else if frame.getD 12 0 ≠ 0x88 ∨ frame.getD 13 0 ≠ 0xA4 then []
  else (frame.drop ethHeaderLen).take outLen

def poll (dev : Device) (outLen : ℕ) : Option (List UInt8) × Device :=
  match dev.rx with
  | [] => (none, dev)
  | frame :: rest =>
    let payload := ecatPayload outLen (frame.take ecatMtu)
    (if payload.length > 0 then some payload else none, { dev with rx := rest })

@[simp] theorem poll_wire (dev : Device) (outLen : ℕ) : (dev.poll outLen).2.wire = dev.wire := by
  rw [poll]
  split <;> rfl

@[simp] theorem poll_txReady (dev : Device) (outLen : ℕ) : (dev.poll outLen).2.txReady = dev.txReady := by
  rw [poll]
  split <;> rfl

def receiving (payloads : List (List UInt8)) : Device :=
  ⟨List.replicate 6 0, payloads.map fun p => List.replicate 12 0 ++ [0x88, 0xA4] ++ p, true, []⟩

end Device

end EcMaster
