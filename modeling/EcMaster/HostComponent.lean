import EcMaster.HostBridge

namespace EcMaster

open Library.Segment Library.LittleEndian

/-- A row of `TEENSY_PINS`. -/
structure TeensyPin where
  frameOff : ℕ
  bitPos : ℕ
  bitLen : ℕ
  halType : HalType
  dir : EcDirection

/-- A row of `TEENSY_MOTION`; a field without an output pin has the index -1 there. -/
structure TeensyMotion where
  sampleOff : ℕ
  pinIndex : Option ℕ
  len : ℕ

namespace Layout

variable (L : Layout)

def teensyPins : List TeensyPin :=
  L.bus.pins.map fun p =>
    ⟨if p.dir = .output then mosiHdr + p.byteOffset else misoHdr + (p.byteOffset - L.outBytes), p.bitPos, p.bitLen,
      p.halType, p.dir⟩

def teensyMotion : List TeensyMotion :=
  L.streamFields.map fun f =>
    ⟨f.sampleOff, L.bus.pins.findIdx? fun p => p.dir = .output ∧ p.byteOffset = f.imageOff, f.len⟩

end Layout

/-- The HAL pins that the component shares with the rest of the configuration. -/
structure Hal where
  enable : Bool
  faultReset : Bool
  quickStop : Bool
  bit : ℕ → Bool
  u32 : ℕ → UInt32
  s32 : ℕ → Int32

/-- The status pins that the component drives. -/
structure HalStatus where
  online : Bool
  link : Bool
  operational : Bool
  fault : Bool
  hostTimeout : Bool
  wkc : UInt8
  expWkc : UInt8
  phase : UInt8
  bufDepth : UInt8
  cycleIndex : UInt32
  crcErrors : UInt32

structure HostComponent where
  lead : ℤ
  seq : UInt16
  hostWdog : UInt16
  crcErrors : UInt32
  nextTag : UInt32
  primed : Bool
  lastBufDepth : ℕ
  lastCycleIndex : UInt32
  status : HalStatus

def putLe (buf : List UInt8) (off : ℕ) (v : UInt32) (nbytes : ℕ) : List UInt8 :=
  (List.range nbytes).foldl (fun buf i => buf.set (off + i) (v >>> UInt32.ofNat (8 * i)).toUInt8) buf

def getLe (buf : List UInt8) (off nbytes : ℕ) : UInt32 :=
  (List.range nbytes).foldl (fun v i => v ||| ((buf.getD (off + i) 0).toUInt32 <<< UInt32.ofNat (8 * i))) 0

def serializeOut (hal : Hal) (frame : List UInt8) (p : TeensyPin) (i : ℕ) : List UInt8 :=
  let nbytes := (p.bitLen + 7) / 8
  match p.halType with
  | .bit =>
    let mask : UInt8 := 1 <<< UInt8.ofNat p.bitPos
    let b := frame.getD p.frameOff 0
    frame.set p.frameOff (if hal.bit i then b ||| mask else b &&& ~~~mask)
  | .u32 => putLe frame p.frameOff (hal.u32 i) nbytes
  | .s32 => putLe frame p.frameOff (hal.s32 i).toUInt32 nbytes

def deserializeIn (hal : Hal) (frame : List UInt8) (p : TeensyPin) (i : ℕ) : Hal :=
  let nbytes := (p.bitLen + 7) / 8
  match p.halType with
  | .bit =>
    let b := (frame.getD p.frameOff 0 >>> UInt8.ofNat p.bitPos) &&& 1
    { hal with bit := Function.update hal.bit i (b ≠ 0) }
  | .u32 => { hal with u32 := Function.update hal.u32 i (getLe frame p.frameOff nbytes) }
  | .s32 =>
    let raw := getLe frame p.frameOff nbytes
    let shift := 32 - (p.bitLen : ℤ)
    let v :=
      if 0 < shift ∧ shift < 32 then
        (raw <<< UInt32.ofNat shift.toNat).toInt32 >>> Int32.ofNat shift.toNat
      else raw.toInt32
    { hal with s32 := Function.update hal.s32 i v }

def motionValue (L : Layout) (hal : Hal) (m : TeensyMotion) : UInt32 :=
  match m.pinIndex with
  | none => 0
  | some k =>
    match L.teensyPins[k]? with
    | some p => if p.halType = .u32 then hal.u32 k else (hal.s32 k).toUInt32
    | none => 0

def writePayload (L : Layout) (hal : Hal) (frame : List UInt8) (payload : ℕ) : List UInt8 :=
  L.teensyMotion.foldl (fun frame m => putLe frame (payload + m.sampleOff) (motionValue L hal m) m.len) frame

def writeSamples (L : Layout) (hal : Hal) : ℕ → List UInt8 → ℕ → UInt32 → List UInt8
  | 0, frame, _, _ => frame
  | n + 1, frame, s, tag =>
    writeSamples L hal n (writePayload L hal (putLe frame s tag 4) (s + 4)) (s + L.sampleStride) (tag + 1)

namespace HostComponent

variable (L : Layout)

def load (lead : ℤ) : HostComponent :=
  ⟨lead, 0, 0, 0, 0, false, 0, 0, ⟨false, false, false, false, false, 0, 0, 0, 0, 0, 0⟩⟩

def target (h : HostComponent) : ℕ := if h.lead > 0 then h.lead.toNat else 1

def resync (h : HostComponent) : UInt32 :=
  if h.nextTag < h.lastCycleIndex + 1 then h.lastCycleIndex + 1 else h.nextTag

def want (h : HostComponent) : ℕ :=
  let want :=
    if !h.primed then h.target
    else if h.lastBufDepth < h.target then h.target - h.lastBufDepth + 1
    else 1
  let want := if want > L.maxSamplesPerFrame then L.maxSamplesPerFrame else want
  if want < 1 then 1 else want

def buildMotion (h : HostComponent) (hal : Hal) (frame : List UInt8) : List UInt8 × HostComponent :=
  if L.teensyMotion = [] then (frame.set L.streamOff 0, h)
  else
    let frame := frame.set L.streamOff (UInt8.ofNat (h.want L))
    (writeSamples L hal (h.want L) frame (L.streamOff + 1) h.resync,
      { h with primed := true, nextTag := h.resync + UInt32.ofNat (h.want L) })

def flags (hal : Hal) : UInt8 :=
  (if hal.enable then flagEnable else 0) ||| (if hal.faultReset then flagFaultReset else 0) |||
    (if hal.quickStop then flagQuickStop else 0)

def header (h : HostComponent) (hal : Hal) : List UInt8 :=
  let mosi := List.replicate L.frameLen (0 : UInt8)
  let mosi := (((mosi.set 0 (magic &&& 0xFF).toUInt8).set 1 (magic >>> 8).toUInt8).set 2 version).set 3 (flags hal)
  putLe (putLe mosi 4 h.seq.toUInt32 2) 6 h.hostWdog.toUInt32 2

def serializePins (hal : Hal) (mosi : List UInt8) : List UInt8 :=
  L.teensyPins.zipIdx.foldl (fun mosi p => if p.1.dir = .output then serializeOut hal mosi p.1 p.2 else mosi) mosi

def advance (h : HostComponent) : HostComponent := { h with seq := h.seq + 1, hostWdog := h.hostWdog + 1 }

def buildFrame (h : HostComponent) (hal : Hal) : List UInt8 × HostComponent :=
  let h := h.advance
  let motion := h.buildMotion L hal (serializePins L hal (h.header L hal))
  let crc := crc16 (motion.1.take (L.mosiLen - 2))
  (putLe motion.1 (L.mosiLen - 2) crc.toUInt32 2, motion.2)

def offline (h : HostComponent) : HostComponent :=
  { h with status := { h.status with online := false, fault := true } }

def countError (h : HostComponent) : HostComponent :=
  { h with crcErrors := h.crcErrors + 1, status := { h.status with crcErrors := h.crcErrors + 1 } }

def intact (miso : List UInt8) : Bool :=
  (getLe miso 0 2).toUInt16 == magic &&
    crc16 (miso.take (L.misoLen - 2)) == (getLe miso (L.misoLen - 2) 2).toUInt16

def receive (h : HostComponent) (hal : Hal) (miso : List UInt8) : HostComponent × Hal :=
  if !intact L miso then (h.countError.offline, hal)
  else
    let status := miso.getD 3 0
    let cycle := getLe miso 8 4
    ({ h with
        lastCycleIndex := cycle
        lastBufDepth := (miso.getD 16 0).toNat
        status := {
          online := true
          link := status &&& statusLink ≠ 0
          operational := status &&& statusOperational ≠ 0
          fault := status &&& statusFault ≠ 0
          hostTimeout := status &&& statusHostTimeout ≠ 0
          wkc := miso.getD 12 0
          expWkc := miso.getD 13 0
          phase := miso.getD 14 0
          bufDepth := miso.getD 16 0
          cycleIndex := cycle
          crcErrors := h.crcErrors } },
      L.teensyPins.zipIdx.foldl (fun hal p => if p.1.dir = .input then deserializeIn hal miso p.1 p.2 else hal) hal)

def update (h : HostComponent) (hal : Hal) (miso : Option (List UInt8)) : List UInt8 × HostComponent × Hal :=
  let sent := h.buildFrame L hal
  match miso with
  | none => (sent.1, sent.2.offline, hal)
  | some miso => (sent.1, sent.2.receive L hal miso)

end HostComponent

end EcMaster
