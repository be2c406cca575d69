import EcMaster.HostComponent
import EcMaster.ImageLayout

namespace EcMaster

open Library.Packing

namespace Generator

/-! The constants of the generator. -/

def mosiHdr : ℕ := 8
def misoHdr : ℕ := 18
def crcLen : ℕ := 2
def streamHdr : ℕ := 1

end Generator

structure FrameLengths where
  outBytes : ℕ
  inBytes : ℕ
  sampleStride : ℕ
  hostStreamBytes : ℕ
  mosiLen : ℕ
  misoLen : ℕ
  frameLen : ℕ

def frameLengths (cfg : Resolved) : FrameLengths :=
  let outB := cfg.outBytes
  let inB := cfg.inBytes
  let stride := 4 + cfg.streamSampleBytes
  let hostStream := cfg.maxSamplesPerFrame * stride
  let mosi := Generator.mosiHdr + outB + Generator.streamHdr + hostStream + Generator.crcLen
  let miso := Generator.misoHdr + inB + Generator.crcLen
  ⟨outB, inB, stride, hostStream, mosi, miso, max mosi miso⟩

/-- What `teensy_bridge_layout.h` defines, the names of the pins left out. -/
structure PiHeader where
  magic : UInt16
  version : UInt8
  mosiLen : ℕ
  misoLen : ℕ
  frameLen : ℕ
  outBytes : ℕ
  inBytes : ℕ
  mosiHdr : ℕ
  misoHdr : ℕ
  streamOff : ℕ
  sampleBytes : ℕ
  sampleStride : ℕ
  maxSamplesPerFrame : ℕ
  defaultLead : ℤ
  flagEnable : UInt8
  flagFaultReset : UInt8
  flagQuickStop : UInt8
  stLink : UInt8
  stOperational : UInt8
  stFault : UInt8
  stHostTimeout : UInt8
  pins : List TeensyPin
  motion : List TeensyMotion

def renderPiHeader (cfg : Resolved) : PiHeader where
  magic := 0xA7EC
  version := 1
  mosiLen := (frameLengths cfg).mosiLen
  misoLen := (frameLengths cfg).misoLen
  frameLen := (frameLengths cfg).frameLen
  outBytes := (frameLengths cfg).outBytes
  inBytes := (frameLengths cfg).inBytes
  mosiHdr := Generator.mosiHdr
  misoHdr := Generator.misoHdr
  streamOff := Generator.mosiHdr + (frameLengths cfg).outBytes
  sampleBytes := cfg.streamSampleBytes
  sampleStride := (frameLengths cfg).sampleStride
  maxSamplesPerFrame := cfg.maxSamplesPerFrame
  defaultLead := cfg.defaultLead
  flagEnable := (1 : UInt8) <<< (0 : UInt8)
  flagFaultReset := (1 : UInt8) <<< (1 : UInt8)
  flagQuickStop := (1 : UInt8) <<< (2 : UInt8)
  stLink := (1 : UInt8) <<< (0 : UInt8)
  stOperational := (1 : UInt8) <<< (1 : UInt8)
  stFault := (1 : UInt8) <<< (2 : UInt8)
  stHostTimeout := (1 : UInt8) <<< (3 : UInt8)
  pins := cfg.pins.map fun pin =>
    ⟨if pin.dir = .output then Generator.mosiHdr + pin.byteOffset
      else Generator.misoHdr + (pin.byteOffset - cfg.outBytes), pin.bitPos, pin.bitLen, pin.halType, pin.dir⟩
  motion := cfg.motionFields.map fun f =>
    ⟨f.sampleOff, cfg.pins.findIdx? fun p => p.dir = .output ∧ p.byteOffset = f.imageOff, f.len⟩

def Layout.piHeader (L : Layout) (lead : ℤ) : PiHeader where
  magic := EcMaster.magic
  version := EcMaster.version
  mosiLen := L.mosiLen
  misoLen := L.misoLen
  frameLen := L.frameLen
  outBytes := L.outBytes
  inBytes := L.inBytes
  mosiHdr := EcMaster.mosiHdr
  misoHdr := EcMaster.misoHdr
  streamOff := L.streamOff
  sampleBytes := L.streamSampleBytes
  sampleStride := L.sampleStride
  maxSamplesPerFrame := L.maxSamplesPerFrame
  defaultLead := lead
  flagEnable := EcMaster.flagEnable
  flagFaultReset := EcMaster.flagFaultReset
  flagQuickStop := EcMaster.flagQuickStop
  stLink := statusLink
  stOperational := statusOperational
  stFault := statusFault
  stHostTimeout := statusHostTimeout
  pins := L.teensyPins
  motion := L.teensyMotion

namespace Resolved.Describes

variable {cfg : Resolved} {slaves : List BusSlave}

theorem header_eq (h : cfg.Describes slaves) : renderPiHeader cfg = cfg.render.piHeader cfg.defaultLead := by
  have hout := h.render_outBytes
  have hin : cfg.render.inBytes = cfg.inBytes := by
    rw [Layout.inBytes, hout, h.inBytes]
    rfl
  have hmosi : cfg.render.mosiLen = (frameLengths cfg).mosiLen := by
    rw [Layout.mosiLen, hout]
    rfl
  have hmiso : cfg.render.misoLen = (frameLengths cfg).misoLen := by
    rw [Layout.misoLen, hin]
    rfl
  have hframe : cfg.render.frameLen = (frameLengths cfg).frameLen := by
    rw [Layout.frameLen, hmosi, hmiso]
    change _ = max (frameLengths cfg).mosiLen (frameLengths cfg).misoLen
    split_ifs <;> omega
  have hstream : cfg.render.streamOff = Generator.mosiHdr + (frameLengths cfg).outBytes := by
    rw [Layout.streamOff, hout]
    rfl
  have hpins : cfg.render.teensyPins = (renderPiHeader cfg).pins := by
    rw [Layout.teensyPins, hout]
    rfl
  rw [Layout.piHeader, hmosi, hmiso, hframe, hout, hin, hstream, hpins]
  rfl

theorem sampleFits (h : cfg.Describes slaves) : ∀ f ∈ cfg.motionFields, f.sampleOff + f.len ≤ cfg.streamSampleBytes := by
  intro f hf
  rw [h.motionFields] at hf
  obtain ⟨q, hq, rfl⟩ := List.mem_map.mp hf
  have hb := (place_bounds hq).2
  rw [Nat.zero_add] at hb
  rw [h.sampleBytes]
  exact hb

end Resolved.Describes

def teensyCrc16Bit (crc : UInt16) : UInt16 :=
  (if crc.toUInt32 &&& 0x8000 ≠ 0 then (crc.toUInt32 <<< 1) ^^^ 0x1021 else crc.toUInt32 <<< 1).toUInt16

def teensyCrc16 (data : List UInt8) : UInt16 :=
  data.foldl (fun crc b => teensyCrc16Bit^[8] (crc.toUInt32 ^^^ (b.toUInt32 <<< 8)).toUInt16) 0xFFFF

theorem teensyCrc16Bit_eq : teensyCrc16Bit = crc16Bit := by
  funext crc
  have htop : crc.toUInt32 &&& 0x8000 = 0 ↔ crc &&& 0x8000 = 0 := by
    rw [← UInt16.toNat_inj, ← UInt32.toNat_inj]
    simp
  rw [teensyCrc16Bit, crc16Bit]
  by_cases h : crc &&& 0x8000 = 0
  · rw [if_neg (not_not.mpr (htop.mpr h)), if_neg (not_not.mpr h)]
    simp
  · rw [if_pos (mt htop.mp h), if_pos h]
    simp

theorem teensyCrc16_eq (data : List UInt8) : teensyCrc16 data = crc16 data := by
  rw [teensyCrc16, crc16]
  apply List.foldl_ext
  intro crc b _
  have hb : (crc.toUInt32 ^^^ (b.toUInt32 <<< 8)).toUInt16 = crc ^^^ (b.toUInt16 <<< 8) := by simp
  rw [crc16Byte, teensyCrc16Bit_eq, hb]

end EcMaster
