import Mathlib

namespace EcMaster

inductive EcDirection
  | output
  | input
  deriving DecidableEq, Repr

inductive HalType
  | bit
  | u32
  | s32
  deriving DecidableEq, Repr

structure FmmuCfg where
  logicalStart : ℕ
  size : ℕ
  physStart : ℕ
  dir : EcDirection
  deriving DecidableEq, Repr

structure StreamField where
  sampleOff : ℕ
  imageOff : ℕ
  len : ℕ
  deriving DecidableEq, Repr

structure PinCfg where
  name : List Char
  byteOffset : ℕ
  bitPos : ℕ
  bitLen : ℕ
  halType : HalType
  dir : EcDirection
  deriving DecidableEq, Repr

structure SlaveCfg where
  position : ℕ
  fmmus : List FmmuCfg
  outSize : ℕ
  inSize : ℕ
  deriving DecidableEq, Repr

structure BusCfg where
  refClockSlave : UInt16
  slaves : List SlaveCfg
  pins : List PinCfg
  imageSize : ℕ

/-- The constants fixed at compile time: `BUS` and the generated motion-stream layout. -/
structure Layout where
  bus : BusCfg
  streamSampleBytes : ℕ
  maxSamplesPerFrame : ℕ
  streamFields : List StreamField

def ecMaxSlaves : ℕ := 32
def maxImage : ℕ := 512

def mosiHdr : ℕ := 8
def misoHdr : ℕ := 18
def crcLen : ℕ := 2
def streamHdr : ℕ := 1

namespace Layout

variable (L : Layout)

def outBytes : ℕ := (L.bus.slaves.map SlaveCfg.outSize).sum

def inBytes : ℕ := L.bus.imageSize - L.outBytes

def sampleStride : ℕ := 4 + L.streamSampleBytes

def hostStreamBytes : ℕ := L.maxSamplesPerFrame * L.sampleStride

def mosiLen : ℕ := mosiHdr + L.outBytes + streamHdr + L.hostStreamBytes + crcLen

def misoLen : ℕ := misoHdr + L.inBytes + crcLen

def frameLen : ℕ := if L.mosiLen > L.misoLen then L.mosiLen else L.misoLen

def streamOff : ℕ := mosiHdr + L.outBytes

def crcPos : ℕ := L.mosiLen - crcLen

end Layout

namespace PinCfg

def nbytes (p : PinCfg) : ℕ := (p.bitLen + 7) / 8

def bitStart (p : PinCfg) : ℕ := 8 * p.byteOffset + p.bitPos

def bitEnd (p : PinCfg) : ℕ := p.bitStart + p.bitLen

def isOutput (p : PinCfg) : Bool := p.dir = .output

def Apart (p q : PinCfg) : Prop := p.bitEnd ≤ q.bitStart ∨ q.bitEnd ≤ p.bitStart

structure ByteAligned (p : PinCfg) : Prop where
  not_bit : p.halType ≠ .bit
  bitPos_eq : p.bitPos = 0
  bitLen_pos : 0 < p.bitLen

instance (p q : PinCfg) : Decidable (p.Apart q) := by unfold Apart; infer_instance

instance (p : PinCfg) : Decidable p.ByteAligned :=
  decidable_of_iff (p.halType ≠ .bit ∧ p.bitPos = 0 ∧ 0 < p.bitLen)
    ⟨fun ⟨h₁, h₂, h₃⟩ => ⟨h₁, h₂, h₃⟩, fun ⟨h₁, h₂, h₃⟩ => ⟨h₁, h₂, h₃⟩⟩

theorem Apart.symm {p q : PinCfg} (h : p.Apart q) : q.Apart p := Or.symm h

theorem Apart.bytes {p q : PinCfg} (hp : p.ByteAligned) (hq : q.ByteAligned) (h : p.Apart q) :
    p.byteOffset + p.nbytes ≤ q.byteOffset ∨ q.byteOffset + q.nbytes ≤ p.byteOffset := by
  have hp' := hp.bitPos_eq
  have hq' := hq.bitPos_eq
  simp only [Apart, bitEnd, bitStart, nbytes] at *
  omega

end PinCfg

/-- Pins keep to themselves and to their half of the image: outputs first, inputs after them. -/
structure Layout.Sound (L : Layout) : Prop where
  bitPos_lt : ∀ p ∈ L.bus.pins, p.bitPos < 8
  bitLen_pos : ∀ p ∈ L.bus.pins, 0 < p.bitLen
  pins_apart : L.bus.pins.Pairwise PinCfg.Apart
  outputs_inside : ∀ p ∈ L.bus.pins, p.dir = .output → p.bitEnd ≤ 8 * L.outBytes
  inputs_inside : ∀ p ∈ L.bus.pins, p.dir = .input → 8 * L.outBytes ≤ p.bitStart
  fields_inside : ∀ f ∈ L.streamFields, f.imageOff + f.len ≤ L.outBytes

theorem Layout.Sound.input_offset {L : Layout} (hL : L.Sound) {p : PinCfg} (hp : p ∈ L.bus.pins)
    (hd : p.dir = .input) : L.outBytes ≤ p.byteOffset := by
  have hb := hL.bitPos_lt p hp
  have hi := hL.inputs_inside p hp hd
  simp only [PinCfg.bitStart] at hi
  omega

theorem Layout.Sound.output_bytes {L : Layout} (hL : L.Sound) {p : PinCfg} (hp : p ∈ L.bus.pins)
    (hd : p.dir = .output) : p.byteOffset < L.outBytes ∧ p.byteOffset + p.nbytes ≤ L.outBytes := by
  have hb := hL.bitLen_pos p hp
  have ho := hL.outputs_inside p hp hd
  simp only [PinCfg.bitEnd, PinCfg.bitStart, PinCfg.nbytes] at *
  omega

def oneDrive (maxSamplesPerFrame : ℕ) : Layout where
  bus := {
    refClockSlave := 0
    slaves := [{
      position := 0
      fmmus := [⟨0, 3, 0x1100, .output⟩, ⟨3, 2, 0x1400, .input⟩]
      outSize := 3
      inSize := 2 }]
    pins := [
      ⟨"x-controlword".toList, 0, 0, 16, .u32, .output⟩,
      ⟨"x-target".toList, 2, 0, 8, .s32, .output⟩,
      ⟨"x-statusword".toList, 3, 0, 16, .u32, .input⟩]
    imageSize := 5 }
  streamSampleBytes := 1
  maxSamplesPerFrame := maxSamplesPerFrame
  streamFields := [⟨0, 2, 1⟩]

theorem oneDrive_sound (n : ℕ) : (oneDrive n).Sound := by
  refine ⟨?_, ?_, ?_, ?_, ?_, ?_⟩ <;>
    simp [oneDrive, Layout.outBytes, PinCfg.Apart, PinCfg.bitEnd, PinCfg.bitStart]

end EcMaster
