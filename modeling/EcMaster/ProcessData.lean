import EcMaster.Config
import EcMaster.Library.Segment
import EcMaster.Library.LittleEndian

namespace EcMaster

open Library.Segment Library.LittleEndian

def readRaw (image : List UInt8) (off nbytes : ℕ) : UInt64 :=
  (List.range nbytes).foldl (fun raw i =>
    match image[off + i]? with
    | some b => raw ||| (b.toUInt64 <<< UInt64.ofNat (8 * i))
    | none => raw) 0

def signExtend (raw : UInt64) (bits : ℕ) : Int64 :=
  if bits = 0 ∨ bits ≥ 64 then raw.toInt64
  else
    let shift := 64 - bits
    (raw <<< UInt64.ofNat shift).toInt64 >>> Int64.ofNat shift

def readValue (image : List UInt8) (pin : PinCfg) : Int64 :=
  match pin.halType with
  | .bit =>
    match image[pin.byteOffset]? with
    | some b => ((b >>> UInt8.ofNat pin.bitPos) &&& 1).toUInt64.toInt64
    | none => 0
  | .u32 => (readRaw image pin.byteOffset pin.nbytes).toInt64
  | .s32 => signExtend (readRaw image pin.byteOffset pin.nbytes) pin.bitLen

def writeRaw (image : List UInt8) (off nbytes : ℕ) (raw : UInt64) : List UInt8 :=
  (List.range nbytes).foldl (fun image i => image.set (off + i) (raw >>> UInt64.ofNat (8 * i)).toUInt8) image

def writeValue (image : List UInt8) (pin : PinCfg) (value : Int64) : List UInt8 :=
  match pin.halType with
  | .bit =>
    let mask : UInt8 := 1 <<< UInt8.ofNat pin.bitPos
    match image[pin.byteOffset]? with
    | some b => image.set pin.byteOffset (if value ≠ 0 then b ||| mask else b &&& ~~~mask)
    | none => image
  | .u32 | .s32 => writeRaw image pin.byteOffset pin.nbytes value.toUInt64

def PinCfg.width (p : PinCfg) : ℕ := if p.halType = .bit then 1 else p.nbytes

def PinCfg.Covers (p : PinCfg) (i : ℕ) : Prop := p.byteOffset ≤ i ∧ i < p.byteOffset + p.width

instance (p : PinCfg) (i : ℕ) : Decidable (p.Covers i) := by unfold PinCfg.Covers; infer_instance

theorem readRaw_congr {image image' : List UInt8} {off nbytes : ℕ}
    (h : ∀ i, off ≤ i → i < off + nbytes → image[i]? = image'[i]?) :
    readRaw image off nbytes = readRaw image' off nbytes := by
  apply List.foldl_ext
  intro raw i hi
  rw [h (off + i) (by omega) (by have := List.mem_range.mp hi; omega)]

theorem readValue_congr {image image' : List UInt8} {pin : PinCfg}
    (h : ∀ i, pin.Covers i → image[i]? = image'[i]?) : readValue image pin = readValue image' pin := by
  cases ht : pin.halType with
  | bit =>
    have hb := h pin.byteOffset ⟨le_rfl, by simp [PinCfg.width, ht]⟩
    simp only [readValue, ht, hb]
  | u32 | s32 =>
    have hr : readRaw image pin.byteOffset pin.nbytes = readRaw image' pin.byteOffset pin.nbytes := by
      apply readRaw_congr
      intro i h₁ h₂
      exact h i ⟨h₁, by simpa [PinCfg.width, ht] using h₂⟩
    simp only [readValue, ht, hr]

def rawBytes (nbytes : ℕ) (raw : UInt64) : List UInt8 :=
  (List.range nbytes).map fun i => (raw >>> UInt64.ofNat (8 * i)).toUInt8

@[simp] theorem length_rawBytes (nbytes : ℕ) (raw : UInt64) : (rawBytes nbytes raw).length = nbytes := by
  simp [rawBytes]

theorem getElem?_rawBytes {nbytes i : ℕ} (h : i < nbytes) (raw : UInt64) :
    (rawBytes nbytes raw)[i]? = some (raw >>> UInt64.ofNat (8 * i)).toUInt8 := by
  simp [rawBytes, h]

theorem writeRaw_eq (image : List UInt8) (off nbytes : ℕ) (raw : UInt64) :
    writeRaw image off nbytes raw = overwrite image off (rawBytes nbytes raw) := by
  induction nbytes with
  | zero => simp [writeRaw, rawBytes]
  | succ n ih =>
    rw [writeRaw, List.range_succ, List.foldl_append, List.foldl_cons, List.foldl_nil]
    change (writeRaw image off n raw).set (off + n) _ = _
    rw [ih]
    apply List.ext_getElem?
    intro i
    rw [List.getElem?_set, length_overwrite, getElem?_overwrite, getElem?_overwrite]
    simp only [length_rawBytes]
    rcases lt_trichotomy i (off + n) with hlt | rfl | hgt
    · rw [if_neg (by omega)]
      by_cases h : off ≤ i ∧ i < image.length
      · rw [if_pos ⟨h.1, hlt, h.2⟩, if_pos ⟨h.1, by omega, h.2⟩, getElem?_rawBytes (by omega),
          getElem?_rawBytes (by omega)]
      · rw [if_neg (by omega), if_neg (by omega)]
    · by_cases h : off + n < image.length
      · rw [if_pos rfl, if_pos h, if_pos ⟨by omega, by omega, h⟩, getElem?_rawBytes (by omega),
          Nat.add_sub_cancel_left]
      · rw [if_pos rfl, if_neg h, if_neg (by omega), List.getElem?_eq_none (by omega)]
    · rw [if_neg (by omega), if_neg (by omega), if_neg (by omega)]

@[simp] theorem length_writeValue (image : List UInt8) (pin : PinCfg) (value : Int64) :
    (writeValue image pin value).length = image.length := by
  cases ht : pin.halType with
  | bit => simp only [writeValue, ht]; split <;> simp
  | u32 | s32 => simp [writeValue, ht, writeRaw_eq]

theorem getElem?_writeValue_outside {image : List UInt8} {pin : PinCfg} {i : ℕ} (value : Int64)
    (h : ¬ pin.Covers i) : (writeValue image pin value)[i]? = image[i]? := by
  simp only [PinCfg.Covers, PinCfg.width] at h
  cases ht : pin.halType with
  | bit =>
    simp only [ht, ↓reduceIte] at h
    simp only [writeValue, ht]
    split
    · exact List.getElem?_set_ne (by omega)
    · rfl
  | u32 | s32 =>
    simp only [ht, reduceCtorEq, ↓reduceIte] at h
    simp only [writeValue, ht, writeRaw_eq]
    exact getElem?_overwrite_outside (by simp; omega)

theorem getElem?_writeValue_congr {image image' : List UInt8} {i : ℕ} (h : image[i]? = image'[i]?)
    (pin : PinCfg) (value : Int64) : (writeValue image pin value)[i]? = (writeValue image' pin value)[i]? := by
  by_cases hc : pin.Covers i
  · cases ht : pin.halType with
    | bit =>
      have hi : pin.byteOffset = i := by
        obtain ⟨h₁, h₂⟩ := hc
        simp only [PinCfg.width, ht, ↓reduceIte] at h₂
        omega
      simp only [writeValue, ht, hi]
      cases hb : image'[i]? with
      | none => simp only [h, hb]
      | some b =>
        have hl := (List.getElem?_eq_some_iff.mp hb).1
        have hl' := (List.getElem?_eq_some_iff.mp (h.trans hb)).1
        simp only [h, hb]
        rw [List.getElem?_set_self hl, List.getElem?_set_self hl']
    | u32 | s32 =>
      simp only [writeValue, ht, writeRaw_eq]
      exact getElem?_overwrite_congr h _ _
  · rw [getElem?_writeValue_outside value hc, getElem?_writeValue_outside value hc, h]

theorem writeValue_of_not_bit {pin : PinCfg} (h : pin.halType ≠ .bit) (image : List UInt8) (value : Int64) :
    writeValue image pin value = overwrite image pin.byteOffset (rawBytes pin.nbytes value.toUInt64) := by
  cases ht : pin.halType with
  | bit => exact absurd ht h
  | u32 | s32 => simp only [writeValue, ht, writeRaw_eq]

theorem PinCfg.width_of_aligned {p : PinCfg} (h : p.ByteAligned) : p.width = p.nbytes := by
  rw [PinCfg.width, if_neg h.not_bit]

theorem Layout.Sound.width_below {L : Layout} (hL : L.Sound) {p : PinCfg} (hp : p ∈ L.bus.pins)
    (ho : p.dir = .output) : p.byteOffset + p.width ≤ L.outBytes := by
  obtain ⟨h₁, h₂⟩ := hL.output_bytes hp ho
  rw [PinCfg.width]
  split_ifs
  · omega
  · exact h₂

end EcMaster
