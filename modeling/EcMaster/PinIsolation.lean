import EcMaster.HostSends
import EcMaster.PinWire

namespace EcMaster

open Library.Segment Library.LittleEndian

def bitAt (image : List UInt8) (k : ℕ) : Bool := (image.getD (k / 8) 0).toNat.testBit (k % 8)

namespace PinCfg

def writeEnd (p : PinCfg) : ℕ := p.bitStart + if p.halType = .bit then 1 else 8 * p.nbytes

def readEnd (p : PinCfg) : ℕ :=
  p.bitStart + match p.halType with
    | .bit => 1
    | .u32 => 8 * p.nbytes
    | .s32 => p.bitLen

def kept (p : PinCfg) (v : ℤ) : ℤ :=
  match p.halType with
  | .bit => if v = 0 then 0 else 1
  | .u32 => v % 2 ^ (8 * p.nbytes)
  | .s32 => v.bmod (2 ^ p.bitLen)

/-- A bit pin at any bit, or another pin on a byte boundary with up to 32 bits, inside the image. -/
structure Placed (p : PinCfg) (image : List UInt8) : Prop where
  bit : p.halType = .bit → p.bitPos < 8
  aligned : p.halType ≠ .bit → p.bitPos = 0 ∧ 1 ≤ p.bitLen ∧ p.bitLen ≤ 32
  inside : p.byteOffset + p.width ≤ image.length

instance (p : PinCfg) (image : List UInt8) : Decidable (p.Placed image) :=
  decidable_of_iff ((p.halType = .bit → p.bitPos < 8) ∧
      (p.halType ≠ .bit → p.bitPos = 0 ∧ 1 ≤ p.bitLen ∧ p.bitLen ≤ 32) ∧ p.byteOffset + p.width ≤ image.length)
    ⟨fun ⟨h₁, h₂, h₃⟩ => ⟨h₁, h₂, h₃⟩, fun ⟨h₁, h₂, h₃⟩ => ⟨h₁, h₂, h₃⟩⟩

variable {p q : PinCfg} {image : List UInt8}

theorem Placed.sized (h : p.Placed image) : p.Sized := fun ht => (h.aligned ht).2

theorem bitLen_le (p : PinCfg) : p.bitLen ≤ 8 * p.nbytes := by
  rw [PinCfg.nbytes]
  omega

theorem Placed.start (h : p.Placed image) (ht : p.halType ≠ .bit) : p.bitStart = 8 * p.byteOffset := by
  rw [bitStart, (h.aligned ht).1, Nat.add_zero]

end PinCfg

theorem leNat_fetch_congr {image image' : List UInt8} {off n m : ℕ} (hm : m ≤ 8 * n)
    (h : ∀ k < m, bitAt image (8 * off + k) = bitAt image' (8 * off + k)) :
    leNat (fetch image off n) % 2 ^ m = leNat (fetch image' off n) % 2 ^ m := by
  have hbit : ∀ (buf : List UInt8), ∀ k < m, (leNat (fetch buf off n)).testBit k = bitAt buf (8 * off + k) := by
    intro buf k hk
    have hget : (fetch buf off n).getD (k / 8) 0 = buf.getD (off + k / 8) 0 := by
      rw [List.getD_eq_getElem?_getD, fetch, List.getElem?_map, List.getElem?_range (by omega)]
      rfl
    have hdiv : (8 * off + k) / 8 = off + k / 8 := by omega
    have hmod : (8 * off + k) % 8 = k % 8 := by omega
    rw [testBit_leNat, hget, bitAt, hdiv, hmod]
  apply Nat.eq_of_testBit_eq
  intro k
  rw [Nat.testBit_mod_two_pow, Nat.testBit_mod_two_pow]
  by_cases hk : k < m
  · rw [hbit image k hk, hbit image' k hk, h k hk]
  · rw [decide_eq_false hk, Bool.false_and, Bool.false_and]

theorem rawBytes_eq {n : ℕ} (hn : n ≤ 4) (raw : UInt64) : rawBytes n raw = leBytes n raw.toNat := by
  apply List.ext_getElem?
  intro i
  by_cases hi : i < n
  · rw [getElem?_rawBytes hi, getElem?_leBytes hi]
    have hshift : (UInt64.ofNat (8 * i)).toNat % 64 = 8 * i := by
      rw [UInt64.toNat_ofNat', Nat.mod_eq_of_lt (by omega)]
      omega
    have hpow : 256 ^ i = 2 ^ (8 * i) := by rw [pow_mul]; norm_num
    refine congrArg some (UInt8.toNat_inj.mp ?_)
    rw [UInt64.toNat_toUInt8, UInt64.toNat_shiftRight, hshift, UInt8.toNat_ofNat', Nat.shiftRight_eq_div_pow, hpow]
  · rw [List.getElem?_eq_none (by simpa using hi), List.getElem?_eq_none (by simpa using hi)]

theorem leNat_rawBytes {n : ℕ} (hn : n ≤ 4) (v : Int64) :
    (leNat (rawBytes n v.toUInt64) : ℤ) = v.toInt % 2 ^ (8 * n) := by
  have hpow : 256 ^ n = 2 ^ (8 * n) := by rw [pow_mul]; norm_num
  have hword : (v.toUInt64.toNat : ℤ) = v.toInt % 2 ^ 64 := by
    have hint : v.toInt = (v.toUInt64.toNat : ℤ).bmod (2 ^ 64) := BitVec.toInt_eq_toNat_bmod v.toBitVec
    have hlt := v.toUInt64.toNat_lt
    rw [hint, show (2 : ℤ) ^ 64 = ((2 ^ 64 : ℕ) : ℤ) by norm_num, Int.bmod_emod]
    omega
  have hdvd : (2 : ℤ) ^ (8 * n) ∣ 2 ^ 64 := pow_dvd_pow 2 (by omega)
  rw [rawBytes_eq hn, leNat_leBytes, hpow, Int.natCast_emod, hword]
  push_cast
  exact Int.emod_emod_of_dvd _ hdvd

theorem fetch_overwrite {image src : List UInt8} {off : ℕ} (h : off + src.length ≤ image.length) :
    fetch (overwrite image off src) off src.length = src := by
  rw [fetch_eq_slice (by rw [length_overwrite]; exact h), slice_overwrite_self image src off h]

namespace PinCfg

variable {p q : PinCfg} {image : List UInt8}

theorem getD_writeBit (ht : p.halType = .bit) (hin : p.byteOffset < image.length) (v : Int64) :
    (writeValue image p v).getD p.byteOffset 0 =
      if decide (v ≠ 0) then image.getD p.byteOffset 0 ||| (1 <<< UInt8.ofNat p.bitPos)
      else image.getD p.byteOffset 0 &&& ~~~(1 <<< UInt8.ofNat p.bitPos) := by
  have hget := List.getElem?_eq_getElem hin
  rw [List.getD_eq_getElem?_getD, List.getD_eq_getElem?_getD, hget]
  simp only [writeValue, ht, hget]
  rw [List.getElem?_set_self hin]
  simp

theorem testBit_writeBit (ht : p.halType = .bit) (hpos : p.bitPos < 8) (hin : p.byteOffset < image.length) (v : Int64)
    {j : ℕ} (hj : j < 8) : ((writeValue image p v).getD p.byteOffset 0).toNat.testBit j =
      if j = p.bitPos then decide (v ≠ 0) else (image.getD p.byteOffset 0).toNat.testBit j := by
  rw [getD_writeBit ht hin v]
  exact getLsbD_write hpos hj (decide (v ≠ 0)) (image.getD p.byteOffset 0)

theorem Placed.readBack (h : p.Placed image) (v : Int64) :
    (readValue (writeValue image p v) p).toInt = p.kept v.toInt := by
  rw [readValue_valueIn h.sized]
  cases ht : p.halType with
  | bit =>
    have hin : p.byteOffset < image.length := by
      have hi := h.inside
      rw [width, if_pos ht] at hi
      omega
    have hbit := testBit_writeBit ht (h.bit ht) hin v (h.bit ht)
    rw [if_pos rfl] at hbit
    have hzero : v.toInt = 0 ↔ v = 0 := ⟨fun hv => Int64.toInt_inj.mp hv, fun hv => by rw [hv]; rfl⟩
    simp only [valueIn, kept, ht, bit_toNat (h.bit ht), hzero]
    rw [show ((writeValue image p v).getD p.byteOffset 0).toBitVec.getLsbD p.bitPos = decide (v ≠ 0) from hbit]
    by_cases hv : v = 0 <;> simp [hv]
  | u32 =>
    have hne : p.halType ≠ .bit := by rw [ht]; decide
    have hin := h.inside
    rw [width, if_neg hne] at hin
    have hf := fetch_overwrite (show p.byteOffset + (rawBytes p.nbytes v.toUInt64).length ≤ image.length by
      rw [length_rawBytes]; exact hin)
    rw [length_rawBytes] at hf
    simp only [valueIn, kept, ht]
    rw [writeValue_of_not_bit hne, hf, leNat_rawBytes (h.sized.nbytes hne)]
  | s32 =>
    have hne : p.halType ≠ .bit := by rw [ht]; decide
    have hin := h.inside
    rw [width, if_neg hne] at hin
    have hf := fetch_overwrite (show p.byteOffset + (rawBytes p.nbytes v.toUInt64).length ≤ image.length by
      rw [length_rawBytes]; exact hin)
    rw [length_rawBytes] at hf
    simp only [valueIn, kept, ht]
    rw [writeValue_of_not_bit hne, hf, leNat_rawBytes (h.sized.nbytes hne)]
    have hdvd : ((2 ^ p.bitLen : ℕ) : ℤ) ∣ 2 ^ (8 * p.nbytes) := by
      push_cast
      exact pow_dvd_pow 2 p.bitLen_le
    rw [← Int.emod_bmod (v.toInt % _), Int.emod_emod_of_dvd _ hdvd, Int.emod_bmod]

theorem Placed.bitAt_writeValue (h : p.Placed image) (v : Int64) {k : ℕ} (hk : k < p.bitStart ∨ p.writeEnd ≤ k) :
    bitAt (writeValue image p v) k = bitAt image k := by
  rw [bitAt, bitAt]
  by_cases hc : p.Covers (k / 8)
  · obtain ⟨h₁, h₂⟩ := hc
    cases ht : p.halType with
    | bit =>
      have hpos := h.bit ht
      have hin := h.inside
      rw [width, if_pos ht] at h₂ hin
      have hbyte : k / 8 = p.byteOffset := by omega
      rw [writeEnd, if_pos ht, bitStart] at hk
      rw [hbyte, testBit_writeBit ht hpos (by omega) v (Nat.mod_lt k (by decide)), if_neg (by omega)]
    | u32 | s32 =>
      have hne : p.halType ≠ .bit := by rw [ht]; decide
      rw [writeEnd, if_neg hne, h.start hne] at hk
      rw [width, if_neg hne] at h₂
      omega
  · rw [List.getD_eq_getElem?_getD, List.getD_eq_getElem?_getD, getElem?_writeValue_outside v hc]

theorem Placed.readValue_congr {image' : List UInt8} (h : q.Placed image)
    (hbits : ∀ k, q.bitStart ≤ k → k < q.readEnd → bitAt image k = bitAt image' k) :
    readValue image q = readValue image' q := by
  apply Int64.toInt_inj.mp
  rw [readValue_valueIn h.sized, readValue_valueIn h.sized]
  cases ht : q.halType with
  | bit =>
    have hpos := h.bit ht
    have hb := hbits q.bitStart le_rfl (by simp [readEnd, ht])
    have hdiv : q.bitStart / 8 = q.byteOffset := by rw [bitStart]; omega
    have hmod : q.bitStart % 8 = q.bitPos := by rw [bitStart]; omega
    rw [bitAt, bitAt, hdiv, hmod] at hb
    simp only [valueIn, ht, bit_toNat hpos]
    exact congrArg (fun b : Bool => (b.toNat : ℤ)) hb
  | u32 =>
    have hne : q.halType ≠ .bit := by rw [ht]; decide
    have hf := @leNat_fetch_congr image image' q.byteOffset q.nbytes (8 * q.nbytes) le_rfl fun k hk =>
      hbits _ (by rw [h.start hne]; omega) (by simp only [readEnd, ht]; rw [h.start hne]; omega)
    have hlt : ∀ buf : List UInt8, leNat (fetch buf q.byteOffset q.nbytes) < 2 ^ (8 * q.nbytes) := by
      intro buf
      have hl := leNat_lt (fetch buf q.byteOffset q.nbytes)
      rwa [length_fetch, show (256 : ℕ) = 2 ^ 8 by norm_num, ← pow_mul] at hl
    rw [Nat.mod_eq_of_lt (hlt image), Nat.mod_eq_of_lt (hlt image')] at hf
    simp only [valueIn, ht, hf]
  | s32 =>
    have hne : q.halType ≠ .bit := by rw [ht]; decide
    have hf := @leNat_fetch_congr image image' q.byteOffset q.nbytes q.bitLen q.bitLen_le fun k hk =>
      hbits _ (by rw [h.start hne]; omega) (by simp only [readEnd, ht]; rw [h.start hne]; omega)
    simp only [valueIn, ht]
    rw [← Int.emod_bmod, ← Int.natCast_emod, hf, Int.natCast_emod, Int.emod_bmod]

/-- A pin reads back what it keeps of a written value, and a pin of which no bit is written reads as before. -/
theorem pins_isolated (hp : p.Placed image) (hq : q.Placed image) (v : Int64) :
    (readValue (writeValue image p v) p).toInt = p.kept v.toInt ∧
      (q.readEnd ≤ p.bitStart ∨ p.writeEnd ≤ q.bitStart → readValue (writeValue image p v) q = readValue image q) := by
  refine ⟨hp.readBack v, fun hapart => ?_⟩
  have hq' : q.Placed (writeValue image p v) := ⟨hq.bit, hq.aligned, by rw [length_writeValue]; exact hq.inside⟩
  exact hq'.readValue_congr fun k h₁ h₂ => hp.bitAt_writeValue v (by omega)

def twelveBits (halType : HalType) : PinCfg := ⟨['p'], 0, 0, 12, halType, .output⟩

def flagAt (byteOffset bitPos : ℕ) : PinCfg := ⟨['q'], byteOffset, bitPos, 1, .bit, .output⟩

theorem pins_isolated_twelve : (readValue (writeValue [0, 0, 0x08] (twelveBits .s32) 0xFFF) (twelveBits .s32)).toInt = -1 ∧
    readValue (writeValue [0, 0, 0x08] (twelveBits .s32) 0xFFF) (flagAt 2 3) = readValue [0, 0, 0x08] (flagAt 2 3) := by
  obtain ⟨hread, hother⟩ := @pins_isolated (twelveBits .s32) (flagAt 2 3) [0, 0, 0x08] (by decide) (by decide) 0xFFF
  exact ⟨hread, hother (by decide)⟩

theorem pins_clobbered : ¬∀ (image : List UInt8) (p q : PinCfg) (v : Int64), p.Placed image → q.Placed image → p.Apart q →
    readValue (writeValue image p v) q = readValue image q := by
  intro h
  exact absurd (h [0, 0x10] (twelveBits .u32) (flagAt 1 4) 0 (by decide) (by decide) (by decide)) (by decide)

end PinCfg

end EcMaster
