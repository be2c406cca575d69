import EcMaster.HostFrames
import EcMaster.Library.ShiftRegister

namespace EcMaster

open Library.Segment Library.LittleEndian Library.ShiftRegister

def flipBit (place : ℕ) (bytes : List UInt8) : List UInt8 :=
  bytes.modify (place / 8) (· ^^^ ((1 : UInt8) <<< UInt8.ofNat (place % 8)))

def flipBits (places : List ℕ) (bytes : List UInt8) : List UInt8 := places.foldr flipBit bytes

@[simp] theorem length_flipBit (place : ℕ) (bytes : List UInt8) : (flipBit place bytes).length = bytes.length :=
  List.length_modify _ _ _

@[simp] theorem length_flipBits (places : List ℕ) (bytes : List UInt8) :
    (flipBits places bytes).length = bytes.length := by
  induction places with
  | nil => rfl
  | cons p places ih => exact (length_flipBit _ _).trans ih

def Remainder : Type := UInt16

namespace Remainder

def ofWord (w : UInt16) : Remainder := w

instance : Add Remainder := ⟨fun a b => ofWord (UInt16.xor a b)⟩

instance : Zero Remainder := ⟨ofWord 0⟩

instance : Neg Remainder := ⟨id⟩

instance : AddCommGroup Remainder where
  add_assoc a b c := UInt16.xor_assoc a b c
  zero_add a := UInt16.zero_xor (a := a)
  add_zero a := UInt16.xor_zero (a := a)
  add_comm a b := UInt16.xor_comm a b
  neg_add_cancel a := UInt16.xor_self (a := a)
  nsmul := nsmulRec
  zsmul := zsmulRec

theorem add_self (r : Remainder) : r + r = 0 := UInt16.xor_self (a := r)

theorem ofWord_xor (a b : UInt16) : ofWord (a ^^^ b) = ofWord a + ofWord b := rfl

end Remainder

def topBit (w : UInt16) : Bool := w.toNat.testBit 15

theorem and_top (w : UInt16) : w &&& 0x8000 ≠ 0 ↔ topBit w = true := by
  have hand : (w &&& 0x8000).toNat = (topBit w).toNat * 2 ^ 15 := by
    rw [UInt16.toNat_and, topBit]
    exact Nat.and_two_pow w.toNat 15
  rw [Ne, ← UInt16.toNat_inj, hand]
  cases topBit w <;> decide

theorem crc16Bit_eq (w : UInt16) : crc16Bit w = (w <<< 1) ^^^ if topBit w then 0x1021 else 0 := by
  rw [crc16Bit]
  by_cases h : topBit w = true
  · rw [if_pos ((and_top w).mpr h), if_pos h]
  · rw [if_neg (fun hw => h ((and_top w).mp hw)), if_neg h, UInt16.xor_zero]

theorem topBit_xor (a b : UInt16) : topBit (a ^^^ b) = Bool.xor (topBit a) (topBit b) := by
  rw [topBit, UInt16.toNat_xor, Nat.testBit_xor, topBit, topBit]

theorem crc16Bit_xor (a b : UInt16) : crc16Bit (a ^^^ b) = crc16Bit a ^^^ crc16Bit b := by
  have hpoly : (if topBit (a ^^^ b) then (0x1021 : UInt16) else 0) =
      (if topBit a then 0x1021 else 0) ^^^ if topBit b then 0x1021 else 0 := by
    rw [topBit_xor]
    cases topBit a <;> cases topBit b <;> rfl
  rw [crc16Bit_eq, crc16Bit_eq a, crc16Bit_eq b, hpoly, UInt16.shiftLeft_xor]
  ac_rfl

def crcClock : Remainder →+ Remainder := AddMonoidHom.mk' crc16Bit crc16Bit_xor

def crcUnit : Remainder := Remainder.ofWord 1

def crcParity : Remainder →+ ZMod 2 :=
  AddMonoidHom.mk' (fun r => ∑ i ∈ Finset.range 16, (((UInt16.toNat r).testBit i).toNat : ZMod 2)) <| by
    intro a b
    rw [← Finset.sum_add_distrib]
    refine Finset.sum_congr rfl fun i _ => ?_
    change (((UInt16.toNat (UInt16.xor a b)).testBit i).toNat : ZMod 2) = _
    rw [show UInt16.toNat (UInt16.xor a b) = UInt16.toNat a ^^^ UInt16.toNat b from UInt16.toNat_xor a b, Nat.testBit_xor]
    cases (UInt16.toNat a).testBit i <;> cases (UInt16.toNat b).testBit i <;> rfl

theorem crcParity_clock (r : Remainder) : crcParity (crcClock r) = crcParity r := by
  have hshift : crcParity (Remainder.ofWord ((show UInt16 from r) <<< 1)) =
      ∑ i ∈ Finset.range 15, (((UInt16.toNat r).testBit i).toNat : ZMod 2) := by
    change ∑ i ∈ Finset.range 16, (((UInt16.toNat (UInt16.shiftLeft r 1)).testBit i).toNat : ZMod 2) = _
    have hval : UInt16.toNat (UInt16.shiftLeft r 1) = (UInt16.toNat r <<< 1) % 2 ^ 16 := UInt16.toNat_shiftLeft r 1
    have hlow : (UInt16.toNat (UInt16.shiftLeft r 1)).testBit 0 = false := by
      rw [hval, Nat.testBit_mod_two_pow, Nat.testBit_shiftLeft]
      rfl
    rw [Finset.sum_range_succ', hlow, Bool.toNat_false, Nat.cast_zero, add_zero]
    refine Finset.sum_congr rfl fun i hi => ?_
    have hi : i + 1 < 16 := Nat.succ_lt_succ (Finset.mem_range.mp hi)
    rw [hval, Nat.testBit_mod_two_pow, Nat.testBit_shiftLeft]
    simp [hi]
  have hpoly : ∀ b : Bool, crcParity (Remainder.ofWord (if b then 0x1021 else 0)) = ((b.toNat : ℕ) : ZMod 2) := by
    decide
  have hclock : crcClock r = Remainder.ofWord ((show UInt16 from r) <<< 1) +
      Remainder.ofWord (if topBit r then 0x1021 else 0) := crc16Bit_eq r
  rw [hclock, map_add, hshift, hpoly]
  exact (Finset.sum_range_succ _ 15).symm

theorem crc16Bit_injective : Function.Injective crcClock := by
  rw [injective_iff_map_eq_zero]
  intro r hr
  have hbound : UInt16.toNat r < 2 ^ 16 := UInt16.toNat_lt r
  have htop : topBit r = decide (UInt16.toNat r / 2 ^ 15 % 2 = 1) := Nat.testBit_eq_decide_div_mod_eq
  have hshift : ((show UInt16 from r) <<< 1).toNat = UInt16.toNat r * 2 % 2 ^ 16 := by
    rw [UInt16.toNat_shiftLeft, Nat.shiftLeft_eq]
    rfl
  have hclock : ((show UInt16 from r) <<< 1) ^^^ (if topBit r then 0x1021 else 0) = 0 := (crc16Bit_eq r).symm.trans hr
  have hval := congrArg UInt16.toNat (UInt16.xor_eq_zero_iff.mp hclock)
  rw [hshift] at hval
  apply UInt16.toNat_inj.mp
  change UInt16.toNat r = 0
  cases hb : topBit r with
  | true =>
    rw [hb, if_pos rfl, show (0x1021 : UInt16).toNat = 4129 from rfl] at hval
    omega
  | false =>
    rw [hb, if_neg Bool.false_ne_true, show (0 : UInt16).toNat = 0 from rfl] at hval
    have hsmall := of_decide_eq_false (htop.symm.trans hb)
    omega

def avoidsUnit : ℕ → UInt16 → Bool
  | 0, _ => true
  | n + 1, w => if w = 1 then false else avoidsUnit n (crc16Bit w)

theorem iterate_ne_one {n : ℕ} {w : UInt16} (h : avoidsUnit n w = true) : ∀ k < n, crc16Bit^[k] w ≠ 1 := by
  induction n generalizing w with
  | zero => exact fun k hk => absurd hk (Nat.not_lt_zero k)
  | succ n ih =>
    rw [avoidsUnit] at h
    split_ifs at h with hw
    intro k hk
    cases k with
    | zero => exact hw
    | succ k =>
      rw [Function.iterate_succ_apply]
      exact ih h k (Nat.lt_of_succ_lt_succ hk)

theorem crcUnit_fresh (k : ℕ) (hpos : 0 < k) (hk : k < 8 * 600) : crcClock^[k] crcUnit ≠ crcUnit := by
  obtain ⟨k, rfl⟩ := Nat.exists_eq_succ_of_ne_zero hpos.ne'
  have havoids : avoidsUnit (8 * 600 - 1) (crc16Bit 1) = true := by decide +kernel
  exact iterate_ne_one havoids k (by omega)

theorem crcUnit_low {k : ℕ} (hk : k < 8) : Remainder.ofWord ((1 : UInt8) <<< UInt8.ofNat k).toUInt16 = crcClock^[k] crcUnit := by
  interval_cases k <;> rfl

theorem crcUnit_high {k : ℕ} (hk : k < 8) :
    Remainder.ofWord (((1 : UInt8) <<< UInt8.ofNat k).toUInt16 <<< 8) = crcClock^[8 + k] crcUnit := by
  interval_cases k <;> rfl

theorem crc16Byte_eq (r : UInt16) (b : UInt8) :
    Remainder.ofWord (crc16Byte r b) = crcClock^[8] (Remainder.ofWord r + Remainder.ofWord (b.toUInt16 <<< 8)) := rfl

theorem foldl_crc16 (bytes : List UInt8) (r d : UInt16) :
    Remainder.ofWord (bytes.foldl crc16Byte (r ^^^ d)) =
      Remainder.ofWord (bytes.foldl crc16Byte r) + crcClock^[8 * bytes.length] (Remainder.ofWord d) := by
  induction bytes generalizing r d with
  | nil => rfl
  | cons b bytes ih =>
    have hbyte : crc16Byte (r ^^^ d) b = crc16Byte r b ^^^ crc16Bit^[8] d := by
      change Remainder.ofWord (crc16Byte (r ^^^ d) b) =
        Remainder.ofWord (crc16Byte r b) + crcClock^[8] (Remainder.ofWord d)
      rw [crc16Byte_eq, crc16Byte_eq, Remainder.ofWord_xor, add_right_comm, iterate_map_add]
    have hclocks : crcClock^[8 * bytes.length] (Remainder.ofWord (crc16Bit^[8] d)) =
        crcClock^[8 * (b :: bytes).length] (Remainder.ofWord d) := by
      rw [List.length_cons, Nat.mul_succ, Function.iterate_add_apply]
      rfl
    rw [List.foldl_cons, List.foldl_cons, hbyte, ih, hclocks]

theorem crc16_flipBit {place : ℕ} {bytes : List UInt8} (h : place / 8 < bytes.length) :
    Remainder.ofWord (crc16 (flipBit place bytes)) = Remainder.ofWord (crc16 bytes) +
      crcClock^[8 * (bytes.length - 1 - place / 8) + (16 + place % 8)] crcUnit := by
  obtain ⟨before, b, after, hbytes, hlen, hflip⟩ :=
    List.exists_of_modify (· ^^^ ((1 : UInt8) <<< UInt8.ofNat (place % 8))) h
  have hafter : bytes.length - 1 - place / 8 = after.length := by
    rw [hbytes, ← hlen, List.length_append, List.length_cons]
    omega
  have hbyte : ∀ r, crc16Byte r (b ^^^ ((1 : UInt8) <<< UInt8.ofNat (place % 8))) =
      crc16Byte r b ^^^ (show UInt16 from crcClock^[16 + place % 8] crcUnit) := by
    intro r
    change Remainder.ofWord (crc16Byte r (b ^^^ _)) = Remainder.ofWord (crc16Byte r b) + crcClock^[16 + place % 8] crcUnit
    rw [crc16Byte_eq, crc16Byte_eq, UInt8.toUInt16_xor, UInt16.shiftLeft_xor, Remainder.ofWord_xor, ← add_assoc,
      iterate_map_add crcClock 8 (_ + _), crcUnit_high (Nat.mod_lt _ (by decide)), ← Function.iterate_add_apply,
      ← Nat.add_assoc]
  rw [flipBit, hflip, hafter, Function.iterate_add_apply, hbytes, crc16, crc16, List.foldl_append, List.foldl_cons,
    List.foldl_append, List.foldl_cons, hbyte]
  exact foldl_crc16 after _ _

theorem u16Le_slice {bytes : List UInt8} {off : ℕ} (h : off + 2 ≤ bytes.length) : u16Le (slice bytes off 2) =
    (bytes.getD off 0).toUInt16 ^^^ ((bytes.getD (off + 1) 0).toUInt16 <<< 8) := by
  have hpair : slice bytes off 2 = [bytes.getD off 0, bytes.getD (off + 1) 0] := by
    rw [slice, List.drop_eq_getElem_cons (by omega), List.drop_eq_getElem_cons (by omega),
      List.getD_eq_getElem _ _ (by omega), List.getD_eq_getElem _ _ (by omega)]
    rfl
  rw [hpair, u16Le_pair]

theorem getD_flipBit {place : ℕ} {bytes : List UInt8} {i : ℕ} (hi : i < bytes.length) : (flipBit place bytes).getD i 0 =
    if place / 8 = i then bytes.getD i 0 ^^^ ((1 : UInt8) <<< UInt8.ofNat (place % 8)) else bytes.getD i 0 := by
  rw [flipBit, List.getD_eq_getElem?_getD, List.getElem?_modify, List.getElem?_eq_getElem hi, List.getD_eq_getElem _ _ hi]
  split_ifs <;> rfl

theorem u16Le_flipBit {place off : ℕ} {bytes : List UInt8} (h : off + 2 ≤ bytes.length) (hlow : off ≤ place / 8)
    (hhigh : place / 8 < off + 2) : Remainder.ofWord (u16Le (slice (flipBit place bytes) off 2)) =
      Remainder.ofWord (u16Le (slice bytes off 2)) + crcClock^[place - 8 * off] crcUnit := by
  have hmod : place % 8 < 8 := Nat.mod_lt _ (by decide)
  rw [u16Le_slice (by rwa [length_flipBit]), u16Le_slice h, getD_flipBit (by omega), getD_flipBit (by omega)]
  rcases (by omega : place / 8 = off ∨ place / 8 = off + 1) with hbyte | hbyte
  · rw [if_pos hbyte, if_neg (by omega), show place - 8 * off = place % 8 by omega, ← crcUnit_low hmod, UInt8.toUInt16_xor]
    simp only [Remainder.ofWord_xor]
    exact add_right_comm _ _ _
  · rw [if_neg (by omega), if_pos hbyte, show place - 8 * off = 8 + place % 8 by omega, ← crcUnit_high hmod,
      UInt8.toUInt16_xor, UInt16.shiftLeft_xor]
    simp only [Remainder.ofWord_xor]
    exact (add_assoc _ _ _).symm

theorem u16Le_flipBit_before {place off : ℕ} {bytes : List UInt8} (h : off + 2 ≤ bytes.length) (hp : place / 8 < off) :
    u16Le (slice (flipBit place bytes) off 2) = u16Le (slice bytes off 2) := by
  rw [u16Le_slice (by rwa [length_flipBit]), u16Le_slice h, getD_flipBit (by omega), getD_flipBit (by omega),
    if_neg (by omega), if_neg (by omega)]

theorem take_flipBit {place n : ℕ} {bytes : List UInt8} : (flipBit place bytes).take n = flipBit place (bytes.take n) := by
  apply List.ext_getElem?
  intro i
  rw [flipBit, flipBit, List.getElem?_take, List.getElem?_modify, List.getElem?_modify, List.getElem?_take]
  split_ifs <;> rfl

theorem flipBit_behind {place : ℕ} {bytes : List UInt8} (h : bytes.length ≤ place / 8) : flipBit place bytes = bytes := by
  apply List.ext_getElem?
  intro i
  rw [flipBit, List.getElem?_modify]
  split_ifs with hi
  · rw [← hi, List.getElem?_eq_none h]
    rfl
  · cases bytes[i]? <;> rfl

section Frame

variable {L : Layout} {mosi : List UInt8}

def discrepancy (L : Layout) (mosi : List UInt8) : Remainder :=
  Remainder.ofWord (crc16 (mosi.take L.crcPos)) + Remainder.ofWord (u16Le (slice mosi L.crcPos 2))

theorem discrepancy_eq_zero (h : Accepted L mosi) : discrepancy L mosi = 0 := by
  rw [discrepancy, h.2.2]
  exact Remainder.add_self _

def crcPlace (L : Layout) (place : ℕ) : ℕ :=
  if place / 8 < L.crcPos then 8 * (L.crcPos - 1 - place / 8) + (16 + place % 8) else place - 8 * L.crcPos

theorem discrepancy_flipBit (hlen : L.mosiLen ≤ mosi.length) {place : ℕ} (hp : place < 8 * L.mosiLen) :
    discrepancy L (flipBit place mosi) = discrepancy L mosi + crcClock^[crcPlace L place] crcUnit := by
  have hpos : L.crcPos + 2 = L.mosiLen := by
    simp only [Layout.crcPos, Layout.mosiLen, crcLen]
    omega
  have htake : (mosi.take L.crcPos).length = L.crcPos := by
    rw [List.length_take, min_eq_left (by omega)]
  rw [discrepancy, discrepancy, crcPlace, take_flipBit]
  split_ifs with hdata
  · rw [u16Le_flipBit_before (by omega) hdata, crc16_flipBit (by rwa [htake]), htake]
    exact add_right_comm _ _ _
  · rw [flipBit_behind (by rw [htake]; omega), u16Le_flipBit (by omega) (by omega) (by omega)]
    exact (add_assoc _ _ _).symm

theorem discrepancy_flipBits (hlen : L.mosiLen ≤ mosi.length) {places : List ℕ} (hp : ∀ p ∈ places, p < 8 * L.mosiLen) :
    discrepancy L (flipBits places mosi) = discrepancy L mosi + residue crcClock crcUnit (places.map (crcPlace L)) := by
  induction places with
  | nil => exact (add_zero _).symm
  | cons p places ih =>
    change discrepancy L (flipBit p (flipBits places mosi)) = _
    rw [discrepancy_flipBit (by rwa [length_flipBits]) (hp p List.mem_cons_self),
      ih fun q hq => hp q (List.mem_cons_of_mem _ hq), List.map_cons, residue_cons, add_comm (crcClock^[_] _), add_assoc]

theorem crcPlace_lt {place : ℕ} (hp : place < 8 * L.mosiLen) : crcPlace L place < 8 * L.mosiLen := by
  have hpos : L.crcPos + 2 = L.mosiLen := by
    simp only [Layout.crcPos, Layout.mosiLen, crcLen]
    omega
  rw [crcPlace]
  split_ifs <;> omega

theorem crcPlace_ne {p q : ℕ} (hp : p < 8 * L.mosiLen) (hq : q < 8 * L.mosiLen) (hne : p ≠ q) :
    crcPlace L p ≠ crcPlace L q := by
  have hpos : L.crcPos + 2 = L.mosiLen := by
    simp only [Layout.crcPos, Layout.mosiLen, crcLen]
    omega
  rw [crcPlace, crcPlace]
  split_ifs <;> omega

theorem residue_ne_zero (hlen : L.mosiLen ≤ 600) {places : List ℕ} (hnodup : places.Nodup)
    (hp : ∀ p ∈ places, p < 8 * L.mosiLen) (hcount : places.length = 2 ∨ Odd places.length) :
    residue crcClock crcUnit (places.map (crcPlace L)) ≠ 0 := by
  rcases hcount with htwo | hodd
  · obtain ⟨p, q, rfl⟩ := List.length_eq_two.mp htwo
    have hpq : p ≠ q := fun h => (List.nodup_cons.mp hnodup).1 (List.mem_singleton.mpr h)
    have hpl := hp p List.mem_cons_self
    have hql := hp q (List.mem_cons_of_mem _ List.mem_cons_self)
    have hpp := crcPlace_lt hpl
    have hqp := crcPlace_lt hql
    exact residue_pair_ne Remainder.add_self crc16Bit_injective crcUnit_fresh (crcPlace_ne hpl hql hpq) (by omega) (by omega)
  · exact residue_odd_ne crcParity crcParity_clock (by decide) (by rwa [List.length_map])

end Frame

/-- A frame in which one bit, two bits or an odd number of bits have flipped is rejected. -/
theorem flipped_rejected {L : Layout} (hL : L.mosiLen ≤ 600) {mosi : List UInt8} (ha : Accepted L mosi)
    {places : List ℕ} (hnodup : places.Nodup) (hp : ∀ p ∈ places, p < 8 * L.mosiLen)
    (hcount : places.length = 2 ∨ Odd places.length) (h : HostBridge L) :
    h.ingest (flipBits places mosi) = h.reject := by
  apply HostBridge.ingest_rejected
  intro hflipped
  have hdis := discrepancy_flipBits ha.1 hp
  rw [discrepancy_eq_zero hflipped, discrepancy_eq_zero ha, zero_add] at hdis
  exact residue_ne_zero hL hnodup hp hcount hdis.symm

theorem flipped_rejected_two : (HostBridge.new (oneDrive 1)).ingest (flipBits [80, 151] (enableFrame 7)) =
    (HostBridge.new (oneDrive 1)).reject :=
  flipped_rejected (by decide) (sealFrame_accepted rfl rfl) (by decide) (by decide) (Or.inl rfl) _

end EcMaster
