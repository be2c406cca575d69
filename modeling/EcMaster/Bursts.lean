import EcMaster.CrcErrors

namespace EcMaster

open Library.Segment Library.LittleEndian Library.ShiftRegister

def wirePlace (wire : ℕ) : ℕ := 8 * (wire / 8) + (7 - wire % 8)

def burstPlaces (start : ℕ) (pattern : UInt16) : List ℕ :=
  ((List.range 16).filter pattern.toNat.testBit).map fun b => wirePlace (start + (15 - b))

def burst (start : ℕ) (pattern : UInt16) (bytes : List UInt8) : List UInt8 := flipBits (burstPlaces start pattern) bytes

def crossings : List ℕ :=
  [0x00012110, 0x00024220, 0x00036330, 0x00048440, 0x0005A550, 0x0006C660, 0x0007E770, 0x0089A100, 0x02359400, 0x08C54000,
    0x118A8000, 0x194FC000]

/-- A burst that begins in the data, ends in the CRC, and is one of these changes. -/
def Crossing (L : Layout) (start : ℕ) (pattern : UInt16) : Prop :=
  ∃ j < 16, start + j = 8 * L.crcPos ∧ pattern.toNat * 2 ^ j ∈ crossings

theorem iterate_shift {a j : ℕ} (h : a * 2 ^ j < 2 ^ 16) :
    crcClock^[j] (Remainder.ofWord (UInt16.ofNat a)) = Remainder.ofWord (UInt16.ofNat (a * 2 ^ j)) := by
  induction j with
  | zero => rw [pow_zero, mul_one, Function.iterate_zero_apply]
  | succ j ih =>
    rw [pow_succ, ← mul_assoc] at h ⊢
    have htop : topBit (UInt16.ofNat (a * 2 ^ j)) = false := by
      rw [topBit, UInt16.toNat_ofNat', Nat.mod_eq_of_lt (by omega)]
      exact Nat.testBit_lt_two_pow (by omega)
    have hshift : UInt16.ofNat (a * 2 ^ j) <<< 1 = UInt16.ofNat (a * 2 ^ j * 2) := by
      apply UInt16.toNat_inj.mp
      rw [UInt16.toNat_shiftLeft, UInt16.toNat_ofNat', UInt16.toNat_ofNat', Nat.shiftLeft_eq,
        show (1 : UInt16).toNat % 16 = 1 from rfl, pow_one, Nat.mod_mul_mod]
    rw [Function.iterate_succ_apply', ih (by omega)]
    change crc16Bit (UInt16.ofNat (a * 2 ^ j)) = UInt16.ofNat (a * 2 ^ j * 2)
    rw [crc16Bit_eq, htop, if_neg Bool.false_ne_true, UInt16.xor_zero, hshift]

theorem crcUnit_iterate {k : ℕ} (hk : k < 16) : crcClock^[k] crcUnit = Remainder.ofWord (UInt16.ofNat (2 ^ k)) := by
  have h := iterate_shift (a := 1) (j := k) (by rw [one_mul]; exact Nat.pow_lt_pow_right (by decide) hk)
  rwa [one_mul] at h

theorem residue_bits (x : ℕ) {n : ℕ} (hn : n ≤ 16) : residue crcClock crcUnit ((List.range n).filter x.testBit) =
    Remainder.ofWord (UInt16.ofNat (x % 2 ^ n)) := by
  induction n with
  | zero =>
    rw [pow_zero, Nat.mod_one]
    rfl
  | succ n ih =>
    have hlow : x % 2 ^ n < 2 ^ n := Nat.mod_lt _ (Nat.two_pow_pos n)
    have hbit : residue crcClock crcUnit ([n].filter x.testBit) =
        Remainder.ofWord (UInt16.ofNat (2 ^ n * (x.testBit n).toNat)) := by
      cases hb : x.testBit n with
      | true =>
        rw [List.filter_cons_of_pos hb, List.filter_nil, residue_cons, residue_nil, add_zero, crcUnit_iterate (by omega),
          Bool.toNat_true, mul_one]
      | false =>
        rw [List.filter_cons_of_neg (by rw [hb]; exact Bool.false_ne_true), List.filter_nil, Bool.toNat_false, mul_zero]
        rfl
    rw [List.range_succ, List.filter_append, residue_append, ih (by omega), hbit, Nat.mod_pow_succ, ← Nat.toNat_testBit,
      add_comm (x % 2 ^ n), add_eq_xor hlow, UInt16.ofNat_xor, Remainder.ofWord_xor, add_comm]

theorem residue_word (w : UInt16) :
    residue crcClock crcUnit ((List.range 16).filter w.toNat.testBit) = Remainder.ofWord w := by
  rw [residue_bits _ le_rfl, Nat.mod_eq_of_lt w.toNat_lt, UInt16.ofNat_toNat]

def crossPlace (m : ℕ) : ℕ := if 16 ≤ m then m else wirePlace (15 - m)

section

variable {L : Layout}

theorem crcPlace_wirePlace {wire : ℕ} (hw : wire < 8 * L.mosiLen) : crcPlace L (wirePlace wire) =
    if wire < 8 * L.crcPos then 8 * L.crcPos + 15 - wire else wirePlace (wire - 8 * L.crcPos) := by
  have hpos : L.crcPos + 2 = L.mosiLen := by
    simp only [Layout.crcPos, Layout.mosiLen, crcLen]
    omega
  rw [crcPlace, wirePlace, wirePlace]
  split_ifs <;> omega

theorem residue_burst_before {start : ℕ} (h : start + 16 ≤ 8 * L.crcPos) (pattern : UInt16) :
    residue crcClock crcUnit ((burstPlaces start pattern).map (crcPlace L)) =
      crcClock^[8 * L.crcPos - start] (Remainder.ofWord pattern) := by
  have hpos : L.crcPos ≤ L.mosiLen := Nat.sub_le _ _
  rw [← residue_word, ← residue_map_add, burstPlaces, List.map_map]
  congr 1
  apply List.map_congr_left
  intro b hb
  have hlt : b < 16 := List.mem_range.mp (List.mem_of_mem_filter hb)
  rw [Function.comp_apply, crcPlace_wirePlace (by omega), if_pos (by omega)]
  omega

theorem residue_burst_across {start j : ℕ} (h : start + j = 8 * L.crcPos) (pattern : UInt16) :
    residue crcClock crcUnit ((burstPlaces start pattern).map (crcPlace L)) =
      residue crcClock crcUnit (((List.range 16).filter pattern.toNat.testBit).map fun b => crossPlace (j + b)) := by
  have hpos : L.crcPos + 2 = L.mosiLen := by
    simp only [Layout.crcPos, Layout.mosiLen, crcLen]
    omega
  rw [burstPlaces, List.map_map]
  congr 1
  apply List.map_congr_left
  intro b hb
  have hlt : b < 16 := List.mem_range.mp (List.mem_of_mem_filter hb)
  rw [Function.comp_apply, crcPlace_wirePlace (by omega), crossPlace]
  split_ifs with hdata hcross hcross
  · omega
  · omega
  · omega
  · congr 1
    omega

end

def swapWord (w : UInt16) : UInt16 := (w <<< 8) ^^^ (w >>> 8)

theorem swapWord_xor (a b : UInt16) : swapWord (a ^^^ b) = swapWord a ^^^ swapWord b := by
  rw [swapWord, swapWord, swapWord, UInt16.shiftLeft_xor, UInt16.shiftRight_xor]
  ac_rfl

def swapBytes : Remainder →+ Remainder := AddMonoidHom.mk' swapWord swapWord_xor

theorem swapBytes_injective : Function.Injective swapBytes := by
  rw [injective_iff_map_eq_zero]
  intro r hr
  have hword : ((show UInt16 from r) <<< 8) ^^^ ((show UInt16 from r) >>> 8) = 0 := hr
  have hval := congrArg UInt16.toNat (UInt16.xor_eq_zero_iff.mp hword)
  rw [UInt16.toNat_shiftLeft, UInt16.toNat_shiftRight, Nat.shiftLeft_eq, Nat.shiftRight_eq_div_pow,
    show (8 : UInt16).toNat % 16 = 8 from rfl] at hval
  have hlt : UInt16.toNat r < 2 ^ 16 := UInt16.toNat_lt r
  apply UInt16.toNat_inj.mp
  change UInt16.toNat r = 0
  have hhigh : UInt16.toNat r % 2 ^ 8 * 2 ^ 8 = UInt16.toNat r / 2 ^ 8 := (Nat.mul_mod_mul_right _ _ _).symm.trans hval
  omega

def mirrored (data : ℕ) : ℕ := UInt16.toNat (swapBytes (crcClock^[16] (Remainder.ofWord (UInt16.ofNat data))))

theorem swapBytes_low {m : ℕ} (hm : m < 16) : swapBytes (crcClock^[crossPlace m] crcUnit) = crcClock^[m] crcUnit := by
  have hswap : ∀ m < 16, swapWord (UInt16.ofNat (2 ^ crossPlace m)) = UInt16.ofNat (2 ^ m) := by decide +kernel
  have hplace : ∀ m < 16, crossPlace m < 16 := by decide
  rw [crcUnit_iterate (hplace m hm), crcUnit_iterate hm]
  exact hswap m hm

theorem swapBytes_across {j : ℕ} (hj : j < 16) (pattern : UInt16) :
    swapBytes (residue crcClock crcUnit (((List.range 16).filter pattern.toNat.testBit).map fun b => crossPlace (j + b))) =
      Remainder.ofWord (UInt16.ofNat (pattern.toNat % 2 ^ (16 - j) * 2 ^ j)) +
        swapBytes (crcClock^[16] (Remainder.ofWord (UInt16.ofNat (pattern.toNat / 2 ^ (16 - j))))) := by
  have hlt := pattern.toNat_lt
  have hpow : 2 ^ (16 - j) * 2 ^ j = 2 ^ 16 := by
    rw [← pow_add, Nat.sub_add_cancel hj.le]
  have hrange : List.range 16 = List.range (16 - j) ++ (List.range j).map fun i => 16 - j + i := by
    rw [← List.range_add, Nat.sub_add_cancel hj.le]
  have hlow : swapBytes (residue crcClock crcUnit
      (((List.range (16 - j)).filter pattern.toNat.testBit).map fun b => crossPlace (j + b))) =
        Remainder.ofWord (UInt16.ofNat (pattern.toNat % 2 ^ (16 - j) * 2 ^ j)) := by
    have hmod : pattern.toNat % 2 ^ (16 - j) * 2 ^ j < 2 ^ 16 := by
      rw [← hpow]
      exact Nat.mul_lt_mul_of_pos_right (Nat.mod_lt _ (Nat.two_pow_pos _)) (Nat.two_pow_pos _)
    rw [← iterate_shift hmod, ← residue_bits _ (Nat.sub_le 16 j), ← residue_map_add]
    refine map_residue _ fun b hb => swapBytes_low ?_
    have := List.mem_range.mp (List.mem_of_mem_filter hb)
    omega
  have hhigh : ((List.range j).map fun i => 16 - j + i).filter pattern.toNat.testBit =
      ((List.range j).filter (pattern.toNat / 2 ^ (16 - j)).testBit).map fun i => 16 - j + i := by
    rw [List.filter_map]
    congr 2
    funext i
    rw [Function.comp_apply, Nat.testBit_div_two_pow, Nat.add_comm]
  have hdata : residue crcClock crcUnit ((((List.range j).filter (pattern.toNat / 2 ^ (16 - j)).testBit).map
      fun i => 16 - j + i).map fun b => crossPlace (j + b)) =
        crcClock^[16] (Remainder.ofWord (UInt16.ofNat (pattern.toNat / 2 ^ (16 - j)))) := by
    have hdiv : pattern.toNat / 2 ^ (16 - j) < 2 ^ j := by
      rw [Nat.div_lt_iff_lt_mul (Nat.two_pow_pos _), mul_comm, hpow]
      exact hlt
    rw [List.map_map, ← Nat.mod_eq_of_lt hdiv, ← residue_bits _ hj.le, Nat.mod_eq_of_lt hdiv, ← residue_map_add]
    congr 1
    apply List.map_congr_left
    intro i _
    rw [Function.comp_apply, crossPlace, if_pos (by omega)]
    omega
  rw [hrange, List.filter_append, List.map_append, residue_append, map_add, hlow, hhigh, hdata]

theorem mirrored_zero : mirrored 0 = 0 := by decide +kernel

theorem mirrored_add {a n : ℕ} (h : a < 2 ^ n) : mirrored (2 ^ n + a) = mirrored (2 ^ n) ^^^ mirrored a := by
  have hxor := add_eq_xor h 1
  rw [mul_one] at hxor
  rw [mirrored, hxor, UInt16.ofNat_xor, Remainder.ofWord_xor, iterate_map_add, map_add]
  exact UInt16.toNat_xor _ _

def columns : List ℕ :=
  [0x2110, 0x4220, 0x8440, 0x0881, 0x3112, 0x6224, 0xC448, 0x8891, 0x3133, 0x6266, 0xC4CC, 0xA989, 0x7303, 0xE606, 0xCC0D]

theorem columns_getD {n : ℕ} (hn : n < 15) : columns.getD n 0 = mirrored (2 ^ n) := by
  have hall : ∀ n < 15, columns.getD n 0 = mirrored (2 ^ n) := by decide +kernel
  exact hall n hn

def onlyCrossings (m : ℕ) : ℕ → ℕ → ℕ → Bool
  | 0, data, crc => crc % m != 0 || crossings.contains (data * 2 ^ 16 + crc)
  | n + 1, data, crc => onlyCrossings m n data crc && onlyCrossings m n (data + 2 ^ n) (crc ^^^ columns.getD n 0)

theorem crossing_of_only {m n data crc a : ℕ} (hn : n ≤ 15) (h : onlyCrossings m n data crc = true) (ha : a < 2 ^ n)
    (hm : (crc ^^^ mirrored a) % m = 0) : (data + a) * 2 ^ 16 + (crc ^^^ mirrored a) ∈ crossings := by
  induction n generalizing data crc a with
  | zero =>
    obtain rfl : a = 0 := Nat.lt_one_iff.mp ha
    rw [mirrored_zero, Nat.xor_zero] at hm ⊢
    rw [onlyCrossings, hm, bne_self_eq_false, Bool.false_or] at h
    exact List.contains_iff_mem.mp h
  | succ n ih =>
    rw [onlyCrossings, Bool.and_eq_true] at h
    by_cases hlow : a < 2 ^ n
    · exact ih (Nat.le_of_succ_le hn) h.1 hlow hm
    · obtain ⟨a, rfl⟩ := Nat.exists_eq_add_of_le (Nat.not_lt.mp hlow)
      have hrest : a < 2 ^ n := by
        rw [pow_succ] at ha
        omega
      rw [mirrored_add hrest, ← columns_getD hn, ← Nat.xor_assoc] at hm ⊢
      rw [← Nat.add_assoc]
      exact ih (Nat.le_of_succ_le hn) h.2 hrest hm

theorem only_crossings : ∀ s < 15, onlyCrossings (2 ^ (s + 1)) s (2 ^ s) (columns.getD s 0) = true := by
  decide +kernel

theorem mirrored_crossing {data j : ℕ} (hpos : 0 < data) (hdata : data < 2 ^ j) (hj : j < 16) (hm : 2 ^ j ∣ mirrored data) :
    data * 2 ^ 16 + mirrored data ∈ crossings := by
  have hlow : 2 ^ Nat.log 2 data ≤ data := Nat.pow_log_le_self 2 hpos.ne'
  have hhigh : data < 2 ^ (Nat.log 2 data + 1) := Nat.lt_pow_succ_log_self Nat.one_lt_two data
  have hlog : Nat.log 2 data < j := (Nat.pow_lt_pow_iff_right Nat.one_lt_two).mp (hlow.trans_lt hdata)
  obtain ⟨a, ha⟩ := Nat.exists_eq_add_of_le hlow
  have hrest : a < 2 ^ Nat.log 2 data := by
    rw [pow_succ] at hhigh
    omega
  have hmirror : mirrored data = columns.getD (Nat.log 2 data) 0 ^^^ mirrored a := by
    rw [columns_getD (by omega), ← mirrored_add hrest, ← ha]
  have hmod := Nat.mod_eq_zero_of_dvd ((pow_dvd_pow 2 hlog).trans hm)
  rw [hmirror] at hmod ⊢
  nth_rewrite 1 [ha]
  exact crossing_of_only (by omega) (only_crossings _ (by omega)) hrest hmod

theorem crossings_mirrored : ∀ x ∈ crossings, x % 2 ^ 16 = mirrored (x / 2 ^ 16) := by decide +kernel

theorem ofNat_add_eq_zero {x : ℕ} (hx : x < 2 ^ 16) (r : Remainder) :
    Remainder.ofWord (UInt16.ofNat x) + r = 0 ↔ x = UInt16.toNat r := by
  have hword : UInt16.toNat (UInt16.ofNat x) = x := UInt16.toNat_ofNat_of_lt hx
  have heq : Remainder.ofWord (UInt16.ofNat x) = r ↔ UInt16.toNat (UInt16.ofNat x) = UInt16.toNat r :=
    UInt16.toNat_inj.symm
  rw [add_eq_zero_iff_eq_neg]
  exact heq.trans (by rw [hword])

theorem residue_across_eq_zero {j : ℕ} (hj : j < 16) {pattern : UInt16} (hp : pattern ≠ 0) :
    residue crcClock crcUnit (((List.range 16).filter pattern.toNat.testBit).map fun b => crossPlace (j + b)) = 0 ↔
      pattern.toNat * 2 ^ j ∈ crossings := by
  have hlt := pattern.toNat_lt
  have hpow : 2 ^ (16 - j) * 2 ^ j = 2 ^ 16 := by
    rw [← pow_add, Nat.sub_add_cancel hj.le]
  have hdata : pattern.toNat * 2 ^ j / 2 ^ 16 = pattern.toNat / 2 ^ (16 - j) := by
    rw [← hpow, Nat.mul_div_mul_right _ _ (Nat.two_pow_pos j)]
  have hcrc : pattern.toNat * 2 ^ j % 2 ^ 16 = pattern.toNat % 2 ^ (16 - j) * 2 ^ j := by
    rw [← hpow, Nat.mul_mod_mul_right]
  have hsplit := Nat.div_add_mod' (pattern.toNat * 2 ^ j) (2 ^ 16)
  rw [← map_eq_zero_iff swapBytes swapBytes_injective, swapBytes_across hj, ← hcrc,
    ofNat_add_eq_zero (Nat.mod_lt _ (by decide))]
  change _ = mirrored (pattern.toNat / 2 ^ (16 - j)) ↔ _
  constructor
  · intro hm
    rw [← hsplit, hdata, hm]
    rcases Nat.eq_zero_or_pos (pattern.toNat / 2 ^ (16 - j)) with hzero | hpos
    · rw [hdata, hm, hzero, mirrored_zero, zero_mul, add_zero] at hsplit
      have hnone := (mul_eq_zero.mp hsplit.symm).resolve_right (Nat.two_pow_pos j).ne'
      exact absurd (UInt16.toNat_inj.mp hnone) hp
    · refine mirrored_crossing hpos ?_ hj (hm ▸ hcrc ▸ Nat.dvd_mul_left _ _)
      rw [Nat.div_lt_iff_lt_mul (Nat.two_pow_pos _), mul_comm, hpow]
      exact hlt
  · intro hm
    rw [crossings_mirrored _ hm, hdata]

theorem slice_flipBit_behind {place off n : ℕ} {bytes : List UInt8} (h : off + n ≤ place / 8) :
    slice (flipBit place bytes) off n = slice bytes off n := by
  apply List.ext_getElem?
  intro i
  rw [slice, slice, List.getElem?_take, List.getElem?_take, List.getElem?_drop, List.getElem?_drop, flipBit,
    List.getElem?_modify]
  split_ifs with hi hplace
  · omega
  · cases bytes[off + i]? <;> rfl
  · rfl

theorem slice_flipBits_behind {places : List ℕ} {off n : ℕ} {bytes : List UInt8} (h : ∀ p ∈ places, off + n ≤ p / 8) :
    slice (flipBits places bytes) off n = slice bytes off n := by
  induction places with
  | nil => rfl
  | cons p places ih =>
    obtain ⟨hp, hps⟩ := List.forall_mem_cons.mp h
    exact (slice_flipBit_behind hp).trans (ih hps)

theorem mem_burstPlaces {start p : ℕ} {pattern : UInt16} (h : p ∈ burstPlaces start pattern) :
    start / 8 ≤ p / 8 ∧ p < 8 * ((start + 15) / 8) + 8 := by
  obtain ⟨b, hb, rfl⟩ := List.mem_map.mp h
  have hlt : b < 16 := List.mem_range.mp (List.mem_of_mem_filter hb)
  rw [wirePlace]
  omega

section

variable {L : Layout} {mosi : List UInt8} {start : ℕ} {pattern : UInt16}

theorem discrepancy_burst (ha : Accepted L mosi) (hs : start + 16 ≤ 8 * L.mosiLen) : discrepancy L (burst start pattern mosi) =
    residue crcClock crcUnit ((burstPlaces start pattern).map (crcPlace L)) := by
  have hplaces : ∀ p ∈ burstPlaces start pattern, p < 8 * L.mosiLen := by
    intro p hp
    have := (mem_burstPlaces hp).2
    omega
  rw [burst, discrepancy_flipBits ha.1 hplaces, discrepancy_eq_zero ha, zero_add]

theorem discrepancy_burst_eq_zero (ha : Accepted L mosi) (hs : start + 16 ≤ 8 * L.mosiLen) (hp : pattern ≠ 0) :
    discrepancy L (burst start pattern mosi) = 0 ↔ Crossing L start pattern := by
  have hpos : L.crcPos + 2 = L.mosiLen := by
    simp only [Layout.crcPos, Layout.mosiLen, crcLen]
    omega
  rw [discrepancy_burst ha hs]
  by_cases hbefore : start + 16 ≤ 8 * L.crcPos
  · have hne : Remainder.ofWord pattern ≠ 0 := hp
    rw [residue_burst_before hbefore, ← iterate_map_zero crcClock (8 * L.crcPos - start),
      (crc16Bit_injective.iterate _).eq_iff]
    refine iff_of_false hne ?_
    rintro ⟨j, hj, hstart, -⟩
    omega
  · obtain ⟨j, hj⟩ := Nat.exists_eq_add_of_le (show start ≤ 8 * L.crcPos by omega)
    have hlt : j < 16 := by omega
    rw [residue_burst_across hj.symm, residue_across_eq_zero hlt hp]
    constructor
    · exact fun hx => ⟨j, hlt, hj.symm, hx⟩
    · rintro ⟨i, -, hi, hx⟩
      obtain rfl : i = j := by omega
      exact hx

theorem accepted_burst (ha : Accepted L mosi) (hs : start + 16 ≤ 8 * L.mosiLen) (hp : pattern ≠ 0) :
    Accepted L (burst start pattern mosi) ↔ Crossing L start pattern := by
  rw [← discrepancy_burst_eq_zero ha hs hp]
  refine ⟨discrepancy_eq_zero, fun hzero => ⟨?_, ?_, ?_⟩⟩
  · rw [burst, length_flipBits]
    exact ha.1
  · obtain ⟨j, hj, hstart, -⟩ := (discrepancy_burst_eq_zero ha hs hp).mp hzero
    have hcrc : 9 ≤ L.crcPos := by
      simp only [Layout.crcPos, Layout.mosiLen, crcLen, mosiHdr, streamHdr]
      omega
    rw [burst, slice_flipBits_behind fun p hp => ?_]
    · exact ha.2.1
    · have := (mem_burstPlaces hp).1
      omega
  · exact add_eq_zero_iff_eq_neg.mp hzero

end

/-- A burst of at most 16 bits is rejected, unless it is one of the twelve that cross from the data into the CRC. -/
theorem burst_rejected_iff {L : Layout} {mosi : List UInt8} (ha : Accepted L mosi) {start : ℕ}
    (hs : start + 16 ≤ 8 * L.mosiLen) {pattern : UInt16} (hp : pattern ≠ 0) (h : HostBridge L) :
    h.ingest (burst start pattern mosi) = h.reject ↔ ¬ Crossing L start pattern := by
  rw [← accepted_burst ha hs hp]
  constructor
  · intro hrej hacc
    have hcount := (HostBridge.ingest_accepted hacc h).crcErrs
    rw [hrej] at hcount
    exact absurd (UInt32.toNat_inj.mpr hcount) (by
      rw [HostBridge.reject, UInt32.toNat_add, show (1 : UInt32).toNat = 1 from rfl]
      have := h.crcErrs.toNat_lt
      omega)
  · exact fun hacc => HostBridge.ingest_rejected hacc h

theorem burst_rejected_across :
    (HostBridge.new (oneDrive 1)).ingest (burst (8 * (oneDrive 1).crcPos - 8) 0x9249 (enableFrame 7)) =
      (HostBridge.new (oneDrive 1)).reject := by
  refine (burst_rejected_iff (sealFrame_accepted rfl rfl) (by decide) (by decide) _).mpr ?_
  rintro ⟨j, -, hj, hx⟩
  obtain rfl : j = 8 := by
    have hpos : 8 ≤ 8 * (oneDrive 1).crcPos := by decide
    omega
  exact absurd hx (by decide)

theorem burst_unseen : ∃ start pattern, Accepted (oneDrive 1) (enableFrame 7) ∧ start + 16 ≤ 8 * (oneDrive 1).mosiLen ∧
    pattern ≠ 0 ∧ burst start pattern (enableFrame 7) ≠ enableFrame 7 ∧
    (HostBridge.new (oneDrive 1)).ingest (burst start pattern (enableFrame 7)) ≠ (HostBridge.new (oneDrive 1)).reject := by
  refine ⟨8 * (oneDrive 1).crcPos - 1, 0x9088, sealFrame_accepted rfl rfl, by decide, by decide, by decide +kernel, fun h => ?_⟩
  have hcount := congrArg HostBridge.crcErrs h
  exact absurd hcount (by decide +kernel)

end EcMaster
