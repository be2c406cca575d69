import EcMaster.HostReport

namespace EcMaster

open Library.Segment Library.LittleEndian

def PinCfg.Shaped (p : PinCfg) : Prop :=
  if p.halType = .bit then p.bitLen = 1
  else p.bitPos = 0 ∧ (p.bitLen = 8 ∨ p.bitLen = 16 ∨ p.bitLen = 24 ∨ p.bitLen = 32)

instance (p : PinCfg) : Decidable p.Shaped := by unfold PinCfg.Shaped; infer_instance

def PinCfg.valueIn (p : PinCfg) (buf : List UInt8) (off : ℕ) : ℤ :=
  match p.halType with
  | .bit => ((buf.getD off 0 >>> UInt8.ofNat p.bitPos) &&& 1).toNat
  | .u32 => leNat (fetch buf off p.nbytes)
  | .s32 => (leNat (fetch buf off p.nbytes) : ℤ).bmod (2 ^ p.bitLen)

def Hal.value (hal : Hal) (p : PinCfg) (k : ℕ) : ℤ :=
  match p.halType with
  | .bit => if hal.bit k then 1 else 0
  | .u32 => (hal.u32 k).toNat
  | .s32 => (hal.s32 k).toInt

def PinCfg.cut (p : PinCfg) (v : ℤ) : ℤ := if p.halType = .s32 then v.bmod (2 ^ p.bitLen) else v % 2 ^ p.bitLen

theorem toInt_sshiftRight_shiftLeft {w k : ℕ} (hk : k < w) (x : BitVec w) :
    ((x <<< k).sshiftRight k).toInt = (x.toNat : ℤ).bmod (2 ^ (w - k)) := by
  have hpow : 2 ^ w = 2 ^ k * 2 ^ (w - k) := by rw [← pow_add, Nat.add_sub_cancel' hk.le]
  have htwo : 2 ∣ 2 ^ (w - k) := dvd_pow_self 2 (by omega)
  rw [BitVec.toInt_sshiftRight, BitVec.toInt_eq_toNat_bmod, BitVec.toNat_shiftLeft, Nat.shiftLeft_eq, Int.natCast_emod,
    Int.emod_bmod, Nat.mul_comm, hpow, Int.natCast_mul, Int.mod_bmod_mul_of_pos _ _ (Nat.two_pow_pos k) htwo,
    Int.shiftRight_eq_div_pow, Int.mul_ediv_cancel_left _ (by positivity)]

theorem signExtend_toInt {bits : ℕ} (h₁ : 1 ≤ bits) (h₂ : bits ≤ 32) (raw : UInt64) :
    (signExtend raw bits).toInt = (raw.toNat : ℤ).bmod (2 ^ bits) := by
  interval_cases bits
  all_goals exact toInt_sshiftRight_shiftLeft (by decide) raw.toBitVec

theorem teensySignExtend_toInt {bits : ℕ} (h : bits = 8 ∨ bits = 16 ∨ bits = 24 ∨ bits = 32) (raw : UInt32) :
    (if 0 < 32 - (bits : ℤ) ∧ 32 - (bits : ℤ) < 32 then
      (raw <<< UInt32.ofNat (32 - (bits : ℤ)).toNat).toInt32 >>> Int32.ofNat (32 - (bits : ℤ)).toNat
    else raw.toInt32).toInt = (raw.toNat : ℤ).bmod (2 ^ bits) := by
  rcases h with rfl | rfl | rfl | rfl
  · exact toInt_sshiftRight_shiftLeft (k := 24) (by decide) raw.toBitVec
  · exact toInt_sshiftRight_shiftLeft (k := 16) (by decide) raw.toBitVec
  · exact toInt_sshiftRight_shiftLeft (k := 8) (by decide) raw.toBitVec
  · exact BitVec.toInt_eq_toNat_bmod raw.toBitVec

theorem bit_toNat {i : ℕ} (hi : i < 8) (b : UInt8) :
    ((b >>> UInt8.ofNat i) &&& 1).toNat = (b.toBitVec.getLsbD i).toNat := by
  have h : ((b >>> UInt8.ofNat i) &&& 1).toNat = b.toNat >>> i % 2 := by
    rw [UInt8.toNat_and, UInt8.toNat_shiftRight, UInt8.toNat_ofNat', Nat.mod_mod_of_dvd _ (by decide),
      Nat.mod_eq_of_lt hi]
    exact Nat.and_one_is_mod _
  rw [h, BitVec.getLsbD, Nat.toNat_testBit, Nat.shiftRight_eq_div_pow]
  rfl

theorem and_one_eq (x : UInt8) : x &&& 1 = 0 ∨ x &&& 1 = 1 := by
  have h : (x &&& 1).toNat = x.toNat % 2 := by
    rw [UInt8.toNat_and]
    exact Nat.and_one_is_mod _
  rcases Nat.mod_two_eq_zero_or_one x.toNat with hx | hx
  · exact Or.inl (UInt8.toNat_inj.mp (h.trans hx))
  · exact Or.inr (UInt8.toNat_inj.mp (h.trans hx))

theorem getLsbD_mask {i j : ℕ} (hi : i < 8) (hj : j < 8) :
    ((1 : UInt8) <<< UInt8.ofNat i).toBitVec.getLsbD j = decide (j = i) := by
  interval_cases i <;> interval_cases j <;> rfl

theorem getLsbD_write {i j : ℕ} (hi : i < 8) (hj : j < 8) (v : Bool) (b : UInt8) :
    (if v then b ||| (1 <<< UInt8.ofNat i) else b &&& ~~~(1 <<< UInt8.ofNat i) : UInt8).toBitVec.getLsbD j =
      if j = i then v else b.toBitVec.getLsbD j := by
  have hm := getLsbD_mask hi hj
  cases v with
  | true => rw [if_pos rfl, UInt8.toBitVec_or, BitVec.getLsbD_or, hm]; split_ifs with h <;> simp [h]
  | false =>
    rw [if_neg (by decide), UInt8.toBitVec_and, UInt8.toBitVec_not, BitVec.getLsbD_and, BitVec.getLsbD_not, hm]
    split_ifs with h <;> simp [h, hj]

theorem toInt64_toInt {raw : UInt64} (h : raw.toNat < 2 ^ 63) : raw.toInt64.toInt = raw.toNat := by
  change raw.toBitVec.toInt = raw.toBitVec.toNat
  apply BitVec.toInt_eq_toNat_of_lt
  rw [UInt64.toNat_toBitVec]
  omega

theorem readRaw_fetch {n : ℕ} (hn : n ≤ 4) (image : List UInt8) (off : ℕ) :
    (readRaw image off n).toNat = leNat (fetch image off n) := by
  induction n with
  | zero => rfl
  | succ n ih =>
    have hr : readRaw image off (n + 1) =
        readRaw image off n ||| ((image.getD (off + n) 0).toUInt64 <<< UInt64.ofNat (8 * n)) := by
      rw [readRaw, List.range_succ, List.foldl_append, List.foldl_cons, List.foldl_nil, List.getD_eq_getElem?_getD]
      cases image[off + n]? with
      | none => simp [readRaw]
      | some b => rfl
    have hshift : ((image.getD (off + n) 0).toUInt64 <<< UInt64.ofNat (8 * n)).toNat =
        2 ^ (8 * n) * (image.getD (off + n) 0).toNat := by
      have hbyte := (image.getD (off + n) 0).toNat_lt
      generalize (image.getD (off + n) 0) = b at hbyte
      have hn : n < 4 := by omega
      interval_cases n <;> simp [Nat.shiftLeft_eq] <;> omega
    have hor := leNat_or_byte (fetch image off n) (image.getD (off + n) 0)
    rw [length_fetch] at hor
    rw [hr, UInt64.toNat_or, ih (by omega), hshift, hor, fetch_succ]

namespace PinCfg

variable {p : PinCfg}

theorem Shaped.lengths (h : p.Shaped) (ht : p.halType ≠ .bit) :
    p.bitPos = 0 ∧ (p.bitLen = 8 ∨ p.bitLen = 16 ∨ p.bitLen = 24 ∨ p.bitLen = 32) := by
  rwa [Shaped, if_neg ht] at h

theorem Shaped.nbytes (h : p.Shaped) (ht : p.halType ≠ .bit) : p.nbytes ≤ 4 ∧ 256 ^ p.nbytes = 2 ^ p.bitLen := by
  obtain ⟨-, hb⟩ := h.lengths ht
  rw [PinCfg.nbytes]
  rcases hb with hb | hb | hb | hb <;> rw [hb] <;> decide

def Sized (p : PinCfg) : Prop := p.halType ≠ .bit → 1 ≤ p.bitLen ∧ p.bitLen ≤ 32

theorem Sized.nbytes (h : p.Sized) (ht : p.halType ≠ .bit) : p.nbytes ≤ 4 := by
  have hl := (h ht).2
  rw [PinCfg.nbytes]
  omega

theorem Shaped.sized (h : p.Shaped) : p.Sized := by
  intro ht
  obtain ⟨-, hl⟩ := h.lengths ht
  omega

theorem readValue_valueIn (h : p.Sized) (image : List UInt8) :
    (readValue image p).toInt = p.valueIn image p.byteOffset := by
  cases ht : p.halType with
  | bit =>
    simp only [readValue, valueIn, ht, List.getD_eq_getElem?_getD]
    cases image[p.byteOffset]? with
    | none => simp
    | some b =>
      simp only [Option.getD_some]
      generalize (b >>> UInt8.ofNat p.bitPos) &&& 1 = x
      have hx := x.toNat_lt
      rw [toInt64_toInt (by rw [UInt8.toNat_toUInt64]; omega), UInt8.toNat_toUInt64]
  | u32 =>
    have hn := h.nbytes (by rw [ht]; decide)
    have hlt := leNat_lt (fetch image p.byteOffset p.nbytes)
    have hpow : 256 ^ p.nbytes ≤ 256 ^ 4 := Nat.pow_le_pow_right (by decide) hn
    rw [length_fetch] at hlt
    simp only [readValue, valueIn, ht]
    rw [toInt64_toInt (by rw [readRaw_fetch hn]; omega), readRaw_fetch hn]
  | s32 =>
    have hne : p.halType ≠ .bit := by rw [ht]; decide
    simp only [readValue, valueIn, ht]
    rw [signExtend_toInt (h hne).1 (h hne).2, readRaw_fetch (h.nbytes hne)]

theorem valueIn_congr {buf buf' : List UInt8} {off off' : ℕ}
    (h : ∀ i < p.width, buf.getD (off + i) 0 = buf'.getD (off' + i) 0) : p.valueIn buf off = p.valueIn buf' off' := by
  cases ht : p.halType with
  | bit =>
    have hb := h 0 (by simp [width, ht])
    simp only [Nat.add_zero] at hb
    simp only [valueIn, ht, hb]
  | u32 | s32 =>
    have hf : fetch buf off p.nbytes = fetch buf' off' p.nbytes :=
      fetch_congr fun i hi => h i (by simpa [width, ht] using hi)
    simp only [valueIn, ht, hf]

end PinCfg

def Layout.teensyPin (L : Layout) (p : PinCfg) : TeensyPin :=
  ⟨if p.dir = .output then mosiHdr + p.byteOffset else misoHdr + (p.byteOffset - L.outBytes), p.bitPos, p.bitLen,
    p.halType, p.dir⟩

section Rows

variable {L : Layout} {p q : PinCfg} {j k : ℕ}

theorem deserialize_value (h : p.Shaped) (hal : Hal) (frame : List UInt8) (k : ℕ) :
    (deserializeIn hal frame (L.teensyPin p) k).value p k = p.valueIn frame (L.teensyPin p).frameOff := by
  cases ht : p.halType with
  | bit =>
    simp only [deserializeIn, Layout.teensyPin, ht, Hal.value, PinCfg.valueIn, Function.update_self]
    generalize frame.getD _ 0 >>> UInt8.ofNat p.bitPos = x
    rcases and_one_eq x with hx | hx <;> rw [hx] <;> rfl
  | u32 =>
    have hn := (h.nbytes (by rw [ht]; decide)).1
    simp only [deserializeIn, Layout.teensyPin, ht, Hal.value, PinCfg.valueIn, Function.update_self]
    exact congrArg Nat.cast (getLe_fetch hn frame _)
  | s32 =>
    have hne : p.halType ≠ .bit := by rw [ht]; decide
    have hv := getLe_fetch (h.nbytes hne).1 frame (L.teensyPin p).frameOff
    simp only [deserializeIn, Layout.teensyPin, ht, Hal.value, PinCfg.valueIn, Function.update_self] at hv ⊢
    rw [teensySignExtend_toInt (h.lengths hne).2, ← hv]
    rfl

theorem deserialize_other (hkj : k ≠ j) (hal : Hal) (frame : List UInt8) (t : TeensyPin) :
    (deserializeIn hal frame t j).value p k = hal.value p k := by
  rw [deserializeIn]
  cases t.halType <;> cases ht : p.halType <;> simp only [Hal.value, ht, Function.update_of_ne hkj]

theorem fetch_putLe {buf : List UInt8} {off n : ℕ} (v : UInt32) (hn : n ≤ 4) (hl : off + n ≤ buf.length) :
    leNat (fetch (putLe buf off v n) off n) = v.toNat % 256 ^ n := by
  rw [fetch_eq_slice (by rwa [length_putLe]), slice_putLe v hn hl, leNat_leBytes]

theorem serialize_value (h : p.Shaped) (hpos : p.bitPos < 8) (hal : Hal) {frame : List UInt8}
    (hl : (L.teensyPin p).frameOff + p.width ≤ frame.length) (k : ℕ) :
    p.valueIn (serializeOut hal frame (L.teensyPin p) k) (L.teensyPin p).frameOff = p.cut (hal.value p k) := by
  generalize hoff : (L.teensyPin p).frameOff = off at hl ⊢
  cases ht : p.halType with
  | bit =>
    have hlen : p.bitLen = 1 := by rwa [PinCfg.Shaped, if_pos ht] at h
    rw [PinCfg.width, if_pos ht] at hl
    have hserial : serializeOut hal frame (L.teensyPin p) k = frame.set off
        (if hal.bit k then frame.getD off 0 ||| (1 <<< UInt8.ofNat p.bitPos)
          else frame.getD off 0 &&& ~~~(1 <<< UInt8.ofNat p.bitPos)) := by
      rw [← hoff]
      simp only [serializeOut, Layout.teensyPin, ht]
    simp only [PinCfg.valueIn, PinCfg.cut, Hal.value, ht]
    rw [hserial, List.getD_eq_getElem?_getD, List.getElem?_set_self (by omega), Option.getD_some, bit_toNat hpos, getLsbD_write hpos hpos, if_pos rfl,
      hlen]
    cases hal.bit k <;> rfl
  | u32 =>
    have hne : p.halType ≠ .bit := by rw [ht]; decide
    obtain ⟨hn, hpow⟩ := h.nbytes hne
    rw [PinCfg.width, if_neg hne] at hl
    have hserial : serializeOut hal frame (L.teensyPin p) k = putLe frame off (hal.u32 k) p.nbytes := by
      rw [← hoff]
      simp only [serializeOut, Layout.teensyPin, ht]
      rfl
    simp only [PinCfg.valueIn, PinCfg.cut, Hal.value, ht]
    rw [hserial, fetch_putLe _ hn hl, hpow]
    simp
  | s32 =>
    have hne : p.halType ≠ .bit := by rw [ht]; decide
    obtain ⟨hn, hpow⟩ := h.nbytes hne
    rw [PinCfg.width, if_neg hne] at hl
    have hserial : serializeOut hal frame (L.teensyPin p) k = putLe frame off (hal.s32 k).toUInt32 p.nbytes := by
      rw [← hoff]
      simp only [serializeOut, Layout.teensyPin, ht]
      rfl
    have hdvd : 2 ^ p.bitLen ∣ 2 ^ 32 := by
      apply pow_dvd_pow
      have := (h.lengths hne).2
      omega
    have hint : (hal.s32 k).toInt = ((hal.s32 k).toUInt32.toNat : ℤ).bmod (2 ^ 32) :=
      BitVec.toInt_eq_toNat_bmod (hal.s32 k).toBitVec
    simp only [PinCfg.valueIn, PinCfg.cut, Hal.value, ht]
    rw [hserial, fetch_putLe _ hn hl, hpow, Int.natCast_emod, Int.emod_bmod, if_pos trivial, hint,
      Int.bmod_bmod_of_dvd hdvd]

theorem serialize_outside (ho : q.dir = .output) (hal : Hal) (frame : List UInt8) (j : ℕ) {i : ℕ}
    (hi : i < mosiHdr + q.byteOffset ∨ mosiHdr + q.byteOffset + q.width ≤ i) :
    (serializeOut hal frame (L.teensyPin q) j)[i]? = frame[i]? := by
  rw [PinCfg.width] at hi
  simp only [serializeOut, Layout.teensyPin, ho, ↓reduceIte]
  cases ht : q.halType with
  | bit =>
    simp only [ht, ↓reduceIte] at hi
    exact List.getElem?_set_ne (by omega)
  | u32 | s32 =>
    simp only [ht, reduceCtorEq, ↓reduceIte] at hi
    exact putLe_outside _ hi

theorem PinCfg.Apart.bytes_or_bits (hp : p.Shaped) (hq : q.Shaped) (hpp : p.bitPos < 8) (hqp : q.bitPos < 8)
    (ha : q.Apart p) :
    (q.byteOffset + q.width ≤ p.byteOffset ∨ p.byteOffset + p.width ≤ q.byteOffset) ∨
      (q.halType = .bit ∧ p.halType = .bit ∧ q.byteOffset = p.byteOffset ∧ q.bitPos ≠ p.bitPos) := by
  simp only [PinCfg.Apart, PinCfg.bitEnd, PinCfg.bitStart, PinCfg.Shaped, PinCfg.width, PinCfg.nbytes] at *
  by_cases hpt : p.halType = .bit <;> by_cases hqt : q.halType = .bit <;>
    simp only [hpt, hqt, ↓reduceIte, true_and, false_and, or_false] at hp hq ⊢ <;> omega

theorem serialize_apart (hp : p.Shaped) (hq : q.Shaped) (hpp : p.bitPos < 8) (hqp : q.bitPos < 8)
    (ho : q.dir = .output) (ha : q.Apart p) (hal : Hal) (frame : List UInt8) (j : ℕ) :
    p.valueIn (serializeOut hal frame (L.teensyPin q) j) (mosiHdr + p.byteOffset) =
      p.valueIn frame (mosiHdr + p.byteOffset) := by
  rcases ha.bytes_or_bits hp hq hpp hqp with hb | ⟨hqt, hpt, hoff, hne⟩
  · apply PinCfg.valueIn_congr
    intro i hi
    rw [List.getD_eq_getElem?_getD, List.getD_eq_getElem?_getD, serialize_outside ho _ _ _ (by omega)]
  · simp only [PinCfg.valueIn, hpt, serializeOut, Layout.teensyPin, hqt, ho, hoff, ↓reduceIte]
    rcases Nat.lt_or_ge (mosiHdr + p.byteOffset) frame.length with hl | hl
    · rw [List.getD_eq_getElem?_getD, List.getElem?_set_self hl, Option.getD_some, bit_toNat hpp, bit_toNat hpp,
        getLsbD_write hqp hpp, if_neg hne.symm]
    · rw [List.set_eq_of_length_le hl]

end Rows

end EcMaster
