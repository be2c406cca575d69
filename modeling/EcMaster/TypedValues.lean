import EcMaster.Library.LittleEndian
import EcMaster.Numerals

namespace EcMaster.Cli

open Library.LittleEndian

namespace SdoType

def isSigned (ty : SdoType) : Prop := ty.code = 0x0002 ∨ ty.code = 0x0003 ∨ ty.code = 0x0004

instance (ty : SdoType) : Decidable ty.isSigned := by
  unfold isSigned
  infer_instance

/-- The numbers of a type: a truth value, two's complement, or from zero on. -/
def Represents (ty : SdoType) (n : ℤ) : Prop :=
  if ty.name = "bool" then 0 ≤ n ∧ n ≤ 1
  else if ty.isSigned then -2 ^ (8 * ty.size.toNat - 1) ≤ n ∧ n < 2 ^ (8 * ty.size.toNat - 1)
  else 0 ≤ n ∧ n < 2 ^ (8 * ty.size.toNat)

end SdoType

theorem map_fits {f : ℕ → ℤ} {g : ℕ → Int64} (hf : ∀ n, (f n).natAbs = n) (hg : ∀ n, g n = Int64.ofInt (f n))
    (o : Option ℕ) : (o.filter (· < 2 ^ 64)).map g =
      ((o.map f).filter fun n => n.natAbs < 2 ^ 64).map Int64.ofInt := by
  cases o with
  | none => rfl
  | some n =>
    by_cases hn : n < 2 ^ 64
    · have hfit : (some (f n)).filter (fun n => n.natAbs < 2 ^ 64) = some (f n) := if_pos (decide_eq_true (by rwa [hf]))
      rw [filter_fits hn, Option.map_some, Option.map_some, hfit, hg]
      rfl
    · have hbig : (some (f n)).filter (fun n => n.natAbs < 2 ^ 64) = none :=
        if_neg fun h => hn (by simpa only [hf] using of_decide_eq_true h)
      rw [filter_big hn, Option.map_some, hbig]
      rfl

theorem parseInt_eq (s : Text) : parseInt s = ((signed s).filter fun n => n.natAbs < 2 ^ 64).map Int64.ofInt := by
  rw [parseInt, signed]
  cases stripPrefix "-".toList (trim s) with
  | some rest =>
    dsimp only
    rw [parseUint_eq]
    refine map_fits (fun n => ?_) (fun n => ?_) _
    · rw [Int.natAbs_neg, Int.natAbs_natCast]
    · rw [Int64.ofInt_neg]
      rfl
  | none =>
    dsimp only
    rw [parseUint_eq]
    exact map_fits Int.natAbs_natCast (fun n => rfl) _

theorem utf8Len_append (s t : Text) : utf8Len (s ++ t) = utf8Len s + utf8Len t := by
  rw [utf8Len, List.map_append, List.sum_append]
  rfl

theorem writePieces_eq {cap : ℕ} {s : Text} {ps : List Text} (h : utf8Len (s ++ ps.flatten) ≤ cap) :
    writePieces cap s ps = s ++ ps.flatten := by
  induction ps generalizing s with
  | nil => exact (List.append_nil s).symm
  | cons p ps ih =>
    rw [List.flatten_cons, ← List.append_assoc] at h ⊢
    have hp : utf8Len (s ++ p) ≤ cap := by
      rw [utf8Len_append (s ++ p)] at h
      omega
    rw [writePieces, if_pos hp, ih h]

theorem rawValue_toNat {data : List UInt8} {size : ℕ} (hs : size ≤ 4) (hd : size ≤ data.length) :
    (rawValue data size).toNat = leNat (data.take size) := by
  induction size with
  | zero => rfl
  | succ n ih =>
    have hprev := ih (by omega) (by omega)
    have hshift : (UInt32.ofNat (8 * n)).toNat % 32 = 8 * n := by
      rw [UInt32.toNat_ofNat']
      omega
    have hbyte : ((data.getD n 0).toUInt32 <<< UInt32.ofNat (8 * n)).toNat =
        2 ^ (8 * (data.take n).length) * data[n].toNat := by
      have hlt := data[n].toNat_lt
      have hpow : 2 ^ (8 * n) * data[n].toNat < 2 ^ 32 := by
        calc 2 ^ (8 * n) * data[n].toNat < 2 ^ (8 * n) * 2 ^ 8 := Nat.mul_lt_mul_of_pos_left hlt (Nat.two_pow_pos _)
          _ = 2 ^ (8 * n + 8) := (pow_add 2 _ _).symm
          _ ≤ 2 ^ 32 := Nat.pow_le_pow_right (by decide) (by omega)
      rw [UInt32.toNat_shiftLeft, hshift, Nat.shiftLeft_eq, UInt8.toNat_toUInt32, List.getD_eq_getElem _ _ (by omega),
        Nat.mul_comm, Nat.mod_eq_of_lt hpow, List.length_take, min_eq_left (by omega)]
    rw [rawValue] at hprev ⊢
    rw [List.range_succ, List.foldl_append, List.foldl_cons, List.foldl_nil, UInt32.toNat_or, hprev,
      List.take_succ_eq_append_getElem (by omega), ← leNat_or_byte, hbyte]

theorem take_encodeValue {ty : SdoType} {s : Text} {n : ℤ} (hs : ty.size.toNat ≤ 4) (hn : signed s = some n)
    (hfit : n.natAbs < 2 ^ 64) : ∃ data, encodeValue ty s = some (data, ty.size) ∧
      data.take ty.size.toNat = leBytes ty.size.toNat (n % 2 ^ 64).toNat := by
  have hint : parseInt s = some (Int64.ofInt n) := by
    rw [parseInt_eq, hn]
    exact congrArg _ (if_pos (decide_eq_true hfit))
  have hword : (Int64.ofInt n).toUInt64.toNat = (n % 2 ^ 64).toNat := BitVec.toNat_ofInt n
  refine ⟨_, by rw [encodeValue, hint]; rfl, ?_⟩
  apply List.ext_getElem?
  intro i
  rw [hword, List.getElem?_take]
  split_ifs with hi
  · rw [List.getElem?_map, List.getElem?_range (by omega), Option.map_some, if_pos hi, getElem?_leBytes hi,
      show 256 ^ i = 2 ^ (8 * i) by rw [pow_mul]; rfl]
  · rw [List.getElem?_eq_none (by rw [length_leBytes]; omega)]

theorem signExtend_toInt {raw : UInt32} {size : UInt8} (hs : size = 1 ∨ size = 2 ∨ size = 4)
    (hraw : raw.toNat < 256 ^ size.toNat) : (signExtend raw size).toInt =
      if 2 * raw.toNat < 256 ^ size.toNat then (raw.toNat : ℤ) else raw.toNat - 256 ^ size.toNat := by
  rcases hs with rfl | rfl | rfl
  · have hbyte : raw.toUInt8.toNat = raw.toNat := by
      rw [UInt32.toNat_toUInt8]
      exact Nat.mod_eq_of_lt hraw
    change raw.toUInt8.toInt8.toInt32.toInt = _
    rw [Int8.toInt_toInt32, ← hbyte]
    exact BitVec.toInt_eq_toNat_cond raw.toUInt8.toBitVec
  · have hword : raw.toUInt16.toNat = raw.toNat := by
      rw [UInt32.toNat_toUInt16]
      exact Nat.mod_eq_of_lt hraw
    change raw.toUInt16.toInt16.toInt32.toInt = _
    rw [Int16.toInt_toInt32, ← hword]
    exact BitVec.toInt_eq_toNat_cond raw.toUInt16.toBitVec
  · exact BitVec.toInt_eq_toNat_cond raw.toBitVec

def shown (ty : SdoType) (raw : UInt32) : ℤ := if ty.isSigned then (signExtend raw ty.size).toInt else raw.toNat

theorem size_of_mem {ty : SdoType} (hty : ty ∈ types) : ty.size = 1 ∨ ty.size = 2 ∨ ty.size = 4 := by
  revert ty
  decide

theorem not_signed_of_bool {ty : SdoType} (hty : ty ∈ types) (hname : ty.name = "bool") : ¬ ty.isSigned := by
  revert ty
  decide

theorem shown_eq {ty : SdoType} (hty : ty ∈ types) {n : ℤ} (hn : ty.Represents n) {raw : UInt32}
    (hraw : (raw.toNat : ℤ) = n % 256 ^ ty.size.toNat) : shown ty raw = n := by
  have hsize := size_of_mem hty
  have hpos : 0 < ty.size.toNat := by
    rcases hsize with h | h | h <;> rw [h] <;> decide
  have hpow : (256 : ℤ) ^ ty.size.toNat = 2 ^ (8 * ty.size.toNat) := by
    rw [pow_mul]
    norm_num
  have hhalf : (256 : ℤ) ^ ty.size.toNat = 2 * 2 ^ (8 * ty.size.toNat - 1) := by
    rw [hpow, ← pow_succ']
    congr 1
    omega
  have hlarge : (256 : ℤ) ≤ 256 ^ ty.size.toNat := le_self_pow₀ (by norm_num) hpos.ne'
  have hlt : raw.toNat < 256 ^ ty.size.toNat := by
    have hmod := Int.emod_lt_of_pos n (hlarge.trans_lt' (by norm_num))
    rw [← hraw] at hmod
    exact_mod_cast hmod
  rw [SdoType.Represents] at hn
  rw [shown]
  by_cases hbool : ty.name = "bool"
  · rw [if_pos hbool] at hn
    rw [if_neg (not_signed_of_bool hty hbool), hraw]
    exact Int.emod_eq_of_lt hn.1 (by omega)
  rw [if_neg hbool] at hn
  by_cases hs : ty.isSigned
  · rw [if_pos hs] at hn ⊢
    have hcast : 2 * raw.toNat < 256 ^ ty.size.toNat ↔ 2 * (raw.toNat : ℤ) < 256 ^ ty.size.toNat := by
      exact_mod_cast Iff.rfl
    rw [signExtend_toInt hsize hlt]
    rcases le_or_gt 0 n with hsign | hsign
    · rw [Int.emod_eq_of_lt hsign (by omega)] at hraw
      rw [if_pos (hcast.mpr (by omega)), hraw]
    · have hshift : n % 256 ^ ty.size.toNat = n + 256 ^ ty.size.toNat := by
        rw [← Int.add_emod_right, Int.emod_eq_of_lt (by omega) (by omega)]
      rw [hshift] at hraw
      rw [if_neg (fun h => by have := hcast.mp h; omega), hraw, add_sub_cancel_right]
  · rw [if_neg hs] at hn ⊢
    rw [hraw, Int.emod_eq_of_lt hn.1 (by rw [hpow]; exact hn.2)]

def Shows (text : Text) (n : ℤ) : Prop := ∃ hex, ' ' ∉ hex ∧ text = hex ++ ' ' :: (toString n).toList

def Printed (c : Char) : Prop := c ≠ ' ' ∧ c.utf8Size = 1

theorem printed_digitChar {d : ℕ} (hd : d < 16) : Printed (Nat.digitChar d) := by
  rw [Printed]
  interval_cases d <;> decide

theorem printed_toDigits {b : ℕ} (hb : 1 < b) (hb' : b ≤ 16) (n : ℕ) : ∀ c ∈ Nat.toDigits b n, Printed c := by
  induction n using Nat.strong_induction_on with
  | _ n ih =>
    rw [Nat.toDigits_eq_if hb]
    split_ifs with hn
    · intro c hc
      rw [List.mem_singleton.mp hc]
      exact printed_digitChar (hn.trans_le hb')
    · intro c hc
      obtain hc | hc := List.mem_append.mp hc
      · exact ih (n / b) (Nat.div_lt_self (by omega) hb) c hc
      · rw [List.mem_singleton.mp hc]
        exact printed_digitChar ((Nat.mod_lt n (by omega)).trans_le hb')

theorem utf8Len_of_printed {s : Text} (h : ∀ c ∈ s, Printed c) : utf8Len s = s.length := by
  rw [utf8Len, List.map_congr_left fun c hc => (h c hc).2, List.map_const', List.sum_replicate, smul_eq_mul, mul_one]

theorem flatten_decimalPieces (n : ℤ) : (decimalPieces n).flatten = (toString n).toList := by
  rw [decimalPieces]
  cases n with
  | ofNat m =>
    have hsign : ¬ Int.ofNat m < 0 := Int.not_lt.mpr (Int.natCast_nonneg m)
    rw [if_neg hsign]
    change Nat.toDigits 10 m ++ [] = (Nat.repr m).toList
    rw [List.append_nil, Nat.toList_repr]
  | negSucc m =>
    rw [if_pos (Int.negSucc_lt_zero m)]
    change '-' :: (Nat.toDigits 10 (m + 1) ++ []) = ("-" ++ Nat.repr (m + 1)).toList
    rw [List.append_nil, String.toList_append, Nat.toList_repr]
    rfl

theorem printed_decimalPieces (n : ℤ) : ∀ c ∈ (decimalPieces n).flatten, Printed c := by
  intro c hc
  rw [decimalPieces, List.flatten_append, List.mem_append] at hc
  obtain hc | hc := hc
  · split_ifs at hc
    · rw [List.mem_singleton.mp hc]
      exact ⟨by decide, by decide⟩
    · exact absurd hc List.not_mem_nil
  · rw [List.flatten_singleton] at hc
    exact printed_toDigits (by decide) (by decide) _ c hc

theorem length_decimalPieces {n : ℤ} (h : n.natAbs < 10 ^ 10) : (decimalPieces n).flatten.length ≤ 11 := by
  have hdigits := (Nat.length_toDigits_le_iff (b := 10) (k := 10) (by decide) (by decide)).mpr h
  rw [decimalPieces, List.flatten_append, List.length_append]
  split_ifs
  · simp only [List.flatten_cons, List.flatten_nil, List.append_nil, List.length_singleton]
    omega
  · simp only [List.flatten_cons, List.flatten_nil, List.append_nil, List.length_nil]
    omega

theorem printed_hexPieces (width n : ℕ) : ∀ c ∈ (hexPieces width n).flatten, Printed c := by
  intro c hc
  rw [hexPieces, List.flatten_append, List.mem_append] at hc
  obtain hc | hc := hc
  · obtain ⟨p, hp, hc⟩ := List.mem_flatten.mp hc
    rw [List.eq_of_mem_replicate hp] at hc
    rw [List.mem_singleton.mp hc]
    exact ⟨by decide, by decide⟩
  · rw [List.flatten_singleton] at hc
    exact printed_toDigits (by decide) (by decide) _ c hc

theorem length_hexPieces {width n : ℕ} (hw : width ≤ 8) (h : n < 16 ^ 8) : (hexPieces width n).flatten.length ≤ 8 := by
  have hdigits := (Nat.length_toDigits_le_iff (b := 16) (k := 8) (by decide) (by decide)).mpr h
  rw [hexPieces, List.flatten_append, List.length_append, List.length_flatten, List.map_replicate, List.sum_replicate]
  simp only [List.flatten_cons, List.flatten_nil, List.append_nil, List.length_singleton, smul_eq_mul, mul_one]
  omega

theorem shown_natAbs (ty : SdoType) (raw : UInt32) : (shown ty raw).natAbs < 10 ^ 10 := by
  have hraw := raw.toNat_lt
  have hlow := (signExtend raw ty.size).le_toInt
  have hhigh := (signExtend raw ty.size).toInt_lt
  rw [shown]
  split_ifs <;> omega

theorem formatValue_shows {ty : SdoType} (hty : ty ∈ types) {data : List UInt8} (hd : data.length = ty.size.toNat) :
    Shows (formatValue (some ty) data) (shown ty (rawValue data ty.size.toNat)) := by
  have hwidth : ty.size.toNat * 2 ≤ 8 := by
    rcases size_of_mem hty with h | h | h <;> rw [h] <;> decide
  generalize hraw : rawValue data ty.size.toNat = raw
  have hlt : raw.toNat < 16 ^ 8 := raw.toNat_lt
  have hpieces : ("0x".toList :: hexPieces (ty.size.toNat * 2) raw.toNat ++ [' '] :: decimalPieces (shown ty raw)).flatten =
      "0x".toList ++ (hexPieces (ty.size.toNat * 2) raw.toNat).flatten ++ ' ' :: (decimalPieces (shown ty raw)).flatten := by
    rw [List.flatten_append, List.flatten_cons, List.flatten_cons]
    rfl
  have hfit : utf8Len ([] ++ ("0x".toList :: hexPieces (ty.size.toNat * 2) raw.toNat ++
      [' '] :: decimalPieces (shown ty raw)).flatten) ≤ formatCap := by
    have hhex := length_hexPieces hwidth hlt
    have hdecimal := length_decimalPieces (shown_natAbs ty raw)
    have hblank : utf8Len (' ' :: (decimalPieces (shown ty raw)).flatten) =
        1 + utf8Len (decimalPieces (shown ty raw)).flatten := rfl
    rw [List.nil_append, hpieces, utf8Len_append, utf8Len_append, hblank, utf8Len_of_printed (printed_hexPieces _ _),
      utf8Len_of_printed (printed_decimalPieces _), show utf8Len "0x".toList = 2 from rfl, formatCap]
    omega
  refine ⟨"0x".toList ++ (hexPieces (ty.size.toNat * 2) raw.toNat).flatten, ?_, ?_⟩
  · rw [List.mem_append]
    rintro (h | h)
    · exact absurd h (by decide)
    · exact (printed_hexPieces _ _ _ h).1 rfl
  · rw [formatValue, hd, min_self, hraw, ← flatten_decimalPieces]
    exact (writePieces_eq hfit).trans hpieces

/-- A value text is taken exactly when its number is one of the type, and its bytes are shown as that number. -/
structure Exact (ty : SdoType) (s : Text) : Prop where
  taken : (encodeValue ty s).isSome ↔ ∃ n, signed s = some n ∧ ty.Represents n
  shows : ∀ n data len, signed s = some n → encodeValue ty s = some (data, len) →
    Shows (formatValue (some ty) (data.take len.toNat)) n

theorem represents_bound {ty : SdoType} (hsize : ty.size.toNat ≤ 4) {n : ℤ} (hn : ty.Represents n) : n.natAbs < 2 ^ 64 := by
  have hpow : (2 : ℤ) ^ (8 * ty.size.toNat) ≤ 2 ^ 32 := pow_le_pow_right₀ (by norm_num) (by omega)
  have hhalf : (2 : ℤ) ^ (8 * ty.size.toNat - 1) ≤ 2 ^ 32 := pow_le_pow_right₀ (by norm_num) (by omega)
  rw [SdoType.Represents] at hn
  split_ifs at hn <;> omega

theorem encodeValue_none {ty : SdoType} {s : Text} (h : ∀ n, signed s = some n → 2 ^ 64 ≤ n.natAbs) :
    encodeValue ty s = none := by
  have hint : parseInt s = none := by
    rw [parseInt_eq]
    cases hs : signed s with
    | none => rfl
    | some n => exact congrArg _ (if_neg fun hfit => absurd (of_decide_eq_true hfit) (Nat.not_lt.mpr (h n hs)))
  rw [encodeValue, hint]
  rfl

theorem encodeValue_shows {ty : SdoType} (hty : ty ∈ types) (hsize : ty.size.toNat ≤ 4) {s : Text} {n : ℤ}
    (hn : signed s = some n) (hr : ty.Represents n) {data : List UInt8} {len : UInt8}
    (hdata : encodeValue ty s = some (data, len)) : Shows (formatValue (some ty) (data.take len.toNat)) n := by
  obtain ⟨bytes, hbytes, htake⟩ := take_encodeValue hsize hn (represents_bound hsize hr)
  obtain ⟨rfl, rfl⟩ := Prod.mk.inj (Option.some.inj (hdata.symm.trans hbytes))
  have hraw : ((rawValue (data.take ty.size.toNat) ty.size.toNat).toNat : ℤ) = n % 256 ^ ty.size.toNat := by
    have hdvd : (256 : ℤ) ^ ty.size.toNat ∣ 2 ^ 64 := by
      rw [show (2 : ℤ) ^ 64 = 256 ^ 8 by norm_num]
      exact pow_dvd_pow 256 (by omega)
    rw [htake, rawValue_toNat hsize (by rw [length_leBytes]), List.take_of_length_le (by rw [length_leBytes]),
      leNat_leBytes, Int.natCast_emod, Int.toNat_of_nonneg (Int.emod_nonneg _ (by norm_num)), Nat.cast_pow]
    exact Int.emod_emod_of_dvd n hdvd
  rw [← shown_eq hty hr hraw]
  exact formatValue_shows hty (by rw [htake, length_leBytes])

/-- Values are exact for a text whose number, if it is one, is of the type or does not fit 64 bits. -/
theorem values_exact_iff {ty : SdoType} (hty : ty ∈ types) (s : Text) :
    Exact ty s ↔ ∀ n, signed s = some n → ty.Represents n ∨ 2 ^ 64 ≤ n.natAbs := by
  have hsize : ty.size.toNat ≤ 4 := by
    rcases size_of_mem hty with h | h | h <;> rw [h] <;> decide
  constructor
  · intro he n hn
    by_cases hfit : n.natAbs < 2 ^ 64
    · obtain ⟨data, hdata, -⟩ := take_encodeValue hsize hn hfit
      obtain ⟨n', hn', hr⟩ := he.taken.mp (by rw [hdata]; rfl)
      obtain rfl := Option.some.inj (hn.symm.trans hn')
      exact Or.inl hr
    · exact Or.inr (Nat.not_lt.mp hfit)
  · intro hall
    refine ⟨⟨fun htaken => ?_, ?_⟩, fun n data len hn hdata => ?_⟩
    · by_contra hno
      have hbig : ∀ n, signed s = some n → 2 ^ 64 ≤ n.natAbs :=
        fun n hn => (hall n hn).resolve_left fun hr => hno ⟨n, hn, hr⟩
      rw [encodeValue_none hbig] at htaken
      exact absurd htaken Bool.false_ne_true
    · rintro ⟨n, hn, hr⟩
      obtain ⟨data, hdata, -⟩ := take_encodeValue hsize hn (represents_bound hsize hr)
      rw [hdata]
      rfl
    · obtain hr | hbig := hall n hn
      · exact encodeValue_shows hty hsize hn hr hdata
      · have hnone : encodeValue ty s = none := encodeValue_none fun n' hn' => by
          obtain rfl := Option.some.inj (hn.symm.trans hn')
          exact hbig
        exact absurd (hnone.symm.trans hdata) nofun

theorem values_exact_low : Exact ⟨"int16", 0x0003, 2⟩ "-0x8000".toList ↔ ∀ n, signed "-0x8000".toList = some n →
    SdoType.Represents ⟨"int16", 0x0003, 2⟩ n ∨ 2 ^ 64 ≤ n.natAbs :=
  values_exact_iff (by decide) _

theorem value_reduced : ¬ Exact ⟨"uint8", 0x0005, 1⟩ "300".toList := by
  intro he
  obtain ⟨n, hn, hr⟩ := he.taken.mp (by decide +kernel)
  have hnumber : signed "300".toList = some 300 := by decide +kernel
  obtain rfl := Option.some.inj (hnumber.symm.trans hn)
  exact absurd hr (by rw [SdoType.Represents]; decide)

end EcMaster.Cli
