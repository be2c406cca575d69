import EcMaster.HostComponent
import EcMaster.HostFrames
import EcMaster.ProcessData

namespace EcMaster

open Library.Segment Library.LittleEndian

@[simp] theorem length_putLe (buf : List UInt8) (off : ℕ) (v : UInt32) (n : ℕ) : (putLe buf off v n).length = buf.length := by
  induction n with
  | zero => rfl
  | succ n ih =>
    rw [putLe, List.range_succ, List.foldl_append, List.foldl_cons, List.foldl_nil, List.length_set]
    exact ih

theorem putLe_succ (buf : List UInt8) (off : ℕ) (v : UInt32) (n : ℕ) :
    putLe buf off v (n + 1) = (putLe buf off v n).set (off + n) (v >>> UInt32.ofNat (8 * n)).toUInt8 := by
  rw [putLe, List.range_succ, List.foldl_append]
  rfl

theorem putLe_outside {buf : List UInt8} {off n i : ℕ} (v : UInt32) (h : i < off ∨ off + n ≤ i) :
    (putLe buf off v n)[i]? = buf[i]? := by
  induction n with
  | zero => rfl
  | succ n ih => rw [putLe_succ, List.getElem?_set_ne (by omega), ih (by omega)]

theorem putLe_inside {buf : List UInt8} {off n i : ℕ} (v : UInt32) (hi : i < n) (hl : off + n ≤ buf.length) :
    (putLe buf off v n)[off + i]? = some (v >>> UInt32.ofNat (8 * i)).toUInt8 := by
  induction n with
  | zero => omega
  | succ n ih =>
    rw [putLe_succ]
    rcases Nat.lt_succ_iff_lt_or_eq.mp hi with hi | rfl
    · rw [List.getElem?_set_ne (by omega), ih hi (by omega)]
    · rw [List.getElem?_set_self (by rw [length_putLe]; omega)]

theorem shiftRight_byte {i : ℕ} (hi : i < 4) (v : UInt32) :
    (v >>> UInt32.ofNat (8 * i)).toUInt8 = UInt8.ofNat (v.toNat / 256 ^ i) := by
  apply UInt8.toNat_inj.mp
  interval_cases i <;> simp [Nat.shiftRight_eq_div_pow]

theorem slice_putLe {buf : List UInt8} {off n : ℕ} (v : UInt32) (hn : n ≤ 4) (hl : off + n ≤ buf.length) :
    slice (putLe buf off v n) off n = leBytes n v.toNat := by
  apply List.ext_getElem?
  intro i
  rw [getElem?_slice]
  split_ifs with hi
  · rw [putLe_inside v hi hl, getElem?_leBytes hi, shiftRight_byte (by omega)]
  · rw [List.getElem?_eq_none (by rw [length_leBytes]; omega)]

@[simp] theorem length_serializeOut (hal : Hal) (frame : List UInt8) (p : TeensyPin) (i : ℕ) :
    (serializeOut hal frame p i).length = frame.length := by
  rw [serializeOut]
  cases p.halType <;> simp

theorem serializeOut_before (hal : Hal) (frame : List UInt8) (p : TeensyPin) (k : ℕ) {i : ℕ} (hi : i < p.frameOff) :
    (serializeOut hal frame p k)[i]? = frame[i]? := by
  rw [serializeOut]
  cases p.halType with
  | bit => exact List.getElem?_set_ne (by omega)
  | u32 | s32 => exact putLe_outside _ (Or.inl hi)

namespace HostComponent

variable {L : Layout}

theorem serializePins_header (hal : Hal) (mosi : List UInt8) {i : ℕ} (hi : i < mosiHdr) :
    (serializePins L hal mosi)[i]? = mosi[i]? := by
  have hrows : ∀ p ∈ L.teensyPins.zipIdx, p.1.dir = .output → mosiHdr ≤ p.1.frameOff := by
    intro p hp ho
    obtain ⟨c, -, hc⟩ := List.mem_map.mp (List.fst_mem_of_mem_zipIdx hp)
    rw [← hc] at ho ⊢
    dsimp only at ho ⊢
    rw [if_pos ho]
    exact Nat.le_add_right _ _
  rw [serializePins]
  generalize L.teensyPins.zipIdx = ps at hrows ⊢
  induction ps generalizing mosi with
  | nil => rfl
  | cons p ps ih =>
    rw [List.foldl_cons, ih _ fun q hq => hrows q (List.mem_cons_of_mem _ hq)]
    split_ifs with ho
    · exact serializeOut_before hal mosi p.1 p.2 (lt_of_lt_of_le hi (hrows p List.mem_cons_self ho))
    · rfl

@[simp] theorem length_serializePins (hal : Hal) (mosi : List UInt8) :
    (serializePins L hal mosi).length = mosi.length := by
  rw [serializePins]
  induction L.teensyPins.zipIdx generalizing mosi with
  | nil => rfl
  | cons p ps ih =>
    rw [List.foldl_cons, ih]
    split_ifs
    · exact length_serializeOut _ _ _ _
    · rfl

end HostComponent

end EcMaster
