import EcMaster.DatagramChain

namespace EcMaster

open Library.Segment Library.LittleEndian

/-- A datagram as `parse_at` finds it, with the words of its header that `parse_at` does not return. -/
structure Walked where
  off : ℕ
  reply : Reply
  adp : UInt16
  ado : UInt16
  more : Bool
  next : ℕ
  deriving DecidableEq

def walkFrom (frame : List UInt8) : ℕ → ℕ → List Walked
  | 0, _ => []
  | fuel + 1, off =>
    match parseAt frame off with
    | none => []
    | some (r, next) =>
      ⟨off, r, u16Le (slice frame (off + 2) 2), u16Le (slice frame (off + 4) 2),
          u16Le (slice frame (off + 6) 2) &&& 0x8000 ≠ 0, next⟩ ::
        if next = 0 then [] else walkFrom frame fuel next

def walk (frame : List UInt8) : List Walked := walkFrom frame frame.length ecFrameHeaderSize

def laidOut : ℕ → List Datagram → List Walked
  | _, [] => []
  | off, d :: ds =>
    ⟨off, ⟨d.command, d.index, 0, d.data⟩, d.adp, d.ado, !ds.isEmpty,
        if ds.isEmpty then 0 else off + (d.data.length + 12)⟩ :: laidOut (off + (d.data.length + 12)) ds

theorem parse_eq (frame : List UInt8) : parse frame = (parseAt frame ecFrameHeaderSize).map Prod.fst := by
  simp only [parse, parseAt, ecFrameHeaderSize, Nat.reduceAdd]
  by_cases hh : frame.length < 2 + ecDatagramHeaderSize + ecDatagramFooterSize
  · simp only [hh, ↓reduceIte, Option.map_none]
  · by_cases hd : frame.length < 2 + ecDatagramHeaderSize + (u16Le (slice frame 8 2) &&& 0x07FF).toNat +
        ecDatagramFooterSize
    · simp only [hh, hd, ↓reduceIte, Option.map_none]
    · simp only [hh, hd, ↓reduceIte, Option.map_some]

theorem length_walkFrom (frame : List UInt8) (fuel off : ℕ) : (walkFrom frame fuel off).length ≤ fuel := by
  induction fuel generalizing off with
  | zero => exact Nat.zero_le _
  | succ n ih =>
    rw [walkFrom]
    split
    · exact Nat.zero_le _
    · rw [List.length_cons]
      split_ifs
      · exact Nat.succ_le_succ (Nat.zero_le _)
      · exact Nat.succ_le_succ (ih _)

theorem walk_cons {frame : List UInt8} {w : Walked} {ws : List Walked} (h : walk frame = w :: ws) :
    ∃ fuel, parseAt frame ecFrameHeaderSize = some (w.reply, w.next) ∧
      ws = if w.next = 0 then [] else walkFrom frame fuel w.next := by
  rw [walk] at h
  cases hn : frame.length with
  | zero =>
    rw [hn] at h
    exact absurd h (by simp [walkFrom])
  | succ n =>
    rw [hn, walkFrom] at h
    cases hp : parseAt frame ecFrameHeaderSize with
    | none =>
      rw [hp] at h
      exact absurd h (by simp)
    | some p =>
      rw [hp] at h
      obtain ⟨rfl, rfl⟩ := List.cons.inj h
      exact ⟨n, rfl, rfl⟩

theorem parse_of_walk {frame : List UInt8} {w : Walked} {ws : List Walked} (h : walk frame = w :: ws) :
    parse frame = some w.reply := by
  obtain ⟨fuel, hp, -⟩ := walk_cons h
  rw [parse_eq, hp, Option.map_some]

theorem walkFrom_bytes (pre post : List UInt8) (d : Datagram) (more : Bool) (hd : d.data.length < 2048)
    (fuel : ℕ) :
    walkFrom (pre ++ (d.bytes more ++ post)) (fuel + 1) pre.length =
      ⟨pre.length, ⟨d.command, d.index, 0, d.data⟩, d.adp, d.ado, more,
          if more then pre.length + (d.data.length + 12) else 0⟩ ::
        if more then walkFrom (pre ++ (d.bytes more ++ post)) fuel (pre.length + (d.data.length + 12)) else [] := by
  have ha : u16Le (slice (pre ++ (d.bytes more ++ post)) (pre.length + 2) 2) = d.adp := by
    rw [slice_append_right]
    exact u16Le_leBytes _
  have ho : u16Le (slice (pre ++ (d.bytes more ++ post)) (pre.length + 4) 2) = d.ado := by
    rw [slice_append_right]
    exact u16Le_leBytes _
  have hl : (pre ++ d.bytes more).length = pre.length + (d.data.length + 12) := by
    rw [List.length_append, Datagram.length_bytes]
  rw [walkFrom, parseAt_bytes pre post d more hd]
  simp only [ha, ho, slice_lengthWord, moreWord_more, hl, Bool.decide_eq_true]
  cases more with
  | false => rfl
  | true =>
    have hne : pre.length + (d.data.length + 12) ≠ 0 := by omega
    simp only [↓reduceIte, hne]

theorem walkFrom_chain (pre post : List UInt8) (ds : List Datagram) (last : Datagram) {fuel : ℕ}
    (hf : ds.length < fuel) (hs : (chain ds last).length < 2048) :
    walkFrom (pre ++ (chain ds last ++ post)) fuel pre.length = laidOut pre.length (ds ++ [last]) := by
  induction ds generalizing pre fuel with
  | nil =>
    obtain ⟨k, rfl⟩ := Nat.exists_eq_succ_of_ne_zero (Nat.ne_of_gt hf)
    have hl : (chain [] last).length = last.data.length + 12 := by simp [chain]
    exact walkFrom_bytes pre post last false (by omega) k
  | cons d ds ih =>
    obtain ⟨k, rfl⟩ := Nat.exists_eq_succ_of_ne_zero (Nat.ne_zero_of_lt hf)
    have hc : (chain (d :: ds) last).length = d.data.length + 12 + (chain ds last).length := by
      simp [chain_cons]
    have hi := ih (pre ++ d.bytes true) (by simpa using hf) (by omega)
    have hp : (pre ++ d.bytes true).length = pre.length + (d.data.length + 12) := by
      rw [List.length_append, Datagram.length_bytes]
    rw [hp] at hi
    rw [chain_cons, List.append_assoc, walkFrom_bytes pre _ d true (by omega), if_pos rfl, if_pos rfl,
      ← List.append_assoc, hi, List.cons_append, laidOut]
    simp

theorem walk_of_front {frame : List UInt8} {ds : List Datagram} {last : Datagram}
    (h : frameBytes ds last <+: frame) (hs : (chain ds last).length < 2048) : walk frame = laidOut 2 (ds ++ [last]) := by
  obtain ⟨rest, rfl⟩ := h
  have hd := length_le_chain ds last
  rw [walk, frameBytes, List.append_assoc]
  exact walkFrom_chain (leBytes 2 (frameHdr (chain ds last).length).toNat) rest ds last (by simp; omega) hs

theorem Encodes.walk {f : List UInt8 × ℕ} {ds : List Datagram} {last : Datagram} (h : Encodes f ds last)
    (hs : (chain ds last).length < 2048) : EcMaster.walk (f.1.take f.2) = laidOut 2 (ds ++ [last]) :=
  walk_of_front h.front hs

end EcMaster
