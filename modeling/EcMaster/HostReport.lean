import EcMaster.HostReply
import EcMaster.HostSends

namespace EcMaster

open Library.Segment Library.LittleEndian

theorem getLe_fetch {n : ℕ} (hn : n ≤ 4) (buf : List UInt8) (off : ℕ) :
    (getLe buf off n).toNat = leNat (fetch buf off n) := by
  induction n with
  | zero => rfl
  | succ n ih =>
    have hg : getLe buf off (n + 1) =
        getLe buf off n ||| ((buf.getD (off + n) 0).toUInt32 <<< UInt32.ofNat (8 * n)) := by
      rw [getLe, List.range_succ, List.foldl_append]
      rfl
    have hshift : ((buf.getD (off + n) 0).toUInt32 <<< UInt32.ofNat (8 * n)).toNat =
        2 ^ (8 * n) * (buf.getD (off + n) 0).toNat := by
      have hbyte := (buf.getD (off + n) 0).toNat_lt
      generalize (buf.getD (off + n) 0) = b at hbyte
      have hn : n < 4 := by omega
      interval_cases n <;> simp [Nat.shiftLeft_eq] <;> omega
    have hor := leNat_or_byte (fetch buf off n) (buf.getD (off + n) 0)
    rw [length_fetch] at hor
    rw [hg, UInt32.toNat_or, ih (by omega), hshift, hor, fetch_succ]

theorem getLe_toNat {buf : List UInt8} {off n : ℕ} (hn : n ≤ 4) (hl : off + n ≤ buf.length) :
    (getLe buf off n).toNat = leNat (slice buf off n) := by
  rw [getLe_fetch hn, fetch_eq_slice hl]

theorem getLe_word {buf : List UInt8} {off : ℕ} (hl : off + 2 ≤ buf.length) :
    (getLe buf off 2).toUInt16 = u16Le (slice buf off 2) := by
  apply UInt16.toNat_inj.mp
  rw [UInt32.toNat_toUInt16, getLe_toNat (by decide) hl, u16Le, UInt16.toNat_ofNat']

theorem getLe_long {buf : List UInt8} {off : ℕ} (hl : off + 4 ≤ buf.length) :
    getLe buf off 4 = u32Le (slice buf off 4) := by
  have hlt := leNat_lt (slice buf off 4)
  rw [length_slice_of_le hl] at hlt
  apply UInt32.toNat_inj.mp
  rw [getLe_toNat (by decide) hl, u32Le, UInt32.toNat_ofNat']
  omega

def stageTx (L : Layout) (reply : List UInt8) : List UInt8 := overwrite (List.replicate L.frameLen 0) 0 reply

variable {L : Layout}

@[simp] theorem length_stageTx (reply : List UInt8) : (stageTx L reply).length = L.frameLen := by
  rw [stageTx, length_overwrite, List.length_replicate]

theorem getElem?_stageTx {reply : List UInt8} (h : reply.length = L.misoLen) {i : ℕ} (hi : i < L.misoLen) :
    (stageTx L reply)[i]? = reply[i]? := by
  have hle := HostBridge.misoLen_le_frameLen L
  rw [stageTx, overwrite_front _ _ (by rw [h, List.length_replicate]; exact hle),
    List.getElem?_append_left (by rw [h]; exact hi)]

theorem slice_stageTx {reply : List UInt8} (h : reply.length = L.misoLen) {off n : ℕ} (hn : off + n ≤ L.misoLen) :
    slice (stageTx L reply) off n = slice reply off n :=
  slice_congr fun _ _ h₂ => getElem?_stageTx h (by omega)

theorem misoHdr_le (L : Layout) : misoHdr + crcLen ≤ L.misoLen := by
  rw [Layout.misoLen]
  omega

namespace HostComponent

structure Reports (L : Layout) (miso : List UInt8) (cycle : UInt32) (depth : ℕ) : Prop where
  intact : intact L miso = true
  cycle : getLe miso 8 4 = cycle
  depth : (miso.getD 16 0).toNat = depth

theorem stageTx_intact (h : HostBridge L) (image : List UInt8) (st : ReplyStatus) :
    intact L (stageTx L (h.buildReply image st).reply) = true := by
  have hlen : (h.buildReply image st).reply.length = L.misoLen := HostBridge.length_reply _
  have hm := HostBridge.reply_magic h image st
  have hc := HostBridge.reply_crc h image st
  set r := (h.buildReply image st).reply
  have h18 := misoHdr_le L
  have hle := HostBridge.misoLen_le_frameLen L
  simp only [misoHdr, crcLen] at h18 hc
  have htake : (stageTx L r).take (L.misoLen - 2) = r.take (L.misoLen - 2) := by
    rw [← slice_zero, ← slice_zero, slice_stageTx hlen (by omega)]
  rw [HostComponent.intact, getLe_word (by rw [length_stageTx]; omega), getLe_word (by rw [length_stageTx]; omega),
    slice_stageTx hlen (by omega), slice_stageTx hlen (by omega), htake, hm]
  simp [hc]

theorem stageTx_reports (h : HostBridge L) (image : List UInt8) (st : ReplyStatus) :
    Reports L (stageTx L (h.buildReply image st).reply) st.cycleIndex (min h.motion.depth 255) := by
  have hlen : (h.buildReply image st).reply.length = L.misoLen := HostBridge.length_reply _
  have h18 := misoHdr_le L
  have hle := HostBridge.misoLen_le_frameLen L
  simp only [misoHdr, crcLen] at h18
  refine ⟨stageTx_intact h image st, ?_, ?_⟩
  · rw [getLe_long (by rw [length_stageTx]; omega), slice_stageTx hlen (by omega)]
    exact HostBridge.reply_cycleIndex h image st
  · have hd := HostBridge.reply_depth h image st
    rw [List.getD_eq_getElem?_getD, getElem?_stageTx hlen (by omega), hd, Option.getD_some, UInt8.toNat_ofNat']
    omega

theorem zeros_not_intact : intact L (stageTx L (HostBridge.new L).reply) = false := by
  have hf : 2 ≤ L.frameLen := by
    rw [Layout.frameLen, Layout.mosiLen, Layout.misoLen, mosiHdr, misoHdr]
    split_ifs <;> omega
  have hm : 2 ≤ L.misoLen := by
    rw [Layout.misoLen, misoHdr]
    omega
  have hz : slice (stageTx L (HostBridge.new L).reply) 0 2 = [0, 0] := by
    apply List.ext_getElem?
    intro i
    rw [getElem?_slice, stageTx, getElem?_overwrite]
    split_ifs with hi h
    · rw [Nat.zero_add, Nat.sub_zero, HostBridge.reply, List.getElem?_take_of_lt (by omega)]
      change (List.replicate L.frameLen (0 : UInt8))[i]? = _
      rw [List.getElem?_replicate, if_pos (by omega)]
      interval_cases i <;> rfl
    · rw [Nat.zero_add, List.getElem?_replicate, if_pos (by omega)]
      interval_cases i <;> rfl
    · rw [List.getElem?_eq_none (by simp; omega)]
  have hl : (stageTx L (HostBridge.new L).reply).length = L.frameLen := by
    rw [stageTx, length_overwrite, List.length_replicate]
  rw [intact, getLe_word (by omega), hz]
  rfl

theorem receive_reports {miso : List UInt8} {cycle : UInt32} {depth : ℕ} (hr : Reports L miso cycle depth)
    (h : HostComponent) (hal : Hal) :
    ∃ st, (h.receive L hal miso).1 = { h with lastCycleIndex := cycle, lastBufDepth := depth, status := st } := by
  rw [receive, if_neg (by rw [hr.intact]; decide), ← hr.cycle, ← hr.depth]
  exact ⟨_, rfl⟩

theorem receive_broken {miso : List UInt8} (hr : intact L miso = false) (h : HostComponent) (hal : Hal) :
    ∃ st n, (h.receive L hal miso).1 = { h with crcErrors := n, status := st } := by
  rw [receive, if_pos (by rw [hr]; decide)]
  exact ⟨_, _, rfl⟩

end HostComponent

end EcMaster
