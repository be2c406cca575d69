import EcMaster.HostBridge

namespace EcMaster

open Library.Segment Library.LittleEndian

namespace HostBridge

variable {L : Layout}

theorem misoLen_le_frameLen (L : Layout) : L.misoLen ≤ L.frameLen := by
  rw [Layout.frameLen]
  split_ifs <;> omega

@[simp] theorem length_replyHeader (h : HostBridge L) (st : ReplyStatus) :
    (h.replyHeader st).length = misoHdr := by
  simp [replyHeader, misoHdr]

@[simp] theorem length_reply (h : HostBridge L) : h.reply.length = L.misoLen := by
  rw [reply, List.length_take, h.length_stagedIn, min_eq_left (misoLen_le_frameLen L)]

theorem reply_buildReply (h : HostBridge L) (image : List UInt8) (st : ReplyStatus) :
    ∃ f : List UInt8, f.length = L.frameLen ∧
      (∀ i < misoHdr, f[i]? = (replyHeader { h with teensyWdog := h.teensyWdog + 1 } st)[i]?) ∧
      (h.buildReply image st).reply =
        (overwrite f (L.misoLen - crcLen) (leBytes 2 (crc16 (f.take (L.misoLen - crcLen))).toNat)).take
          L.misoLen := by
  refine ⟨replyFrame { h with teensyWdog := h.teensyWdog + 1 } image st, length_replyFrame _ _ _, ?_, rfl⟩
  intro i hi
  have hm : misoHdr ≤ L.misoLen := by simp only [Layout.misoLen]; omega
  have hf := misoLen_le_frameLen L
  have hl := h.length_stagedIn
  rw [replyFrame, getElem?_overwrite_outside (Or.inl hi), getElem?_overwrite_inside (Nat.zero_le _)
    (by simpa using hi) (by rw [length_overwrite]; exact lt_of_lt_of_le hi (hm.trans (hf.trans hl.ge))), Nat.sub_zero]

theorem reply_header (h : HostBridge L) (image : List UInt8) (st : ReplyStatus) {i : ℕ} (hi : i < misoHdr) :
    (h.buildReply image st).reply[i]? =
      (replyHeader { h with teensyWdog := h.teensyWdog + 1 } st)[i]? := by
  obtain ⟨f, -, hf, hr⟩ := reply_buildReply h image st
  have hm : misoHdr + crcLen ≤ L.misoLen := by simp only [Layout.misoLen]; omega
  rw [hr, List.getElem?_take_of_lt (by omega), getElem?_overwrite_outside (Or.inl (by omega)), hf i hi]

theorem reply_crc (h : HostBridge L) (image : List UInt8) (st : ReplyStatus) :
    u16Le (slice (h.buildReply image st).reply (L.misoLen - crcLen) 2) =
      crc16 ((h.buildReply image st).reply.take (L.misoLen - crcLen)) := by
  obtain ⟨f, hl, -, hr⟩ := reply_buildReply h image st
  have hm : crcLen ≤ L.misoLen := by simp only [Layout.misoLen]; omega
  have hle := misoLen_le_frameLen L
  set pos := L.misoLen - crcLen with hpos
  set crc := crc16 (f.take pos) with hcrc
  have hend : pos + 2 = L.misoLen := by simp only [hpos, crcLen] at hm ⊢; omega
  have hself := slice_overwrite_self f (leBytes 2 crc.toNat) pos
    (by rw [length_leBytes]; omega)
  have htake : (overwrite f pos (leBytes 2 crc.toNat)).take pos = f.take pos := by
    apply List.ext_getElem?
    intro i
    rw [List.getElem?_take, List.getElem?_take]
    split_ifs with hi
    · exact getElem?_overwrite_outside (Or.inl hi)
    · rfl
  rw [length_leBytes] at hself
  rw [hr, slice_take hend.le, hself, u16Le_leBytes, List.take_take, min_eq_left (by omega), htake]

theorem slice_reply (h : HostBridge L) (image : List UInt8) (st : ReplyStatus) {off n : ℕ} (hn : off + n ≤ misoHdr) :
    slice (h.buildReply image st).reply off n =
      slice (replyHeader { h with teensyWdog := h.teensyWdog + 1 } st) off n :=
  slice_congr fun _ _ h₂ => reply_header h image st (by omega)

theorem reply_magic (h : HostBridge L) (image : List UInt8) (st : ReplyStatus) :
    u16Le (slice (h.buildReply image st).reply 0 2) = magic := by
  rw [slice_reply h image st (by decide)]
  exact u16Le_leBytes _

theorem reply_wdog (h : HostBridge L) (image : List UInt8) (st : ReplyStatus) :
    u16Le (slice (h.buildReply image st).reply 6 2) = h.teensyWdog + 1 := by
  rw [slice_reply h image st (by decide)]
  exact u16Le_leBytes _

theorem reply_status (h : HostBridge L) (image : List UInt8) (st : ReplyStatus) :
    (h.buildReply image st).reply[3]? = some (statusFlags st) :=
  reply_header h image st (by decide)

theorem reply_wkc (h : HostBridge L) (image : List UInt8) (st : ReplyStatus) :
    (h.buildReply image st).reply[12]? = some st.wkc :=
  reply_header h image st (by decide)

theorem reply_faultFlags (h : HostBridge L) (image : List UInt8) (st : ReplyStatus) :
    (h.buildReply image st).reply[15]? = some st.faultFlags :=
  reply_header h image st (by decide)

theorem reply_depth (h : HostBridge L) (image : List UInt8) (st : ReplyStatus) :
    (h.buildReply image st).reply[16]? = some (UInt8.ofNat (min h.motion.depth 255)) :=
  reply_header h image st (by decide)

theorem reply_cycleIndex (h : HostBridge L) (image : List UInt8) (st : ReplyStatus) :
    u32Le (slice (h.buildReply image st).reply 8 4) = st.cycleIndex := by
  rw [slice_reply h image st (by decide)]
  exact u32Le_leBytes _

theorem fault_of_status (st : ReplyStatus) :
    statusFlags st &&& statusFault = if st.phase = 3 then statusFault else 0 := by
  simp only [statusFlags]
  split_ifs <;> decide

theorem linkUp_of_status (st : ReplyStatus) : statusFlags st &&& statusLink = if st.linkUp then statusLink else 0 := by
  simp only [statusFlags]
  split_ifs <;> decide

theorem reply_inputs (hsize : L.outBytes ≤ L.bus.imageSize) (h : HostBridge L) (image : List UInt8) (st : ReplyStatus)
    {j : ℕ} (hj : j < L.inBytes) :
    (h.buildReply image st).reply.getD (misoHdr + j) 0 = image.getD (L.outBytes + j) 0 := by
  have hoff : L.bus.imageSize - L.inBytes = L.outBytes := by
    rw [Layout.inBytes]
    omega
  have hlen : misoHdr + j < L.misoLen - crcLen := by
    rw [Layout.misoLen]
    omega
  have hframe := misoLen_le_frameLen L
  have hl := h.length_stagedIn
  have hreply : (h.buildReply image st).reply[misoHdr + j]? =
      (replyFrame { h with teensyWdog := h.teensyWdog + 1 } image st)[misoHdr + j]? := by
    rw [reply, List.getElem?_take_of_lt (by omega)]
    exact getElem?_overwrite_outside (Or.inl hlen)
  rw [List.getD_eq_getElem?_getD, List.getD_eq_getElem?_getD, hreply]
  simp only [replyFrame, hoff]
  rcases Nat.lt_or_ge (L.outBytes + j) image.length with hi | hi
  · have hn : (slice image L.outBytes (min L.inBytes (image.length - L.outBytes))).length =
        min L.inBytes (image.length - L.outBytes) := length_slice_of_le (by omega)
    rw [getElem?_overwrite_inside (by omega) (by omega) (by simp only [length_overwrite]; omega), Nat.add_sub_cancel_left,
      getElem?_slice, if_pos (by omega)]
  · rw [getElem?_overwrite_outside (Or.inr (by rw [length_slice]; omega)),
      getElem?_overwrite_outside (Or.inr (by rw [length_replyHeader]; omega)),
      getElem?_overwrite_inside (by omega) (by rw [List.length_replicate]; omega) (by omega), List.getElem?_replicate,
      if_pos (by omega), List.getElem?_eq_none hi]
    rfl

theorem buildReply_frame (h : HostBridge L) (image : List UInt8) (st : ReplyStatus) :
    ∃ f w hf, h.buildReply image st = { h with stagedIn := f, teensyWdog := w, length_stagedIn := hf } :=
  ⟨_, _, _, rfl⟩

end HostBridge

end EcMaster
