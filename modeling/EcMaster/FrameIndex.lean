import EcMaster.Exchange
import EcMaster.Pairing

namespace EcMaster

open Library.Segment Library.LittleEndian

theorem writeDatagram_front (buf : List UInt8) {off i : ℕ} (h : i < off) (index : UInt8) (cmd : Command)
    (adp ado : UInt16) (payload : List UInt8) : (writeDatagram buf off index cmd adp ado payload)[i]? = buf[i]? := by
  simp only [writeDatagram]
  rw [getElem?_overwrite_outside (by omega), getElem?_overwrite_outside (by omega),
    getElem?_overwrite_outside (by omega), getElem?_overwrite_outside (by omega),
    getElem?_overwrite_outside (by omega), getElem?_overwrite_outside (by omega),
    getElem?_overwrite_outside (by omega)]

theorem writeDatagram_index {buf : List UInt8} {off : ℕ} (h : off + 1 < buf.length) (index : UInt8) (cmd : Command)
    (adp ado : UInt16) (payload : List UInt8) :
    (writeDatagram buf off index cmd adp ado payload)[off + 1]? = some index := by
  simp only [writeDatagram]
  rw [getElem?_overwrite_outside (by omega), getElem?_overwrite_outside (by omega),
    getElem?_overwrite_outside (by omega), getElem?_overwrite_outside (by omega),
    getElem?_overwrite_outside (by omega), getElem?_overwrite_outside (by omega),
    getElem?_overwrite_inside (by omega) (by simp) h]
  simp

theorem padFrame_front (buf : List UInt8) {total i : ℕ} (h : i < total) : (padFrame buf total).1[i]? = buf[i]? :=
  getElem?_overwrite_outside (Or.inl h)

theorem build_index {buf : List UInt8} (h : 4 ≤ buf.length) (index : UInt8) (cmd : Command) (adp ado : UInt16)
    (payload : List UInt8) : (build buf index cmd adp ado payload).1[3]? = some index := by
  simp only [build]
  rw [padFrame_front _ (by simp only [ecFrameHeaderSize, ecDatagramHeaderSize]; omega)]
  exact writeDatagram_index (by rw [length_overwrite]; omega) index cmd adp ado payload

theorem le_lastDatagram (buf : List UInt8) (regionEnd fuel off : ℕ) : off ≤ lastDatagram buf regionEnd fuel off := by
  induction fuel generalizing off with
  | zero => exact le_rfl
  | succ fuel ih =>
    rw [lastDatagram]
    split_ifs
    · exact le_rfl
    · exact le_trans (by simp only [ecDatagramHeaderSize, ecDatagramFooterSize]; omega) (ih _)

theorem append_index (buf : List UInt8) (index : UInt8) (cmd : Command) (adp ado : UInt16) (payload : List UInt8) :
    (append buf index cmd adp ado payload).1[3]? = buf[3]? := by
  have hlast := le_lastDatagram buf (ecFrameHeaderSize + (u16Le (slice buf 0 2) &&& 0x07FF).toNat)
    (ecFrameHeaderSize + (u16Le (slice buf 0 2) &&& 0x07FF).toNat) ecFrameHeaderSize
  simp only [append]
  generalize lastDatagram buf _ _ _ = last at hlast ⊢
  simp only [ecFrameHeaderSize] at hlast
  rw [padFrame_front _ (by simp only [ecFrameHeaderSize, ecDatagramHeaderSize]; omega),
    getElem?_overwrite_outside (Or.inr (by simp [length_leBytes])),
    writeDatagram_front _ (by simp only [ecDatagramHeaderSize]; omega), getElem?_overwrite_outside (by omega)]

theorem packed_index {buf : List UInt8} (h : 4 ≤ buf.length) (first : Request) (rest : List Request) :
    (packed buf first rest).1[3]? = some first.index ∧ 4 ≤ (packed buf first rest).2 := by
  induction rest using List.reverseRecOn with
  | nil => exact ⟨build_index h _ _ _ _ _, le_max_of_le_right (by decide)⟩
  | append_singleton rest r ih =>
    rw [packed_concat]
    exact ⟨(append_index _ _ _ _ _ _).trans ih.1, le_max_of_le_right (by decide)⟩

theorem frame_index {cap : ℕ} (h : 4 ≤ cap) (index : UInt8) {request : List Access} (hr : request ≠ []) :
    (Access.frame cap index request)[3]? = some index := by
  obtain ⟨a, as, rfl⟩ := List.exists_cons_of_ne_nil hr
  obtain ⟨hi, hl⟩ := packed_index (show 4 ≤ (List.replicate cap (0 : UInt8)).length by rwa [List.length_replicate]) (a.request index)
    (Access.numbered (index + 1) as)
  rw [Access.frame, List.getElem?_take, if_pos (by omega)]
  exact hi

theorem parseAt_index {frame : List UInt8} {off : ℕ} {p : Reply × ℕ} (h : parseAt frame off = some p) :
    frame[off + 1]? = some p.1.index := by
  rw [parseAt] at h
  split_ifs at h with h₁
  dsimp only at h
  have hlt : off + 1 < frame.length := by
    simp only [ecDatagramHeaderSize, ecDatagramFooterSize] at h₁
    omega
  have hindex : p.1.index = frame.getD (off + 1) 0 := by
    split_ifs at h <;> rw [← Option.some.inj h]
  rw [hindex, List.getD_eq_getElem?_getD, List.getElem?_eq_getElem hlt]
  rfl

theorem Cyclic.sentFrame_index {L : Layout} (c : Cyclic L) (dev : Device) (index : UInt8) :
    (c.send dev index).1.sentFrame[3]? = some index := by
  have hw := c.walk_buildFrame index
  rw [laidOut] at hw
  obtain ⟨fuel, hp, -⟩ := walk_cons hw
  exact parseAt_index hp

end EcMaster
