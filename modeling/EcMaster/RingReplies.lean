import EcMaster.SharedIndex

namespace EcMaster

open Library.Segment

namespace Device

structure Leaves (dev dev' : Device) (index : UInt8) : Prop where
  srcMac : dev'.srcMac = dev.srcMac
  rx : ∃ k ≤ dev.rx.length, dev'.rx = dev.rx.drop k
  wire : dev'.wire = dev.wire ∨ ∃ e : List UInt8, e[17]? = some index ∧ dev'.wire = dev.wire ++ [e]

theorem length_header (dev : Device) (h : dev.srcMac.length = 6) : dev.header.length = 14 := by
  simp [header, h]

theorem header_append (dev : Device) (h : dev.srcMac.length = 6) {frame : List UInt8} {index : UInt8}
    (hf : frame[3]? = some index) (pad : List UInt8) : (dev.header ++ frame ++ pad)[17]? = some index := by
  obtain ⟨hlt, -⟩ := List.getElem?_eq_some_iff.mp hf
  have hl := dev.length_header h
  rw [List.getElem?_append_left (by rw [List.length_append]; omega), List.getElem?_append_right (by omega), hl]
  exact hf

theorem send_cases (dev : Device) (h : dev.srcMac.length = 6) {frame : List UInt8} {index : UInt8}
    (hf : frame[3]? = some index) : dev.send frame = (false, dev) ∨
      ∃ e : List UInt8, e[17]? = some index ∧ dev.send frame = (true, { dev with wire := dev.wire ++ [e] }) := by
  rw [send]
  split_ifs
  · exact Or.inl rfl
  · exact Or.inl rfl
  · exact Or.inr ⟨_, dev.header_append h hf _, rfl⟩

theorem send_taken (dev : Device) (hr : dev.txReady = true) {frame : List UInt8}
    (hl : ethHeaderLen + frame.length ≤ ecatMtu) :
    ∃ pad, dev.send frame = (true, { dev with wire := dev.wire ++ [dev.header ++ frame ++ pad] }) := by
  rw [send, if_neg (by omega), hr, Bool.not_true, if_neg (by decide)]
  exact ⟨_, rfl⟩

theorem ecatPayload_index {outLen : ℕ} {frame : List UInt8} {index : UInt8}
    (h : (ecatPayload outLen (frame.take ecatMtu))[3]? = some index) : frame[17]? = some index := by
  rw [ecatPayload] at h
  split_ifs at h
  · exact absurd h (by simp)
  · exact absurd h (by simp)
  · rw [List.getElem?_take] at h
    split_ifs at h
    rw [List.getElem?_drop, List.getElem?_take, if_pos (by decide)] at h
    exact h

theorem poll_cases (dev : Device) (outLen : ℕ) : dev.rx = [] ∧ dev.poll outLen = (none, dev) ∨
    ∃ r rest o, dev.rx = r :: rest ∧ dev.poll outLen = (o, { dev with rx := rest }) ∧
      ∀ rx index, o = some rx → rx.length ≥ 4 ∧ rx.getD 3 0 = index → r[17]? = some index := by
  rw [poll]
  cases hr : dev.rx with
  | nil => exact Or.inl ⟨rfl, rfl⟩
  | cons r rest =>
    refine Or.inr ⟨r, rest, _, rfl, rfl, ?_⟩
    rintro rx index ho ⟨hl, hi⟩
    split_ifs at ho
    obtain rfl := Option.some.inj ho
    apply ecatPayload_index
    rw [← hi, List.getD_eq_getElem?_getD, List.getElem?_eq_getElem (show 3 < _ by omega)]
    rfl

end Device

namespace Cyclic

variable {L : Layout}

theorem receive_drops (n : ℕ) (c : Cyclic L) (dev : Device) : ∃ k ≤ dev.rx.length,
    (receive n c dev).2 = { dev with rx := dev.rx.drop k } ∧ ∀ reply, matchedReply c.expectedIndex n dev = some reply →
      0 < k ∧ ∃ r, dev.rx[k - 1]? = some r ∧ r[17]? = some c.expectedIndex := by
  induction n generalizing dev with
  | zero => exact ⟨0, Nat.zero_le _, rfl, fun _ h => by cases h⟩
  | succ n ih =>
    rw [receive, matchedReply]
    rcases dev.poll_cases cyclicBuf with ⟨-, hp⟩ | ⟨r, rest, o, hrx, hp, hindex⟩
    · rw [hp]
      exact ⟨0, Nat.zero_le _, rfl, fun _ h => by cases h⟩
    · have hone : ({ dev with rx := rest } : Device) = { dev with rx := dev.rx.drop 1 } := by rw [hrx, List.drop_one]; rfl
      rw [hp, hrx]
      cases o with
      | none => exact ⟨1, by simp, rfl, fun _ h => by cases h⟩
      | some frame =>
        by_cases hm : frame.length ≥ 4 ∧ frame.getD 3 0 = c.expectedIndex
        · refine ⟨1, by simp, by simp only [if_pos hm]; rfl, fun reply _ => ⟨Nat.one_pos, r, rfl, hindex _ _ rfl hm⟩⟩
        · simp only [if_neg hm]
          obtain ⟨k, hk, hd, hmatch⟩ := ih { dev with rx := rest }
          refine ⟨k + 1, Nat.succ_le_succ hk, hd, fun reply hreply => ?_⟩
          obtain ⟨hpos, r', hr', hi⟩ := hmatch reply hreply
          refine ⟨Nat.succ_pos k, r', ?_, hi⟩
          rw [Nat.add_sub_cancel, ← hr', ← Nat.sub_add_cancel hpos, List.getElem?_cons_succ, Nat.add_sub_cancel]

theorem intake_drops (c : Cyclic L) (dev : Device) (latency : UInt32) : ∃ k ≤ dev.rx.length,
    (c.intake dev latency).2 = { dev with rx := dev.rx.drop k } ∧ ∀ reply, c.matched dev = some reply →
      c.outstanding = true ∧ 0 < k ∧ ∃ r, dev.rx[k - 1]? = some r ∧ r[17]? = some c.expectedIndex := by
  have ho : (c.beginTick latency).outstanding = c.outstanding := rfl
  rw [intake, matched]
  cases hout : c.outstanding with
  | false => exact ⟨0, Nat.zero_le _, by simp [ho, hout], by simp⟩
  | true =>
    obtain ⟨k, hk, hd, hm⟩ := receive_drops ecatRxLen (c.beginTick latency) dev
    exact ⟨k, hk, by simpa [ho, hout] using hd, fun reply h => ⟨rfl, hm reply h⟩⟩

theorem appendOpRequest_index (c : Cyclic L) (index : UInt8) :
    (c.appendOpRequest index).2 = index + UInt8.ofNat (c.opRequest index).length := by
  have hslaves : c.seekOp.slaves = c.slaves := rfl
  rw [appendOpRequest, opRequest]
  dsimp only
  rw [hslaves]
  cases c.slaves[c.seekOp.opCursor]? with
  | none => exact (UInt8.add_zero index).symm
  | some s =>
    dsimp only
    split_ifs <;> rfl

theorem appendMonitor_index (c : Cyclic L) (index : UInt8) :
    (c.appendMonitor index).2 = index + UInt8.ofNat (c.monitor index).length := by
  rw [appendMonitor, monitor]
  split_ifs
  · cases c.slaves.head? with
    | none => exact (UInt8.add_zero index).symm
    | some s => rfl
  · rfl

theorem buildFrame_index (c : Cyclic L) (index : UInt8) :
    (c.buildFrame index).2 = index + UInt8.ofNat (1 + (c.buildFrame index).1.appended.length) := by
  have hphase : (c.startFrame index).phase = c.phase := rfl
  rw [(c.buildFrame_builds index).appended, List.length_map, buildFrame, appendix, hphase, UInt8.ofNat_add,
    ← UInt8.add_assoc]
  cases c.phase with
  | priming | faulted => exact (UInt8.add_zero _).symm
  | requestingOp => exact (c.startFrame index).appendOpRequest_index (index + 1)
  | operational => exact (c.startFrame index).appendMonitor_index (index + 1)

theorem send_eq (c : Cyclic L) (dev : Device) (index : UInt8) : c.send dev index =
    ({ (c.buildFrame index).1 with outstanding := (dev.send (c.buildFrame index).1.sentFrame).1 },
      (dev.send (c.buildFrame index).1.sentFrame).2, (c.buildFrame index).2) := rfl

theorem engineTick_eq (c : Cyclic L) (e : EngineTick L) :
    ∃ d : Cyclic L, engineTick c e = d.send (c.intake e.dev e.latency).2 e.index := by
  rcases e with ⟨dev, index, latency, _ | host⟩
  · exact ⟨c.received dev latency, rfl⟩
  · exact ⟨((c.received dev latency).control host).cyclic, rfl⟩

end Cyclic

end EcMaster
