import EcMaster.RingReplies

namespace EcMaster

namespace Cyclic

variable {L : Layout}

def heard (frame : List UInt8) : List UInt8 := Device.ecatPayload cyclicBuf (frame.take ecatMtu)

def Bears (c : Cyclic L) (frame : List UInt8) : Prop :=
  (heard frame).length ≥ 4 ∧ (heard frame).getD 3 0 = c.expectedIndex

/-- A frame that can be read, with the expected index at its first datagram. -/
def Awaits (c : Cyclic L) (frame : List UInt8) : Prop :=
  c.Bears frame ∧ (parseAt (heard frame) ecFrameHeaderSize).isSome

def Stray (c : Cyclic L) (frame : List UInt8) : Prop := heard frame ≠ [] ∧ ¬ c.Bears frame

instance (c : Cyclic L) (frame : List UInt8) : Decidable (c.Bears frame) := by unfold Bears; infer_instance

instance (c : Cyclic L) (frame : List UInt8) : Decidable (c.Awaits frame) := by unfold Awaits; infer_instance

instance (c : Cyclic L) (frame : List UInt8) : Decidable (c.Stray frame) := by unfold Stray; infer_instance

theorem poll_filtered {dev : Device} {frame : List UInt8} {rest : List (List UInt8)} (hrx : dev.rx = frame :: rest)
    (h : heard frame = []) : dev.poll cyclicBuf = (none, { dev with rx := rest }) := by
  rw [Device.poll, hrx]
  dsimp only
  rw [if_neg]
  change ¬ (heard frame).length > 0
  rw [h]
  exact Nat.lt_irrefl 0

theorem poll_heard {dev : Device} {frame : List UInt8} {rest : List (List UInt8)} (hrx : dev.rx = frame :: rest)
    (h : heard frame ≠ []) : dev.poll cyclicBuf = (some (heard frame), { dev with rx := rest }) := by
  rw [Device.poll, hrx]
  dsimp only
  rw [if_pos]
  · rfl
  · exact List.length_pos_iff.mpr h

theorem Bears.heard_ne_nil {c : Cyclic L} {frame : List UInt8} (h : c.Bears frame) : heard frame ≠ [] := by
  intro he
  have hl := h.1
  rw [he] at hl
  exact absurd hl (by decide)

theorem receive_bears {c : Cyclic L} {dev : Device} {frame : List UInt8} {rest : List (List UInt8)}
    (hrx : dev.rx = frame :: rest) (h : c.Bears frame) (n : ℕ) :
    receive (n + 1) c dev = (c.process (heard frame), { dev with rx := rest }) := by
  rw [receive, poll_heard hrx h.heard_ne_nil]
  exact if_pos h

theorem receive_stray {c : Cyclic L} {dev : Device} {frame : List UInt8} {rest : List (List UInt8)}
    (hrx : dev.rx = frame :: rest) (h : c.Stray frame) (n : ℕ) :
    receive (n + 1) c dev = receive n c { dev with rx := rest } := by
  rw [receive, poll_heard hrx h.1]
  exact if_neg h.2

theorem receive_filtered {c : Cyclic L} {dev : Device} {frame : List UInt8} {rest : List (List UInt8)}
    (hrx : dev.rx = frame :: rest) (h : heard frame = []) (n : ℕ) :
    receive (n + 1) c dev = (c, { dev with rx := rest }) := by
  rw [receive, poll_filtered hrx h]

theorem receive_awaits (c : Cyclic L) {frame : List UInt8} (h : c.Bears frame) (post : List (List UInt8)) :
    ∀ (pre : List (List UInt8)) (n : ℕ) (dev : Device), dev.rx = pre ++ frame :: post → pre.length < n →
      (receive n c dev = (c.process (heard frame), { dev with rx := post }) ↔ ∀ f ∈ pre, c.Stray f) := by
  intro pre
  induction pre with
  | nil =>
    intro n dev hrx hn
    obtain ⟨n, rfl⟩ := Nat.exists_eq_succ_of_ne_zero hn.ne'
    exact iff_of_true (receive_bears hrx h n) nofun
  | cons f pre ih =>
    intro n dev hrx hn
    obtain ⟨n, rfl⟩ := Nat.exists_eq_succ_of_ne_zero (Nat.ne_zero_of_lt hn)
    have hlonger : ∀ c' : Cyclic L, (c', ({ dev with rx := pre ++ frame :: post } : Device)) ≠
        (c.process (heard frame), { dev with rx := post }) := by
      intro c' he
      have hl := congrArg (fun r : Cyclic L × Device => r.2.rx.length) he
      simp only [List.length_append, List.length_cons] at hl
      omega
    by_cases hs : c.Stray f
    · have hrest := ih n { dev with rx := pre ++ frame :: post } rfl (Nat.lt_of_succ_lt_succ hn)
      rw [receive_stray hrx hs, List.forall_mem_cons]
      exact hrest.trans ⟨fun h => ⟨hs, h⟩, And.right⟩
    · refine iff_of_false ?_ fun hall => hs (hall f List.mem_cons_self)
      by_cases hf : heard f = []
      · rw [receive_filtered hrx hf]
        exact hlonger c
      · have hb : c.Bears f := not_not.mp fun hb => hs ⟨hf, hb⟩
        rw [receive_bears hrx hb]
        exact hlonger _

/-- The reply at a place of the ring is processed by the call if and only if all frames before it are EtherCAT frames
that bring other indices than the expected one. -/
theorem reply_found_iff (c : Cyclic L) {dev : Device} {pre post : List (List UInt8)} {frame : List UInt8}
    (hrx : dev.rx = pre ++ frame :: post) (hlen : dev.rx.length ≤ ecatRxLen) (h : c.Awaits frame) :
    receive ecatRxLen c dev = (c.process (heard frame), { dev with rx := post }) ↔ ∀ f ∈ pre, c.Stray f := by
  apply receive_awaits c h.1 post pre ecatRxLen dev hrx
  rw [hrx, List.length_append, List.length_cons] at hlen
  omega

def ring (frames : List (List UInt8)) : Device := ⟨List.replicate 6 0, frames, true, []⟩

def arpRequest : List UInt8 := List.replicate 12 0xFF ++ [0x08, 0x06] ++ List.replicate 46 0

def lrwReply (index : UInt8) : List UInt8 :=
  List.replicate 12 0 ++ [0x88, 0xA4] ++ answerFrame .lrw index [0, 0, 0, 0, 0] 3 []

def fresh : Cyclic (oneDrive 1) := .new (oneDrive 1) [⟨0x1001, 0⟩] 0 1000000

theorem reply_found_iff_stray : fresh.Awaits (lrwReply 0) ∧
    receive ecatRxLen fresh (ring [lrwReply 9, lrwReply 0, arpRequest]) =
      (fresh.process (heard (lrwReply 0)), ring [arpRequest]) :=
  ⟨by decide +kernel, (@reply_found_iff _ fresh (ring [lrwReply 9, lrwReply 0, arpRequest]) [lrwReply 9] [arpRequest] (lrwReply 0) rfl
    (by decide) (by decide +kernel)).mpr (by decide +kernel)⟩

theorem reply_missed : ¬ ∀ (c : Cyclic (oneDrive 1)) (pre post : List (List UInt8)) (frame : List UInt8),
    (pre ++ frame :: post).length ≤ ecatRxLen → c.Awaits frame → (∀ f ∈ pre, ¬ c.Bears f) →
      receive ecatRxLen c (ring (pre ++ frame :: post)) = (c.process (heard frame), ring post) := by
  intro h
  have hr := h fresh [arpRequest] [] (lrwReply 0) (by decide) (by decide +kernel) (by decide +kernel)
  exact absurd (congrArg (fun r : Cyclic _ × Device => r.1.goodCycles) hr) (by decide +kernel)

end Cyclic

end EcMaster
