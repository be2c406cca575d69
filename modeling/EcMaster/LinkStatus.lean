import EcMaster.Receive

namespace EcMaster

open Library.Run Library.Segment Library.LittleEndian

def ReportsNoLink (reply : List UInt8) : Prop :=
  (∃ b, reply[3]? = some b ∧ b &&& statusLink = 0) ∧ reply[12]? = some 0

namespace Cyclic

variable {L : Layout}

theorem replyStatus_linkUp (c : Cyclic L) (hostTimeout underrun : Bool) :
    (c.replyStatus hostTimeout underrun).linkUp = true ↔ c.domain.lastWkc ≠ 0 := by
  rw [replyStatus, decide_eq_true_iff, gt_iff_lt, UInt16.pos_iff_ne_zero]

theorem statusLink_clear (st : ReplyStatus) : statusFlags st &&& statusLink = 0 ↔ st.linkUp = false := by
  rw [HostBridge.linkUp_of_status]
  cases st.linkUp with
  | false => simp
  | true => simp [statusLink]

theorem wkcByte_zero (w : UInt16) : UInt8.ofNat (min w.toNat 255) = 0 ↔ w = 0 := by
  constructor
  · intro h
    have ht : (UInt8.ofNat (min w.toNat 255)).toNat = 0 := by rw [h]; rfl
    rw [UInt8.toNat_ofNat'] at ht
    apply UInt16.toNat_inj.mp
    change w.toNat = 0
    omega
  · rintro rfl
    rfl

theorem reportsNoLink_iff_received (c : Cyclic L) (dev : Device) (index : UInt8) (latency : UInt32)
    (host : HostBridge L) :
    ReportsNoLink (c.tickWithHost dev index latency host).host.reply ↔
      (c.received dev latency).domain.lastWkc = 0 := by
  have hs := c.tickWithHost_settles dev index latency host
  rw [tickWithHost_host, ReportsNoLink, HostBridge.reply_status, HostBridge.reply_wkc, ← hs.lastWkc]
  constructor
  · rintro ⟨-, hw⟩
    exact (wkcByte_zero _).mp (Option.some.inj hw)
  · intro hz
    refine ⟨⟨_, rfl, ?_⟩, ?_⟩
    · rw [statusLink_clear, Bool.eq_false_iff, ne_eq, replyStatus_linkUp, not_not]
      exact hz
    · exact congrArg some ((wkcByte_zero _).mpr hz)

theorem reportsNoLink_iff {c : Cyclic L} {dev : Device} (hn : c.processed dev = none) (index : UInt8)
    (latency : UInt32) (host : HostBridge L) :
    ReportsNoLink (c.tickWithHost dev index latency host).host.reply ↔ c.domain.lastWkc = 0 := by
  rw [reportsNoLink_iff_received, received_lastWkc, hn]

end Cyclic

namespace Firmware

variable {L : Layout}

/-- In a run, every tick without a reply reports no link if and only if each of them finds the engine with a
zero working counter, that is with no reply processed yet or the last one unanswered. -/
theorem linkStatus_truthful_iff (es : List Event) :
    (∀ c host dev index latency, TakesTick (L := L) es c host dev index latency → c.processed dev = none →
      ReportsNoLink (c.tickWithHost dev index latency host).host.reply) ↔
    ∀ c host dev index latency, TakesTick (L := L) es c host dev index latency → c.processed dev = none →
      c.domain.lastWkc = 0 := by
  constructor
  · intro h c host dev index latency ht hn
    exact (Cyclic.reportsNoLink_iff hn index latency host).mp (h c host dev index latency ht hn)
  · intro h c host dev index latency ht hn
    exact (Cyclic.reportsNoLink_iff hn index latency host).mpr (h c host dev index latency ht hn)

def cablePulled : List Event :=
  [.start [⟨0x1001, 0⟩] 1000000 0, .tick (Device.receiving []) 0,
    .tick (Device.receiving [answerFrame .lrw 0 [0, 0, 0, 0, 0] 3 []]) 0, .tick (Device.receiving []) 0]

theorem linkStatus_stale :
    ¬ ∀ (L : Layout) (es : List Event) c host dev index latency, TakesTick (L := L) es c host dev index latency →
      c.processed dev = none → ReportsNoLink (c.tickWithHost dev index latency host).host.reply := by
  intro h
  have hr := h (oneDrive 1) cablePulled _ _ _ _ _ ⟨cablePulled.take 3, [], rfl, rfl⟩ (by decide +kernel)
  rw [Cyclic.reportsNoLink_iff (by decide +kernel)] at hr
  exact absurd hr (by decide +kernel)

end Firmware

end EcMaster
