import EcMaster.Firmware
import EcMaster.HostReport

namespace EcMaster

open Library.Run

variable {L : Layout}

namespace HostComponent

def faultPin (h : HostComponent) (hal : Hal) (reply : List UInt8) : Bool :=
  (h.update L hal (some (stageTx L reply))).2.1.status.fault

theorem receive_fault {miso : List UInt8} (hm : intact L miso = true) (h : HostComponent) (hal : Hal) :
    (h.receive L hal miso).1.status.fault = decide (miso.getD 3 0 &&& statusFault ≠ 0) := by
  rw [receive, if_neg (by rw [hm]; decide)]

theorem faultPin_buildReply (h : HostComponent) (hal : Hal) (b : HostBridge L) (image : List UInt8)
    (st : ReplyStatus) : h.faultPin (L := L) hal (b.buildReply image st).reply = decide (st.phase = 3) := by
  have hlen : (b.buildReply image st).reply.length = L.misoLen := HostBridge.length_reply _
  have hhdr := misoHdr_le L
  have hpin := receive_fault (stageTx_intact b image st) (h.buildFrame L hal).2 hal
  rw [List.getD_eq_getElem?_getD, getElem?_stageTx hlen (by simp only [misoHdr] at hhdr; omega),
    HostBridge.reply_status, Option.getD_some, HostBridge.fault_of_status] at hpin
  rw [faultPin, update]
  refine hpin.trans ?_
  split_ifs with hp
  · simp [hp, statusFault]
  · simp [hp]

end HostComponent

/-- A reply that reports a fault raises the pin, and one that reports none, from a phase other than Faulted,
clears it. -/
def FaultVisible (L : Layout) (reply : List UInt8) (phase : Phase) (h : HostComponent) (hal : Hal) : Prop :=
  (reply.getD 15 0 ≠ 0 → h.faultPin (L := L) hal reply = true) ∧
    (reply.getD 15 0 = 0 → phase ≠ .faulted → h.faultPin (L := L) hal reply = false)

namespace Phase

theorem code_eq_three (p : Phase) : p.code = 3 ↔ p = .faulted := by
  cases p <;> decide

end Phase

namespace Cyclic

def otherFault (c : Cyclic L) (hostTimeout underrun : Bool) : Bool :=
  c.cia402.anyFault c.domain.image || hostTimeout || underrun

theorem faultFlags_eq_zero (c : Cyclic L) (hostTimeout underrun : Bool) :
    (c.replyStatus hostTimeout underrun).faultFlags = 0 ↔
      c.phase ≠ .faulted ∧ c.otherFault hostTimeout underrun = false := by
  simp only [replyStatus, otherFault]
  cases c.cia402.anyFault c.domain.image <;> cases hostTimeout <;> cases underrun <;>
    by_cases hp : c.phase = .faulted <;> simp [hp]

theorem replyStatus_keeps {c d : Cyclic L} (h : Keeps c d) (hostTimeout underrun : Bool) :
    d.replyStatus hostTimeout underrun = c.replyStatus hostTimeout underrun := by
  simp only [replyStatus, h.phase, h.cia402, h.domain, h.totalCycles]

theorem faultVisible_buildReply (c : Cyclic L) (hostTimeout underrun : Bool) (b : HostBridge L) (image : List UInt8)
    (h : HostComponent) (hal : Hal) :
    FaultVisible L (b.buildReply image (c.replyStatus hostTimeout underrun)).reply c.phase h hal ↔
      (c.phase = .faulted ∨ c.otherFault hostTimeout underrun = false) := by
  have hflags := c.faultFlags_eq_zero hostTimeout underrun
  have hphase : (c.replyStatus hostTimeout underrun).phase = 3 ↔ c.phase = .faulted := c.phase.code_eq_three
  rw [FaultVisible, HostComponent.faultPin_buildReply, List.getD_eq_getElem?_getD, HostBridge.reply_faultFlags,
    Option.getD_some, ne_eq, hflags, decide_eq_true_iff, decide_eq_false_iff_not, hphase]
  by_cases hp : c.phase = .faulted <;> cases c.otherFault hostTimeout underrun <;> simp [hp]

theorem faultVisible_iff (c : Cyclic L) (dev : Device) (index : UInt8) (latency : UInt32) (host : HostBridge L)
    (h : HostComponent) (hal : Hal) :
    FaultVisible L (c.tickWithHost dev index latency host).host.reply
        (c.tickWithHost dev index latency host).cyclic.phase h hal ↔
      (((c.received dev latency).control host).cyclic.phase = .faulted ∨
        ((c.received dev latency).control host).cyclic.otherFault
          ((c.received dev latency).control host).hostTimeout ((c.received dev latency).control host).underrun =
            false) := by
  have hk := c.tickWithHost_keeps dev index latency host
  rw [tickWithHost_host, replyStatus_keeps hk, hk.phase]
  exact faultVisible_buildReply _ _ _ _ _ _ _

end Cyclic

namespace Firmware

def driveFault : List Event :=
  [.start [⟨0x1001, 0⟩] 1000000 0, .tick (Device.receiving []) 0]

def faultReply : Device := Device.receiving [answerFrame .lrw 0 [0, 0, 0, 0x08, 0] 3 []]

theorem driveFault_hidden : ¬ ∀ (L : Layout) (es : List Event) c host dev index latency h hal,
    TakesTick (L := L) es c host dev index latency →
      FaultVisible L (c.tickWithHost dev index latency host).host.reply
        (c.tickWithHost dev index latency host).cyclic.phase h hal := by
  intro h
  obtain ⟨c, host, index, hrun, hfault⟩ : ∃ (c : Cyclic (oneDrive 1)) (host : HostBridge (oneDrive 1)) (index : UInt8),
      run step (init (oneDrive 1)) driveFault = ⟨some c, host, index⟩ ∧
        ((c.received faultReply 0).control host).cyclic.phase ≠ .faulted ∧
        ((c.received faultReply 0).control host).cyclic.otherFault
          ((c.received faultReply 0).control host).hostTimeout
          ((c.received faultReply 0).control host).underrun = true :=
    ⟨_, _, _, rfl, by decide +kernel, by decide +kernel⟩
  have hv := h (oneDrive 1) (driveFault ++ [.tick faultReply 0]) c host faultReply index 0 (HostComponent.load 0)
    ⟨true, false, false, fun _ => false, fun _ => 0, fun _ => 0⟩ ⟨driveFault, [], rfl, hrun.symm⟩
  have hk := c.tickWithHost_keeps faultReply index 0 host
  rw [Cyclic.tickWithHost_host, Cyclic.replyStatus_keeps hk, hk.phase, Cyclic.faultVisible_buildReply] at hv
  rcases hv with hp | ho
  · exact hfault.1 hp
  · rw [hfault.2] at ho
    exact absurd ho (by decide)

end Firmware

end EcMaster
