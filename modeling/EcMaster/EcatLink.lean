import EcMaster.Device
import EcMaster.EnetQueues

namespace EcMaster

open Library.Machine

def ecatTxLen : ℕ := 4

instance : NeZero ecatRxLen := ⟨by decide⟩
instance : NeZero ecatTxLen := ⟨by decide⟩

structure EcatDevice where
  nic : Nic ecatMtu ecatRxLen ecatTxLen
  srcMac : { m : List UInt8 // m.length = 6 }

inductive LinkEvent
  | send (ecatFrame : List UInt8)
  | poll (outLen : ℕ)
  | transmit
  | arrive (frame : { f : List UInt8 // f.length ≤ ecatMtu }) (status : UInt16)
  | restart

namespace EcatDevice

def header (dev : EcatDevice) : List UInt8 := List.replicate 6 0xFF ++ dev.srcMac.1 ++ [0x88, 0xA4]

def send (dev : EcatDevice) (ecatFrame : List UInt8) : Bool × EcatDevice :=
  if ethHeaderLen + ecatFrame.length > ecatMtu then (false, dev)
  else
    let (ok, enet) := dev.nic.enet.sendFrame dev.header ecatFrame
    (ok, { dev with nic := { dev.nic with enet := enet } })

def poll (dev : EcatDevice) (outLen : ℕ) : Option (List UInt8) × EcatDevice :=
  let (frame, enet) := dev.nic.enet.pollRaw
  let payload := (frame.map (Device.ecatPayload outLen)).getD []
  (if payload.length > 0 then some payload else none, { dev with nic := { dev.nic with enet := enet } })

def step (dev : EcatDevice) : LinkEvent → NicOutcome × EcatDevice
  | .send ecatFrame => (.sent (dev.send ecatFrame).1, (dev.send ecatFrame).2)
  | .poll outLen => (.polled (dev.poll outLen).1, (dev.poll outLen).2)
  | .transmit => (dev.nic.transmit.1, { dev with nic := dev.nic.transmit.2 })
  | .arrive frame status => ((dev.nic.arrive frame.1 status).1, { dev with nic := (dev.nic.arrive frame.1 status).2 })
  | .restart => (.restarted, { dev with nic := dev.nic.restart })

end EcatDevice

/-- The NIC as the master sees it, and how many of the frames handed to it have not left. -/
structure Port where
  dev : Device
  waiting : ℕ

namespace Port

def start (srcMac : List UInt8) : Port := ⟨⟨srcMac, [], true, []⟩, 0⟩

def ready (l : Port) : Port := { l with dev := { l.dev with txReady := decide (l.waiting < ecatTxLen) } }

def step (l : Port) : LinkEvent → NicOutcome × Port
  | .send ecatFrame =>
    (.sent (l.dev.send ecatFrame).1, ready ⟨(l.dev.send ecatFrame).2, l.waiting + (l.dev.send ecatFrame).1.toNat⟩)
  | .poll outLen => (.polled (l.dev.poll outLen).1, ready ⟨(l.dev.poll outLen).2, l.waiting⟩)
  | .transmit => (.transmitted (l.dev.wire[l.dev.wire.length - l.waiting]?), ready ⟨l.dev, l.waiting - 1⟩)
  | .arrive frame _ =>
    if l.dev.rx.length < ecatRxLen then
      (.arrived true, ready ⟨{ l.dev with rx := l.dev.rx ++ [frame.1] }, l.waiting⟩)
    else (.arrived false, ready l)
  | .restart => (.restarted, ready ⟨{ l.dev with rx := [] }, 0⟩)

structure Shows (l : Port) (srcMac : List UInt8) (q : Queues) : Prop where
  srcMac : l.dev.srcMac = srcMac
  rx : l.dev.rx = q.rx
  fits : ∀ f ∈ q.rx, f.length ≤ ecatMtu
  ready : l.dev.txReady = decide (q.tx.length < ecatTxLen)
  waiting : l.waiting = q.tx.length
  wire : q.tx <:+ l.dev.wire

theorem shows_start (srcMac : List UInt8) : (start srcMac).Shows srcMac ⟨[], []⟩ := by
  constructor <;> simp [start, ecatTxLen]

end Port

theorem framed_header {srcMac : List UInt8} (hm : srcMac.length = 6) {ecatFrame : List UInt8}
    (hl : ¬ ethHeaderLen + ecatFrame.length > ecatMtu) :
    framed ecatMtu (List.replicate 6 0xFF ++ srcMac ++ [0x88, 0xA4]) ecatFrame =
      (List.replicate 6 0xFF ++ srcMac ++ [0x88, 0xA4] ++ ecatFrame) ++
        List.replicate (ethMinFrame - (List.replicate 6 0xFF ++ srcMac ++ [0x88, 0xA4] ++ ecatFrame).length) 0 := by
  have hf : (List.replicate 6 0xFF ++ srcMac ++ [0x88, 0xA4] ++ ecatFrame).length ≤ ecatMtu := by
    simp only [List.length_append, List.length_replicate, List.length_cons, List.length_nil, hm]
    simp only [ethHeaderLen] at hl
    omega
  rw [framed, List.take_of_length_le hf]
  congr 2
  simp only [ecatMtu, ethMinFrame] at hf ⊢
  omega

namespace EcatDevice

variable {dev : EcatDevice} {l : Port} {q : Queues}

/-- The rings hold two queues, and these are what the master sees. -/
def Represents (dev : EcatDevice) (l : Port) : Prop := ∃ q, dev.nic.Represents q ∧ l.Shows dev.srcMac.1 q

theorem send_represents (hn : dev.nic.Represents q) (hs : l.Shows dev.srcMac.1 q) (f : List UInt8) :
    (dev.step (.send f)).1 = (l.step (.send f)).1 ∧ (dev.step (.send f)).2.Represents (l.step (.send f)).2 := by
  by_cases hl : ethHeaderLen + f.length > ecatMtu
  · rw [step, send, if_pos hl, Port.step, Device.send, if_pos hl]
    refine ⟨rfl, q, hn, ⟨hs.srcMac, hs.rx, hs.fits, ?_, hs.waiting, hs.wire⟩⟩
    simp [Port.ready, hs.waiting]
  · by_cases hq : q.tx.length < ecatTxLen
    · have hr : l.dev.txReady = true := by simp [hs.ready, hq]
      obtain ⟨ho, hr'⟩ := Nic.send_free (by decide) hn hq dev.header f
      rw [step, send, if_neg hl, Port.step, Device.send, if_neg hl, hr]
      refine ⟨congrArg _ ho, _, hr', ⟨hs.srcMac, hs.rx, hs.fits, ?_, ?_, ?_⟩⟩
      · simp [Port.ready, hs.waiting]
      · simp [Port.ready, hs.waiting]
      · rw [header, framed_header dev.srcMac.2 hl, ← hs.srcMac]
        obtain ⟨older, ho⟩ := hs.wire
        refine ⟨older, ?_⟩
        rw [← List.append_assoc, ho]
        rfl
    · have hr : l.dev.txReady = false := by simp [hs.ready, hq]
      rw [step, send, if_neg hl, Port.step, Device.send, if_neg hl, hr, Nic.send_full hn hq]
      refine ⟨rfl, q, hn, ⟨hs.srcMac, hs.rx, hs.fits, ?_, hs.waiting, hs.wire⟩⟩
      simp [Port.ready, hs.waiting]

theorem poll_represents (hn : dev.nic.Represents q) (hs : l.Shows dev.srcMac.1 q) (outLen : ℕ) :
    (dev.step (.poll outLen)).1 = (l.step (.poll outLen)).1 ∧
      (dev.step (.poll outLen)).2.Represents (l.step (.poll outLen)).2 := by
  rcases hq : q.rx with _ | ⟨x, rest⟩
  · have hr : l.dev.rx = [] := hs.rx.trans hq
    rw [step, poll, Nic.poll_empty hn hq, Port.step, Device.poll]
    simp only [hr]
    refine ⟨rfl, q, hn, ⟨hs.srcMac, hs.rx, hs.fits, ?_, hs.waiting, hs.wire⟩⟩
    simp [Port.ready, hs.waiting]
  · have hr : l.dev.rx = x :: rest := hs.rx.trans hq
    have hx : x.take ecatMtu = x := List.take_of_length_le (hs.fits x (by simp [hq]))
    obtain ⟨ho, hr'⟩ := Nic.poll_front hn hq
    rw [step, poll, Port.step, Device.poll]
    simp only [hr, ho, hx]
    refine ⟨rfl, _, hr', ⟨hs.srcMac, rfl, fun f hf => hs.fits f (by simp [hq, hf]), ?_, hs.waiting, hs.wire⟩⟩
    simp [Port.ready, hs.waiting]

theorem transmit_represents (hn : dev.nic.Represents q) (hs : l.Shows dev.srcMac.1 q) :
    (dev.step .transmit).1 = (l.step .transmit).1 ∧ (dev.step .transmit).2.Represents (l.step .transmit).2 := by
  obtain ⟨older, hw⟩ := hs.wire
  rcases hq : q.tx with _ | ⟨x, rest⟩
  · rw [step, Nic.transmit_empty hn hq, Port.step]
    refine ⟨?_, q, hn, ⟨hs.srcMac, hs.rx, hs.fits, ?_, ?_, hs.wire⟩⟩
    · simp [hs.waiting, hq]
    · simp [Port.ready, hs.waiting, hq]
    · simp [Port.ready, hs.waiting, hq]
  · obtain ⟨ho, hr⟩ := Nic.transmit_front hn hq
    rw [hq] at hw
    rw [step, Port.step]
    refine ⟨?_, _, hr, ⟨hs.srcMac, hs.rx, hs.fits, ?_, ?_, older ++ [x], ?_⟩⟩
    · rw [ho, hs.waiting, hq, ← hw]
      simp
    · simp [Port.ready, hs.waiting, hq]
    · simp [Port.ready, hs.waiting, hq]
    · simp [Port.ready, ← hw]

theorem arrive_represents (hn : dev.nic.Represents q) (hs : l.Shows dev.srcMac.1 q)
    (frame : { f : List UInt8 // f.length ≤ ecatMtu }) (status : UInt16) :
    (dev.step (.arrive frame status)).1 = (l.step (.arrive frame status)).1 ∧
      (dev.step (.arrive frame status)).2.Represents (l.step (.arrive frame status)).2 := by
  by_cases hq : q.rx.length < ecatRxLen
  · obtain ⟨ho, hr⟩ := Nic.arrive_free (by decide) hn hq frame.2 status
    rw [step, Port.step, if_pos (by rw [hs.rx]; exact hq)]
    refine ⟨ho, _, hr, ⟨hs.srcMac, ?_, ?_, ?_, hs.waiting, hs.wire⟩⟩
    · simp [Port.ready, hs.rx]
    · intro f hf
      rcases List.mem_append.mp hf with hf | hf
      · exact hs.fits f hf
      · rw [List.mem_singleton.mp hf]
        exact frame.2
    · simp [Port.ready, hs.waiting]
  · rw [step, Port.step, if_neg (by rw [hs.rx]; exact hq), Nic.arrive_full hn hq]
    refine ⟨rfl, q, hn, ⟨hs.srcMac, hs.rx, hs.fits, ?_, hs.waiting, hs.wire⟩⟩
    simp [Port.ready, hs.waiting]

theorem restart_represents (hs : l.Shows dev.srcMac.1 q) :
    (dev.step .restart).2.Represents (l.step .restart).2 := by
  refine ⟨_, Nic.represents_restart dev.nic, ⟨hs.srcMac, rfl, by simp, ?_, rfl, List.nil_suffix⟩⟩
  simp [Port.step, Port.ready, ecatTxLen]

theorem simulation : Simulation step Port.step Represents where
  outcome := by
    rintro dev l ⟨q, hn, hs⟩ (f | outLen | _ | ⟨frame, status⟩ | _)
    · exact (send_represents hn hs f).1
    · exact (poll_represents hn hs outLen).1
    · exact (transmit_represents hn hs).1
    · exact (arrive_represents hn hs frame status).1
    · rfl
  state := by
    rintro dev l ⟨q, hn, hs⟩ (f | outLen | _ | ⟨frame, status⟩ | _)
    · exact (send_represents hn hs f).2
    · exact (poll_represents hn hs outLen).2
    · exact (transmit_represents hn hs).2
    · exact (arrive_represents hn hs frame status).2
    · exact restart_represents hs

/-- `send` and `poll` on the descriptor rings are `send` and `poll` of the NIC as the master sees it. -/
theorem runs_as_port (dev : EcatDevice) (es : List LinkEvent) :
    outcomes step { dev with nic := dev.nic.restart } es = outcomes Port.step (Port.start dev.srcMac.1) es :=
  simulation.outcomes (s := { dev with nic := dev.nic.restart })
    ⟨_, Nic.represents_restart dev.nic, Port.shows_start dev.srcMac.1⟩ es

end EcatDevice

end EcMaster
