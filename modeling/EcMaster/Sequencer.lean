import EcMaster.Reported

namespace EcMaster

open Library.Run Library.Segment

variable {L : Layout}

theorem reportedWord_congr {d e : Binding} (h : d.sw = e.sw) (rs : List Reply) :
    reportedWord L d rs = reportedWord L e rs := by
  induction rs with
  | nil => rfl
  | cons r rs ih => simp only [reportedWord, CoversDrive, statusword, h, ih]

theorem statusword_sw {d e : Binding} (h : d.sw = e.sw) (image : List UInt8) :
    statusword image d = statusword image e := by
  rw [statusword, statusword, h]

namespace Cyclic

def taken (c : Cyclic L) (dev : Device) : List Reply := ((c.processed dev).map Prod.fst).toList

structure ReadsReported (c : Cyclic L) (dev : Device) (index : UInt8) (latency : UInt32) (host : HostBridge L)
    (rs : List Reply) : Prop where
  step : stepReads ((c.received dev latency).command host) c.cia402.drives ((c.received dev latency).outputImage host) =
    c.cia402.drives.map fun d => reportedWord L d (c.taken dev ++ rs)
  anyFault : ∀ d ∈ (c.tickWithHost dev index latency host).cyclic.cia402.drives,
    statusword (c.tickWithHost dev index latency host).cyclic.domain.image d = reportedWord L d (c.taken dev ++ rs)

structure Holding (c : Cyclic L) (rs : List Reply) : Prop where
  wiring : SameWiring (discovered L) c.cia402.drives
  ranges : c.domain.inputRanges = L.bus.inputWindows
  words : ∀ d ∈ discovered L, statusword c.domain.image d = reportedWord L d rs

theorem new_holding (hw : L.Windowed) (slaves : List CyclicSlave) (ref : UInt16) (ns : UInt64) :
    (Cyclic.new L slaves ref ns).Holding [] :=
  ⟨rfl, EcDomain.inputRanges_fromConfig hw.few, fun d _ => statusword_zeros _ d⟩

theorem Holding.received {c : Cyclic L} {rs : List Reply} (h : c.Holding rs) (hw : L.Windowed) (dev : Device)
    (latency : UInt32) {d : Binding} (hd : d ∈ discovered L) :
    statusword (c.received dev latency).domain.image d = reportedWord L d (c.taken dev ++ rs) := by
  have hword := h.words d hd
  rw [(c.received_holds dev latency).2, taken]
  cases c.processed dev with
  | none => exact hword
  | some p =>
    change statusword (EcDomain.copyInputs c.domain.inputRanges p.1.data c.domain.image) d =
      if CoversDrive L d p.1.data then statusword p.1.data d else reportedWord L d rs
    rw [h.ranges, statusword_copyInputs hw hd _ _ c.domain.length_image, hword]

theorem received_ranges (c : Cyclic L) (dev : Device) (latency : UInt32) :
    (c.received dev latency).domain.inputRanges = c.domain.inputRanges := by
  rw [(c.received_holds dev latency).2]
  cases c.processed dev <;> rfl

theorem outputImage_word (hL : L.Sound) (c : Cyclic L) (host : HostBridge L) {d : Binding} (hd : d ∈ discovered L) :
    statusword (c.outputImage host) d = statusword c.domain.image d := by
  obtain ⟨-, -, hs, hi⟩ := mem_discovered hd
  apply statusword_congr (hL.input_offset hs hi)
  intro i ho
  exact HostBridge.applyOutputs_outside hL.fields_inside host _ _ ho

theorem control_word (hL : L.Sound) {c : Cyclic L} (hwire : SameWiring (discovered L) c.cia402.drives)
    (host : HostBridge L) {d : Binding} (hd : d ∈ discovered L) :
    statusword (c.control host).cyclic.domain.image d = statusword c.domain.image d := by
  obtain ⟨-, -, hs, hi⟩ := mem_discovered hd
  rw [control_image]
  split_ifs
  · refine Eq.trans ?_ (c.outputImage_word hL host hd)
    apply statusword_congr (hL.input_offset hs hi)
    intro i ho
    apply stepDrives_outside
    intro e he hc
    obtain ⟨f, hf, hcw, -⟩ := hwire.mem he
    obtain ⟨hp, hout, -, -⟩ := mem_discovered hf
    have hw := hL.width_below hp hout
    rw [hcw] at hw
    exact absurd hc.2 (by omega)
  · exact c.outputImage_word hL host hd

theorem tick_word (hL : L.Sound) {c : Cyclic L} (hwire : SameWiring (discovered L) c.cia402.drives) (dev : Device)
    (index : UInt8) (latency : UInt32) (host : HostBridge L) {d : Binding} (hd : d ∈ discovered L) :
    statusword (c.tickWithHost dev index latency host).cyclic.domain.image d =
      statusword (c.received dev latency).domain.image d := by
  have hk := c.tickWithHost_keeps dev index latency host
  rw [hk.domain]
  apply control_word hL
  · rw [received_drives]
    exact hwire
  · exact hd

theorem Holding.tick {c : Cyclic L} {rs : List Reply} (h : c.Holding rs) (hL : L.Sound) (hw : L.Windowed) (dev : Device)
    (index : UInt8) (latency : UInt32) (host : HostBridge L) :
    (c.tickWithHost dev index latency host).cyclic.Holding (c.taken dev ++ rs) := by
  have hk := c.tickWithHost_keeps dev index latency host
  obtain ⟨image, hi, drives, hc, -, -⟩ := (c.received dev latency).control_cyclic host
  refine ⟨h.wiring.trans (c.sameWiring_tick dev index latency host), ?_, ?_⟩
  · rw [hk.domain, hc]
    exact (c.received_ranges dev latency).trans h.ranges
  · intro d hd
    rw [tick_word hL h.wiring dev index latency host hd, h.received hw dev latency hd]

theorem Holding.reads {c : Cyclic L} {rs : List Reply} (h : c.Holding rs) (hL : L.Sound) (hw : L.Windowed) (dev : Device)
    (index : UInt8) (latency : UInt32) (host : HostBridge L) : c.ReadsReported dev index latency host rs := by
  have htick := h.tick hL hw dev index latency host
  constructor
  · rw [stepReads_eq]
    · apply List.map_congr_left
      intro d hd
      obtain ⟨e, he, -, hsw⟩ := h.wiring.mem hd
      rw [← statusword_sw hsw, ← reportedWord_congr hsw, outputImage_word hL _ host he, h.received hw dev latency he]
    · intro d hd
      obtain ⟨e, he, hcw, -⟩ := h.wiring.mem hd
      obtain ⟨hp, hout, -, -⟩ := mem_discovered he
      rw [← hcw]
      exact hL.width_below hp hout
    · intro d hd
      obtain ⟨e, he, -, hsw⟩ := h.wiring.mem hd
      obtain ⟨-, -, hs, hi⟩ := mem_discovered he
      rw [← hsw]
      exact hL.input_offset hs hi
  · intro d hd
    obtain ⟨e, he, -, hsw⟩ := htick.wiring.mem hd
    rw [← statusword_sw hsw, ← reportedWord_congr hsw, htick.words e he]

end Cyclic

end EcMaster
