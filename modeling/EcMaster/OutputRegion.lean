import EcMaster.Drives

namespace EcMaster

open Library.Run Library.Segment Library.LittleEndian

namespace Cyclic

variable {L : Layout}

theorem lrwData_outputs (c : Cyclic L) (dev : Device) (index : UInt8) (latency : UInt32) (host : HostBridge L) {i : ℕ}
    (h : ∀ d ∈ c.cia402.drives, ¬ d.cw.Covers i) :
    (c.tickWithHost dev index latency host).cyclic.lrwData[i]? = ((c.received dev latency).outputImage host)[i]? := by
  rw [tickWithHost_lrwData, control_image, received_drives]
  split_ifs
  · exact stepDrives_outside _ _ _ h
  · rfl

end Cyclic

namespace Firmware

variable {L : Layout}

theorem covers_of_sameWiring {ds ds' : List Binding} (h : SameWiring ds ds') {i : ℕ}
    (hc : ∀ d ∈ ds, ¬ d.cw.Covers i) : ∀ d ∈ ds', ¬ d.cw.Covers i := by
  intro d hd
  obtain ⟨e, he, hcw, -⟩ := h.mem hd
  rw [← hcw]
  exact hc e he

def Overlaid (L : Layout) (mosi : List UInt8) (due : Option (List UInt8)) (lrw : List UInt8) : Prop :=
  ∀ i < L.outBytes, i < lrw.length → (∀ d ∈ discovered L, ¬ d.cw.Covers i) →
    (∃ payload, due = some payload ∧ ∃ f ∈ L.streamFields, f.Fits payload.length lrw.length ∧ f.Covers i ∧
      lrw[i]? = payload[f.sampleOff + (i - f.imageOff)]?) ∨
    (∀ payload, due = some payload → ∀ f ∈ L.streamFields, f.Fits payload.length lrw.length → ¬ f.Covers i) ∧
      lrw[i]? = mosi[mosiHdr + i]?

def Whole (L : Layout) (due : Option (List UInt8)) (lrw : List UInt8) : Prop :=
  ∀ payload, due = some payload → ∀ f ∈ L.streamFields, f.Fits payload.length lrw.length →
    ∀ i < L.outBytes, f.Covers i → (∀ d ∈ discovered L, ¬ d.cw.Covers i) →
      lrw[i]? = payload[f.sampleOff + (i - f.imageOff)]?

theorem Overlaid.whole {mosi lrw : List UInt8} {due : Option (List UInt8)} (h : Overlaid L mosi due lrw)
    (ha : L.streamFields.Pairwise StreamField.Apart) : Whole L due lrw := by
  intro payload hd f hf hfit i ho hc hcw
  have hi : i < lrw.length := lt_of_lt_of_le hc.2 hfit.2
  rcases h i ho hi hcw with ⟨payload', hd', g, hg, -, hcg, he⟩ | ⟨hn, -⟩
  · obtain rfl := Option.some.inj (hd'.symm.trans hd)
    obtain rfl := StreamField.eq_of_covers ha hf hg hc hcg
    exact he
  · exact absurd hc (hn payload hd f hf hfit)

/-- A rejected string changes nothing but the error count, an accepted one is absorbed whole, and the outputs
that a tick sends are the block of the latest accepted frame, with one sample for this cycle laid over it. -/
theorem hostOutputs_atomic (es : List Event) (c : Cyclic L) (host : HostBridge L) (index : UInt8) (dev : Device)
    (latency : UInt32) (hs : run step (init L) es = ⟨some c, host, index⟩) :
    (∀ mosi, ¬ Accepted L mosi → host.ingest mosi = { host with crcErrs := host.crcErrs + 1 }) ∧
      (∀ mosi, Accepted L mosi → host.Absorbs mosi (host.ingest mosi)) ∧
      (lastAccepted L es = none →
        (c.tickWithHost dev index latency host).cyclic.lrwData = (c.received dev latency).domain.image) ∧
      (∀ mosi, lastAccepted L es = some mosi → ∃ due : Option (List UInt8),
        (∀ payload, due = some payload → ∃ m, .frame m ∈ es ∧ Accepted L m ∧
          ((c.received dev latency).totalCycles, payload) ∈ frameSamples L m) ∧
        Overlaid L mosi due (c.tickWithHost dev index latency host).cyclic.lrwData ∧
        (L.streamFields.Pairwise StreamField.Apart →
          Whole L due (c.tickWithHost dev index latency host).cyclic.lrwData)) ∧
      (L.Sound → ∀ i, L.outBytes ≤ i → ∀ (image : List UInt8) (cycleIndex : UInt32) (cmd : DriveCommand),
        (host.applyOutputs image cycleIndex).1[i]? = image[i]? ∧
          (c.cia402.step image cmd).2[i]? = image[i]?) := by
  have hr := reflects_run (L := L) es
  have hw := sameWiring_run (L := L) es c (by rw [hs])
  have hsamples := samples_run (L := L) es
  rw [hs] at hr hsamples
  refine ⟨fun mosi hm => HostBridge.ingest_rejected hm host, fun mosi hm => HostBridge.ingest_accepted hm host,
    ?_, ?_, ?_⟩
  · intro hm
    have hv : host.outValid = false := by rw [hr.outValid, hm]; rfl
    rw [Cyclic.tickWithHost_lrwData, Cyclic.control_image, if_neg (by rw [hv]; decide), Cyclic.outputImage,
      HostBridge.applyOutputs_idle hv]
  · intro mosi hm
    have ho : Overlaid L mosi (host.dueSample (c.received dev latency).totalCycles)
        (c.tickWithHost dev index latency host).cyclic.lrwData := by
      intro i ho hi hcw
      have hv : host.outValid = true := by rw [hr.outValid, hm]; rfl
      have hb : host.stagedOut[i]? = mosi[mosiHdr + i]? := by
        rw [hr.stagedOut mosi (by rw [hm]; rfl), getElem?_slice, if_pos ho]
      rw [Cyclic.lrwData_length] at hi ⊢
      rw [Cyclic.lrwData_outputs c dev index latency host (covers_of_sameWiring hw hcw), Cyclic.outputImage, ← hb]
      exact HostBridge.applyOutputs_at hv _ _ ho hi
    refine ⟨_, fun payload hd => ?_, ho, ho.whole⟩
    rw [HostBridge.dueSample] at hd
    split_ifs at hd
    exact hsamples _ (MotionQueue.mem_of_due hd)
  · intro hL i hi image cycleIndex cmd
    refine ⟨HostBridge.applyOutputs_outside hL.fields_inside host image cycleIndex hi, ?_⟩
    apply stepDrives_outside
    apply covers_of_sameWiring hw
    intro d hd hc
    obtain ⟨hp, hout, -, -⟩ := mem_discovered hd
    have := hL.width_below hp hout
    exact absurd hc.2 (by omega)

theorem hostOutputs_atomic_sample :
    ((Cyclic.new (oneDrive 1) [⟨0x1001, 0⟩] 0 1000000).tickWithHost ⟨[], [], true, []⟩ 0 0
      ((HostBridge.new (oneDrive 1)).ingest (streamFrame 7 1 9))).cyclic.lrwData[2]? = some 9 := by
  have ha : Accepted (oneDrive 1) (streamFrame 7 1 9) := sealFrame_accepted rfl rfl
  have hl : lastAccepted (oneDrive 1) [.frame (streamFrame 7 1 9), .start [⟨0x1001, 0⟩] 1000000 0] =
      some (streamFrame 7 1 9) := by
    simp [lastAccepted, acceptedFrame, ha]
  have hd : ∀ d ∈ discovered (oneDrive 1), ¬ d.cw.Covers 2 := by decide +kernel
  have hn : frameSamples (oneDrive 1) (streamFrame 7 1 9) = [(1, [9])] := rfl
  have h := hostOutputs_atomic (L := oneDrive 1) [.frame (streamFrame 7 1 9), .start [⟨0x1001, 0⟩] 1000000 0]
    (Cyclic.new (oneDrive 1) [⟨0x1001, 0⟩] 0 1000000) ((HostBridge.new (oneDrive 1)).ingest (streamFrame 7 1 9)) 0
    ⟨[], [], true, []⟩ 0 (by simp only [run, List.foldl_cons, List.foldl_nil, step, init]; rfl)
  obtain ⟨due, hdue, ho, -⟩ := h.2.2.2.1 (streamFrame 7 1 9) hl
  rcases ho 2 (by decide) (by rw [Cyclic.lrwData_length]; decide) hd with ⟨payload, hp, f, hf, -, -, he⟩ | ⟨-, he⟩
  · obtain ⟨m, hm, -, hmem⟩ := hdue payload hp
    obtain rfl : m = streamFrame 7 1 9 := by simpa using hm
    obtain rfl : payload = [9] := (Prod.ext_iff.mp (List.mem_singleton.mp (hn ▸ hmem))).2
    obtain rfl : f = ⟨0, 2, 1⟩ := by simpa [oneDrive] using hf
    exact he
  · exact absurd he (by decide +kernel)

end Firmware

end EcMaster
