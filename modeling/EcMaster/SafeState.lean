import EcMaster.Drives

namespace EcMaster

open Library.Run Library.Segment Library.LittleEndian

def wordAt (image : List UInt8) (p : PinCfg) : UInt16 := u16Le (slice image p.byteOffset p.nbytes)

def cwEnableOperation : UInt16 := 0x0008

/-- A controlword that a drive with this statusword may be given in the safe state. -/
structure SafeWord (sw w : UInt16) : Prop where
  disabled : w &&& cwEnableOperation = 0
  enabled : sw &&& swStateMask = swOperationEnabled → w = cwQuickStop
  fault : sw &&& swFault ≠ 0 → w = cwDisableVoltage ∨ w = cwFaultReset

theorem nextControlword_safe (sw : UInt16) {cmd : DriveCommand} (hq : cmd.quickStop = true) (frHigh : Bool) :
    SafeWord sw (nextControlword sw cmd frHigh).1 := by
  have henable : ¬ (cmd.enable = true ∧ ¬ cmd.quickStop = true) := fun h => h.2 hq
  by_cases hf : sw &&& swFault = 0
  · rw [nextControlword]
    simp only [hf, hq, ne_eq, not_true_eq_false, ↓reduceIte, true_and, and_false]
    by_cases ho : sw &&& swStateMask = swOperationEnabled
    · rw [if_pos ho]
      exact ⟨by decide, fun _ => rfl, fun h => absurd hf h⟩
    · rw [if_neg ho]
      refine ⟨?_, fun h => absurd h ho, fun h => absurd hf h⟩
      split_ifs <;> decide
  · have hs : sw &&& swStateMask ≠ swOperationEnabled := by
      intro h
      apply hf
      have hm : swFault = swStateMask &&& swFault := by decide
      rw [hm, ← UInt16.and_assoc, h]
      decide
    have hw : (nextControlword sw cmd frHigh).1 = cwDisableVoltage ∨ (nextControlword sw cmd frHigh).1 = cwFaultReset := by
      rw [nextControlword, if_pos hf]
      split_ifs
      · exact Or.inr rfl
      · exact Or.inl rfl
      · exact Or.inl rfl
    refine ⟨?_, fun h => absurd h hs, fun _ => hw⟩
    rcases hw with hw | hw
    · rw [hw]
      decide
    · rw [hw]
      decide

theorem nextControlword_byte (sw : UInt16) (cmd : DriveCommand) (frHigh : Bool) :
    (nextControlword sw cmd frHigh).1.toNat < 256 := by
  rw [nextControlword]
  split_ifs <;> dsimp only <;> decide

theorem u16Le_rawBytes {n : ℕ} (hn : 0 < n) {w : UInt16} (hw : w.toNat < 256) :
    u16Le (rawBytes n w.toUInt64) = w := by
  have hbyte : ∀ i < 2, ((w.toUInt64 >>> UInt64.ofNat (8 * i)).toUInt8).toNat = if i = 0 then w.toNat else 0 := by
    intro i hi
    interval_cases i
    · simp
      omega
    · simp [Nat.shiftRight_eq_div_pow]
      omega
  apply UInt16.toNat_inj.mp
  rw [u16Le, UInt16.toNat_ofNat']
  obtain ⟨n, rfl⟩ := Nat.exists_eq_add_of_lt hn
  cases n with
  | zero =>
    have h0 := hbyte 0 (by decide)
    simp only [rawBytes, Nat.zero_add, List.range_succ, List.range_zero, List.nil_append, List.map_cons, List.map_nil,
      leNat, h0]
    simp
  | succ n =>
    have h0 := hbyte 0 (by decide)
    have h1 := hbyte 1 (by decide)
    have hr : rawBytes (0 + (n + 1) + 1) w.toUInt64 = (w.toUInt64 >>> UInt64.ofNat (8 * 0)).toUInt8 ::
        (w.toUInt64 >>> UInt64.ofNat (8 * 1)).toUInt8 ::
          (List.range n).map fun i => (w.toUInt64 >>> UInt64.ofNat (8 * (i + 2))).toUInt8 := by
      simp only [rawBytes]
      rw [show 0 + (n + 1) + 1 = 2 + n by omega, List.range_add]
      simp [List.range_succ, Function.comp_def, Nat.add_comm]
    rw [hr, leNat, leNat, h0, h1]
    simp only [↓reduceIte, one_ne_zero, zero_add]
    omega

theorem wordAt_writeValue {image : List UInt8} {p : PinCfg} (hp : p.ByteAligned)
    (hin : p.byteOffset + p.nbytes ≤ image.length) {w : UInt16} (hw : w.toNat < 256) :
    wordAt (writeValue image p w.toUInt64.toInt64) p = w := by
  have hn : 0 < p.nbytes := by
    have := hp.bitLen_pos
    rw [PinCfg.nbytes]
    omega
  have hs := slice_overwrite_self image (rawBytes p.nbytes w.toUInt64) p.byteOffset (by rw [length_rawBytes]; exact hin)
  rw [length_rawBytes] at hs
  rw [wordAt, writeValue_of_not_bit hp.not_bit, UInt64.toUInt64_toInt64, hs]
  exact u16Le_rawBytes hn hw

theorem wordAt_stepDrives {out : ℕ} {cmd : DriveCommand} {ds : List Binding} (hw : Wired out ds) {d : Binding}
    (hd : d ∈ ds) (ha : d.cw.ByteAligned) {image : List UInt8} (hin : d.cw.byteOffset + d.cw.nbytes ≤ image.length) :
    wordAt (stepDrives cmd ds image).2 d.cw = (nextControlword (statusword image d) cmd d.frHigh).1 := by
  have hbytes : wordAt (stepDrives cmd ds image).2 d.cw =
      wordAt (writeValue image d.cw (nextControlword (statusword image d) cmd d.frHigh).1.toUInt64.toInt64) d.cw := by
    rw [wordAt, wordAt]
    congr 1
    apply slice_congr
    intro i h₁ h₂
    exact stepDrives_controlword hw hd _ ⟨h₁, by rw [PinCfg.width_of_aligned ha]; exact h₂⟩
  rw [hbytes, wordAt_writeValue ha hin (nextControlword_byte _ _ _)]

/-- The reasons for the safe state in a tick that received `c`. -/
def SafeTrigger {L : Layout} (c : Cyclic L) (host : HostBridge L) : Prop :=
  host.flags &&& flagQuickStop ≠ 0 ∨ 20 ≤ host.stall.toNat ∨ c.underruns host = true ∨ c.phase = .faulted

namespace Cyclic

variable {L : Layout}

theorem command_quickStop (c : Cyclic L) (host : HostBridge L) :
    (c.command host).quickStop = true ↔ SafeTrigger c host := by
  have hl : hostWdogLimitCycles.toNat = 20 := rfl
  simp only [command, driveCommand, HostBridge.quickStopRequested, timedOut, SafeTrigger, Bool.or_eq_true, bne_iff_ne,
    decide_eq_true_iff, ge_iff_le, UInt16.le_iff_toNat_le, hl, or_assoc]

theorem lrwData_controlword (hL : L.Sound) {c : Cyclic L} {host : HostBridge L} (dev : Device) (index : UInt8)
    (latency : UInt32) (hw : Wired L.outBytes c.cia402.drives) (hv : host.outValid = true) {d : Binding}
    (hd : d ∈ c.cia402.drives) (ha : d.cw.ByteAligned)
    (hin : d.cw.byteOffset + d.cw.nbytes ≤ (c.tickWithHost dev index latency host).cyclic.lrwData.length) :
    wordAt (c.tickWithHost dev index latency host).cyclic.lrwData d.cw =
      (nextControlword (statusword (c.received dev latency).domain.image d)
        ((c.received dev latency).command host) d.frHigh).1 := by
  have himage : (c.tickWithHost dev index latency host).cyclic.lrwData =
      (stepDrives ((c.received dev latency).command host) c.cia402.drives
        ((c.received dev latency).outputImage host)).2 := by
    rw [tickWithHost_lrwData, control_image, if_pos hv, received_drives]
  have hsw : statusword ((c.received dev latency).outputImage host) d =
      statusword (c.received dev latency).domain.image d :=
    statusword_congr (hw.sw_above d hd) fun i hi => HostBridge.applyOutputs_outside hL.fields_inside host _ _ hi
  rw [himage, length_stepDrives] at hin
  rw [himage, wordAt_stepDrives hw hd ha hin, hsw]

end Cyclic

namespace Firmware

variable {L : Layout}

theorem controlword_run (hL : L.Sound) (ha : ∀ d ∈ discovered L, d.cw.ByteAligned) {es : List Event} {c : Cyclic L}
    {host : HostBridge L} {index : UInt8} (hs : run step (init L) es = ⟨some c, host, index⟩)
    (hv : host.outValid = true) (dev : Device) (latency : UInt32) {d : Binding} (hd : d ∈ discovered L)
    (hin : d.cw.byteOffset + d.cw.nbytes ≤ (c.tickWithHost dev index latency host).cyclic.lrwData.length) :
    ∃ frHigh, wordAt (c.tickWithHost dev index latency host).cyclic.lrwData d.cw =
      (nextControlword (statusword (c.received dev latency).domain.image d)
        ((c.received dev latency).command host) frHigh).1 := by
  have hwiring := sameWiring_run (L := L) es c (by rw [hs])
  obtain ⟨e, he, hcw, hsw⟩ := hwiring.symm.mem hd
  have hstatus : statusword (c.received dev latency).domain.image e =
      statusword (c.received dev latency).domain.image d := by
    rw [statusword, statusword, hsw]
  rw [← hcw, ← hstatus]
  exact ⟨e.frHigh, Cyclic.lrwData_controlword hL dev index latency ((wired_discovered hL ha).of_sameWiring hwiring) hv he
    (hcw ▸ ha d hd) (hcw ▸ hin)⟩

/-- In every tick of a run that has accepted a frame, any of the triggers puts a safe word in the LRW for each
discovered drive, whatever the host sent. -/
theorem safeState_reaches_wire (hL : L.Sound) (ha : ∀ d ∈ discovered L, d.cw.ByteAligned) (es : List Event)
    (c : Cyclic L) (host : HostBridge L) (index : UInt8) (dev : Device) (latency : UInt32)
    (hs : run step (init L) es = ⟨some c, host, index⟩) (hf : ∃ mosi, .frame mosi ∈ es ∧ Accepted L mosi)
    (ht : SafeTrigger (c.received dev latency) host) {d : Binding} (hd : d ∈ discovered L)
    (hin : d.cw.byteOffset + d.cw.nbytes ≤ (c.tickWithHost dev index latency host).cyclic.lrwData.length) :
    SafeWord (statusword (c.received dev latency).domain.image d)
      (wordAt (c.tickWithHost dev index latency host).cyclic.lrwData d.cw) := by
  have hr := reflects_run (L := L) es
  rw [hs] at hr
  have hv : host.outValid = true := by
    rw [hr.outValid]
    exact lastAccepted_isSome.mpr hf
  obtain ⟨frHigh, hw⟩ := controlword_run hL ha hs hv dev latency hd hin
  rw [hw]
  exact nextControlword_safe _ ((Cyclic.command_quickStop _ _).mpr ht) frHigh

def quickStopFrame : List UInt8 :=
  sealFrame [0xEC, 0xA7, 1, flagQuickStop, 1, 0, 1, 0, 0, 0, 0, 0, 0, 0, 0, 0, 0]

def enabledReply : Device := Device.receiving [answerFrame .lrw 0 [0, 0, 0, 0x27, 0] 3 []]

theorem safeState_reaches_wire_quickStop : ∃ c host index,
    run step (init (oneDrive 1))
      ([.start [⟨0x1001, 0⟩] 1000000 0, .tick (Device.receiving []) 0] ++ [.frame quickStopFrame]) =
        ⟨some c, host, index⟩ ∧
    ∀ d ∈ discovered (oneDrive 1),
      wordAt (c.tickWithHost enabledReply index 0 host).cyclic.lrwData d.cw = cwQuickStop := by
  obtain ⟨c, host, index, hs, henabled, hin⟩ : ∃ c host index,
      run step (init (oneDrive 1)) [.start [⟨0x1001, 0⟩] 1000000 0, .tick (Device.receiving []) 0] =
        ⟨some c, host, index⟩ ∧
      (∀ d ∈ discovered (oneDrive 1),
        statusword (c.received enabledReply 0).domain.image d &&& swStateMask = swOperationEnabled) ∧
      ∀ d ∈ discovered (oneDrive 1), d.cw.byteOffset + d.cw.nbytes ≤ (c.received enabledReply 0).domain.image.length :=
    ⟨_, _, _, rfl, by decide +kernel, by decide +kernel⟩
  have ha : Accepted (oneDrive 1) quickStopFrame := sealFrame_accepted rfl rfl
  have hflags : quickStopFrame.getD 3 0 = flagQuickStop := rfl
  have hrun := (run_concat step _ _ (.frame quickStopFrame)).trans (congrArg (step · (.frame quickStopFrame)) hs)
  refine ⟨c, host.ingest quickStopFrame, index, hrun, ?_⟩
  intro d hd
  have h := safeState_reaches_wire (oneDrive_sound 1) (oneDrive_aligned 1) _ _ _ _ enabledReply 0 hrun
    ⟨quickStopFrame, by simp, ha⟩ (Or.inl (by rw [(HostBridge.ingest_accepted ha _).flags, hflags]; decide)) hd
    (by rw [Cyclic.lrwData_length]; exact hin d hd)
  exact h.enabled (henabled d hd)

end Firmware

end EcMaster
