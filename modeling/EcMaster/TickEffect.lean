import EcMaster.SentFrame

namespace EcMaster

open Library.Segment Library.LittleEndian

namespace HostBridge

variable {L : Layout}

def stall (h : HostBridge L) : UInt16 :=
  if h.hostWdog ≠ h.lastSeenWdog then 0
  else if h.outValid then if h.wdogStallCycles = 0xFFFF then 0xFFFF else h.wdogStallCycles + 1
  else h.wdogStallCycles

def watched (h : HostBridge L) : HostBridge L := { h with lastSeenWdog := h.hostWdog, wdogStallCycles := h.stall }

theorem tickWatchdog_eq (h : HostBridge L) : h.tickWatchdog = (h.stall, h.watched) := by
  rw [tickWatchdog, watched, stall]
  by_cases hw : h.hostWdog = h.lastSeenWdog
  · rw [if_neg (not_not.mpr hw), if_neg (not_not.mpr hw)]
    by_cases hv : h.outValid = true
    · rw [if_pos hv, if_pos hv, hw]
    · rw [if_neg hv, if_neg hv]
      obtain ⟨⟩ := h
      dsimp only at hw
      rw [hw]
  · rw [if_pos hw, if_pos hw]

structure Served (h : HostBridge L) (cycleIndex : UInt32) (h' : HostBridge L) : Prop where
  stagedOut : h'.stagedOut = h.stagedOut
  flags : h'.flags = h.flags
  hostSeq : h'.hostSeq = h.hostSeq
  hostWdog : h'.hostWdog = h.hostWdog
  outValid : h'.outValid = h.outValid
  crcErrs : h'.crcErrs = h.crcErrs
  framesIn : h'.framesIn = h.framesIn
  lastSeenWdog : h'.lastSeenWdog = h.hostWdog
  wdogStallCycles : h'.wdogStallCycles = h.stall
  samples : h'.motion.samples =
    if h.outValid && streaming L then MotionQueue.rest h.motion.samples cycleIndex else h.motion.samples

end HostBridge

namespace Cyclic

variable {L : Layout}

/-- The image right after `apply_outputs`, in a tick that received `c`. -/
def outputImage (c : Cyclic L) (host : HostBridge L) : List UInt8 :=
  (host.applyOutputs c.domain.image c.totalCycles).1

@[simp] theorem length_outputImage (c : Cyclic L) (host : HostBridge L) :
    (c.outputImage host).length = c.domain.image.length :=
  HostBridge.length_applyOutputs _ _ _

def timedOut (host : HostBridge L) : Bool := host.stall ≥ hostWdogLimitCycles

def underruns (c : Cyclic L) (host : HostBridge L) : Bool :=
  (host.watched.applyOutputs c.domain.image c.totalCycles).2.motionUnderrun

theorem applyOutputs_watched (host : HostBridge L) (image : List UInt8) (cycleIndex : UInt32) :
    (host.watched.applyOutputs image cycleIndex).1 = (host.applyOutputs image cycleIndex).1 := by
  have hw : host.watched.outValid = host.outValid := rfl
  cases hv : host.outValid with
  | false => rw [HostBridge.applyOutputs_idle (hw.trans hv), HostBridge.applyOutputs_idle hv]
  | true =>
    rw [HostBridge.applyOutputs_image (hw.trans hv), HostBridge.applyOutputs_image hv]
    rfl

theorem control_eq (c : Cyclic L) (host : HostBridge L) : c.control host = c.controlFrom host.stall host.watched := by
  rw [control, HostBridge.tickWatchdog_eq]

theorem control_hostTimeout (c : Cyclic L) (host : HostBridge L) : (c.control host).hostTimeout = timedOut host := by
  rw [control_eq]
  rfl

def command (c : Cyclic L) (host : HostBridge L) : DriveCommand :=
  c.driveCommand host (timedOut host) (c.underruns host)

theorem applyDriveControl_eq (c : Cyclic L) (host : HostBridge L) (hostTimeout underrun : Bool) :
    ∃ image hi drives, c.applyDriveControl host hostTimeout underrun =
        { c.putImage image hi with cia402 := ⟨drives⟩ } ∧
      drives = (if host.outValid then
        (stepDrives (c.driveCommand host hostTimeout underrun) c.cia402.drives c.domain.image).1
        else c.cia402.drives) ∧
      image = (if host.outValid then
        (stepDrives (c.driveCommand host hostTimeout underrun) c.cia402.drives c.domain.image).2
        else c.domain.image) := by
  rw [applyDriveControl]
  by_cases hv : host.outValid = true
  · rw [if_pos hv, if_pos hv]
    by_cases hd : c.cia402.drives = []
    · have hs : ∀ cmd, stepDrives cmd c.cia402.drives c.domain.image = ([], c.domain.image) := by
        intro cmd
        rw [hd]
        rfl
      rw [if_pos (by simp [Cia402.hasDrives, hd]), hs]
      exact ⟨c.domain.image, rfl, [], by rw [← hd]; rfl, rfl, rfl⟩
    · rw [if_neg (by simp [HostBridge.hasHost, Cia402.hasDrives, hv, hd])]
      exact ⟨_, length_stepDrives _ _ _, _, rfl, rfl, rfl⟩
  · rw [if_pos (by simp [HostBridge.hasHost, hv]), if_neg hv, if_neg hv]
    exact ⟨c.domain.image, rfl, c.cia402.drives, rfl, rfl, rfl⟩

theorem control_cyclic (c : Cyclic L) (host : HostBridge L) :
    ∃ image hi drives, (c.control host).cyclic =
        { c.putImage image hi with cia402 := ⟨drives⟩ } ∧
      drives = (if host.outValid then
        (stepDrives (c.command host) c.cia402.drives (c.outputImage host)).1 else c.cia402.drives) ∧
      image = (if host.outValid then
        (stepDrives (c.command host) c.cia402.drives (c.outputImage host)).2 else c.outputImage host) := by
  obtain ⟨m, hm, happ, -⟩ := HostBridge.applyOutputs_host host.watched c.domain.image c.totalCycles
  set applied := host.watched.applyOutputs c.domain.image c.totalCycles with happlied
  have hlen : applied.1.length = c.domain.image.length := HostBridge.length_applyOutputs _ _ _
  obtain ⟨image, hi, drives, hc, hd, himg⟩ := (c.putImage applied.1 hlen).applyDriveControl_eq applied.2
    (timedOut host) (c.underruns host)
  have hcmd : (c.putImage applied.1 hlen).driveCommand applied.2 (timedOut host) (c.underruns host) =
      c.command host := by
    rw [happ]
    rfl
  have hout : applied.2.outValid = host.outValid := by
    rw [happ]
    rfl
  have himage : applied.1 = c.outputImage host := applyOutputs_watched host _ _
  rw [hcmd, hout] at hd himg
  refine ⟨image, ?_, drives, ?_, ?_, ?_⟩
  · exact hi.trans hlen
  · rw [control_eq]
    exact hc
  · rw [hd, ← himage]
    rfl
  · rw [himg, ← himage]
    rfl

theorem control_image (c : Cyclic L) (host : HostBridge L) :
    (c.control host).cyclic.domain.image = if host.outValid then
      (stepDrives (c.command host) c.cia402.drives (c.outputImage host)).2 else c.outputImage host := by
  obtain ⟨image, hi, drives, hc, -, himg⟩ := c.control_cyclic host
  rw [hc, ← himg]
  rfl

theorem control_drives (c : Cyclic L) (host : HostBridge L) :
    (c.control host).cyclic.cia402.drives = if host.outValid then
      (stepDrives (c.command host) c.cia402.drives (c.outputImage host)).1 else c.cia402.drives := by
  obtain ⟨image, hi, drives, hc, hd, -⟩ := c.control_cyclic host
  rw [hc, ← hd]

structure Settles (c c' : Cyclic L) : Prop where
  slaves : c'.slaves = c.slaves
  phase : c'.phase = c.phase
  totalCycles : c'.totalCycles = c.totalCycles
  lastWkc : c'.domain.lastWkc = c.domain.lastWkc
  expectedWkc : c'.domain.expectedWkc = c.domain.expectedWkc

theorem control_settles (c : Cyclic L) (host : HostBridge L) : c.Settles (c.control host).cyclic := by
  obtain ⟨image, hi, drives, hc, -, -⟩ := c.control_cyclic host
  rw [hc]
  exact ⟨rfl, rfl, rfl, rfl, rfl⟩

theorem control_host (c : Cyclic L) (host : HostBridge L) :
    ∃ m hm, (c.control host).host = { host.watched with motion := m, motion_sampleLen := hm } ∧
      m = if host.outValid && streaming L then (host.motion.pop c.totalCycles).2 else host.motion := by
  obtain ⟨m, hm, happ, hpop⟩ := HostBridge.applyOutputs_host host.watched c.domain.image c.totalCycles
  refine ⟨m, hm, ?_, hpop⟩
  rw [control_eq, ← happ]
  rfl

theorem control_served (c : Cyclic L) (host : HostBridge L) : host.Served c.totalCycles (c.control host).host := by
  obtain ⟨m, hm, hh, hpop⟩ := c.control_host host
  have hsamples : m.samples =
      if host.outValid && streaming L then MotionQueue.rest host.motion.samples c.totalCycles
      else host.motion.samples := by
    rw [hpop]
    split_ifs
    · exact (host.motion.pop_refines c.totalCycles).2
    · rfl
  rw [hh]
  exact ⟨rfl, rfl, rfl, rfl, rfl, rfl, rfl, rfl, rfl, hsamples⟩

end Cyclic

end EcMaster
