import EcMaster.Receive
import EcMaster.History

namespace EcMaster

open Library.Run Library.Segment Library.LittleEndian

namespace MotionQueue

def firstTagged (q : MotionQueue) (current : UInt32) : Option (List UInt8) :=
  (q.find? fun s => s.1 == current).map Prod.snd

theorem firstTagged_of_due {q : MotionQueue} {current : UInt32} {payload : List UInt8}
    (h : q.due current = some payload) : q.firstTagged current = some payload := by
  induction q with
  | nil => exact absurd h (by simp [due, fresh])
  | cons s q ih =>
    rw [firstTagged, List.find?_cons]
    by_cases hs : s.1 = current
    · have hb : cycleBefore s.1 current = false := by rw [hs, cycleBefore_self]
      rw [due, fresh, List.dropWhile_cons_of_neg (by simp [hb])] at h
      simp only [hs, ↓reduceIte] at h
      simp [hs, h]
    · have hn : (s.1 == current) = false := by simp [hs]
      rw [hn]
      cases hb : cycleBefore s.1 current with
      | false =>
        rw [due, fresh, List.dropWhile_cons_of_neg (by simp [hb])] at h
        simp only [hs, ↓reduceIte] at h
        exact absurd h (by simp)
      | true =>
        apply ih
        rw [due, fresh, List.dropWhile_cons_of_pos (by simp [hb])] at h
        exact h

end MotionQueue

namespace Cyclic

variable {L : Layout}

def wanted (c : Cyclic L) (host : HostBridge L) (cycle : UInt32) (f : StreamField) : List UInt8 :=
  match MotionQueue.firstTagged host.motion.samples cycle with
  | some payload => slice payload f.sampleOff f.len
  | none => slice c.domain.image f.imageOff f.len

def HoldsStream (c : Cyclic L) (host : HostBridge L) (dev : Device) (latency : UInt32) : Prop :=
  ∀ f ∈ L.streamFields, slice ((c.received dev latency).outputImage host) f.imageOff f.len =
    c.wanted host (c.totalCycles + 1) f

def SampleReady (c : Cyclic L) (host : HostBridge L) (f : StreamField) : Prop :=
  ∃ payload, MotionQueue.due host.motion.samples (c.totalCycles + 1) = some payload ∧
    f.Fits payload.length c.domain.image.length

def BlockAgrees (c : Cyclic L) (host : HostBridge L) (f : StreamField) : Prop :=
  slice (host.stagedOut.take c.domain.image.length) f.imageOff f.len = c.wanted host (c.totalCycles + 1) f

theorem slice_withBlock (host : HostBridge L) {c : Cyclic L} {image : List UInt8}
    (hi : image.length = c.domain.image.length) {f : StreamField} (hf : f.imageOff + f.len ≤ L.outBytes) :
    slice (host.withBlock image) f.imageOff f.len =
      slice (host.stagedOut.take c.domain.image.length) f.imageOff f.len := by
  apply slice_congr
  intro i h₁ h₂
  rw [HostBridge.getElem?_withBlock, List.getElem?_take, ← hi]
  by_cases hl : i < image.length
  · rw [if_pos ⟨by omega, hl⟩, if_pos hl]
  · rw [if_neg (by omega), if_neg hl, List.getElem?_eq_none (by omega)]

theorem slice_outputImage (hA : L.streamFields.Pairwise StreamField.Apart) (hs : streaming L = true) {c : Cyclic L}
    {host : HostBridge L} (hv : host.outValid = true) (dev : Device) (latency : UInt32) {f : StreamField}
    (hf : f ∈ L.streamFields) (hin : f.imageOff + f.len ≤ L.outBytes) :
    slice ((c.received dev latency).outputImage host) f.imageOff f.len =
      match MotionQueue.due host.motion.samples (c.totalCycles + 1) with
      | some payload =>
        if f.Fits payload.length c.domain.image.length then slice payload f.sampleOff f.len
        else slice (host.stagedOut.take c.domain.image.length) f.imageOff f.len
      | none => slice (host.stagedOut.take c.domain.image.length) f.imageOff f.len := by
  have hl := c.received_length dev latency
  have hb := slice_withBlock host hl hin
  have hw : (host.withBlock (c.received dev latency).domain.image).length = c.domain.image.length := by
    rw [HostBridge.withBlock, length_overwrite, hl]
  rw [outputImage, HostBridge.applyOutputs_image hv, HostBridge.dueSample, if_pos hs, received_totalCycles]
  cases MotionQueue.due host.motion.samples (c.totalCycles + 1) with
  | none => exact hb
  | some payload =>
    dsimp only
    rw [slice_applyFields payload _ hA hf, hw, hb]

theorem holdsStream_iff (hA : L.streamFields.Pairwise StreamField.Apart) (hs : streaming L = true)
    (hin : ∀ f ∈ L.streamFields, f.imageOff + f.len ≤ L.outBytes) {c : Cyclic L} {host : HostBridge L}
    (hv : host.outValid = true) (dev : Device) (latency : UInt32) :
    c.HoldsStream host dev latency ↔ ∀ f ∈ L.streamFields, c.SampleReady host f ∨ c.BlockAgrees host f := by
  apply forall₂_congr
  intro f hf
  rw [slice_outputImage hA hs hv dev latency hf (hin f hf), SampleReady, BlockAgrees]
  cases hd : MotionQueue.due host.motion.samples (c.totalCycles + 1) with
  | none => simp
  | some payload =>
    have hw : c.wanted host (c.totalCycles + 1) f = slice payload f.sampleOff f.len := by
      rw [wanted, MotionQueue.firstTagged_of_due hd]
    by_cases hfit : f.Fits payload.length c.domain.image.length
    · simp [hfit, hw]
    · simp [hfit]

end Cyclic

namespace Firmware

variable {L : Layout}

def TakesAfterSample (es : List Event) (c : Cyclic L) (host : HostBridge L) (dev : Device) (latency : UInt32) : Prop :=
  ∃ pre post index, es = pre ++ .tick dev latency :: post ∧ run step (init L) pre = ⟨some c, host, index⟩ ∧
    ∃ (c₀ : Cyclic L) (host₀ : HostBridge L) (dev₀ : Device) (index₀ : UInt8) (latency₀ : UInt32),
      TakesTick pre c₀ host₀ dev₀ index₀ latency₀ ∧ host₀.outValid = true ∧
      (MotionQueue.due host₀.motion.samples (c₀.totalCycles + 1)).isSome

theorem outValid_of_takes {pre : List Event} {c c₀ : Cyclic L} {host host₀ : HostBridge L} {index index₀ : UInt8}
    {dev₀ : Device} {latency₀ : UInt32} (hs : run step (init L) pre = ⟨some c, host, index⟩)
    (ht : TakesTick pre c₀ host₀ dev₀ index₀ latency₀) (hv : host₀.outValid = true) : host.outValid = true := by
  obtain ⟨pre₀, post₀, rfl, hs₀⟩ := ht
  have hr₀ := (reflects_run (L := L) pre₀).outValid
  have hr := (reflects_run (L := L) (pre₀ ++ .tick dev₀ latency₀ :: post₀)).outValid
  rw [← hs₀] at hr₀
  rw [hs] at hr
  obtain ⟨mosi, hm, ha⟩ := lastAccepted_isSome.mp (hr₀.symm.trans hv)
  rw [hr]
  exact lastAccepted_isSome.mpr ⟨mosi, List.mem_append_left _ hm, ha⟩

def HoldsAfterSample (L : Layout) (es : List Event) : Prop :=
  ∀ (c : Cyclic L) host dev latency, TakesAfterSample es c host dev latency → c.HoldsStream host dev latency

def FedAfterSample (L : Layout) (es : List Event) : Prop :=
  ∀ (c : Cyclic L) host dev latency, TakesAfterSample es c host dev latency →
    ∀ f ∈ L.streamFields, c.SampleReady host f ∨ c.BlockAgrees host f

/-- A run keeps the streamed fields to the tagged samples if and only if in each tick every field is fed by the
sample at the head of the ring, or the host has put the bytes that are wanted in its immediate block as well. -/
theorem holdsAfterSample_iff (hA : L.streamFields.Pairwise StreamField.Apart) (hs : streaming L = true)
    (hin : ∀ f ∈ L.streamFields, f.imageOff + f.len ≤ L.outBytes) (es : List Event) :
    HoldsAfterSample L es ↔ FedAfterSample L es := by
  have htick : ∀ (c : Cyclic L) host dev latency, TakesAfterSample es c host dev latency → host.outValid = true := by
    rintro c host dev latency ⟨pre, post, index, -, hrun, c₀, host₀, dev₀, index₀, latency₀, ht, hv, -⟩
    exact outValid_of_takes hrun ht hv
  constructor
  · intro h c host dev latency ht
    exact (Cyclic.holdsStream_iff hA hs hin (htick c host dev latency ht) dev latency).mp (h c host dev latency ht)
  · intro h c host dev latency ht
    exact (Cyclic.holdsStream_iff hA hs hin (htick c host dev latency ht) dev latency).mpr (h c host dev latency ht)

def drained : List Event :=
  [.start [⟨0x1001, 0⟩] 1000000 0, .frame (streamFrame 7 1 9), .tick (Device.receiving []) 0,
    .tick (Device.receiving []) 0]

theorem drained_takes : ∃ c host, TakesAfterSample (L := oneDrive 1) drained c host (Device.receiving []) 0 ∧
    ∀ f ∈ (oneDrive 1).streamFields, slice ((c.received (Device.receiving []) 0).outputImage host) f.imageOff f.len ≠
      c.wanted host (c.totalCycles + 1) f := by
  refine ⟨_, _, ⟨drained.take 3, [], _, rfl, rfl, ?_⟩, by decide +kernel⟩
  exact ⟨_, _, _, _, _, ⟨drained.take 2, [], rfl, rfl⟩, by decide +kernel, by decide +kernel⟩

theorem oneDrive_fields_apart (n : ℕ) : (oneDrive n).streamFields.Pairwise StreamField.Apart :=
  List.pairwise_singleton _ _

theorem holdsAfterSample_iff_drained : ¬ FedAfterSample (oneDrive 1) drained := by
  obtain ⟨c, host, ht, hne⟩ := drained_takes
  intro h
  have hh := (holdsAfterSample_iff (oneDrive_fields_apart 1) (by decide) (oneDrive_sound 1).fields_inside drained).mpr h
  exact hne _ List.mem_cons_self (hh c host _ 0 ht _ List.mem_cons_self)

theorem streamHold_lost : ¬ ∀ L : Layout, L.streamFields.Pairwise StreamField.Apart → streaming L = true →
    (∀ f ∈ L.streamFields, f.imageOff + f.len ≤ L.outBytes) → ∀ es, HoldsAfterSample L es := by
  obtain ⟨c, host, ht, hne⟩ := drained_takes
  intro h
  have hh := h (oneDrive 1) (oneDrive_fields_apart 1) (by decide) (oneDrive_sound 1).fields_inside drained
  exact hne _ List.mem_cons_self (hh c host _ 0 ht _ List.mem_cons_self)

end Firmware

end EcMaster
