import EcMaster.Config
import EcMaster.MotionBuffer
import EcMaster.Library.LittleEndian

namespace EcMaster

open Library.Segment Library.LittleEndian

def magic : UInt16 := 0xA7EC
def version : UInt8 := 1

def flagEnable : UInt8 := 0x01
def flagFaultReset : UInt8 := 0x02
def flagQuickStop : UInt8 := 0x04

def statusLink : UInt8 := 0x01
def statusOperational : UInt8 := 0x02
def statusFault : UInt8 := 0x04
def statusHostTimeout : UInt8 := 0x08

def crc16Bit (crc : UInt16) : UInt16 :=
  if crc &&& 0x8000 ≠ 0 then (crc <<< 1) ^^^ 0x1021 else crc <<< 1

def crc16Byte (crc : UInt16) (b : UInt8) : UInt16 := crc16Bit^[8] (crc ^^^ (b.toUInt16 <<< 8))

def crc16 (data : List UInt8) : UInt16 := data.foldl crc16Byte 0xFFFF

structure ReplyStatus where
  linkUp : Bool
  phase : UInt8
  wkc : UInt8
  expectedWkc : UInt8
  cycleIndex : UInt32
  faultFlags : UInt8
  hostTimeout : Bool

structure HostBridge (L : Layout) where
  stagedOut : List UInt8
  flags : UInt8
  hostSeq : UInt16
  hostWdog : UInt16
  lastSeenWdog : UInt16
  wdogStallCycles : UInt16
  outValid : Bool
  stagedIn : List UInt8
  teensyWdog : UInt16
  crcErrs : UInt32
  seqErrs : UInt32
  framesIn : UInt32
  motion : MotionRing
  length_stagedOut : stagedOut.length = L.outBytes
  length_stagedIn : stagedIn.length = L.frameLen
  motion_sampleLen : motion.sampleLen = min L.streamSampleBytes motionSampleMax

/-- The checks an inbound frame passes before anything of it is used: length, magic, CRC. -/
def Accepted (L : Layout) (mosi : List UInt8) : Prop :=
  L.mosiLen ≤ mosi.length ∧ u16Le (slice mosi 0 2) = magic ∧
    crc16 (mosi.take L.crcPos) = u16Le (slice mosi L.crcPos 2)

instance (L : Layout) (mosi : List UInt8) : Decidable (Accepted L mosi) := by
  unfold Accepted; infer_instance

def pushSamples (L : Layout) (samples : List UInt8) : List ℕ → MotionRing → MotionRing
  | [], motion => motion
  | i :: is, motion =>
    let base := i * L.sampleStride
    if base + L.sampleStride > samples.length then motion
    else
      let tag := u32Le (slice samples base 4)
      pushSamples L samples is (motion.push tag (slice samples (base + 4) L.streamSampleBytes)).2

@[simp] theorem pushSamples_sampleLen (L : Layout) (samples : List UInt8) (is : List ℕ) (r : MotionRing) :
    (pushSamples L samples is r).sampleLen = r.sampleLen := by
  induction is generalizing r with
  | nil => rfl
  | cons i is ih =>
    rw [pushSamples]
    split_ifs
    · rfl
    · rw [ih, MotionRing.push_sampleLen]

theorem samples_pushSamples (L : Layout) (samples : List UInt8) (is : List ℕ) (r : MotionRing)
    (h : ∀ i ∈ is, i * L.sampleStride + L.sampleStride ≤ samples.length) :
    (pushSamples L samples is r).samples =
      (is.map fun i => (u32Le (slice samples (i * L.sampleStride) 4),
        r.fit (slice samples (i * L.sampleStride + 4) L.streamSampleBytes))).foldl
        (pushWithin motionRingDepth) r.samples := by
  induction is generalizing r with
  | nil => rfl
  | cons i is ih =>
    have hi := h i List.mem_cons_self
    rw [pushSamples, if_neg hi.not_gt, ih _ fun j hj => h j (List.mem_cons_of_mem _ hj),
      MotionRing.samples_push_within, List.map_cons, List.foldl_cons]
    congr 1
    apply List.map_congr_left
    intro j _
    rw [MotionRing.fit_congr (r.push_sampleLen _ _)]

def applyFields (fields : List StreamField) (payload image : List UInt8) : List UInt8 :=
  fields.foldl (fun image f =>
    if f.sampleOff + f.len ≤ payload.length ∧ f.imageOff + f.len ≤ image.length then
      overwrite image f.imageOff (slice payload f.sampleOff f.len)
    else image) image

def statusFlags (st : ReplyStatus) : UInt8 :=
  (if st.linkUp then statusLink else 0) ||| (if st.phase = 2 then statusOperational else 0) |||
    (if st.phase = 3 then statusFault else 0) ||| (if st.hostTimeout then statusHostTimeout else 0)

namespace HostBridge

variable {L : Layout}

def new (L : Layout) : HostBridge L where
  stagedOut := List.replicate L.outBytes 0
  flags := 0
  hostSeq := 0
  hostWdog := 0
  lastSeenWdog := 0
  wdogStallCycles := 0
  outValid := false
  stagedIn := List.replicate L.frameLen 0
  teensyWdog := 0
  crcErrs := 0
  seqErrs := 0
  framesIn := 0
  motion := MotionRing.new L.streamSampleBytes
  length_stagedOut := List.length_replicate
  length_stagedIn := List.length_replicate
  motion_sampleLen := MotionRing.sampleLen_new L.streamSampleBytes

def reject (h : HostBridge L) : HostBridge L := { h with crcErrs := h.crcErrs + 1 }

def ingest (h : HostBridge L) (mosi : List UInt8) : HostBridge L :=
  if mosi.length < L.mosiLen then h.reject
  else
    let frame := mosi.take L.mosiLen
    if u16Le (slice frame 0 2) ≠ magic then h.reject
    else if crc16 (frame.take L.crcPos) ≠ u16Le (slice frame L.crcPos 2) then h.reject
    else
      let seq := u16Le (slice frame 4 2)
      let count := min (frame.getD L.streamOff 0).toNat L.maxSamplesPerFrame
      let samples := slice frame (L.streamOff + streamHdr) (L.crcPos - (L.streamOff + streamHdr))
      { h with
        seqErrs := if h.outValid ∧ seq = h.hostSeq then h.seqErrs + 1 else h.seqErrs
        flags := frame.getD 3 0
        hostSeq := seq
        hostWdog := u16Le (slice frame 6 2)
        stagedOut := overwrite h.stagedOut 0 (slice frame mosiHdr L.outBytes)
        outValid := true
        framesIn := h.framesIn + 1
        motion := if h.motion.active then pushSamples L samples (List.range count) h.motion else h.motion
        length_stagedOut := by rw [length_overwrite, h.length_stagedOut]
        motion_sampleLen := by split_ifs <;> simp [h.motion_sampleLen] }

def applyOutputs (h : HostBridge L) (image : List UInt8) (cycleIndex : UInt32) :
    List UInt8 × HostBridge L :=
  if !h.outValid then (image, h)
  else
    let n := min L.outBytes image.length
    let image := overwrite image 0 (h.stagedOut.take n)
    if h.motion.active then
      let popped := h.motion.pop cycleIndex
      let h := { h with
        motion := popped.2
        motion_sampleLen := by rw [(h.motion.pop_frame cycleIndex).1, h.motion_sampleLen] }
      match popped.1 with
      | some slot => (applyFields L.streamFields (h.motion.payload slot) image, h)
      | none => (image, h)
    else (image, h)

def tickWatchdog (h : HostBridge L) : UInt16 × HostBridge L :=
  let h :=
    if h.hostWdog ≠ h.lastSeenWdog then { h with lastSeenWdog := h.hostWdog, wdogStallCycles := 0 }
    else if h.outValid then
      { h with wdogStallCycles := if h.wdogStallCycles = 0xFFFF then 0xFFFF else h.wdogStallCycles + 1 }
    else h
  (h.wdogStallCycles, h)

def replyHeader (h : HostBridge L) (st : ReplyStatus) : List UInt8 :=
  leBytes 2 magic.toNat ++ [version, statusFlags st] ++ leBytes 2 h.hostSeq.toNat ++
    leBytes 2 h.teensyWdog.toNat ++ leBytes 4 st.cycleIndex.toNat ++
    [st.wkc, st.expectedWkc, st.phase, st.faultFlags, UInt8.ofNat (min h.motion.depth 255), 0]

def replyFrame (h : HostBridge L) (image : List UInt8) (st : ReplyStatus) : List UInt8 :=
  let cleared := overwrite h.stagedIn 0 (List.replicate L.misoLen 0)
  let headed := overwrite cleared 0 (h.replyHeader st)
  let inOff := L.bus.imageSize - L.inBytes
  let n := min L.inBytes (image.length - inOff)
  overwrite headed misoHdr (slice image inOff n)

@[simp] theorem length_replyFrame (h : HostBridge L) (image : List UInt8) (st : ReplyStatus) :
    (h.replyFrame image st).length = L.frameLen := by
  simp only [replyFrame, length_overwrite, h.length_stagedIn]

def buildReply (h : HostBridge L) (image : List UInt8) (st : ReplyStatus) : HostBridge L :=
  let h := { h with teensyWdog := h.teensyWdog + 1 }
  let f := h.replyFrame image st
  let pos := L.misoLen - crcLen
  let crc := crc16 (f.take pos)
  { h with
    stagedIn := overwrite f pos (leBytes 2 crc.toNat)
    length_stagedIn := by simp only [f, length_overwrite, length_replyFrame] }

def reply (h : HostBridge L) : List UInt8 := h.stagedIn.take L.misoLen

def enableRequested (h : HostBridge L) : Bool := h.outValid && h.flags &&& flagEnable != 0
def faultResetRequested (h : HostBridge L) : Bool := h.outValid && h.flags &&& flagFaultReset != 0
def quickStopRequested (h : HostBridge L) : Bool := h.flags &&& flagQuickStop != 0
def hasHost (h : HostBridge L) : Bool := h.outValid
def motionUnderrun (h : HostBridge L) : Bool := h.motion.active && h.motion.underrun

end HostBridge

end EcMaster
