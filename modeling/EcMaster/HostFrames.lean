import EcMaster.HostBridge

namespace EcMaster

open Library.Segment Library.LittleEndian

def streaming (L : Layout) : Bool := 0 < min L.streamSampleBytes motionSampleMax

def frameSamples (L : Layout) (mosi : List UInt8) : MotionQueue :=
  (List.range (min (mosi.getD L.streamOff 0).toNat L.maxSamplesPerFrame)).map fun i =>
    let at' := L.streamOff + streamHdr + i * L.sampleStride
    (u32Le (slice mosi at' 4), (slice mosi (at' + 4) L.streamSampleBytes).take motionSampleMax)

def sealFrame (body : List UInt8) : List UInt8 := body ++ leBytes 2 (crc16 body).toNat

theorem sealFrame_accepted {L : Layout} {body : List UInt8} (hl : body.length + 2 = L.mosiLen)
    (hm : u16Le (body.take 2) = magic) : Accepted L (sealFrame body) := by
  have hp : L.crcPos = body.length := by
    simp only [Layout.crcPos, crcLen]
    omega
  have h2 : 2 ≤ body.length := by
    simp only [Layout.mosiLen, mosiHdr, crcLen, streamHdr] at hl
    omega
  have hs : slice (sealFrame body) body.length 2 = leBytes 2 (crc16 body).toNat := by
    have h := slice_append body (leBytes 2 (crc16 body).toNat) []
    rwa [List.append_nil, length_leBytes] at h
  refine ⟨?_, ?_, ?_⟩
  · simp [sealFrame, hl]
  · rw [slice_zero, sealFrame, List.take_append_of_le_length h2, hm]
  · rw [hp, hs, u16Le_leBytes, sealFrame, List.take_left]

def enableFrame (target : UInt8) : List UInt8 :=
  sealFrame [0xEC, 0xA7, 1, flagEnable, 1, 0, 1, 0, 0, 0, target, 0, 0, 0, 0, 0, 0]

def streamFrame (target tag payload : UInt8) : List UInt8 :=
  sealFrame [0xEC, 0xA7, 1, flagEnable, 1, 0, 1, 0, 0, 0, target, 1, tag, 0, 0, 0, payload]

namespace HostBridge

variable {L : Layout}

structure Absorbs (h : HostBridge L) (mosi : List UInt8) (h' : HostBridge L) : Prop where
  flags : h'.flags = mosi.getD 3 0
  hostSeq : h'.hostSeq = u16Le (slice mosi 4 2)
  hostWdog : h'.hostWdog = u16Le (slice mosi 6 2)
  stagedOut : h'.stagedOut = slice mosi mosiHdr L.outBytes
  outValid : h'.outValid = true
  samples : h'.motion.samples =
    h.motion.samples ++ if streaming L then (frameSamples L mosi).take (motionRingDepth - h.motion.len) else []
  lastSeenWdog : h'.lastSeenWdog = h.lastSeenWdog
  wdogStallCycles : h'.wdogStallCycles = h.wdogStallCycles
  stagedIn : h'.stagedIn = h.stagedIn
  teensyWdog : h'.teensyWdog = h.teensyWdog
  crcErrs : h'.crcErrs = h.crcErrs
  framesIn : h'.framesIn = h.framesIn + 1

theorem active_eq (h : HostBridge L) : h.motion.active = streaming L := by
  rw [MotionRing.active, h.motion_sampleLen, streaming]

theorem ingest_rejected {mosi : List UInt8} (hm : ¬ Accepted L mosi) (h : HostBridge L) :
    h.ingest mosi = h.reject := by
  have hcrc : L.crcPos + 2 = L.mosiLen := by simp [Layout.crcPos, Layout.mosiLen, crcLen]
  rw [ingest]
  by_cases hl : mosi.length < L.mosiLen
  · rw [if_pos hl]
  · have hle := not_lt.mp hl
    have hmagic : slice (mosi.take L.mosiLen) 0 2 = slice mosi 0 2 := slice_take (by omega)
    have hsum : slice (mosi.take L.mosiLen) L.crcPos 2 = slice mosi L.crcPos 2 := slice_take (by omega)
    have hbody : (mosi.take L.mosiLen).take L.crcPos = mosi.take L.crcPos := by
      rw [List.take_take, min_eq_left (by omega)]
    rw [if_neg hl]
    simp only [hmagic, hsum, hbody]
    by_cases h₁ : u16Le (slice mosi 0 2) = magic
    · have h₂ : ¬ crc16 (mosi.take L.crcPos) = u16Le (slice mosi L.crcPos 2) := fun h₂ => hm ⟨hle, h₁, h₂⟩
      rw [if_neg (not_not.mpr h₁), if_pos h₂]
    · rw [if_pos h₁]

theorem samples_ingest {mosi : List UInt8} (hl : L.mosiLen ≤ mosi.length) {r : MotionRing}
    (hr : r.sampleLen = min L.streamSampleBytes motionSampleMax) :
    (pushSamples L
      (slice (mosi.take L.mosiLen) (L.streamOff + streamHdr) (L.crcPos - (L.streamOff + streamHdr)))
      (List.range (min ((mosi.take L.mosiLen).getD L.streamOff 0).toNat L.maxSamplesPerFrame)) r).samples =
      r.samples ++ (frameSamples L mosi).take (motionRingDepth - r.len) := by
  have hpos : L.crcPos - (L.streamOff + streamHdr) = L.hostStreamBytes := by
    simp only [Layout.crcPos, Layout.mosiLen, Layout.streamOff, crcLen]
    omega
  have hend : L.streamOff + streamHdr + L.hostStreamBytes ≤ L.mosiLen := by
    simp only [Layout.mosiLen, Layout.streamOff]
    omega
  have hblock : slice (mosi.take L.mosiLen) (L.streamOff + streamHdr) L.hostStreamBytes =
      slice mosi (L.streamOff + streamHdr) L.hostStreamBytes := slice_take hend
  have hcount : (mosi.take L.mosiLen).getD L.streamOff 0 = mosi.getD L.streamOff 0 := by
    rw [List.getD_eq_getElem?_getD, List.getD_eq_getElem?_getD,
      List.getElem?_take_of_lt (by simp only [streamHdr] at hend; omega)]
  have hstride : ∀ i < L.maxSamplesPerFrame, i * L.sampleStride + L.sampleStride ≤ L.hostStreamBytes := by
    intro i hi
    rw [← Nat.succ_mul]
    exact Nat.mul_le_mul_right _ hi
  rw [hpos, hblock, hcount, samples_pushSamples, foldl_pushWithin _ _ _ (by simpa using r.len_le),
    MotionRing.length_samples, frameSamples]
  · congr 2
    apply List.map_congr_left
    intro i hi
    have hi' := hstride i (lt_of_lt_of_le (List.mem_range.mp hi) (min_le_right _ _))
    have h4 : i * L.sampleStride + (4 + L.streamSampleBytes) ≤ L.hostStreamBytes := hi'
    have hp : (slice mosi (L.streamOff + streamHdr + i * L.sampleStride + 4) L.streamSampleBytes).length =
        L.streamSampleBytes := length_slice_of_le (by omega)
    rw [slice_slice (by omega), slice_slice (by omega), ← Nat.add_assoc, MotionRing.fit, hp, hr]
    have hz : min L.streamSampleBytes motionSampleMax - L.streamSampleBytes = 0 := by omega
    have ht : min (min L.streamSampleBytes motionSampleMax) L.streamSampleBytes =
        min motionSampleMax L.streamSampleBytes := by omega
    simp only [hz, List.replicate_zero, List.append_nil, slice, List.take_take, ht]
  · intro i hi
    rw [length_slice_of_le (by omega)]
    exact hstride i (lt_of_lt_of_le (List.mem_range.mp hi) (min_le_right _ _))

theorem ingest_accepted {mosi : List UInt8} (ha : Accepted L mosi) (h : HostBridge L) :
    h.Absorbs mosi (h.ingest mosi) := by
  obtain ⟨hl, hmagic, hcrc⟩ := ha
  have hpos : L.crcPos + 2 = L.mosiLen := by simp [Layout.crcPos, Layout.mosiLen, crcLen]
  have h8 : 8 ≤ L.mosiLen := by simp only [Layout.mosiLen, mosiHdr]; omega
  have hout : mosiHdr + L.outBytes ≤ L.mosiLen := by simp only [Layout.mosiLen]; omega
  have hs : ∀ off n, off + n ≤ L.mosiLen → slice (mosi.take L.mosiLen) off n = slice mosi off n :=
    fun off n h => slice_take h
  have hbody : (mosi.take L.mosiLen).take L.crcPos = mosi.take L.crcPos := by
    rw [List.take_take, min_eq_left (by omega)]
  have hflags : (mosi.take L.mosiLen).getD 3 0 = mosi.getD 3 0 := by
    rw [List.getD_eq_getElem?_getD, List.getD_eq_getElem?_getD,
      List.getElem?_take_of_lt (by simp only [mosiHdr] at hout; omega)]
  have hstaged : overwrite h.stagedOut 0 (slice mosi mosiHdr L.outBytes) = slice mosi mosiHdr L.outBytes := by
    have hn : (slice mosi mosiHdr L.outBytes).length = L.outBytes := length_slice_of_le (by omega)
    rw [overwrite_front _ _ (by rw [hn, h.length_stagedOut]), hn, ← h.length_stagedOut, List.drop_length,
      List.append_nil]
  have hsamples := samples_ingest hl h.motion_sampleLen
  have hact := h.active_eq
  rw [ingest, if_neg hl.not_gt]
  simp only [hs 0 2 (by omega), hs L.crcPos 2 (by omega), hs 4 2 (by omega), hs 6 2 (by omega), hs mosiHdr _ hout,
    hbody, hflags]
  rw [if_neg (not_not.mpr hmagic), if_neg (not_not.mpr hcrc)]
  refine ⟨rfl, rfl, rfl, hstaged, rfl, ?_, rfl, rfl, rfl, rfl, rfl, rfl⟩
  simp only [hact]
  split_ifs
  · exact hsamples
  · rw [List.append_nil]

end HostBridge

end EcMaster
