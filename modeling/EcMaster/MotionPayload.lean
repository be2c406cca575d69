import EcMaster.HostStream
import EcMaster.HostOutputs
import EcMaster.MotionRows
import EcMaster.PinWire

namespace EcMaster

open Library.Packing Library.Segment Library.LittleEndian

def wordBytes (v : UInt32) (n : ℕ) : List UInt8 := (List.range n).map fun i => (v >>> UInt32.ofNat (8 * i)).toUInt8

theorem getElem?_wordBytes {n i : ℕ} (hi : i < n) (v : UInt32) :
    (wordBytes v n)[i]? = some (v >>> UInt32.ofNat (8 * i)).toUInt8 := by
  rw [wordBytes, List.getElem?_map, List.getElem?_range hi, Option.map_some]

@[simp] theorem length_wordBytes (v : UInt32) (n : ℕ) : (wordBytes v n).length = n := by
  rw [wordBytes, List.length_map, List.length_range]

theorem wordBytes_eq {n : ℕ} (hn : n ≤ 4) (v : UInt32) : wordBytes v n = leBytes n v.toNat := by
  apply List.ext_getElem?
  intro i
  by_cases hi : i < n
  · rw [getElem?_wordBytes hi, getElem?_leBytes hi, shiftRight_byte (by omega)]
  · rw [List.getElem?_eq_none (by simp; omega), List.getElem?_eq_none (by simp; omega)]

theorem slice_putLe_wordBytes {buf : List UInt8} {off n : ℕ} (v : UInt32) (hl : off + n ≤ buf.length) :
    slice (putLe buf off v n) off n = wordBytes v n := by
  apply List.ext_getElem?
  intro i
  rw [getElem?_slice]
  split_ifs with hi
  · rw [putLe_inside v hi hl, getElem?_wordBytes hi]
  · rw [List.getElem?_eq_none (by simp; omega)]

variable {L : Layout}

def Layout.SampleInOrder (L : Layout) : Prop := L.streamFields.Pairwise fun f g => f.sampleOff + f.len ≤ g.sampleOff

theorem foldl_payload_apart (hal : Hal) (ms : List TeensyMotion) (frame : List UInt8) {payload i : ℕ}
    (hm : ∀ m ∈ ms, i < payload + m.sampleOff) :
    (ms.foldl (fun frame m => putLe frame (payload + m.sampleOff) (motionValue L hal m) m.len) frame)[i]? =
      frame[i]? := by
  induction ms generalizing frame with
  | nil => rfl
  | cons m ms ih =>
    rw [List.foldl_cons, ih _ fun x hx => hm x (List.mem_cons_of_mem _ hx),
      putLe_outside _ (Or.inl (hm m List.mem_cons_self))]

theorem slice_foldl_payload (hal : Hal) {ms : List TeensyMotion}
    (ho : ms.Pairwise fun m m' => m.sampleOff + m.len ≤ m'.sampleOff) (frame : List UInt8) {payload n : ℕ}
    (hf : ∀ m ∈ ms, m.sampleOff + m.len ≤ n) (hl : payload + n ≤ frame.length) {m : TeensyMotion} (hm : m ∈ ms) :
    slice (ms.foldl (fun frame m => putLe frame (payload + m.sampleOff) (motionValue L hal m) m.len) frame)
      (payload + m.sampleOff) m.len = wordBytes (motionValue L hal m) m.len := by
  induction ms generalizing frame with
  | nil => exact absurd hm List.not_mem_nil
  | cons a ms ih =>
    obtain ⟨hlater, ho⟩ := List.pairwise_cons.mp ho
    rw [List.foldl_cons]
    rcases List.mem_cons.mp hm with rfl | hm
    · have hfit := hf m List.mem_cons_self
      rw [slice_congr fun i _ hi => foldl_payload_apart hal ms _ fun b hb => by have := hlater b hb; omega]
      exact slice_putLe_wordBytes _ (by omega)
    · exact ih ho _ (fun b hb => hf b (List.mem_cons_of_mem _ hb)) (by rw [length_putLe]; exact hl) hm

theorem slice_writePayload (hf : L.SampleFits) (ho : L.SampleInOrder) (hal : Hal) (frame : List UInt8) {payload : ℕ}
    (hl : payload + L.streamSampleBytes ≤ frame.length) {m : TeensyMotion} (hm : m ∈ L.teensyMotion) :
    slice (writePayload L hal frame payload) (payload + m.sampleOff) m.len = wordBytes (motionValue L hal m) m.len := by
  apply slice_foldl_payload hal _ frame _ hl hm
  · exact List.pairwise_map.mpr ho
  · intro m hm
    obtain ⟨f, hfm, rfl⟩ := List.mem_map.mp hm
    exact hf f hfm

theorem slice_writeSamples_payload (hf : L.SampleFits) (ho : L.SampleInOrder) (hal : Hal) {n j : ℕ} (hj : j < n)
    (frame : List UInt8) (s : ℕ) (tag : UInt32) (hl : s + n * L.sampleStride ≤ frame.length) {m : TeensyMotion}
    (hm : m ∈ L.teensyMotion) :
    slice (writeSamples L hal n frame s tag) (s + j * L.sampleStride + 4 + m.sampleOff) m.len =
      wordBytes (motionValue L hal m) m.len := by
  have hstride : L.sampleStride = 4 + L.streamSampleBytes := rfl
  have hfit : m.sampleOff + m.len ≤ L.streamSampleBytes := by
    obtain ⟨f, hfm, rfl⟩ := List.mem_map.mp hm
    exact hf f hfm
  induction n generalizing frame s tag j with
  | zero => omega
  | succ n ih =>
    have hsum : (n + 1) * L.sampleStride = n * L.sampleStride + L.sampleStride := Nat.succ_mul _ _
    rw [writeSamples]
    cases j with
    | zero =>
      have hz : s + 0 * L.sampleStride + 4 + m.sampleOff = s + 4 + m.sampleOff := by omega
      rw [hz, slice_congr fun i _ h₂ => writeSamples_before hf hal n _ (tag + 1) (by omega)]
      exact slice_writePayload hf ho hal _ (by rw [length_putLe]; omega) hm
    | succ j =>
      have hoff : s + (j + 1) * L.sampleStride + 4 + m.sampleOff =
          s + L.sampleStride + j * L.sampleStride + 4 + m.sampleOff := by
        rw [Nat.succ_mul]
        omega
      rw [hoff]
      exact ih (by omega) _ (s + L.sampleStride) (tag + 1) (by rw [length_writePayload, length_putLe]; omega)

namespace HostComponent

theorem buildFrame_payload (hf : L.SampleFits) (ho : L.SampleInOrder) (hcap : 0 < L.maxSamplesPerFrame)
    (hbyte : L.maxSamplesPerFrame < 256) (hfits : L.streamSampleBytes ≤ motionSampleMax) (h : HostComponent) (hal : Hal)
    {sample : UInt32 × List UInt8} (hs : sample ∈ frameSamples L (h.buildFrame L hal).1) {m : TeensyMotion}
    (hm : m ∈ L.teensyMotion) : sample.2.length = L.streamSampleBytes ∧
      slice sample.2 m.sampleOff m.len = wordBytes (motionValue L hal m) m.len := by
  have hfields : L.streamFields ≠ [] := by
    obtain ⟨f, hfm, -⟩ := List.mem_map.mp hm
    exact List.ne_nil_of_mem hfm
  have hfit : m.sampleOff + m.len ≤ L.streamSampleBytes := by
    obtain ⟨f, hfm, rfl⟩ := List.mem_map.mp hm
    exact hf f hfm
  obtain ⟨frame, hframe, hbefore, hcount, hspan⟩ := h.buildFrame_streams hf hfields hcap hbyte hal
  have hlen := (mosiLen_le L).2
  have hstride : L.sampleStride = 4 + L.streamSampleBytes := rfl
  rw [frameSamples, hcount, min_eq_left (h.want_le hcap)] at hs
  obtain ⟨j, hj, rfl⟩ := List.mem_map.mp hs
  have hj := List.mem_range.mp hj
  have hjs := sample_inside (L := L) hj
  have hblock : (slice (h.buildFrame L hal).1 (L.streamOff + streamHdr + j * L.sampleStride + 4)
      L.streamSampleBytes).length = L.streamSampleBytes :=
    length_slice_of_le (by rw [h.length_buildFrame hf hal, streamHdr]; omega)
  dsimp only
  rw [List.take_of_length_le (by rw [hblock]; exact hfits)]
  refine ⟨hblock, ?_⟩
  rw [slice_slice hfit, slice_congr fun i _ h₂ => hbefore i (by rw [streamHdr] at h₂; omega)]
  exact slice_writeSamples_payload hf ho hal hj _ _ _ (by rw [hframe]; omega) hm

end HostComponent

theorem applyFields_nonempty (fields : List StreamField) (payload image : List UInt8) :
    applyFields fields payload image = applyFields (fields.filter fun f => 0 < f.len) payload image := by
  induction fields generalizing image with
  | nil => rfl
  | cons f fields ih =>
    rw [applyFields_cons, ih, List.filter_cons]
    by_cases hf : 0 < f.len
    · rw [if_pos (decide_eq_true hf), applyFields_cons]
    · have hz : f.len = 0 := by omega
      have hnil : slice payload f.sampleOff f.len = [] := by rw [hz, slice, List.take_zero]
      rw [hnil, overwrite_nil_src, ite_self, decide_eq_false hf, if_neg (by decide)]

def StreamField.bytes (f : StreamField) : Set ℕ := Set.Ico f.imageOff (f.imageOff + f.len)

theorem HostBridge.slice_applyOutputs (hd : L.streamFields.Pairwise fun f g => Disjoint f.bytes g.bytes)
    {b : HostBridge L} (hv : b.outValid = true) (image : List UInt8) {cycleIndex : UInt32} {payload : List UInt8}
    (hdue : b.dueSample cycleIndex = some payload) {f : StreamField} (hf : f ∈ L.streamFields) (hlen : 0 < f.len)
    (hfit : f.Fits payload.length image.length) :
    slice (b.applyOutputs image cycleIndex).1 f.imageOff f.len = slice payload f.sampleOff f.len := by
  have hapart : (L.streamFields.filter fun f => 0 < f.len).Pairwise StreamField.Apart := by
    rw [List.pairwise_filter]
    refine hd.imp fun {f g} h hf hg => ?_
    rw [StreamField.bytes, StreamField.bytes, Set.Ico_disjoint_Ico] at h
    have hf' := of_decide_eq_true hf
    have hg' := of_decide_eq_true hg
    rw [StreamField.Apart]
    omega
  have hl : (b.withBlock image).length = image.length := length_overwrite _ _ _
  rw [HostBridge.applyOutputs_image hv, hdue]
  dsimp only
  rw [applyFields_nonempty,
    slice_applyFields payload _ hapart (List.mem_filter.mpr ⟨hf, decide_eq_true hlen⟩), hl, if_pos hfit]

end EcMaster
