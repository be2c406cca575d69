import EcMaster.HostSends

namespace EcMaster

open Library.Segment Library.LittleEndian

def Layout.SampleFits (L : Layout) : Prop := ∀ f ∈ L.streamFields, f.sampleOff + f.len ≤ L.streamSampleBytes

variable {L : Layout}

@[simp] theorem length_writePayload (hal : Hal) (frame : List UInt8) (payload : ℕ) :
    (writePayload L hal frame payload).length = frame.length := by
  rw [writePayload]
  induction L.teensyMotion generalizing frame with
  | nil => rfl
  | cons m ms ih => rw [List.foldl_cons, ih, length_putLe]

theorem foldl_payload_outside (hal : Hal) (ms : List TeensyMotion) (frame : List UInt8) {payload n i : ℕ}
    (hm : ∀ m ∈ ms, m.sampleOff + m.len ≤ n) (hi : i < payload ∨ payload + n ≤ i) :
    (ms.foldl (fun frame m => putLe frame (payload + m.sampleOff) (motionValue L hal m) m.len) frame)[i]? =
      frame[i]? := by
  induction ms generalizing frame with
  | nil => rfl
  | cons m ms ih =>
    have hf := hm m List.mem_cons_self
    rw [List.foldl_cons, ih _ (fun x hx => hm x (List.mem_cons_of_mem _ hx)), putLe_outside _ (by omega)]

theorem writePayload_outside (hf : L.SampleFits) (hal : Hal) (frame : List UInt8) {payload i : ℕ}
    (hi : i < payload ∨ payload + L.streamSampleBytes ≤ i) : (writePayload L hal frame payload)[i]? = frame[i]? := by
  apply foldl_payload_outside hal _ frame _ hi
  intro m hm
  obtain ⟨f, hfm, rfl⟩ := List.mem_map.mp hm
  exact hf f hfm

@[simp] theorem length_writeSamples (hal : Hal) (n : ℕ) (frame : List UInt8) (s : ℕ) (tag : UInt32) :
    (writeSamples L hal n frame s tag).length = frame.length := by
  induction n generalizing frame s tag with
  | zero => rfl
  | succ n ih => rw [writeSamples, ih, length_writePayload, length_putLe]

theorem writeSamples_before (hf : L.SampleFits) (hal : Hal) (n : ℕ) (frame : List UInt8) {s i : ℕ} (tag : UInt32)
    (hi : i < s) : (writeSamples L hal n frame s tag)[i]? = frame[i]? := by
  induction n generalizing frame s tag with
  | zero => rfl
  | succ n ih =>
    rw [writeSamples, ih _ _ (by omega), writePayload_outside hf hal _ (Or.inl (by omega)), putLe_outside _ (Or.inl hi)]

theorem slice_writeSamples (hf : L.SampleFits) (hal : Hal) {n j : ℕ} (hj : j < n) (frame : List UInt8) (s : ℕ)
    (tag : UInt32) (hl : s + n * L.sampleStride ≤ frame.length) :
    slice (writeSamples L hal n frame s tag) (s + j * L.sampleStride) 4 =
      leBytes 4 (tag + UInt32.ofNat j).toNat := by
  have hstride : L.sampleStride = 4 + L.streamSampleBytes := rfl
  induction n generalizing frame s tag j with
  | zero => omega
  | succ n ih =>
    have hsum : (n + 1) * L.sampleStride = n * L.sampleStride + L.sampleStride := Nat.succ_mul _ _
    rw [writeSamples]
    cases j with
    | zero =>
      have hz : s + 0 * L.sampleStride = s := by omega
      rw [hz, slice_congr fun i _ h₂ => writeSamples_before hf hal n _ (tag + 1) (by omega),
        slice_congr fun i h₁ h₂ => writePayload_outside hf hal _ (Or.inl (by omega)),
        slice_putLe tag (by decide) (by omega)]
      simp
    | succ j =>
      have hoff : s + (j + 1) * L.sampleStride = s + L.sampleStride + j * L.sampleStride := by
        rw [Nat.succ_mul]
        omega
      have htag : tag + 1 + UInt32.ofNat j = tag + UInt32.ofNat (j + 1) := by
        rw [UInt32.ofNat_add, add_assoc, add_comm 1]
        rfl
      rw [hoff, ih (by omega) _ (s + L.sampleStride) (tag + 1) (by rw [length_writePayload, length_putLe]; omega), htag]

namespace HostComponent

theorem header_outside (h : HostComponent) (hal : Hal) {i : ℕ} (hi : i < 2) :
    (h.header L hal)[i]? = ([0xEC, 0xA7] : List UInt8)[i]? := by
  have hl : 8 ≤ L.frameLen := by
    rw [Layout.frameLen, Layout.mosiLen, Layout.misoLen, mosiHdr, misoHdr]
    split_ifs <;> omega
  rw [header, putLe_outside _ (by omega), putLe_outside _ (by omega)]
  have h0 : 0 < L.frameLen := by omega
  have h1 : 1 < L.frameLen := by omega
  interval_cases i
  · simp [h0]
    decide
  · simp [h1]
    decide

@[simp] theorem length_header (h : HostComponent) (hal : Hal) : (h.header L hal).length = L.frameLen := by
  simp [header]

theorem want_le (h : HostComponent) (hcap : 0 < L.maxSamplesPerFrame) : h.want L ≤ L.maxSamplesPerFrame := by
  rw [want]
  split_ifs <;> omega

theorem buildFrame_body (hf : L.SampleFits) (h : HostComponent) (hal : Hal) :
    ∃ motion : List UInt8, motion.length = L.frameLen ∧
      (∀ i < L.streamOff, motion[i]? = (serializePins L hal (h.advance.header L hal))[i]?) ∧
      (h.buildFrame L hal).1 = putLe motion (L.mosiLen - 2) (crc16 (motion.take (L.mosiLen - 2))).toUInt32 2 := by
  refine ⟨(h.advance.buildMotion L hal (serializePins L hal (h.advance.header L hal))).1, ?_, ?_, rfl⟩
  · rw [buildMotion]
    split_ifs <;> simp
  · intro i hi
    rw [buildMotion]
    split_ifs
    · exact List.getElem?_set_ne (by omega)
    · rw [writeSamples_before hf hal _ _ _ (by omega), List.getElem?_set_ne (by omega)]

theorem mosiLen_le (L : Layout) : L.streamOff + 3 ≤ L.mosiLen ∧ L.mosiLen ≤ L.frameLen := by
  rw [Layout.streamOff, Layout.frameLen, Layout.mosiLen, streamHdr, crcLen]
  split_ifs <;> omega

theorem length_buildFrame (hf : L.SampleFits) (h : HostComponent) (hal : Hal) :
    (h.buildFrame L hal).1.length = L.frameLen := by
  obtain ⟨motion, hml, -, hmosi⟩ := h.buildFrame_body hf hal
  rw [hmosi, length_putLe, hml]

theorem buildFrame_front (hf : L.SampleFits) (h : HostComponent) (hal : Hal) {i : ℕ} (hi : i < L.streamOff) :
    (h.buildFrame L hal).1[i]? = (serializePins L hal (h.advance.header L hal))[i]? := by
  obtain ⟨motion, -, hfront, hmosi⟩ := h.buildFrame_body hf hal
  have hlen := mosiLen_le L
  rw [hmosi, putLe_outside _ (Or.inl (by omega)), hfront i hi]

theorem buildFrame_accepted (hf : L.SampleFits) (h : HostComponent) (hal : Hal) :
    Accepted L (h.buildFrame L hal).1 := by
  obtain ⟨motion, hml, hfront, hmosi⟩ := h.buildFrame_body hf hal
  obtain ⟨hoff, hlen⟩ := mosiLen_le L
  have hpos : L.crcPos = L.mosiLen - 2 := rfl
  have h8 : mosiHdr ≤ L.streamOff := by
    rw [Layout.streamOff]
    omega
  have hmagic : slice (h.buildFrame L hal).1 0 2 = [0xEC, 0xA7] := by
    apply List.ext_getElem?
    intro i
    rw [getElem?_slice, Nat.zero_add]
    rw [mosiHdr] at h8
    split_ifs with hi
    · rw [h.buildFrame_front hf hal (by omega), serializePins_header hal _ (by rw [mosiHdr]; omega),
        header_outside _ hal hi]
    · rw [List.getElem?_eq_none (by simp; omega)]
  have htake : (h.buildFrame L hal).1.take (L.mosiLen - 2) = motion.take (L.mosiLen - 2) := by
    apply List.ext_getElem?
    intro i
    rw [List.getElem?_take, List.getElem?_take, hmosi]
    split_ifs with hi
    · exact putLe_outside _ (Or.inl hi)
    · rfl
  have hcrc : slice (h.buildFrame L hal).1 (L.mosiLen - 2) 2 =
      leBytes 2 (crc16 (motion.take (L.mosiLen - 2))).toUInt32.toNat := by
    rw [hmosi, slice_putLe _ (by decide) (by rw [hml]; omega)]
  refine ⟨?_, ?_, ?_⟩
  · rw [h.length_buildFrame hf hal]
    exact hlen
  · rw [hmagic]
    rfl
  · rw [hpos, htake, hcrc, UInt16.toNat_toUInt32, u16Le_leBytes]

structure Sends (h : HostComponent) (mosi : List UInt8) (h' : HostComponent) : Prop where
  accepted : Accepted L mosi
  tags : (frameSamples L mosi).map Prod.fst = (List.range (h.want L)).map fun j => h.resync + UInt32.ofNat j
  nextTag : h'.nextTag = h.resync + UInt32.ofNat (h.want L)
  primed : h'.primed = true
  lastBufDepth : h'.lastBufDepth = h.lastBufDepth
  lastCycleIndex : h'.lastCycleIndex = h.lastCycleIndex
  lead : h'.lead = h.lead

theorem buildFrame_eq (h : HostComponent) (hal : Hal) (hm : L.streamFields ≠ []) :
    ∃ motion : List UInt8,
      motion = writeSamples L hal (h.want L)
        ((serializePins L hal (h.advance.header L hal)).set L.streamOff (UInt8.ofNat (h.want L)))
        (L.streamOff + 1) h.resync ∧
      (h.buildFrame L hal).1 =
        putLe motion (L.mosiLen - 2) (crc16 (motion.take (L.mosiLen - 2))).toUInt32 2 ∧
      (h.buildFrame L hal).2 =
        { h.advance with primed := true, nextTag := h.resync + UInt32.ofNat (h.want L) } := by
  have hne : L.teensyMotion ≠ [] := by
    rw [Layout.teensyMotion]
    exact fun hn => hm (List.map_eq_nil_iff.mp hn)
  refine ⟨_, rfl, ?_, ?_⟩
  · rw [buildFrame, buildMotion, if_neg hne]
    rfl
  · rw [buildFrame, buildMotion, if_neg hne]
    rfl

theorem buildFrame_streams (hf : L.SampleFits) (hm : L.streamFields ≠ []) (hcap : 0 < L.maxSamplesPerFrame)
    (hbyte : L.maxSamplesPerFrame < 256) (h : HostComponent) (hal : Hal) :
    ∃ frame : List UInt8, frame.length = L.frameLen ∧
      (∀ i < L.mosiLen - 2, (h.buildFrame L hal).1[i]? =
        (writeSamples L hal (h.want L) frame (L.streamOff + 1) h.resync)[i]?) ∧
      ((h.buildFrame L hal).1.getD L.streamOff 0).toNat = h.want L ∧
      L.streamOff + 1 + h.want L * L.sampleStride ≤ L.mosiLen - 2 := by
  obtain ⟨motion, hmotion, hmosi, -⟩ := h.buildFrame_eq hal hm
  have hwant := h.want_le hcap
  have hlen := (mosiLen_le L).2
  have hend : L.streamOff + 1 + L.maxSamplesPerFrame * L.sampleStride + 2 = L.mosiLen := rfl
  have hspan : h.want L * L.sampleStride ≤ L.maxSamplesPerFrame * L.sampleStride := Nat.mul_le_mul_right _ hwant
  have hbefore : ∀ i < L.mosiLen - 2, (h.buildFrame L hal).1[i]? = motion[i]? := by
    intro i hi
    rw [hmosi, putLe_outside _ (Or.inl hi)]
  refine ⟨(serializePins L hal (h.advance.header L hal)).set L.streamOff (UInt8.ofNat (h.want L)), by simp, ?_, ?_,
    by omega⟩
  · rw [← hmotion]
    exact hbefore
  · rw [List.getD_eq_getElem?_getD, hbefore _ (by omega), hmotion, writeSamples_before hf hal _ _ _ (by omega),
      List.getElem?_set_self (by simp; omega), Option.getD_some, UInt8.toNat_ofNat']
    omega

theorem sample_inside {n j : ℕ} (hj : j < n) : j * L.sampleStride + L.sampleStride ≤ n * L.sampleStride := by
  rw [← Nat.succ_mul]
  exact Nat.mul_le_mul_right _ hj

theorem buildFrame_sends (hf : L.SampleFits) (hm : L.streamFields ≠ []) (hcap : 0 < L.maxSamplesPerFrame)
    (hbyte : L.maxSamplesPerFrame < 256) (h : HostComponent) (hal : Hal) :
    h.Sends (L := L) (h.buildFrame L hal).1 (h.buildFrame L hal).2 := by
  obtain ⟨-, -, -, hnext⟩ := h.buildFrame_eq hal hm
  obtain ⟨frame, hframe, hbefore, hcount, hspan⟩ := h.buildFrame_streams hf hm hcap hbyte hal
  have hlen := (mosiLen_le L).2
  refine ⟨h.buildFrame_accepted hf hal, ?_, by rw [hnext], by rw [hnext], by rw [hnext]; rfl, by rw [hnext]; rfl,
    by rw [hnext]; rfl⟩
  rw [frameSamples, hcount, min_eq_left (h.want_le hcap), List.map_map]
  apply List.map_congr_left
  intro j hj
  have hj := List.mem_range.mp hj
  have hjs := sample_inside (L := L) hj
  have hstride : L.sampleStride = 4 + L.streamSampleBytes := rfl
  have hslice : slice (h.buildFrame L hal).1 (L.streamOff + streamHdr + j * L.sampleStride) 4 =
      leBytes 4 (h.resync + UInt32.ofNat j).toNat := by
    rw [slice_congr fun i _ h₂ => hbefore i (by rw [streamHdr] at h₂; omega)]
    exact slice_writeSamples hf hal hj _ _ _ (by rw [hframe]; omega)
  simp only [Function.comp_apply, hslice, u32Le_leBytes]

end HostComponent

end EcMaster
