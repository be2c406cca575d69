import EcMaster.Receive

namespace EcMaster

open Library.Run Library.Segment

def InWindow (w : ℕ × ℕ) (i : ℕ) : Prop := w.1 ≤ i ∧ i < w.1 + w.2

instance (w : ℕ × ℕ) (i : ℕ) : Decidable (InWindow w i) := inferInstanceAs (Decidable (_ ∧ _))

def Separate (v w : ℕ × ℕ) : Prop := ∀ i, InWindow v i → ¬ InWindow w i

def FmmuCfg.window (f : FmmuCfg) : ℕ × ℕ := (f.logicalStart, f.size)

def BusCfg.inputWindows (bus : BusCfg) : List (ℕ × ℕ) :=
  ((EcDomain.fmmus bus).filter fun f => f.dir = .input).map FmmuCfg.window

def windowEnd (w : ℕ × ℕ) (len : ℕ) : ℕ := min (w.1 + w.2) len

namespace EcDomain

theorem copyInputs_cons (r : ℕ × ℕ) (ranges : List (ℕ × ℕ)) (data image : List UInt8) :
    copyInputs (r :: ranges) data image = copyInputs ranges data (copyInputs [r] data image) := rfl

theorem getElem?_copyInput (r : ℕ × ℕ) (data image : List UInt8) (i : ℕ) :
    (copyInputs [r] data image)[i]? =
      if InWindow r i ∧ windowEnd r image.length ≤ data.length ∧ i < image.length then data[i]? else image[i]? := by
  rw [copyInputs, List.foldl_cons, List.foldl_nil]
  change (if r.1 < windowEnd r image.length ∧ windowEnd r image.length ≤ data.length then
    overwrite image r.1 (slice data r.1 (windowEnd r image.length - r.1)) else image)[i]? = _
  have hend : windowEnd r image.length = min (r.1 + r.2) image.length := rfl
  by_cases hc : r.1 < windowEnd r image.length ∧ windowEnd r image.length ≤ data.length
  · have hl : (slice data r.1 (windowEnd r image.length - r.1)).length = windowEnd r image.length - r.1 :=
      length_slice_of_le (by omega)
    rw [if_pos hc]
    by_cases hi : InWindow r i ∧ i < image.length
    · obtain ⟨⟨h₁, h₂⟩, h₃⟩ := hi
      rw [if_pos ⟨⟨h₁, h₂⟩, hc.2, h₃⟩, getElem?_overwrite_inside h₁ (by omega) h₃, getElem?_slice, if_pos (by omega)]
      congr 1
      omega
    · rw [if_neg fun h => hi ⟨h.1, h.2.2⟩]
      rw [getElem?_overwrite, if_neg]
      rintro ⟨h₁, h₂, h₃⟩
      exact hi ⟨⟨h₁, by omega⟩, h₃⟩
  · rw [if_neg hc, if_neg]
    rintro ⟨⟨h₁, h₂⟩, h₃, h₄⟩
    exact hc ⟨by omega, h₃⟩

theorem copyInputs_outside (ranges : List (ℕ × ℕ)) (data image : List UInt8) {i : ℕ}
    (h : ∀ r ∈ ranges, ¬ InWindow r i) : (copyInputs ranges data image)[i]? = image[i]? := by
  induction ranges generalizing image with
  | nil => rfl
  | cons r ranges ih =>
    rw [copyInputs_cons, ih _ fun s hs => h s (List.mem_cons_of_mem _ hs), getElem?_copyInput,
      if_neg fun hc => h r List.mem_cons_self hc.1]

theorem copyInputs_inside {ranges : List (ℕ × ℕ)} (hd : ranges.Pairwise Separate) (data image : List UInt8)
    {r : ℕ × ℕ} (hr : r ∈ ranges) {i : ℕ} (hi : InWindow r i) :
    (copyInputs ranges data image)[i]? =
      if windowEnd r image.length ≤ data.length ∧ i < image.length then data[i]? else image[i]? := by
  induction ranges generalizing image with
  | nil => exact absurd hr List.not_mem_nil
  | cons s ranges ih =>
    obtain ⟨hs, htail⟩ := List.pairwise_cons.mp hd
    rw [copyInputs_cons]
    rcases List.mem_cons.mp hr with rfl | hmem
    · rw [copyInputs_outside ranges _ _ fun t ht => hs t ht i hi, getElem?_copyInput]
      simp only [hi, true_and]
    · have hne : ¬ InWindow s i := fun h => hs r hmem i h hi
      rw [ih htail _ hmem, length_copyInputs, getElem?_copyInput]
      simp only [hne, false_and, ↓reduceIte]

theorem inputRanges_fromConfig {bus : BusCfg} (h : bus.inputWindows.length ≤ ecMaxSlaves) :
    (fromConfig bus).inputRanges = bus.inputWindows := by
  rw [fromConfig]
  change bus.inputWindows.foldl (pushWithin ecMaxSlaves) [] = _
  rw [foldl_pushWithin _ _ _ (Nat.zero_le _)]
  simpa using h

end EcDomain

/-- What reaches the image of a domain: a received frame, or a write through `image_mut`. -/
inductive ImageEvent (L : Layout)
  | received (frame : List UInt8)
  | written (image : { image : List UInt8 // image.length = min L.bus.imageSize maxImage })

namespace Cyclic

variable {L : Layout}

def exchange (c : Cyclic L) : ImageEvent L → Cyclic L
  | .received frame => c.process frame
  | .written image => c.putImage image.1 (image.2.trans c.domain.length_image.symm)

/-- What was last written through `image_mut`. -/
def lastWritten (es : List (ImageEvent L)) : List UInt8 :=
  es.foldl (fun image e =>
    match e with
    | .received _ => image
    | .written image => image.1) (List.replicate (min L.bus.imageSize maxImage) 0)

/-- What received frames do to the image of an engine. -/
structure InputsOnly (c : Cyclic L) (written : List UInt8) : Prop where
  outside : ∀ i, (∀ w ∈ L.bus.inputWindows, ¬ InWindow w i) → c.domain.image[i]? = written[i]?
  outputs : ∀ frame, ∀ f ∈ EcDomain.fmmus L.bus, f.dir = .output → ∀ i, InWindow f.window i →
    (c.process frame).domain.image[i]? = c.domain.image[i]?
  covered : ∀ frame lrw next, parseAt frame ecFrameHeaderSize = some (lrw, next) → ∀ w ∈ L.bus.inputWindows,
    windowEnd w c.domain.image.length ≤ lrw.data.length → ∀ i, InWindow w i → i < c.domain.image.length →
      (c.process frame).domain.image[i]? = lrw.data[i]?
  uncovered : ∀ frame lrw next, parseAt frame ecFrameHeaderSize = some (lrw, next) → ∀ w ∈ L.bus.inputWindows,
    lrw.data.length < windowEnd w c.domain.image.length → ∀ i, InWindow w i →
      (c.process frame).domain.image[i]? = c.domain.image[i]?
  unread : ∀ frame, parseAt frame ecFrameHeaderSize = none → c.process frame = c

theorem process_domain (c : Cyclic L) (frame : List UInt8) :
    (c.process frame).domain = match parseAt frame ecFrameHeaderSize with
      | some (lrw, _) => (c.domain.applyReply lrw).2
      | none => c.domain := by
  rw [process]
  cases parseAt frame ecFrameHeaderSize with
  | none => rfl
  | some p => exact (c.absorb_holds p.1 _).2

theorem process_inputRanges (c : Cyclic L) (frame : List UInt8) :
    (c.process frame).domain.inputRanges = c.domain.inputRanges := by
  rw [process_domain]
  cases parseAt frame ecFrameHeaderSize <;> rfl

theorem process_outside {c : Cyclic L} (hr : c.domain.inputRanges = L.bus.inputWindows) (frame : List UInt8) {i : ℕ}
    (h : ∀ w ∈ L.bus.inputWindows, ¬ InWindow w i) : (c.process frame).domain.image[i]? = c.domain.image[i]? := by
  rw [process_domain]
  cases parseAt frame ecFrameHeaderSize with
  | none => rfl
  | some p => exact EcDomain.copyInputs_outside _ _ _ (by rw [hr]; exact h)

theorem process_inside {c : Cyclic L} (hr : c.domain.inputRanges = L.bus.inputWindows)
    (hd : L.bus.inputWindows.Pairwise Separate) {frame : List UInt8} {lrw : Reply} {next : ℕ}
    (hp : parseAt frame ecFrameHeaderSize = some (lrw, next)) {w : ℕ × ℕ} (hw : w ∈ L.bus.inputWindows) {i : ℕ}
    (hi : InWindow w i) :
    (c.process frame).domain.image[i]? =
      if windowEnd w c.domain.image.length ≤ lrw.data.length ∧ i < c.domain.image.length then lrw.data[i]?
      else c.domain.image[i]? := by
  rw [process_domain, hp]
  exact EcDomain.copyInputs_inside (by rw [hr]; exact hd) _ _ (by rw [hr]; exact hw) hi

theorem run_image (h : L.bus.inputWindows.length ≤ ecMaxSlaves) (slaves : List CyclicSlave) (ref : UInt16)
    (ns : UInt64) (es : List (ImageEvent L)) :
    (run exchange (Cyclic.new L slaves ref ns) es).domain.inputRanges = L.bus.inputWindows ∧
      ∀ i, (∀ w ∈ L.bus.inputWindows, ¬ InWindow w i) →
        (run exchange (Cyclic.new L slaves ref ns) es).domain.image[i]? = (lastWritten es)[i]? := by
  induction es using List.reverseRecOn with
  | nil => exact ⟨EcDomain.inputRanges_fromConfig h, fun _ _ => rfl⟩
  | append_singleton es e ih =>
    obtain ⟨hr, ho⟩ := ih
    rw [run_concat, lastWritten, List.foldl_append]
    cases e with
    | received frame =>
      refine ⟨(process_inputRanges _ frame).trans hr, fun i hi => ?_⟩
      exact (process_outside hr frame hi).trans (ho i hi)
    | written image => exact ⟨hr, fun _ _ => rfl⟩

theorem inputWindows_separate (hd : (EcDomain.fmmus L.bus).Pairwise fun f g => Separate f.window g.window) :
    L.bus.inputWindows.Pairwise Separate :=
  List.pairwise_map.mpr (hd.sublist List.filter_sublist)

theorem output_apart (hd : (EcDomain.fmmus L.bus).Pairwise fun f g => Separate f.window g.window) {f : FmmuCfg}
    (hf : f ∈ EcDomain.fmmus L.bus) (ho : f.dir = .output) {i : ℕ} (hi : InWindow f.window i) :
    ∀ w ∈ L.bus.inputWindows, ¬ InWindow w i := by
  intro w hw
  obtain ⟨g, hg, rfl⟩ := List.mem_map.mp hw
  obtain ⟨hm, hin⟩ := List.mem_filter.mp hg
  have hne : f ≠ g := by
    rintro rfl
    rw [ho] at hin
    exact absurd hin (by decide)
  have : Std.Symm fun f g : FmmuCfg => Separate f.window g.window := ⟨fun _ _ h i h₁ h₂ => h i h₂ h₁⟩
  exact hd.forall hf hm hne i hi

/-- Whatever frames arrive, with separate windows that all find a place in the domain, only the windows that a
reply covers change, and they become what the reply says. -/
theorem receivedFrames_inputsOnly (hd : (EcDomain.fmmus L.bus).Pairwise fun f g => Separate f.window g.window)
    (h₃₂ : L.bus.inputWindows.length ≤ 32) (slaves : List CyclicSlave) (ref : UInt16) (ns : UInt64)
    (es : List (ImageEvent L)) :
    InputsOnly (run exchange (Cyclic.new L slaves ref ns) es) (lastWritten es) := by
  obtain ⟨hr, ho⟩ := run_image h₃₂ slaves ref ns es
  have hsep := inputWindows_separate hd
  refine ⟨ho, ?_, ?_, ?_, ?_⟩
  · intro frame f hf hout i hi
    exact process_outside hr frame (output_apart hd hf hout hi)
  · intro frame lrw next hp w hw hc i hi hl
    rw [process_inside hr hsep hp hw hi, if_pos ⟨hc, hl⟩]
  · intro frame lrw next hp w hw hc i hi
    rw [process_inside hr hsep hp hw hi, if_neg fun h => absurd h.1 (by omega)]
  · intro frame hp
    rw [process, hp]

theorem receivedFrames_inputsOnly_answered :
    InputsOnly (run exchange (Cyclic.new (oneDrive 1) [⟨0x1001, 0⟩] 0 1000000)
        [.written ⟨[1, 2, 3, 4, 5], rfl⟩, .received (answerFrame .lrw 0 [9, 9, 9, 7, 7] 3 [])])
      (lastWritten (L := oneDrive 1)
        [.written ⟨[1, 2, 3, 4, 5], rfl⟩, .received (answerFrame .lrw 0 [9, 9, 9, 7, 7] 3 [])]) := by
  refine receivedFrames_inputsOnly ?_ (by decide) _ _ _ _
  have hapart : Separate (0, 3) (3, 2) := fun i h₁ h₂ => absurd h₂.1 (by have := h₁.2; simp only at this ⊢; omega)
  exact List.pairwise_pair.mpr hapart

end Cyclic

end EcMaster
