import EcMaster.HostFrames

namespace EcMaster

open Library.Segment Library.LittleEndian

namespace StreamField

def Covers (f : StreamField) (i : ℕ) : Prop := f.imageOff ≤ i ∧ i < f.imageOff + f.len

def Fits (f : StreamField) (payload image : ℕ) : Prop :=
  f.sampleOff + f.len ≤ payload ∧ f.imageOff + f.len ≤ image

def Apart (f g : StreamField) : Prop :=
  f.imageOff + f.len ≤ g.imageOff ∨ g.imageOff + g.len ≤ f.imageOff

instance (f : StreamField) (i : ℕ) : Decidable (f.Covers i) := by unfold Covers; infer_instance

instance (f : StreamField) (p n : ℕ) : Decidable (f.Fits p n) := by unfold Fits; infer_instance

end StreamField

theorem applyFields_cons (f : StreamField) (fields : List StreamField) (payload image : List UInt8) :
    applyFields (f :: fields) payload image = applyFields fields payload
      (if f.Fits payload.length image.length then
        overwrite image f.imageOff (slice payload f.sampleOff f.len)
      else image) := rfl

@[simp] theorem length_applyFields (fields : List StreamField) (payload image : List UInt8) :
    (applyFields fields payload image).length = image.length := by
  induction fields generalizing image with
  | nil => rfl
  | cons f fields ih =>
    rw [applyFields_cons, ih]
    split_ifs
    · exact length_overwrite _ _ _
    · rfl

theorem applyFields_outside {fields : List StreamField} (payload image : List UInt8) {i : ℕ}
    (h : ∀ f ∈ fields, ¬ f.Covers i) : (applyFields fields payload image)[i]? = image[i]? := by
  induction fields generalizing image with
  | nil => rfl
  | cons f fields ih =>
    rw [applyFields_cons, ih _ fun g hg => h g (List.mem_cons_of_mem _ hg)]
    split_ifs with hf
    · have hc := h f List.mem_cons_self
      have hl : (slice payload f.sampleOff f.len).length = f.len := length_slice_of_le hf.1
      simp only [StreamField.Covers] at hc
      exact getElem?_overwrite_outside (by omega)
    · rfl

theorem applyFields_at (fields : List StreamField) (payload image : List UInt8) (i : ℕ) :
    (∀ f ∈ fields, f.Fits payload.length image.length → ¬ f.Covers i) ∧
        (applyFields fields payload image)[i]? = image[i]? ∨
      ∃ f ∈ fields, f.Fits payload.length image.length ∧ f.Covers i ∧
        (applyFields fields payload image)[i]? = payload[f.sampleOff + (i - f.imageOff)]? := by
  induction fields generalizing image with
  | nil => exact Or.inl ⟨fun f hf => absurd hf List.not_mem_nil, rfl⟩
  | cons f fields ih =>
    rw [applyFields_cons, List.forall_mem_cons]
    by_cases hf : f.Fits payload.length image.length
    · rw [if_pos hf]
      have hl : (slice payload f.sampleOff f.len).length = f.len := length_slice_of_le hf.1
      have hrest := ih (overwrite image f.imageOff (slice payload f.sampleOff f.len))
      rw [length_overwrite] at hrest
      rcases hrest with ⟨hn, h⟩ | ⟨g, hg, hfit, hc, h⟩
      · rw [h]
        by_cases hc : f.Covers i
        · apply Or.inr
          have hi : i < image.length := lt_of_lt_of_le hc.2 hf.2
          have hk : i - f.imageOff < f.len := by
            have := hc.1
            have := hc.2
            omega
          refine ⟨f, List.mem_cons_self, hf, hc, ?_⟩
          rw [getElem?_overwrite_inside hc.1 (by rw [hl]; exact hc.2) hi, getElem?_slice, if_pos hk]
        · refine Or.inl ⟨⟨fun _ => hc, hn⟩, ?_⟩
          simp only [StreamField.Covers] at hc
          exact getElem?_overwrite_outside (by omega)
      · exact Or.inr ⟨g, List.mem_cons_of_mem _ hg, hfit, hc, h⟩
    · rw [if_neg hf]
      rcases ih image with ⟨hn, h⟩ | ⟨g, hg, hr⟩
      · exact Or.inl ⟨⟨fun hfit => absurd hfit hf, hn⟩, h⟩
      · exact Or.inr ⟨g, List.mem_cons_of_mem _ hg, hr⟩

theorem StreamField.eq_of_covers {fields : List StreamField} (h : fields.Pairwise StreamField.Apart)
    {f g : StreamField} (hf : f ∈ fields) (hg : g ∈ fields) {i : ℕ} (hfi : f.Covers i) (hgi : g.Covers i) :
    f = g := by
  by_contra hne
  have hs : Std.Symm StreamField.Apart := ⟨fun _ _ => Or.symm⟩
  have ha := h.forall hf hg hne
  simp only [StreamField.Apart, StreamField.Covers] at ha hfi hgi
  omega

theorem slice_applyFields {fields : List StreamField} (payload image : List UInt8)
    (h : fields.Pairwise StreamField.Apart) {f : StreamField} (hf : f ∈ fields) :
    slice (applyFields fields payload image) f.imageOff f.len =
      if f.Fits payload.length image.length then slice payload f.sampleOff f.len
      else slice image f.imageOff f.len := by
  induction fields generalizing image with
  | nil => exact absurd hf List.not_mem_nil
  | cons g fields ih =>
    obtain ⟨hg, hp⟩ := List.pairwise_cons.mp h
    rw [applyFields_cons]
    rcases List.mem_cons.mp hf with rfl | hmem
    · have hout : ∀ i, f.imageOff ≤ i → i < f.imageOff + f.len → ∀ g ∈ fields, ¬ g.Covers i := by
        intro i h₁ h₂ g hgm hc
        have ha := hg g hgm
        simp only [StreamField.Apart, StreamField.Covers] at ha hc
        omega
      rw [slice_congr fun i h₁ h₂ => applyFields_outside payload _ (hout i h₁ h₂)]
      split_ifs with hfit
      · have hl : (slice payload f.sampleOff f.len).length = f.len := length_slice_of_le hfit.1
        have hself := slice_overwrite_self image (slice payload f.sampleOff f.len) f.imageOff
          (by rw [hl]; exact hfit.2)
        rwa [hl] at hself
      · rfl
    · have ha := hg f hmem
      have hlen : (if g.Fits payload.length image.length then
          overwrite image g.imageOff (slice payload g.sampleOff g.len) else image).length = image.length := by
        split_ifs
        · exact length_overwrite _ _ _
        · rfl
      rw [ih _ hp hmem, hlen]
      congr 1
      split_ifs with hfit
      · have hl : (slice payload g.sampleOff g.len).length = g.len := length_slice_of_le hfit.1
        simp only [StreamField.Apart] at ha
        exact slice_overwrite_apart (by omega)
      · rfl

namespace HostBridge

variable {L : Layout}

def dueSample (h : HostBridge L) (cycleIndex : UInt32) : Option (List UInt8) :=
  if streaming L then MotionQueue.due h.motion.samples cycleIndex else none

def withBlock (h : HostBridge L) (image : List UInt8) : List UInt8 :=
  overwrite image 0 (h.stagedOut.take (min L.outBytes image.length))

theorem applyOutputs_idle {h : HostBridge L} (hv : h.outValid = false) (image : List UInt8) (cycleIndex : UInt32) :
    h.applyOutputs image cycleIndex = (image, h) := by
  rw [applyOutputs, hv]
  rfl

theorem applyOutputs_image {h : HostBridge L} (hv : h.outValid = true) (image : List UInt8) (cycleIndex : UInt32) :
    (h.applyOutputs image cycleIndex).1 = match h.dueSample cycleIndex with
      | some payload => applyFields L.streamFields payload (h.withBlock image)
      | none => h.withBlock image := by
  have hp := (h.motion.pop_refines cycleIndex).1
  rw [applyOutputs, hv, dueSample]
  simp only [Bool.not_true, Bool.false_eq_true, ↓reduceIte, h.active_eq]
  by_cases hs : streaming L = true
  · simp only [hs, ↓reduceIte, ← hp]
    cases (h.motion.pop cycleIndex).1 <;> rfl
  · simp only [hs, Bool.false_eq_true, ↓reduceIte]
    rfl

theorem applyOutputs_host (h : HostBridge L) (image : List UInt8) (cycleIndex : UInt32) :
    ∃ m hm, (h.applyOutputs image cycleIndex).2 = { h with motion := m, motion_sampleLen := hm } ∧
      m = if h.outValid && streaming L then (h.motion.pop cycleIndex).2 else h.motion := by
  rw [applyOutputs]
  by_cases hv : h.outValid = true
  · rw [if_neg (by simp [hv]), h.active_eq]
    by_cases hs : streaming L = true
    · rw [if_pos hs]
      refine ⟨(h.motion.pop cycleIndex).2, by rw [(h.motion.pop_frame cycleIndex).1, h.motion_sampleLen], ?_,
        by simp [hv, hs]⟩
      dsimp only
      split <;> rfl
    · rw [if_neg hs]
      exact ⟨h.motion, h.motion_sampleLen, rfl, by simp [hs]⟩
  · rw [if_pos (by simp [hv])]
    exact ⟨h.motion, h.motion_sampleLen, rfl, by simp [hv]⟩

@[simp] theorem length_applyOutputs (h : HostBridge L) (image : List UInt8) (cycleIndex : UInt32) :
    (h.applyOutputs image cycleIndex).1.length = image.length := by
  cases hv : h.outValid with
  | false => rw [applyOutputs_idle hv]
  | true =>
    rw [applyOutputs_image hv]
    cases h.dueSample cycleIndex <;> simp [withBlock]

theorem getElem?_withBlock (h : HostBridge L) (image : List UInt8) (i : ℕ) :
    (h.withBlock image)[i]? = if i < L.outBytes ∧ i < image.length then h.stagedOut[i]? else image[i]? := by
  have hl := h.length_stagedOut
  rw [withBlock, getElem?_overwrite]
  by_cases hi : i < L.outBytes ∧ i < image.length
  · rw [if_pos (by simp; omega), if_pos hi, Nat.sub_zero, List.getElem?_take_of_lt (by omega)]
  · rw [if_neg (by simp; omega), if_neg hi]

theorem applyOutputs_at {h : HostBridge L} (hv : h.outValid = true) (image : List UInt8) (cycleIndex : UInt32)
    {i : ℕ} (ho : i < L.outBytes) (hi : i < image.length) :
    (∃ payload, h.dueSample cycleIndex = some payload ∧
        ∃ f ∈ L.streamFields, f.Fits payload.length image.length ∧ f.Covers i ∧
          (h.applyOutputs image cycleIndex).1[i]? = payload[f.sampleOff + (i - f.imageOff)]?) ∨
      (∀ payload, h.dueSample cycleIndex = some payload → ∀ f ∈ L.streamFields,
        f.Fits payload.length image.length → ¬ f.Covers i) ∧
        (h.applyOutputs image cycleIndex).1[i]? = h.stagedOut[i]? := by
  have hb : (h.withBlock image)[i]? = h.stagedOut[i]? := by rw [getElem?_withBlock, if_pos ⟨ho, hi⟩]
  have hlen : (h.withBlock image).length = image.length := length_overwrite _ _ _
  rw [applyOutputs_image hv]
  cases hd : h.dueSample cycleIndex with
  | none => exact Or.inr ⟨fun payload hp => absurd hp (Option.some_ne_none payload).symm, hb⟩
  | some payload =>
    rw [← hlen]
    rcases applyFields_at L.streamFields payload (h.withBlock image) i with ⟨hn, hr⟩ | ⟨f, hf, hfit, hc, hr⟩
    · refine Or.inr ⟨fun payload' hp => ?_, hr.trans hb⟩
      obtain rfl := Option.some.inj hp
      exact hn
    · exact Or.inl ⟨payload, rfl, f, hf, hfit, hc, hr⟩

theorem applyOutputs_outside (hL : ∀ f ∈ L.streamFields, f.imageOff + f.len ≤ L.outBytes) (h : HostBridge L)
    (image : List UInt8) (cycleIndex : UInt32) {i : ℕ} (hi : L.outBytes ≤ i) :
    (h.applyOutputs image cycleIndex).1[i]? = image[i]? := by
  have hb : (h.withBlock image)[i]? = image[i]? := by rw [getElem?_withBlock, if_neg (by omega)]
  cases hv : h.outValid with
  | false => rw [applyOutputs_idle hv]
  | true =>
    rw [applyOutputs_image hv]
    cases h.dueSample cycleIndex with
    | none => exact hb
    | some payload =>
      have hf : ∀ f ∈ L.streamFields, ¬ f.Covers i := by
        intro f hf hc
        have := hL f hf
        exact absurd hc.2 (by omega)
      rw [applyFields_outside _ _ hf, hb]

end HostBridge

end EcMaster
