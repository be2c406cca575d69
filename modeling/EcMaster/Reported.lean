import EcMaster.Drives
import EcMaster.ImageLayout
import EcMaster.SerialPd

namespace EcMaster

open Library.Run Library.Segment

/-- The input windows of a layout: separate, all in the domain, and around the statuswords of the drives. -/
structure Layout.Windowed (L : Layout) : Prop where
  separate : (EcDomain.fmmus L.bus).Pairwise fun f g => Separate f.window g.window
  few : L.bus.inputWindows.length ≤ ecMaxSlaves
  placed : ∀ d ∈ discovered L, ∃ w ∈ L.bus.inputWindows, w.1 ≤ d.sw.byteOffset ∧
    d.sw.byteOffset + d.sw.width ≤ windowEnd w (min L.bus.imageSize maxImage)

section Rendered

variable {refClock : ℕ} {slaves : List BusSlave} {esi : Esi} {cfg : Resolved}

theorem separate_of_disjoint {f g : FmmuCfg}
    (h : Disjoint (byteBits f.logicalStart f.size) (byteBits g.logicalStart g.size)) : Separate f.window g.window := by
  rintro i ⟨h₁, h₂⟩ ⟨h₃, h₄⟩
  simp only [FmmuCfg.window] at h₁ h₂ h₃ h₄
  exact Set.disjoint_left.mp h (Set.mem_Ico.mpr ⟨by omega, by omega⟩ : 8 * i ∈ _) (Set.mem_Ico.mpr ⟨by omega, by omega⟩)

theorem inputWindows_render (cfg : Resolved) :
    cfg.render.bus.inputWindows = cfg.slaves.map fun r => (r.inLogical, r.inSize) := by
  rw [BusCfg.inputWindows, EcDomain.fmmus]
  simp only [Resolved.render, List.flatMap_map]
  induction cfg.slaves with
  | nil => rfl
  | cons r rs ih =>
    rw [List.flatMap_cons, List.filter_append, List.map_append, ih, List.map_cons]
    rfl

theorem Resolved.Describes.windows_separate (h : cfg.Describes slaves) :
    (EcDomain.fmmus cfg.render.bus).Pairwise fun f g => Separate f.window g.window := by
  have ho := regions_disjoint h.outputs
  have hi := regions_disjoint h.inputs
  rw [List.pairwise_map] at ho hi
  rw [EcDomain.fmmus]
  simp only [Resolved.render, List.flatMap_map]
  rw [List.pairwise_flatMap]
  constructor
  · intro r hr
    exact List.pairwise_pair.mpr (separate_of_disjoint (h.halves_disjoint hr hr))
  · refine ((ho.and hi).imp_of_mem fun {r t} hr ht hrt f hf g hg => ?_)
    rcases List.mem_pair.mp hf with rfl | rfl <;> rcases List.mem_pair.mp hg with rfl | rfl
    · exact separate_of_disjoint hrt.1
    · exact separate_of_disjoint (h.halves_disjoint hr ht)
    · exact separate_of_disjoint (h.halves_disjoint ht hr).symm
    · exact separate_of_disjoint hrt.2

theorem Resolved.Sound.windowed (h : resolve refClock slaves esi = .ok cfg) (hs : cfg.Sound)
    (hpins : ∀ p ∈ cfg.pins, 0 < p.bitLen)
    (hmany : slaves.length ≤ ecMaxSlaves) (himage : cfg.image ≤ maxImage) : cfg.render.Windowed := by
  have hd := resolve_describes h
  have hL := hs.layout h hpins
  have hwin := inputWindows_render cfg
  refine ⟨hd.windows_separate, ?_, ?_⟩
  · rw [hwin, List.length_map, ← List.length_map ResolvedSlave.slave, hd.slaves]
    exact hmany
  · intro d hdr
    obtain ⟨-, -, hsw, hin⟩ := mem_discovered hdr
    have hmem : d.sw ∈ cfg.slaves.flatMap ResolvedSlave.pins := hs.pins_of ▸ hsw
    obtain ⟨r, hr, hpr⟩ := List.mem_flatMap.mp hmem
    obtain ⟨h₁, h₂⟩ := PinCfg.bytes_of_bits (hpins _ hsw) (hL.bitPos_lt _ hsw) (hs.inputs_inside r hr _ hpr hin)
    refine ⟨(r.inLogical, r.inSize), by rw [hwin]; exact List.mem_map_of_mem hr, h₁, ?_⟩
    have hpos := d.sw.width_pos (hpins _ hsw)
    have hlast : 8 * (r.inLogical + r.inSize) - 1 ∈ r.inRegion := Set.mem_Ico.mpr ⟨by omega, by omega⟩
    have hend := (hs.inputs_tile _).mp ⟨r, hr, hlast⟩
    have hsize : cfg.render.bus.imageSize = cfg.image := rfl
    simp only [windowEnd, hsize]
    omega

end Rendered

def CoversDrive (L : Layout) (d : Binding) (data : List UInt8) : Prop :=
  ∃ w ∈ L.bus.inputWindows, w.1 ≤ d.sw.byteOffset ∧
    d.sw.byteOffset + d.sw.width ≤ windowEnd w (min L.bus.imageSize maxImage) ∧
    windowEnd w (min L.bus.imageSize maxImage) ≤ data.length

instance (L : Layout) (d : Binding) (data : List UInt8) : Decidable (CoversDrive L d data) := by
  unfold CoversDrive; infer_instance

def reportedWord (L : Layout) (d : Binding) : List Reply → UInt16
  | [] => 0
  | r :: rs => if CoversDrive L d r.data then statusword r.data d else reportedWord L d rs

def stepReads (cmd : DriveCommand) : List Binding → List UInt8 → List UInt16
  | [], _ => []
  | d :: ds, image => statusword image d :: stepReads cmd ds (d.step image cmd).2

theorem statusword_congr_covers {image image' : List UInt8} {d : Binding}
    (h : ∀ i, d.sw.Covers i → image[i]? = image'[i]?) : statusword image d = statusword image' d := by
  rw [statusword, statusword, readValue_congr h]

theorem readRaw_zeros (n off nbytes : ℕ) : readRaw (List.replicate n 0) off nbytes = 0 := by
  rw [readRaw]
  induction nbytes with
  | zero => rfl
  | succ k ih =>
    rw [List.range_succ, List.foldl_append, ih, List.foldl_cons, List.foldl_nil, List.getElem?_replicate]
    split_ifs
    · simp
    · rfl

theorem statusword_zeros (n : ℕ) (d : Binding) : statusword (List.replicate n 0) d = 0 := by
  have hv : readValue (List.replicate n 0) d.sw = 0 := by
    rw [readValue]
    cases d.sw.halType with
    | bit =>
      dsimp only
      rw [List.getElem?_replicate]
      split_ifs <;> simp
    | u32 =>
      dsimp only
      rw [readRaw_zeros]
      rfl
    | s32 =>
      dsimp only
      rw [readRaw_zeros, signExtend]
      split_ifs
      · rfl
      · simp
  rw [statusword, hv]
  rfl

section Words

variable {L : Layout} {d : Binding}

theorem covers_inWindow {w : ℕ × ℕ} {len i : ℕ} (h₁ : w.1 ≤ d.sw.byteOffset)
    (h₂ : d.sw.byteOffset + d.sw.width ≤ windowEnd w len) (hi : d.sw.Covers i) : InWindow w i ∧ i < len := by
  obtain ⟨h₃, h₄⟩ := hi
  simp only [windowEnd] at h₂
  exact ⟨⟨by omega, by omega⟩, by omega⟩

theorem statusword_copyInputs (hw : L.Windowed) (hd : d ∈ discovered L) (data image : List UInt8)
    (hl : image.length = min L.bus.imageSize maxImage) :
    statusword (EcDomain.copyInputs L.bus.inputWindows data image) d =
      if CoversDrive L d data then statusword data d else statusword image d := by
  have hsep := Cyclic.inputWindows_separate hw.separate
  split_ifs with hc
  · obtain ⟨w, hm, h₁, h₂, h₃⟩ := hc
    apply statusword_congr_covers
    intro i hi
    obtain ⟨hin, hlt⟩ := covers_inWindow h₁ h₂ hi
    rw [EcDomain.copyInputs_inside hsep _ _ hm hin, hl, if_pos ⟨h₃, hlt⟩]
  · obtain ⟨w, hm, h₁, h₂⟩ := hw.placed d hd
    apply statusword_congr_covers
    intro i hi
    obtain ⟨hin, -⟩ := covers_inWindow h₁ h₂ hi
    rw [EcDomain.copyInputs_inside hsep _ _ hm hin, hl, if_neg fun h => hc ⟨w, hm, h₁, h₂, h.1⟩]

end Words

theorem stepReads_eq {out : ℕ} (cmd : DriveCommand) {ds : List Binding} (image : List UInt8)
    (hcw : ∀ d ∈ ds, d.cw.byteOffset + d.cw.width ≤ out) (hsw : ∀ d ∈ ds, out ≤ d.sw.byteOffset) :
    stepReads cmd ds image = ds.map (statusword image) := by
  induction ds generalizing image with
  | nil => rfl
  | cons d ds ih =>
    rw [stepReads, ih _ (fun e he => hcw e (List.mem_cons_of_mem _ he)) fun e he => hsw e (List.mem_cons_of_mem _ he),
      List.map_cons]
    congr 1
    apply List.map_congr_left
    intro e he
    apply statusword_congr (hsw e (List.mem_cons_of_mem _ he))
    intro i hi
    apply d.step_outside image cmd
    rintro ⟨-, hlt⟩
    have hd := hcw d List.mem_cons_self
    omega

end EcMaster
