import EcMaster.ProcessData
import EcMaster.Resolution

namespace EcMaster

open Library.Packing

def byteBits (start size : ℕ) : Set ℕ := Set.Ico (8 * start) (8 * (start + size))

def PinCfg.bits (p : PinCfg) : Set ℕ := Set.Ico p.bitStart p.bitEnd

def entryBits (p : ℕ × PdoEntry) : Set ℕ := Set.Ico p.1 (p.1 + p.2.bits)

namespace ResolvedSlave

variable (r : ResolvedSlave)

def outRegion : Set ℕ := byteBits r.outLogical r.outSize

def inRegion : Set ℕ := byteBits r.inLogical r.inSize

end ResolvedSlave

structure Resolved.Sound (cfg : Resolved) : Prop where
  pins_disjoint : cfg.pins.Pairwise fun p q => Disjoint p.bits q.bits
  pins_of : cfg.pins = cfg.slaves.flatMap ResolvedSlave.pins
  outputs_inside : ∀ r ∈ cfg.slaves, ∀ p ∈ r.pins, p.dir = .output → p.bits ⊆ r.outRegion
  inputs_inside : ∀ r ∈ cfg.slaves, ∀ p ∈ r.pins, p.dir = .input → p.bits ⊆ r.inRegion
  fields_of : cfg.motionFields.map (fun f => (f.imageOff, f.len)) = cfg.slaves.flatMap ResolvedSlave.fields
  fields_inside : ∀ r ∈ cfg.slaves, ∀ f ∈ r.fields, byteBits f.1 f.2 ⊆ r.outRegion
  regions_disjoint : (cfg.slaves.map ResolvedSlave.outRegion ++ cfg.slaves.map ResolvedSlave.inRegion).Pairwise Disjoint
  outputs_tile : ∀ b, (∃ r ∈ cfg.slaves, b ∈ r.outRegion) ↔ b < 8 * cfg.outBytes
  inputs_tile : ∀ b, (∃ r ∈ cfg.slaves, b ∈ r.inRegion) ↔ 8 * cfg.outBytes ≤ b ∧ b < 8 * cfg.image

structure DirectionFits (used : PdoEntry → Bool) (sms : List SyncManager) : Prop where
  apart : sms.Pairwise fun a b => ∀ p ∈ a.placed, ∀ q ∈ b.placed, p.2.named → q.2.named →
    Disjoint (entryBits p) (entryBits q)
  inside : ∀ sm ∈ sms, ∀ p ∈ sm.placed, used p.2 → entryBits p ⊆ Set.Ico 0 (8 * smBytes sms)

structure BusSlave.Fits (s : BusSlave) : Prop where
  outputs : DirectionFits (fun e => e.named || e.motion) s.outSms
  inputs : DirectionFits PdoEntry.named s.inSms

theorem bits_pinAt (cursor : ℕ) (dir : EcDirection) (p : ℕ × PdoEntry) :
    (pinAt cursor dir p).bits = Set.Ico (8 * cursor + p.1) (8 * cursor + (p.1 + p.2.bits)) := by
  have hs : (pinAt cursor dir p).bitStart = 8 * cursor + p.1 := by
    simp only [pinAt, PinCfg.bitStart]
    omega
  rw [PinCfg.bits, PinCfg.bitEnd, hs]
  congr 1
  simp only [pinAt]
  omega

theorem disjoint_shift (k a b c d : ℕ) :
    Disjoint (Set.Ico (k + a) (k + b)) (Set.Ico (k + c) (k + d)) ↔ Disjoint (Set.Ico a b) (Set.Ico c d) := by
  rw [Set.Ico_disjoint_Ico, Set.Ico_disjoint_Ico]
  omega

theorem subset_shift (c s a b : ℕ) :
    Set.Ico (8 * c + a) (8 * c + b) ⊆ byteBits c s ↔ Set.Ico a b ⊆ Set.Ico 0 (8 * s) := by
  rcases Nat.lt_or_ge a b with h | h
  · rw [byteBits, Set.Ico_subset_Ico_iff (by omega), Set.Ico_subset_Ico_iff h]
    omega
  · rw [Set.Ico_eq_empty (by omega), Set.Ico_eq_empty (by omega)]
    simp

theorem pins_subset_iff {cursor size : ℕ} (dir : EcDirection) (ps : List (ℕ × PdoEntry)) :
    (∀ p ∈ pinsOf cursor dir ps, p.bits ⊆ byteBits cursor size) ↔
      ∀ p ∈ ps, p.2.named → entryBits p ⊆ Set.Ico 0 (8 * size) := by
  constructor
  · intro h p hp hn
    have hpin := h _ (List.mem_map_of_mem (List.mem_filter.mpr ⟨hp, hn⟩))
    rwa [bits_pinAt, subset_shift] at hpin
  · intro h q hq
    obtain ⟨p, hp, rfl⟩ := List.mem_map.mp hq
    obtain ⟨hp, hn⟩ := List.mem_filter.mp hp
    rw [bits_pinAt, subset_shift]
    exact h p hp hn

theorem fields_subset_iff {cursor size : ℕ} {ps : List (ℕ × PdoEntry)} (ha : MotionAligned ps) :
    (∀ f ∈ fieldsOf cursor ps, byteBits f.1 f.2 ⊆ byteBits cursor size) ↔
      ∀ p ∈ ps, p.2.motion → entryBits p ⊆ Set.Ico 0 (8 * size) := by
  have hbits : ∀ p ∈ ps, p.2.motion → byteBits (cursor + p.1 / 8) (p.2.bits / 8) =
      Set.Ico (8 * cursor + p.1) (8 * cursor + (p.1 + p.2.bits)) := by
    intro p hp hm
    obtain ⟨h₁, h₂⟩ := ha p hp hm
    rw [byteBits]
    congr 1 <;> omega
  constructor
  · intro h p hp hm
    have hf := h _ (List.mem_map_of_mem (List.mem_filter.mpr ⟨hp, hm⟩))
    rwa [hbits p hp hm, subset_shift] at hf
  · intro h f hf
    obtain ⟨p, hp, rfl⟩ := List.mem_map.mp hf
    obtain ⟨hp, hm⟩ := List.mem_filter.mp hp
    rw [hbits p hp hm, subset_shift]
    exact h p hp hm

theorem pinsOf_disjoint_iff (cursor : ℕ) (dir : EcDirection) (sms : List SyncManager) :
    ((pinsOf cursor dir (sms.flatMap SyncManager.placed)).Pairwise fun p q => Disjoint p.bits q.bits) ↔
      sms.Pairwise fun a b => ∀ p ∈ a.placed, ∀ q ∈ b.placed, p.2.named → q.2.named →
        Disjoint (entryBits p) (entryBits q) := by
  have hpin : ∀ p q : ℕ × PdoEntry, Disjoint (pinAt cursor dir p).bits (pinAt cursor dir q).bits ↔
      Disjoint (entryBits p) (entryBits q) := by
    intro p q
    rw [bits_pinAt, bits_pinAt, disjoint_shift]
    rfl
  have hsame : ∀ sm : SyncManager, sm.placed.Pairwise fun p q => p.2.named → q.2.named →
      Disjoint (entryBits p) (entryBits q) := by
    intro sm
    refine (place_pairwise 0 sm.entries).imp fun {p q} h _ _ => ?_
    rw [entryBits, entryBits, Set.Ico_disjoint_Ico]
    omega
  rw [pinsOf, List.pairwise_map, List.pairwise_filter]
  simp only [hpin]
  rw [List.pairwise_flatMap]
  constructor
  · rintro ⟨-, h⟩
    exact h
  · intro h
    exact ⟨fun sm _ => hsame sm, h⟩

section Regions

variable {size logical : ResolvedSlave → ℕ} {off : ℕ} {rs : List ResolvedSlave}

theorem place_logical (h : rs.map logical = (place size off rs).map Prod.fst) :
    place size off rs = rs.map fun r => (logical r, r) := by
  induction rs generalizing off with
  | nil => rfl
  | cons r rs ih =>
    rw [place, List.map_cons, List.map_cons, List.cons.injEq] at h
    rw [place, List.map_cons, h.1, ih h.2]

theorem regions_disjoint (h : rs.map logical = (place size off rs).map Prod.fst) :
    (rs.map fun r => byteBits (logical r) (size r)).Pairwise Disjoint := by
  have hp := place_pairwise (w := size) off rs
  rw [place_logical h, List.pairwise_map] at hp
  rw [List.pairwise_map]
  refine hp.imp fun {r t} hrt => ?_
  dsimp only at hrt
  rw [byteBits, byteBits, Set.Ico_disjoint_Ico]
  omega

theorem regions_tile (h : rs.map logical = (place size off rs).map Prod.fst) (b : ℕ) :
    (∃ r ∈ rs, b ∈ byteBits (logical r) (size r)) ↔ 8 * off ≤ b ∧ b < 8 * (off + (rs.map size).sum) := by
  have hpl := place_logical h
  constructor
  · rintro ⟨r, hr, hb⟩
    have hm : (logical r, r) ∈ place size off rs := by
      rw [hpl]
      exact List.mem_map_of_mem hr
    obtain ⟨h₁, h₂⟩ := place_bounds hm
    obtain ⟨h₃, h₄⟩ := Set.mem_Ico.mp hb
    dsimp only at h₁ h₂
    omega
  · rintro ⟨h₁, h₂⟩
    obtain ⟨p, hp, hb₁, hb₂⟩ : ∃ p ∈ place size off rs, p.1 ≤ b / 8 ∧ b / 8 < p.1 + size p.2 :=
      place_covers (by omega) (by omega)
    rw [hpl] at hp
    obtain ⟨r, hr, rfl⟩ := List.mem_map.mp hp
    dsimp only at hb₁ hb₂
    exact ⟨r, hr, Set.mem_Ico.mpr ⟨by omega, by omega⟩⟩

end Regions

theorem bits_le_smBytes {sm : SyncManager} {sms : List SyncManager} (h : sm ∈ sms) :
    (sm.entries.map PdoEntry.bits).sum / 8 ≤ smBytes sms := by
  have hsum : (sm.entries.map PdoEntry.bits).sum = (sm.pdos.map fun pdo => (pdo.entries.map PdoEntry.bits).sum).sum := by
    rw [SyncManager.entries]
    induction sm.pdos with
    | nil => rfl
    | cons p ps ih => rw [List.flatMap_cons, List.map_append, List.sum_append, ih, List.map_cons, List.sum_cons]
  rw [hsum, smBytes]
  apply Nat.div_le_div_right
  exact List.le_sum_of_mem (List.mem_map_of_mem h)

namespace Resolved.Describes

variable {cfg : Resolved} {slaves : List BusSlave}

theorem outputs_tile (h : cfg.Describes slaves) (b : ℕ) :
    (∃ r ∈ cfg.slaves, b ∈ r.outRegion) ↔ b < 8 * cfg.outBytes := by
  have ht := regions_tile h.outputs b
  rw [← h.outBytes] at ht
  exact ht.trans (by omega)

theorem inputs_tile (h : cfg.Describes slaves) (b : ℕ) :
    (∃ r ∈ cfg.slaves, b ∈ r.inRegion) ↔ 8 * cfg.outBytes ≤ b ∧ b < 8 * cfg.image := by
  have ht := regions_tile h.inputs b
  rwa [← h.image] at ht

theorem halves_disjoint (h : cfg.Describes slaves) {r t : ResolvedSlave} (hr : r ∈ cfg.slaves) (ht : t ∈ cfg.slaves) :
    Disjoint r.outRegion t.inRegion := by
  rw [Set.disjoint_left]
  intro b hb hb'
  have h₁ := (h.outputs_tile b).mp ⟨r, hr, hb⟩
  have h₂ := (h.inputs_tile b).mp ⟨t, ht, hb'⟩
  omega

theorem all_disjoint (h : cfg.Describes slaves) :
    (cfg.slaves.map ResolvedSlave.outRegion ++ cfg.slaves.map ResolvedSlave.inRegion).Pairwise Disjoint := by
  rw [List.pairwise_append]
  refine ⟨regions_disjoint h.outputs, regions_disjoint h.inputs, ?_⟩
  intro R hR T hT
  obtain ⟨r, hr, rfl⟩ := List.mem_map.mp hR
  obtain ⟨t, ht, rfl⟩ := List.mem_map.mp hT
  exact h.halves_disjoint hr ht

theorem render_outBytes (h : cfg.Describes slaves) : cfg.render.outBytes = cfg.outBytes := by
  rw [h.outBytes, Layout.outBytes]
  simp only [Resolved.render, List.map_map]
  rfl

theorem fields_below (h : cfg.Describes slaves) : ∀ f ∈ cfg.motionFields, f.imageOff + f.len ≤ cfg.outBytes := by
  intro f hf
  rw [h.motionFields] at hf
  obtain ⟨q, hq, rfl⟩ := List.mem_map.mp hf
  obtain ⟨r, hr, hfr⟩ := List.mem_flatMap.mp (place_mem hq)
  obtain ⟨p, hp, hpq⟩ := List.mem_map.mp hfr
  obtain ⟨hp, hm⟩ := List.mem_filter.mp hp
  obtain ⟨sm, hsm, hp⟩ := List.mem_flatMap.mp hp
  obtain ⟨h₁, h₂⟩ := h.aligned r hr sm hsm p hp hm
  have hb := (place_bounds hp).2
  have hle := bits_le_smBytes hsm
  have hsize := (h.sizes r hr).1
  have hreg : (r.outLogical, r) ∈ place ResolvedSlave.outSize 0 cfg.slaves := by
    rw [place_logical h.outputs]
    exact List.mem_map_of_mem hr
  have hend := (place_bounds hreg).2
  rw [← h.outBytes] at hend
  rw [← hpq]
  dsimp only at hend ⊢
  omega

theorem fields_of (h : cfg.Describes slaves) :
    cfg.motionFields.map (fun f => (f.imageOff, f.len)) = cfg.slaves.flatMap ResolvedSlave.fields := by
  rw [h.motionFields, streamFieldsOf, List.map_map]
  exact map_snd_place _ _

end Resolved.Describes

theorem mem_pinsOf_dir {cursor : ℕ} {dir : EcDirection} {ps : List (ℕ × PdoEntry)} {p : PinCfg}
    (h : p ∈ pinsOf cursor dir ps) : p.dir = dir := by
  obtain ⟨q, -, rfl⟩ := List.mem_map.mp h
  rfl

namespace ResolvedSlave

structure PinsInside (r : ResolvedSlave) : Prop where
  outputs : ∀ p ∈ r.pins, p.dir = .output → p.bits ⊆ r.outRegion
  inputs : ∀ p ∈ r.pins, p.dir = .input → p.bits ⊆ r.inRegion

theorem pinsInside_iff (r : ResolvedSlave) : r.PinsInside ↔
    (∀ p ∈ r.slave.outSms.flatMap SyncManager.placed, p.2.named → entryBits p ⊆ Set.Ico 0 (8 * r.outSize)) ∧
      ∀ p ∈ r.slave.inSms.flatMap SyncManager.placed, p.2.named → entryBits p ⊆ Set.Ico 0 (8 * r.inSize) := by
  rw [← pins_subset_iff .output, ← pins_subset_iff .input]
  constructor
  · intro h
    exact ⟨fun p hp => h.outputs p (List.mem_append_left _ hp) (mem_pinsOf_dir hp),
      fun p hp => h.inputs p (List.mem_append_right _ hp) (mem_pinsOf_dir hp)⟩
  · rintro ⟨ho, hi⟩
    constructor
    · intro p hp hd
      rcases List.mem_append.mp hp with hp | hp
      · exact ho p hp
      · rw [mem_pinsOf_dir hp] at hd
        exact absurd hd (by decide)
    · intro p hp hd
      rcases List.mem_append.mp hp with hp | hp
      · rw [mem_pinsOf_dir hp] at hd
        exact absurd hd (by decide)
      · exact hi p hp

theorem PinsInside.region {r : ResolvedSlave} (h : r.PinsInside) {p : PinCfg} (hp : p ∈ r.pins) :
    p.bits ⊆ r.outRegion ∨ p.bits ⊆ r.inRegion := by
  cases hd : p.dir with
  | output => exact Or.inl (h.outputs p hp hd)
  | input => exact Or.inr (h.inputs p hp hd)

theorem fieldsInside_iff {r : ResolvedSlave} (ha : ∀ sm ∈ r.slave.outSms, MotionAligned sm.placed) :
    (∀ f ∈ r.fields, byteBits f.1 f.2 ⊆ r.outRegion) ↔
      ∀ p ∈ r.slave.outSms.flatMap SyncManager.placed, p.2.motion → entryBits p ⊆ Set.Ico 0 (8 * r.outSize) := by
  apply fields_subset_iff
  intro p hp
  obtain ⟨sm, hsm, hp⟩ := List.mem_flatMap.mp hp
  exact ha sm hsm p hp

end ResolvedSlave

namespace ResolvedSlave

variable {r : ResolvedSlave}

theorem pins_disjoint_iff (h : r.PinsInside) (hr : Disjoint r.outRegion r.inRegion) :
    (r.pins.Pairwise fun p q => Disjoint p.bits q.bits) ↔
      (r.slave.outSms.Pairwise fun a b => ∀ p ∈ a.placed, ∀ q ∈ b.placed, p.2.named → q.2.named →
        Disjoint (entryBits p) (entryBits q)) ∧
      r.slave.inSms.Pairwise fun a b => ∀ p ∈ a.placed, ∀ q ∈ b.placed, p.2.named → q.2.named →
        Disjoint (entryBits p) (entryBits q) := by
  rw [pins, List.pairwise_append, pinsOf_disjoint_iff, pinsOf_disjoint_iff]
  refine ⟨fun ⟨ho, hi, _⟩ => ⟨ho, hi⟩, fun ⟨ho, hi⟩ => ⟨ho, hi, fun p hp q hq => ?_⟩⟩
  exact hr.mono (h.outputs p (List.mem_append_left _ hp) (mem_pinsOf_dir hp))
    (h.inputs q (List.mem_append_right _ hq) (mem_pinsOf_dir hq))

theorem inside_iff (hs : r.outSize = smBytes r.slave.outSms ∧ r.inSize = smBytes r.slave.inSms)
    (ha : ∀ sm ∈ r.slave.outSms, MotionAligned sm.placed) :
    (r.PinsInside ∧ ∀ f ∈ r.fields, byteBits f.1 f.2 ⊆ r.outRegion) ↔
      (∀ sm ∈ r.slave.outSms, ∀ p ∈ sm.placed, (p.2.named || p.2.motion) = true →
        entryBits p ⊆ Set.Ico 0 (8 * smBytes r.slave.outSms)) ∧
      ∀ sm ∈ r.slave.inSms, ∀ p ∈ sm.placed, p.2.named = true → entryBits p ⊆ Set.Ico 0 (8 * smBytes r.slave.inSms) := by
  rw [pinsInside_iff, fieldsInside_iff ha, hs.1, hs.2]
  simp only [List.mem_flatMap, Bool.or_eq_true]
  constructor
  · rintro ⟨⟨ho, hi⟩, hf⟩
    refine ⟨fun sm hsm p hp hu => ?_, fun sm hsm p hp => hi p ⟨sm, hsm, hp⟩⟩
    rcases hu with hn | hm
    · exact ho p ⟨sm, hsm, hp⟩ hn
    · exact hf p ⟨sm, hsm, hp⟩ hm
  · rintro ⟨ho, hi⟩
    refine ⟨⟨?_, ?_⟩, ?_⟩
    · rintro p ⟨sm, hsm, hp⟩ hn
      exact ho sm hsm p hp (Or.inl hn)
    · rintro p ⟨sm, hsm, hp⟩ hn
      exact hi sm hsm p hp hn
    · rintro p ⟨sm, hsm, hp⟩ hm
      exact ho sm hsm p hp (Or.inr hm)

theorem fits_iff (hs : r.outSize = smBytes r.slave.outSms ∧ r.inSize = smBytes r.slave.inSms)
    (ha : ∀ sm ∈ r.slave.outSms, MotionAligned sm.placed) (hr : Disjoint r.outRegion r.inRegion) :
    r.slave.Fits ↔ (r.pins.Pairwise fun p q => Disjoint p.bits q.bits) ∧ r.PinsInside ∧
      ∀ f ∈ r.fields, byteBits f.1 f.2 ⊆ r.outRegion := by
  constructor
  · intro h
    have hin := (inside_iff hs ha).mpr ⟨h.outputs.inside, h.inputs.inside⟩
    exact ⟨(pins_disjoint_iff hin.1 hr).mpr ⟨h.outputs.apart, h.inputs.apart⟩, hin⟩
  · rintro ⟨hp, hin⟩
    obtain ⟨ho, hi⟩ := (pins_disjoint_iff hin.1 hr).mp hp
    obtain ⟨ho', hi'⟩ := (inside_iff hs ha).mp hin
    exact ⟨⟨ho, ho'⟩, ⟨hi, hi'⟩⟩

end ResolvedSlave

theorem Resolved.Describes.apart {cfg : Resolved} {slaves : List BusSlave} (h : cfg.Describes slaves)
    (hin : ∀ r ∈ cfg.slaves, r.PinsInside) :
    cfg.slaves.Pairwise fun r t => ∀ p ∈ r.pins, ∀ q ∈ t.pins, Disjoint p.bits q.bits := by
  have ho := regions_disjoint h.outputs
  have hi := regions_disjoint h.inputs
  rw [List.pairwise_map] at ho hi
  refine ((ho.and hi).imp_of_mem fun {r t} hr ht hrt p hp q hq => ?_)
  rcases (hin r hr).region hp with hp | hp
  · rcases (hin t ht).region hq with hq | hq
    · exact hrt.1.mono hp hq
    · exact (h.halves_disjoint hr ht).mono hp hq
  · rcases (hin t ht).region hq with hq | hq
    · exact (h.halves_disjoint ht hr).symm.mono hp hq
    · exact hrt.2.mono hp hq

/-- The image of an accepted bus is sound if and only if every slave fits. -/
theorem sound_iff_fits {refClock : ℕ} {slaves : List BusSlave} {esi : Esi} {cfg : Resolved}
    (h : resolve refClock slaves esi = .ok cfg) : cfg.Sound ↔ ∀ s ∈ slaves, s.Fits := by
  have hd := resolve_describes h
  have hfits : ∀ r ∈ cfg.slaves, r.slave.Fits ↔ (r.pins.Pairwise fun p q => Disjoint p.bits q.bits) ∧ r.PinsInside ∧
      ∀ f ∈ r.fields, byteBits f.1 f.2 ⊆ r.outRegion :=
    fun r hr => ResolvedSlave.fits_iff (hd.sizes r hr) (hd.aligned r hr) (hd.halves_disjoint hr hr)
  rw [← hd.slaves, List.forall_mem_map]
  constructor
  · intro hs r hr
    have hp := hs.pins_disjoint
    rw [hd.pins, List.pairwise_flatMap] at hp
    exact (hfits r hr).mpr ⟨hp.1 r hr, ⟨hs.outputs_inside r hr, hs.inputs_inside r hr⟩, hs.fields_inside r hr⟩
  · intro hf
    have hin : ∀ r ∈ cfg.slaves, r.PinsInside := fun r hr => ((hfits r hr).mp (hf r hr)).2.1
    refine ⟨?_, hd.pins, fun r hr => (hin r hr).outputs, fun r hr => (hin r hr).inputs, hd.fields_of,
      fun r hr => ((hfits r hr).mp (hf r hr)).2.2, hd.all_disjoint, hd.outputs_tile, hd.inputs_tile⟩
    rw [hd.pins, List.pairwise_flatMap]
    exact ⟨fun r hr => ((hfits r hr).mp (hf r hr)).1, hd.apart hin⟩

theorem disjoint_apart {p q : PinCfg} (hp : 0 < p.bitLen) (hq : 0 < q.bitLen) (h : Disjoint p.bits q.bits) :
    p.Apart q := by
  rw [PinCfg.bits, PinCfg.bits, Set.Ico_disjoint_Ico] at h
  simp only [PinCfg.Apart, PinCfg.bitEnd] at h ⊢
  omega

theorem PinCfg.width_pos (p : PinCfg) (h : 0 < p.bitLen) : 0 < p.width := by
  rw [width, nbytes]
  split_ifs <;> omega

theorem PinCfg.bytes_of_bits {p : PinCfg} {start size : ℕ} (hlen : 0 < p.bitLen) (hpos : p.bitPos < 8)
    (h : p.bits ⊆ byteBits start size) : start ≤ p.byteOffset ∧ p.byteOffset + p.width ≤ start + size := by
  have hfirst : p.bitStart ∈ p.bits := Set.mem_Ico.mpr (by simp only [PinCfg.bitEnd]; omega)
  have hlast : p.bitEnd - 1 ∈ p.bits := Set.mem_Ico.mpr (by simp only [PinCfg.bitEnd]; omega)
  have h₁ := Set.mem_Ico.mp (h hfirst)
  have h₂ := Set.mem_Ico.mp (h hlast)
  simp only [PinCfg.bitEnd, PinCfg.bitStart] at h₁ h₂
  refine ⟨by omega, ?_⟩
  rw [PinCfg.width, PinCfg.nbytes]
  split_ifs <;> omega

namespace Resolved.Describes

variable {cfg : Resolved} {slaves : List BusSlave}

theorem bitPos_lt (h : cfg.Describes slaves) : ∀ p ∈ cfg.pins, p.bitPos < 8 := by
  intro p hp
  rw [h.pins] at hp
  obtain ⟨r, -, hpr⟩ := List.mem_flatMap.mp hp
  rcases List.mem_append.mp hpr with hq | hq
  · obtain ⟨q, -, rfl⟩ := List.mem_map.mp hq
    exact Nat.mod_lt _ (by decide)
  · obtain ⟨q, -, rfl⟩ := List.mem_map.mp hq
    exact Nat.mod_lt _ (by decide)

theorem layout (h : cfg.Describes slaves) (hlen : ∀ p ∈ cfg.pins, 0 < p.bitLen)
    (hd : cfg.pins.Pairwise fun p q => Disjoint p.bits q.bits)
    (ho : ∀ p ∈ cfg.pins, p.dir = .output → p.bits ⊆ byteBits 0 cfg.outBytes)
    (hi : ∀ p ∈ cfg.pins, p.dir = .input → p.bits ⊆ byteBits cfg.outBytes (cfg.image - cfg.outBytes)) :
    cfg.render.Sound := by
  have hout := h.render_outBytes
  refine ⟨h.bitPos_lt, hlen, ?_, ?_, ?_, ?_⟩
  · exact hd.imp_of_mem fun hp hq hpq => disjoint_apart (hlen _ hp) (hlen _ hq) hpq
  · intro p hp hdir
    have hl := hlen p hp
    have hlast : p.bitEnd - 1 ∈ p.bits := Set.mem_Ico.mpr (by simp only [PinCfg.bitEnd]; omega)
    have hb := Set.mem_Ico.mp (ho p hp hdir hlast)
    rw [hout]
    omega
  · intro p hp hdir
    have hl := hlen p hp
    have hfirst : p.bitStart ∈ p.bits := Set.mem_Ico.mpr (by simp only [PinCfg.bitEnd]; omega)
    have hb := Set.mem_Ico.mp (hi p hp hdir hfirst)
    rw [hout]
    exact hb.1
  · intro f hf
    rw [hout]
    exact h.fields_below f hf

end Resolved.Describes

namespace Resolved.Sound

variable {cfg : Resolved}

theorem halves (hs : cfg.Sound) :
    (∀ p ∈ cfg.pins, p.dir = .output → p.bits ⊆ byteBits 0 cfg.outBytes) ∧
      ∀ p ∈ cfg.pins, p.dir = .input → p.bits ⊆ byteBits cfg.outBytes (cfg.image - cfg.outBytes) := by
  have hown : ∀ p ∈ cfg.pins, ∃ r ∈ cfg.slaves, p ∈ r.pins := by
    intro p hp
    rw [hs.pins_of] at hp
    exact List.mem_flatMap.mp hp
  constructor
  · intro p hp ho b hb
    obtain ⟨r, hr, hpr⟩ := hown p hp
    have htile := (hs.outputs_tile b).mp ⟨r, hr, hs.outputs_inside r hr p hpr ho hb⟩
    exact Set.mem_Ico.mpr ⟨by omega, by omega⟩
  · intro p hp hi b hb
    obtain ⟨r, hr, hpr⟩ := hown p hp
    have htile := (hs.inputs_tile b).mp ⟨r, hr, hs.inputs_inside r hr p hpr hi hb⟩
    exact Set.mem_Ico.mpr ⟨by omega, by omega⟩

theorem layout {refClock : ℕ} {slaves : List BusSlave} {esi : Esi} (h : resolve refClock slaves esi = .ok cfg)
    (hs : cfg.Sound) (hpins : ∀ p ∈ cfg.pins, 0 < p.bitLen) : cfg.render.Sound :=
  (resolve_describes h).layout hpins hs.pins_disjoint hs.halves.1 hs.halves.2

end Resolved.Sound

def axis : BusSlave :=
  ⟨0, 1, [⟨2, [⟨0x1600, [⟨0x6040, 0, 16, .u32, "x-controlword".toList, false⟩, ⟨0x607A, 0, 32, .s32, "x-target".toList, true⟩]⟩]⟩],
    [⟨3, [⟨0x1A00, [⟨0x6041, 0, 16, .u32, "x-statusword".toList, false⟩]⟩]⟩], 4⟩

def fourSms : Esi := fun _ => some [(0x1000, 0x26), (0x1080, 0x22), (0x1100, 0x24), (0x1400, 0x20)]

theorem axis_fits : axis.Fits := by
  refine ⟨⟨List.pairwise_singleton _ _, ?_⟩, ⟨List.pairwise_singleton _ _, ?_⟩⟩
  · intro sm hsm p hp _
    obtain rfl := List.mem_singleton.mp hsm
    have hb := place_bounds hp
    exact Set.Ico_subset_Ico hb.1 hb.2
  · intro sm hsm p hp _
    obtain rfl := List.mem_singleton.mp hsm
    have hb := place_bounds hp
    exact Set.Ico_subset_Ico hb.1 hb.2

theorem sound_iff_fits_axis : ∃ cfg, resolve 0 [axis] fourSms = .ok cfg ∧ cfg.Sound := by
  obtain ⟨cfg, h⟩ : ∃ cfg, resolve 0 [axis] fourSms = .ok cfg := ⟨_, rfl⟩
  exact ⟨cfg, h, (sound_iff_fits h).mpr fun _ hs => List.mem_singleton.mp hs ▸ axis_fits⟩

def twoOutputSms : BusSlave :=
  ⟨0, 1, [⟨2, [⟨0x1600, [⟨0x7000, 1, 16, .u32, "a".toList, false⟩]⟩]⟩, ⟨3, [⟨0x1601, [⟨0x7010, 1, 16, .u32, "b".toList, false⟩]⟩]⟩],
    [], 0⟩

theorem pins_overlap : ¬ ∀ refClock slaves esi cfg, resolve refClock slaves esi = .ok cfg → cfg.Sound := by
  intro h
  have hp := (h 0 [twoOutputSms] fourSms _ rfl).pins_disjoint
  have hd := List.rel_of_pairwise_cons hp List.mem_cons_self
  exact Set.disjoint_left.mp hd (Set.mem_Ico.mpr ⟨le_rfl, by decide⟩) (Set.mem_Ico.mpr ⟨le_rfl, by decide⟩)

end EcMaster
