import EcMaster.HostOutputs
import EcMaster.HostSpi
import EcMaster.PiHeader
import EcMaster.Reported

namespace EcMaster

open Library.Packing Library.Segment Library.LittleEndian

/-! A bus description against the capacities that the firmware fixes. -/

namespace BusSlave

def outBytes (s : BusSlave) : ℕ := smBytes s.outSms

def inBytes (s : BusSlave) : ℕ := smBytes s.inSms

def motionBytes (s : BusSlave) : ℕ :=
  (((s.outSms.flatMap SyncManager.placed).filter fun p => p.2.motion).map fun p => p.2.bits / 8).sum

end BusSlave

def outputBytes (slaves : List BusSlave) : ℕ := (slaves.map BusSlave.outBytes).sum

def imageBytes (slaves : List BusSlave) : ℕ := outputBytes slaves + (slaves.map BusSlave.inBytes).sum

def motionBytes (slaves : List BusSlave) : ℕ := (slaves.map BusSlave.motionBytes).sum

def lookAhead (slaves : List BusSlave) : ℕ :=
  let leads := (slaves.map BusSlave.motionLead).filter fun lead => 0 < lead
  (min (max (if leads = [] then 8 else leads.foldl max 0) 1) 32).toNat

def streamBytes (slaves : List BusSlave) : ℕ :=
  if 0 < motionBytes slaves then lookAhead slaves * (4 + motionBytes slaves) else 0

/-- The named entries at this bit offset end within the first `limit` bytes. -/
def EndsWithin (limit : ℕ) (cursor : ℕ) (sms : List SyncManager) : Prop :=
  ∀ p ∈ sms.flatMap SyncManager.placed, p.2.named → 8 * cursor + p.1 + p.2.bits ≤ 8 * limit

/-- A bus within the capacities, its named entries inside the whole bytes of the image. -/
structure WithinCapacities (slaves : List BusSlave) : Prop where
  image : imageBytes slaves ≤ maxImage
  outputs : ∀ q ∈ place BusSlave.outBytes 0 slaves, EndsWithin (imageBytes slaves) q.1 q.2.outSms
  inputs : ∀ q ∈ place BusSlave.inBytes (outputBytes slaves) slaves, EndsWithin (imageBytes slaves) q.1 q.2.inSms
  sample : motionBytes slaves ≤ motionSampleMax
  count : slaves.length ≤ ecMaxSlaves
  frame : mosiHdr + outputBytes slaves + streamHdr + streamBytes slaves + crcLen ≤ hostSpiMaxFrame

/-- Nothing of the configuration is cut off by the firmware. -/
structure KeepsAll (L : Layout) : Prop where
  image : (EcDomain.fromConfig L.bus).image.length = L.bus.imageSize
  pins : ∀ p ∈ L.bus.pins, p.bitEnd ≤ 8 * (EcDomain.fromConfig L.bus).image.length
  sample : (MotionRing.new L.streamSampleBytes).sampleLen = L.streamSampleBytes
  fields : ∀ (h : HostBridge L) (image : List UInt8) (cycleIndex : UInt32) (slot : Fin motionRingDepth),
    image.length = (EcDomain.fromConfig L.bus).image.length → (h.motion.pop cycleIndex).1 = some slot →
      ∀ f ∈ L.streamFields, f.Fits ((h.motion.pop cycleIndex).2.payload slot).length image.length
  slaves : L.bus.slaves.length ≤ ecMaxSlaves
  ranges : (EcDomain.fromConfig L.bus).inputRanges = L.bus.inputWindows
  frame : HostSpi.frameLen L = L.frameLen
  accepted : ∃ mosi, mosi.length = HostSpi.frameLen L ∧ Accepted L mosi

theorem MotionRing.length_payload (r : MotionRing) (slot : Fin motionRingDepth) :
    (r.payload slot).length = r.sampleLen := by
  rw [MotionRing.payload, List.length_take, r.length_data, min_eq_left r.sampleLen_le]

theorem exists_accepted (L : Layout) {n : ℕ} (h : L.mosiLen ≤ n) : ∃ mosi, mosi.length = n ∧ Accepted L mosi := by
  have hlen : 4 ≤ L.mosiLen := by
    simp only [Layout.mosiLen, mosiHdr]
    omega
  have hsum : L.crcPos + 2 = L.mosiLen := by
    simp only [Layout.crcPos, crcLen]
    omega
  have hmagic : u16Le [0xEC, 0xA7] = magic := by decide
  obtain ⟨body, hbody, hm⟩ : ∃ body : List UInt8, body.length + 2 = L.mosiLen ∧ u16Le (body.take 2) = magic := by
    refine ⟨0xEC :: 0xA7 :: List.replicate (L.mosiLen - 4) 0, ?_, ?_⟩
    · rw [List.length_cons, List.length_cons, List.length_replicate]
      omega
    · rw [List.take_succ_cons, List.take_succ_cons, List.take_zero, hmagic]
  obtain ⟨hl, hm, hc⟩ := sealFrame_accepted hbody hm
  have hseal : (sealFrame body).length = L.mosiLen := by rw [sealFrame, List.length_append, length_leBytes, hbody]
  have hslice : ∀ off k, off + k ≤ L.mosiLen →
      slice (sealFrame body ++ List.replicate (n - L.mosiLen) 0) off k = slice (sealFrame body) off k := by
    intro off k hk
    apply slice_congr
    intro i _ hi
    exact List.getElem?_append_left (by omega)
  refine ⟨sealFrame body ++ List.replicate (n - L.mosiLen) 0, ?_, ?_, ?_, ?_⟩
  · rw [List.length_append, List.length_replicate, hseal]
    omega
  · rw [List.length_append]
    omega
  · rw [hslice 0 2 (by omega), hm]
  · rw [hslice L.crcPos 2 (by omega), List.take_append_of_le_length (by omega), hc]

theorem pinsEnd_iff (limit cursor : ℕ) (dir : EcDirection) (sms : List SyncManager) :
    (∀ p ∈ pinsOf cursor dir (sms.flatMap SyncManager.placed), p.bitEnd ≤ 8 * limit) ↔ EndsWithin limit cursor sms := by
  have hend : ∀ p : ℕ × PdoEntry, (pinAt cursor dir p).bitEnd = 8 * cursor + p.1 + p.2.bits := by
    intro p
    simp only [pinAt, PinCfg.bitEnd, PinCfg.bitStart]
    omega
  constructor
  · intro h p hp hn
    rw [← hend]
    exact h _ (List.mem_map_of_mem (List.mem_filter.mpr ⟨hp, hn⟩))
  · intro h q hq
    obtain ⟨p, hp, rfl⟩ := List.mem_map.mp hq
    obtain ⟨hp, hn⟩ := List.mem_filter.mp hp
    rw [hend]
    exact h p hp hn

namespace Resolved.Describes

variable {cfg : Resolved} {slaves : List BusSlave}

theorem outputBytes_eq (h : cfg.Describes slaves) : outputBytes slaves = cfg.outBytes := by
  rw [h.outBytes, ← h.slaves, outputBytes, List.map_map]
  congr 1
  exact List.map_congr_left fun r hr => (h.sizes r hr).1.symm

theorem imageBytes_eq (h : cfg.Describes slaves) : imageBytes slaves = cfg.image := by
  rw [h.image, imageBytes, h.outputBytes_eq, ← h.slaves, List.map_map]
  congr 2
  exact List.map_congr_left fun r hr => (h.sizes r hr).2.symm

theorem motionBytes_eq (h : cfg.Describes slaves) : motionBytes slaves = cfg.streamSampleBytes := by
  rw [h.sampleBytes, ← h.slaves, motionBytes, List.map_map]
  induction cfg.slaves with
  | nil => rfl
  | cons r rs ih =>
    rw [List.map_cons, List.sum_cons, ih, List.flatMap_cons, List.map_append, List.sum_append]
    congr 1
    rw [ResolvedSlave.fields, fieldsOf, List.map_map]
    rfl

theorem place_outputs (h : cfg.Describes slaves) :
    place BusSlave.outBytes 0 slaves = cfg.slaves.map fun r => (r.outLogical, r.slave) := by
  have hsize : ∀ r ∈ cfg.slaves, r.slave.outBytes = r.outSize := fun r hr => (h.sizes r hr).1.symm
  rw [← h.slaves, place_map, place_congr hsize, place_logical h.outputs, List.map_map]
  rfl

theorem place_inputs (h : cfg.Describes slaves) :
    place BusSlave.inBytes (outputBytes slaves) slaves = cfg.slaves.map fun r => (r.inLogical, r.slave) := by
  have hsize : ∀ r ∈ cfg.slaves, r.slave.inBytes = r.inSize := fun r hr => (h.sizes r hr).2.symm
  rw [h.outputBytes_eq, ← h.slaves, place_map, place_congr hsize, place_logical h.inputs, List.map_map]
  rfl

theorem pins_end_iff (h : cfg.Describes slaves) (limit : ℕ) : (∀ p ∈ cfg.pins, p.bitEnd ≤ 8 * limit) ↔
    (∀ q ∈ place BusSlave.outBytes 0 slaves, EndsWithin limit q.1 q.2.outSms) ∧
      ∀ q ∈ place BusSlave.inBytes (outputBytes slaves) slaves, EndsWithin limit q.1 q.2.inSms := by
  rw [h.place_outputs, h.place_inputs, h.pins]
  simp only [List.forall_mem_map, List.forall_mem_flatMap, ResolvedSlave.pins, List.forall_mem_append, pinsEnd_iff]
  exact forall₂_and

end Resolved.Describes

section

variable {refClock : ℕ} {slaves : List BusSlave} {esi : Esi} {cfg : Resolved}

theorem resolve_lookAhead (h : resolve refClock slaves esi = .ok cfg) :
    cfg.maxSamplesPerFrame = if 0 < cfg.streamSampleBytes then lookAhead slaves else 0 := by
  unfold resolve at h
  dsimp only at h
  cases hr : resolveSlaves esi 0 (slaves.map fun s => smBytes s.outSms).sum slaves ⟨[], [], 0⟩ with
  | error err => simp [bind, Except.bind, hr] at h
  | ok found =>
    obtain ⟨rs, c, image⟩ := found
    simp only [bind, Except.bind, hr] at h
    cases hd : duplicate [] c.pins with
    | some name => simp [hd] at h
    | none =>
      simp only [hd, Except.ok.injEq] at h
      rw [← h, lookAhead]
      dsimp only
      split_ifs <;> rfl

theorem render_mosiLen (h : resolve refClock slaves esi = .ok cfg) :
    cfg.render.mosiLen = mosiHdr + outputBytes slaves + streamHdr + streamBytes slaves + crcLen := by
  have hd := resolve_describes h
  have hstream : cfg.render.hostStreamBytes = streamBytes slaves := by
    unfold streamBytes
    rw [hd.motionBytes_eq]
    change cfg.maxSamplesPerFrame * (4 + cfg.streamSampleBytes) = _
    rw [resolve_lookAhead h]
    split_ifs
    · rfl
    · exact Nat.zero_mul _
  rw [Layout.mosiLen, hstream, hd.render_outBytes, hd.outputBytes_eq]

theorem render_misoLen (h : resolve refClock slaves esi = .ok cfg) : cfg.render.misoLen ≤ misoHdr + imageBytes slaves + crcLen := by
  have himage : cfg.render.bus.imageSize = imageBytes slaves := (resolve_describes h).imageBytes_eq.symm
  rw [Layout.misoLen, Layout.inBytes, himage]
  omega

theorem length_image_eq_iff (bus : BusCfg) :
    (EcDomain.fromConfig bus).image.length = bus.imageSize ↔ bus.imageSize ≤ maxImage := by
  rw [EcDomain.length_image]
  exact min_eq_left_iff

theorem inputRanges_eq_iff (bus : BusCfg) :
    (EcDomain.fromConfig bus).inputRanges = bus.inputWindows ↔ bus.inputWindows.length ≤ ecMaxSlaves := by
  refine ⟨fun h => ?_, EcDomain.inputRanges_fromConfig⟩
  have hlen := congrArg List.length h
  change (bus.inputWindows.foldl (pushWithin ecMaxSlaves) []).length = _ at hlen
  rw [foldl_pushWithin _ _ _ (Nat.zero_le _), List.nil_append, List.length_take] at hlen
  exact min_eq_right_iff.mp hlen

/-- The firmware cuts nothing off exactly when the bus is within its capacities. -/
theorem keepsAll_iff (h : resolve refClock slaves esi = .ok cfg) : KeepsAll cfg.render ↔ WithinCapacities slaves := by
  have hd := resolve_describes h
  have himage : cfg.render.bus.imageSize = imageBytes slaves := hd.imageBytes_eq.symm
  have hsample : cfg.render.streamSampleBytes = motionBytes slaves := hd.motionBytes_eq.symm
  have hmosi := render_mosiLen h
  have hmiso := render_misoLen h
  have hcount : cfg.slaves.length = slaves.length := by rw [← hd.slaves, List.length_map]
  have hbus : cfg.render.bus.slaves.length = slaves.length := (List.length_map _).trans hcount
  have hwindows : cfg.render.bus.inputWindows.length = slaves.length := by
    rw [inputWindows_render, List.length_map, hcount]
  have hframe : cfg.render.mosiLen ≤ cfg.render.frameLen ∧
      (cfg.render.frameLen = cfg.render.mosiLen ∨ cfg.render.frameLen = cfg.render.misoLen) := by
    rw [Layout.frameLen]
    split_ifs <;> omega
  have hspi : HostSpi.frameLen cfg.render = min cfg.render.frameLen hostSpiMaxFrame := rfl
  constructor
  · intro hk
    have hfit := (length_image_eq_iff _).mp hk.image
    have hpins := hk.pins
    rw [hk.image, himage] at hpins
    obtain ⟨hout, hin⟩ := (hd.pins_end_iff _).mp hpins
    have hslot := hk.sample
    rw [MotionRing.sampleLen_new, hsample] at hslot
    have hspi' := hk.frame
    exact ⟨himage ▸ hfit, hout, hin, by omega, hbus ▸ hk.slaves, by omega⟩
  · intro hw
    have hfit : cfg.render.bus.imageSize ≤ maxImage := himage ▸ hw.image
    have hlen := (length_image_eq_iff _).mpr hfit
    have hslot : (MotionRing.new cfg.render.streamSampleBytes).sampleLen = cfg.render.streamSampleBytes := by
      rw [MotionRing.sampleLen_new, hsample, min_eq_left hw.sample]
    have hcap := hw.frame
    have himg := hw.image
    have hwhole : HostSpi.frameLen cfg.render = cfg.render.frameLen := by
      simp only [hostSpiMaxFrame, maxImage, misoHdr, crcLen] at *
      omega
    refine ⟨hlen, ?_, hslot, ?_, hbus ▸ hw.count, (inputRanges_eq_iff _).mpr (hwindows ▸ hw.count), hwhole, ?_⟩
    · rw [hlen, himage]
      exact (hd.pins_end_iff _).mpr ⟨hw.outputs, hw.inputs⟩
    · intro b image cycleIndex slot himg' _ f hf
      have hbelow := hd.fields_below f hf
      have hinside := hd.sampleFits f hf
      have himage' := hd.image
      have hpayload : ((b.motion.pop cycleIndex).2.payload slot).length = cfg.streamSampleBytes := by
        rw [MotionRing.length_payload, (b.motion.pop_frame cycleIndex).1, b.motion_sampleLen]
        exact (MotionRing.sampleLen_new _).symm.trans hslot
      have hcfg : cfg.render.bus.imageSize = cfg.image := rfl
      refine ⟨hpayload ▸ hinside, ?_⟩
      rw [himg', hlen, hcfg]
      omega
    · exact exists_accepted _ (hwhole ▸ hframe.1)

end

theorem axis_withinCapacities : WithinCapacities [axis] := by
  refine ⟨by decide, ?_, ?_, by decide, by decide, by decide⟩
  · intro q hq
    obtain rfl := List.mem_singleton.mp hq
    unfold EndsWithin
    decide
  · intro q hq
    obtain rfl := List.mem_singleton.mp hq
    unfold EndsWithin
    decide

theorem keepsAll_axis : ∃ cfg, resolve 0 [axis] fourSms = .ok cfg ∧ KeepsAll cfg.render := by
  obtain ⟨cfg, h⟩ : ∃ cfg, resolve 0 [axis] fourSms = .ok cfg := ⟨_, rfl⟩
  exact ⟨cfg, h, (keepsAll_iff h).mpr axis_withinCapacities⟩

def fourTargets : BusSlave :=
  ⟨0, 1, [⟨2, [⟨0x1600, [⟨0x607A, 0, 32, .s32, "a".toList, true⟩, ⟨0x687A, 0, 32, .s32, "b".toList, true⟩,
    ⟨0x707A, 0, 32, .s32, "c".toList, true⟩, ⟨0x787A, 0, 32, .s32, "d".toList, true⟩]⟩]⟩], [], 32⟩

theorem wide_stream_rejected : ∃ cfg, resolve 0 [fourTargets] fourSms = .ok cfg ∧ ¬ KeepsAll cfg.render ∧
    ∀ mosi, mosi.length = HostSpi.frameLen cfg.render → ¬ Accepted cfg.render mosi := by
  obtain ⟨cfg, h⟩ : ∃ cfg, resolve 0 [fourTargets] fourSms = .ok cfg := ⟨_, rfl⟩
  have hmosi : cfg.render.mosiLen = 667 := (render_mosiLen h).trans (by decide)
  have hno : ∀ mosi, mosi.length = HostSpi.frameLen cfg.render → ¬ Accepted cfg.render mosi := by
    intro mosi hlen ha
    have hle := ha.1
    have hmax := HostSpi.frameLen_le cfg.render
    rw [hostSpiMaxFrame] at hmax
    omega
  exact ⟨cfg, h, fun hk => hk.accepted.elim fun mosi hm => hno mosi hm.1 hm.2, hno⟩

end EcMaster
