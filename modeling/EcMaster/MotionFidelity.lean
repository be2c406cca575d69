import EcMaster.MotionPayload

namespace EcMaster

open Library.Packing Library.Segment Library.LittleEndian

def fieldBytes (n : ℕ) (v : ℤ) : List UInt8 := leBytes n (v % 256 ^ n).toNat

/-- What the stream delivers: every row has the pin of its own entry, and of a sample that the component has packed and
that is popped in its cycle, each field of the image takes the value of that pin. -/
structure DeliversMotion (cfg : Resolved) (slaves : List BusSlave) : Prop where
  rows : ∀ (i : ℕ) x m, (streamed slaves)[i]? = some x → (renderPiHeader cfg).motion[i]? = some m →
    ∃ k, m.pinIndex = some k ∧ cfg.pins[k]? = some x.pin
  values : ∀ (i k : ℕ) x m f, (streamed slaves)[i]? = some x → (renderPiHeader cfg).motion[i]? = some m →
    m.pinIndex = some k → cfg.motionFields[i]? = some f →
    ∀ (h : HostComponent) (hal : Hal) (b : HostBridge cfg.render) (image : List UInt8) (cycleIndex : UInt32) payload,
      Accepted cfg.render (h.buildFrame cfg.render hal).1 →
      (cycleIndex, payload) ∈ frameSamples cfg.render (h.buildFrame cfg.render hal).1 →
      b.outValid = true → b.dueSample cycleIndex = some payload →
      image.length = (EcDomain.fromConfig cfg.render.bus).image.length →
      slice (b.applyOutputs image cycleIndex).1 f.imageOff f.len = fieldBytes f.len (hal.value x.pin k)
  apart : cfg.motionFields.Pairwise fun f g => Disjoint f.bytes g.bytes

/-- The streamed entries of a bus have pins that are found, of types and lengths that are packed. -/
structure Streamable (slaves : List BusSlave) : Prop where
  first : ∀ x ∈ streamed slaves, (firstAt slaves x.byte).map PlacedOutput.pin = some x.pin
  sized : ∀ x ∈ streamed slaves, 0 < x.length → x.entry.halType ≠ .bit ∧ x.length ≤ 4 ∧ x.byte + x.length ≤ maxImage
  apart : (streamed slaves).Pairwise fun x y => Disjoint x.bytes y.bytes

theorem leBytes_mod (n v : ℕ) : leBytes n (v % 256 ^ n) = leBytes n v := by
  have h := leBytes_leNat (leBytes n v)
  rwa [length_leBytes, leNat_leBytes] at h

theorem fieldBytes_natCast (n v : ℕ) : fieldBytes n v = leBytes n v := by
  have hpow : (256 : ℤ) ^ n = (256 ^ n : ℕ) := by norm_cast
  rw [fieldBytes, hpow, ← Int.natCast_emod, Int.toNat_natCast, leBytes_mod]

theorem wordBytes_value (hal : Hal) {p : PinCfg} {n : ℕ} (ht : p.halType ≠ .bit) (hn : n ≤ 4) (k : ℕ) :
    wordBytes (if p.halType = .u32 then hal.u32 k else (hal.s32 k).toUInt32) n = fieldBytes n (hal.value p k) := by
  rw [wordBytes_eq hn, Hal.value]
  cases hp : p.halType with
  | bit => exact absurd hp ht
  | u32 =>
    simp only [↓reduceIte]
    exact (fieldBytes_natCast n _).symm
  | s32 =>
    have hdvd : (256 : ℤ) ^ n ∣ 2 ^ 32 := by
      have hpow : (2 : ℤ) ^ 32 = 256 ^ 4 := by norm_num
      rw [hpow]
      exact pow_dvd_pow _ hn
    have hint : (hal.s32 k).toInt = ((hal.s32 k).toUInt32.toNat : ℤ).bmod (2 ^ 32) :=
      BitVec.toInt_eq_toNat_bmod (hal.s32 k).toBitVec
    have hmod : (hal.s32 k).toInt % 256 ^ n = ((hal.s32 k).toUInt32.toNat : ℤ) % 256 ^ n := by
      have hb : ((hal.s32 k).toUInt32.toNat : ℤ).bmod (2 ^ 32) % 2 ^ 32 = ((hal.s32 k).toUInt32.toNat : ℤ) % 2 ^ 32 :=
        Int.bmod_emod
      rw [hint, ← Int.emod_emod_of_dvd _ hdvd, hb, Int.emod_emod_of_dvd _ hdvd]
    simp only [reduceCtorEq, ↓reduceIte]
    rw [fieldBytes, hmod]
    exact (fieldBytes_natCast n _).symm

theorem motionValue_of_pin {L : Layout} {p : PinCfg} {k : ℕ} (hk : L.bus.pins[k]? = some p) (hal : Hal) {m : TeensyMotion}
    (hm : m.pinIndex = some k) :
    motionValue L hal m = if p.halType = .u32 then hal.u32 k else (hal.s32 k).toUInt32 := by
  have hrow : L.teensyPins[k]? = some (L.teensyPin p) := by
    change (L.bus.pins.map L.teensyPin)[k]? = _
    rw [List.getElem?_map, hk, Option.map_some]
  simp only [motionValue, hm, hrow]
  rfl

namespace Resolved.Describes

variable {cfg : Resolved} {slaves : List BusSlave}

theorem row_at (h : cfg.Describes slaves) {i : ℕ} {x : PlacedOutput} (hx : (streamed slaves)[i]? = some x) :
    ∃ off, cfg.motionFields[i]? = some ⟨off, x.byte, x.length⟩ ∧ (renderPiHeader cfg).motion[i]? =
      some ⟨off, cfg.pins.findIdx? fun p => p.dir = .output ∧ p.byteOffset = x.byte, x.length⟩ := by
  rw [← getElem?_place PlacedOutput.length 0 (streamed slaves) i] at hx
  obtain ⟨⟨off, y⟩, hq, rfl⟩ := Option.map_eq_some_iff.mp hx
  have hf : cfg.motionFields[i]? = some ⟨off, y.byte, y.length⟩ := by
    rw [h.motionFields_eq, List.getElem?_map, hq]
    rfl
  refine ⟨off, hf, ?_⟩
  change (cfg.motionFields.map fun f => _)[i]? = _
  rw [List.getElem?_map, hf]
  rfl

theorem rows_iff (h : cfg.Describes slaves) :
    (∀ (i : ℕ) x m, (streamed slaves)[i]? = some x → (renderPiHeader cfg).motion[i]? = some m →
      ∃ k, m.pinIndex = some k ∧ cfg.pins[k]? = some x.pin) ↔
      ∀ x ∈ streamed slaves, (firstAt slaves x.byte).map PlacedOutput.pin = some x.pin := by
  constructor
  · intro hr x hx
    obtain ⟨i, hi⟩ := List.mem_iff_getElem?.mp hx
    obtain ⟨off, -, hm⟩ := h.row_at hi
    obtain ⟨k, hk, hpin⟩ := hr i x _ hi hm
    rw [← h.findPin, ← getElem?_of_findIdx? hk, hpin]
  · intro hfirst i x m hi hm
    obtain ⟨off, -, hm'⟩ := h.row_at hi
    obtain rfl := Option.some.inj (hm'.symm.trans hm)
    have hfound := hfirst x (List.mem_of_getElem? hi)
    rw [← h.findPin] at hfound
    obtain ⟨k, hk⟩ := isSome_findIdx? hfound
    exact ⟨k, hk, (getElem?_of_findIdx? hk).trans hfound⟩

theorem sampleInOrder (h : cfg.Describes slaves) : cfg.render.SampleInOrder := by
  change cfg.motionFields.Pairwise _
  rw [h.motionFields_eq, List.pairwise_map]
  exact place_pairwise (w := PlacedOutput.length) 0 (streamed slaves)

theorem apart_iff (h : cfg.Describes slaves) : (cfg.motionFields.Pairwise fun f g => Disjoint f.bytes g.bytes) ↔
    (streamed slaves).Pairwise fun x y => Disjoint x.bytes y.bytes := by
  rw [h.motionFields_eq, List.pairwise_map, ← map_snd_place (w := PlacedOutput.length) 0 (streamed slaves),
    List.pairwise_map, map_snd_place]
  rfl

theorem sample_pos (h : cfg.Describes slaves) {x : PlacedOutput} (hx : x ∈ streamed slaves) (hlen : 0 < x.length) :
    0 < cfg.streamSampleBytes := by
  obtain ⟨i, hi⟩ := List.mem_iff_getElem?.mp hx
  obtain ⟨off, hf, -⟩ := h.row_at hi
  have hfit := h.sampleFits _ (List.mem_of_getElem? hf)
  dsimp only at hfit
  omega

theorem delivered (h : cfg.Describes slaves) (hfits : cfg.streamSampleBytes ≤ motionSampleMax)
    (hapart : cfg.motionFields.Pairwise fun f g => Disjoint f.bytes g.bytes) {i k : ℕ} {x : PlacedOutput}
    (hx : (streamed slaves)[i]? = some x) (hlen : 0 < x.length) {m : TeensyMotion}
    (hm : (renderPiHeader cfg).motion[i]? = some m) (hk : m.pinIndex = some k) (hpin : cfg.pins[k]? = some x.pin)
    (c : HostComponent) (hal : Hal) {b : HostBridge cfg.render} {image : List UInt8} {cycleIndex : UInt32}
    {payload : List UInt8} (hs : (cycleIndex, payload) ∈ frameSamples cfg.render (c.buildFrame cfg.render hal).1)
    (hv : b.outValid = true) (hdue : b.dueSample cycleIndex = some payload) (himage : x.byte + x.length ≤ image.length) :
    slice (b.applyOutputs image cycleIndex).1 x.byte x.length =
      wordBytes (if x.entry.halType = .u32 then hal.u32 k else (hal.s32 k).toUInt32) x.length := by
  obtain ⟨off, hf, hm'⟩ := h.row_at hx
  have hrow := Option.some.inj (hm.symm.trans hm')
  obtain ⟨hcap, hcap'⟩ := h.maxSamples (h.sample_pos (List.mem_of_getElem? hx) hlen)
  have hmem : m ∈ cfg.render.teensyMotion := List.mem_of_getElem? hm
  obtain ⟨hpay, hslice⟩ := c.buildFrame_payload (L := cfg.render) h.sampleFits h.sampleInOrder hcap (lt_of_le_of_lt hcap' (by decide)) hfits
    hal hs hmem
  rw [motionValue_of_pin hpin hal hk] at hslice
  rw [hrow] at hslice
  have hin := h.sampleFits _ (List.mem_of_getElem? hf)
  rw [← HostBridge.slice_applyOutputs (L := cfg.render) hapart hv image hdue (List.mem_of_getElem? hf) hlen
    ⟨by rw [hpay]; exact hin, himage⟩] at hslice
  exact hslice

theorem exists_due (h : cfg.Describes slaves) (hfits : cfg.streamSampleBytes ≤ motionSampleMax)
    (hpos : 0 < cfg.streamSampleBytes) (hfields : cfg.motionFields ≠ []) (hal : Hal) :
    ∃ (c : HostComponent) (b : HostBridge cfg.render) (cycleIndex : UInt32) (payload : List UInt8),
      Accepted cfg.render (c.buildFrame cfg.render hal).1 ∧
      (cycleIndex, payload) ∈ frameSamples cfg.render (c.buildFrame cfg.render hal).1 ∧
      b.outValid = true ∧ b.dueSample cycleIndex = some payload := by
  let c := HostComponent.load cfg.defaultLead
  obtain ⟨hcap, hcap'⟩ := h.maxSamples hpos
  have hsends := c.buildFrame_sends (L := cfg.render) h.sampleFits hfields hcap (lt_of_le_of_lt hcap' (by decide)) hal
  have habs := (HostBridge.new cfg.render).ingest_accepted hsends.accepted
  have hstream : streaming cfg.render = true := by
    apply decide_eq_true
    change 0 < min cfg.streamSampleBytes motionSampleMax
    omega
  have hwant : 0 < c.want cfg.render := by
    rw [HostComponent.want]
    split_ifs <;> omega
  have htags := congrArg List.length hsends.tags
  rw [List.length_map, List.length_map, List.length_range] at htags
  obtain ⟨⟨tag, payload⟩, samples, hsamples⟩ := List.exists_cons_of_length_pos (by rw [htags]; exact hwant)
  have hring := habs.samples
  rw [if_pos hstream, hsamples] at hring
  refine ⟨c, _, tag, payload, hsends.accepted, by rw [hsamples]; exact List.mem_cons_self, habs.outValid, ?_⟩
  rw [HostBridge.dueSample, if_pos hstream, hring]
  have hnew : (HostBridge.new cfg.render).motion.samples = [] := rfl
  have hroom : motionRingDepth - (HostBridge.new cfg.render).motion.len = 31 + 1 := rfl
  rw [hnew, List.nil_append, hroom, List.take_succ_cons, MotionQueue.due, MotionQueue.fresh,
    List.dropWhile_cons_of_neg (by rw [MotionQueue.cycleBefore_self]; decide)]
  exact if_pos rfl

end Resolved.Describes

def Hal.uniform (bit : Bool) (value : UInt32) : Hal :=
  ⟨false, false, false, fun _ => bit, fun _ => value, fun _ => value.toInt32⟩

theorem wordBytes_bit {p : PinCfg} {n : ℕ} (hn : 0 < n) (ht : p.halType = .bit) (k : ℕ) :
    wordBytes (if p.halType = .u32 then (Hal.uniform true 0).u32 k else ((Hal.uniform true 0).s32 k).toUInt32) n ≠
      fieldBytes n ((Hal.uniform true 0).value p k) := by
  intro h
  have hvalue : (Hal.uniform true 0).value p k = (1 : ℕ) := by
    rw [Hal.value, ht]
    rfl
  have hword : (if p.halType = .u32 then (Hal.uniform true 0).u32 k else ((Hal.uniform true 0).s32 k).toUInt32) = 0 :=
    ite_self _
  have hi := congrArg (fun bytes => bytes[0]?) h
  rw [hvalue, hword, fieldBytes_natCast, getElem?_wordBytes hn, getElem?_leBytes hn] at hi
  exact absurd hi (by decide)

theorem wordBytes_long {p : PinCfg} {n : ℕ} (hn : 4 < n) (ht : p.halType ≠ .bit) (k : ℕ) :
    wordBytes (if p.halType = .u32 then (Hal.uniform true 1).u32 k else ((Hal.uniform true 1).s32 k).toUInt32) n ≠
      fieldBytes n ((Hal.uniform true 1).value p k) := by
  intro h
  have hvalue : (Hal.uniform true 1).value p k = (1 : ℕ) := by
    rw [Hal.value]
    cases hp : p.halType with
    | bit => exact absurd hp ht
    | u32 => rfl
    | s32 => rfl
  have hword : (if p.halType = .u32 then (Hal.uniform true 1).u32 k else ((Hal.uniform true 1).s32 k).toUInt32) = 1 :=
    ite_self _
  have hi := congrArg (fun bytes => bytes[4]?) h
  rw [hvalue, hword, fieldBytes_natCast, getElem?_wordBytes hn, getElem?_leBytes hn] at hi
  exact absurd hi (by decide)

section

variable {refClock : ℕ} {slaves : List BusSlave} {esi : Esi} {cfg : Resolved}

/-- The stream delivers exactly what is streamable. -/
theorem delivers_iff (h : resolve refClock slaves esi = .ok cfg) (hfits : cfg.streamSampleBytes ≤ motionSampleMax) :
    DeliversMotion cfg slaves ↔ Streamable slaves := by
  have hd := resolve_describes h
  have hdomain : (EcDomain.fromConfig cfg.render.bus).image.length = min cfg.image maxImage :=
    (EcDomain.fromConfig cfg.render.bus).length_image
  constructor
  · intro hm
    refine ⟨hd.rows_iff.mp hm.rows, ?_, hd.apart_iff.mp hm.apart⟩
    intro x hx hlen
    obtain ⟨i, hi⟩ := List.mem_iff_getElem?.mp hx
    obtain ⟨off, hf, hrow⟩ := hd.row_at hi
    obtain ⟨k, hk, hpin⟩ := hm.rows i x _ hi hrow
    have hsent (hal : Hal) := hd.exists_due hfits (hd.sample_pos hx hlen) (List.ne_nil_of_mem (List.mem_of_getElem? hf)) hal
    have hbelow : x.byte + x.length ≤ min cfg.image maxImage := by
      obtain ⟨c, b, cycleIndex, payload, hacc, hs, hv, hdue⟩ := hsent (Hal.uniform false 0)
      have hvalue := hm.values i k x _ _ hi hrow hk hf c _ b (List.replicate (min cfg.image maxImage) 0) cycleIndex payload
        hacc hs hv hdue (by rw [List.length_replicate, hdomain])
      have hl := congrArg List.length hvalue
      rw [fieldBytes, length_leBytes, length_slice, HostBridge.length_applyOutputs, List.length_replicate] at hl
      dsimp only at hl
      omega
    have hall (hal : Hal) : wordBytes (if x.pin.halType = .u32 then hal.u32 k else (hal.s32 k).toUInt32) x.length =
        fieldBytes x.length (hal.value x.pin k) := by
      obtain ⟨c, b, cycleIndex, payload, hacc, hs, hv, hdue⟩ := hsent hal
      have hlength : (List.replicate (min cfg.image maxImage) (0 : UInt8)).length = min cfg.image maxImage :=
        List.length_replicate
      rw [← hm.values i k x _ _ hi hrow hk hf c hal b _ cycleIndex payload hacc hs hv hdue (hlength.trans hdomain.symm)]
      exact (hd.delivered hfits hm.apart hi hlen hrow hk hpin c hal hs hv hdue (by rw [hlength]; exact hbelow)).symm
    have ht : x.pin.halType ≠ .bit := fun ht => wordBytes_bit hlen ht k (hall _)
    refine ⟨ht, ?_, by omega⟩
    by_contra hlong
    exact wordBytes_long (by omega) ht k (hall _)
  · intro hs
    have hrows := hd.rows_iff.mpr hs.first
    have hapart := hd.apart_iff.mpr hs.apart
    refine ⟨hrows, ?_, hapart⟩
    intro i k x m f hi hrow hk hf c hal b image cycleIndex payload _ hsample hv hdue himage
    obtain ⟨off, hf', -⟩ := hd.row_at hi
    obtain rfl := Option.some.inj (hf'.symm.trans hf)
    dsimp only
    rcases Nat.eq_zero_or_pos x.length with hz | hlen
    · rw [hz]
      exact List.take_zero
    · obtain ⟨ht, h4, hmax⟩ := hs.sized x (List.mem_of_getElem? hi) hlen
      obtain ⟨k', hk', hpin⟩ := hrows i x m hi hrow
      obtain rfl := Option.some.inj (hk'.symm.trans hk)
      have hbelow := hd.fields_below _ (List.mem_of_getElem? hf')
      have himg := hd.image
      dsimp only at hbelow
      have hin : x.byte + x.length ≤ image.length := by
        rw [himage, hdomain]
        omega
      exact (hd.delivered hfits hapart hi hlen hrow hk hpin c hal hsample hv hdue hin).trans (wordBytes_value (p := x.pin) hal ht h4 k')

end

theorem axis_streamable : Streamable [axis] := by
  refine ⟨?_, ?_, List.pairwise_singleton _ _⟩
  · intro x hx
    obtain rfl := List.mem_singleton.mp hx
    rfl
  · intro x hx _
    obtain rfl := List.mem_singleton.mp hx
    exact ⟨by decide, by decide, by decide⟩

theorem delivers_axis : ∃ cfg, resolve 0 [axis] fourSms = .ok cfg ∧ DeliversMotion cfg [axis] := by
  obtain ⟨cfg, h, hfits⟩ : ∃ cfg, resolve 0 [axis] fourSms = .ok cfg ∧ cfg.streamSampleBytes ≤ motionSampleMax :=
    ⟨_, rfl, by decide⟩
  exact ⟨cfg, h, (delivers_iff h hfits).mpr axis_streamable⟩

def twelveOutputs : BusSlave :=
  ⟨0, 1, [⟨2, [⟨0x1600, [⟨0x7000, 1, 8, .u32, "lamps".toList, false⟩, ⟨0x7000, 2, 4, .u32, "valves".toList, false⟩]⟩]⟩],
    [], 0⟩

def target : BusSlave := ⟨1, 1, [⟨2, [⟨0x1600, [⟨0x607A, 0, 32, .s32, "target".toList, true⟩]⟩]⟩], [], 4⟩

theorem wrong_pin_streamed : ∃ cfg, resolve 0 [twelveOutputs, target] fourSms = .ok cfg ∧
    cfg.streamSampleBytes ≤ motionSampleMax ∧ (renderPiHeader cfg).motion.map TeensyMotion.pinIndex = [some 1] ∧
    cfg.pins[1]?.map PinCfg.name = some "valves".toList ∧ ¬ DeliversMotion cfg [twelveOutputs, target] := by
  refine ⟨_, rfl, by decide, by decide, by decide, ?_⟩
  intro hm
  obtain ⟨k, hk, hpin⟩ := hm.rows 0 _ _ rfl rfl
  obtain rfl := Option.some.inj hk
  exact absurd hpin (by decide)

end EcMaster
