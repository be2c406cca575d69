import EcMaster.HostOutputs
import EcMaster.HostStream
import EcMaster.PiHeader
import EcMaster.PinWire

namespace EcMaster

open Library.Segment Library.LittleEndian

/-- Pins without a common bit, inside their half of the image, of the lengths that HAL pins have. -/
structure Resolved.PinsFit (cfg : Resolved) : Prop where
  disjoint : cfg.pins.Pairwise fun p q => Disjoint p.bits q.bits
  outputs : ∀ p ∈ cfg.pins, p.dir = .output → p.bits ⊆ byteBits 0 cfg.outBytes
  inputs : ∀ p ∈ cfg.pins, p.dir = .input → p.bits ⊆ byteBits cfg.outBytes (cfg.image - cfg.outBytes)
  shaped : ∀ p ∈ cfg.pins, p.Shaped

theorem PinCfg.Shaped.bitLen_pos {p : PinCfg} (h : p.Shaped) : 0 < p.bitLen := by
  rw [Shaped] at h
  split_ifs at h <;> omega

theorem Resolved.PinsFit.layout {refClock : ℕ} {slaves : List BusSlave} {esi : Esi} {cfg : Resolved}
    (h : resolve refClock slaves esi = .ok cfg) (hp : cfg.PinsFit) : cfg.render.Sound :=
  (resolve_describes h).layout (fun p hm => (hp.shaped p hm).bitLen_pos) hp.disjoint hp.outputs hp.inputs

variable {L : Layout}

theorem pins_zipIdx_apart (hL : L.Sound) :
    L.bus.pins.zipIdx.Pairwise fun c d => c.1.Apart d.1 ∧ c.2 ≠ d.2 := by
  have hpins : (L.bus.pins.zipIdx.map Prod.fst).Pairwise PinCfg.Apart := by
    rw [List.zipIdx_map_fst]
    exact hL.pins_apart
  have hrows : (L.bus.pins.zipIdx.map Prod.snd).Pairwise (· ≠ ·) := by
    rw [List.zipIdx_map_snd]
    exact List.nodup_range'
  exact (List.pairwise_map.mp hpins).and (List.pairwise_map.mp hrows)

namespace HostComponent

theorem serializePins_eq (hal : Hal) (mosi : List UInt8) :
    serializePins L hal mosi = L.bus.pins.zipIdx.foldl
      (fun mosi c => if c.1.dir = .output then serializeOut hal mosi (L.teensyPin c.1) c.2 else mosi) mosi := by
  change (L.bus.pins.map L.teensyPin).zipIdx.foldl _ mosi = _
  rw [List.zipIdx_map, List.foldl_map]
  rfl

theorem foldl_serialize_apart (hal : Hal) {p : PinCfg} (hp : p.Shaped) (hpp : p.bitPos < 8) (ps : List (PinCfg × ℕ))
    (hs : ∀ c ∈ ps, c.1.Shaped ∧ c.1.bitPos < 8 ∧ c.1.Apart p) (mosi : List UInt8) :
    p.valueIn (ps.foldl
      (fun mosi c => if c.1.dir = .output then serializeOut hal mosi (L.teensyPin c.1) c.2 else mosi) mosi)
      (mosiHdr + p.byteOffset) = p.valueIn mosi (mosiHdr + p.byteOffset) := by
  induction ps generalizing mosi with
  | nil => rfl
  | cons c ps ih =>
    obtain ⟨hc, hcp, ha⟩ := hs c List.mem_cons_self
    rw [List.foldl_cons, ih fun d hd => hs d (List.mem_cons_of_mem _ hd)]
    split_ifs with ho
    · exact serialize_apart hp hc hpp hcp ho ha hal mosi c.2
    · rfl

theorem length_foldl_serialize (hal : Hal) (ps : List (PinCfg × ℕ)) (mosi : List UInt8) :
    (ps.foldl (fun mosi c => if c.1.dir = .output then serializeOut hal mosi (L.teensyPin c.1) c.2 else mosi)
      mosi).length = mosi.length := by
  induction ps generalizing mosi with
  | nil => rfl
  | cons c ps ih =>
    rw [List.foldl_cons, ih]
    split_ifs
    · exact length_serializeOut _ _ _ _
    · rfl

theorem serializePins_value (hL : L.Sound) (hs : ∀ p ∈ L.bus.pins, p.Shaped) (hal : Hal) {mosi : List UInt8}
    (hl : mosiHdr + L.outBytes ≤ mosi.length) {p : PinCfg} {k : ℕ} (hk : L.bus.pins[k]? = some p)
    (ho : p.dir = .output) :
    p.valueIn (serializePins L hal mosi) (mosiHdr + p.byteOffset) = p.cut (hal.value p k) := by
  have hp := List.mem_of_getElem? hk
  obtain ⟨pre, post, hsplit⟩ := List.append_of_mem (List.mk_mem_zipIdx_iff_getElem?.mpr hk)
  have hapart := pins_zipIdx_apart hL
  rw [hsplit, List.pairwise_append, List.pairwise_cons] at hapart
  have hw := hL.width_below hp ho
  have hoff : (L.teensyPin p).frameOff = mosiHdr + p.byteOffset := if_pos ho
  rw [serializePins_eq, hsplit, List.foldl_append, List.foldl_cons, foldl_serialize_apart hal (hs p hp) (hL.bitPos_lt p hp),
    if_pos ho, ← hoff]
  · apply serialize_value (hs p hp) (hL.bitPos_lt p hp)
    rw [length_foldl_serialize, hoff]
    omega
  · intro c hc
    have hcp : c.1 ∈ L.bus.pins := by
      apply List.fst_mem_of_mem_zipIdx
      rw [hsplit]
      exact List.mem_append_right _ (List.mem_cons_of_mem _ hc)
    exact ⟨hs _ hcp, hL.bitPos_lt _ hcp, (hapart.2.1.1 c hc).1.symm⟩

def deserializePins (L : Layout) (miso : List UInt8) (hal : Hal) : Hal :=
  L.teensyPins.zipIdx.foldl (fun hal p => if p.1.dir = .input then deserializeIn hal miso p.1 p.2 else hal) hal

theorem foldl_deserialize_other (miso : List UInt8) (p : PinCfg) {k : ℕ} (ps : List (PinCfg × ℕ))
    (hs : ∀ c ∈ ps, k ≠ c.2) (hal : Hal) :
    (ps.foldl (fun hal c => if c.1.dir = .input then deserializeIn hal miso (L.teensyPin c.1) c.2 else hal) hal).value
      p k = hal.value p k := by
  induction ps generalizing hal with
  | nil => rfl
  | cons c ps ih =>
    rw [List.foldl_cons, ih fun d hd => hs d (List.mem_cons_of_mem _ hd)]
    split_ifs
    · exact deserialize_other (hs c List.mem_cons_self) hal miso _
    · rfl

theorem deserializePins_value (hL : L.Sound) (hs : ∀ p ∈ L.bus.pins, p.Shaped) (miso : List UInt8) (hal : Hal)
    {p : PinCfg} {k : ℕ} (hk : L.bus.pins[k]? = some p) (hi : p.dir = .input) :
    (deserializePins L miso hal).value p k = p.valueIn miso (misoHdr + (p.byteOffset - L.outBytes)) := by
  obtain ⟨pre, post, hsplit⟩ := List.append_of_mem (List.mk_mem_zipIdx_iff_getElem?.mpr hk)
  have hapart := pins_zipIdx_apart hL
  rw [hsplit, List.pairwise_append, List.pairwise_cons] at hapart
  have hoff : (L.teensyPin p).frameOff = misoHdr + (p.byteOffset - L.outBytes) := if_neg (by rw [hi]; decide)
  have heq : deserializePins L miso hal = L.bus.pins.zipIdx.foldl
      (fun hal c => if c.1.dir = .input then deserializeIn hal miso (L.teensyPin c.1) c.2 else hal) hal := by
    change (L.bus.pins.map L.teensyPin).zipIdx.foldl _ hal = _
    rw [List.zipIdx_map, List.foldl_map]
    rfl
  rw [heq, hsplit, List.foldl_append, List.foldl_cons,
    foldl_deserialize_other miso p post fun c hc => (hapart.2.1.1 c hc).2, if_pos hi, ← hoff]
  exact deserialize_value (hs p (List.mem_of_getElem? hk)) _ miso k

end HostComponent

/-- What the component, the firmware and the generated header agree on. -/
structure WireAgreement (cfg : Resolved) : Prop where
  header : renderPiHeader cfg = cfg.render.piHeader cfg.defaultLead
  crc : ∀ data, teensyCrc16 data = crc16 data
  mosi : ∀ (h : HostComponent) hal miso (b : HostBridge cfg.render),
    b.Absorbs (h.update cfg.render hal miso).1 (b.ingest (h.update cfg.render hal miso).1)
  outputs : ∀ (h : HostComponent) hal miso (b : HostBridge cfg.render) image cycleIndex,
    (b.ingest (h.update cfg.render hal miso).1).dueSample cycleIndex = none →
      ∀ (k : ℕ) p, cfg.pins[k]? = some p → p.dir = .output → p.byteOffset + p.width ≤ image.length →
        (readValue ((b.ingest (h.update cfg.render hal miso).1).applyOutputs image cycleIndex).1 p).toInt =
          p.cut (hal.value p k)
  miso : ∀ (h : HostComponent) hal (b : HostBridge cfg.render) image st,
    (h.update cfg.render hal (some (stageTx cfg.render (b.buildReply image st).reply))).2.1.status.online = true
  inputs : ∀ (h : HostComponent) hal (b : HostBridge cfg.render) image st (k : ℕ) p, cfg.pins[k]? = some p →
    p.dir = .input →
      (h.update cfg.render hal (some (stageTx cfg.render (b.buildReply image st).reply))).2.2.value p k =
        (readValue image p).toInt

namespace HostComponent

theorem readValue_ingested (hL : L.Sound) (hf : L.SampleFits) (hs : ∀ p ∈ L.bus.pins, p.Shaped) (h : HostComponent)
    (hal : Hal) (b : HostBridge L) (image : List UInt8) (cycleIndex : UInt32)
    (hd : (b.ingest (h.buildFrame L hal).1).dueSample cycleIndex = none) {p : PinCfg} {k : ℕ}
    (hk : L.bus.pins[k]? = some p) (ho : p.dir = .output) (hi : p.byteOffset + p.width ≤ image.length) :
    (readValue ((b.ingest (h.buildFrame L hal).1).applyOutputs image cycleIndex).1 p).toInt = p.cut (hal.value p k) := by
  have hp := List.mem_of_getElem? hk
  have hw := hL.width_below hp ho
  have habs := b.ingest_accepted (h.buildFrame_accepted hf hal)
  have hlen := mosiLen_le L
  have hoff : L.streamOff = mosiHdr + L.outBytes := rfl
  have hroom : mosiHdr + L.outBytes ≤ (h.advance.header L hal).length := by
    rw [length_header]
    omega
  rw [PinCfg.readValue_valueIn (hs p hp).sized, HostBridge.applyOutputs_image habs.outValid, hd,
    ← serializePins_value hL hs hal hroom hk ho]
  apply PinCfg.valueIn_congr
  intro i hlt
  have hbyte : ((b.ingest (h.buildFrame L hal).1).withBlock image)[p.byteOffset + i]? =
      (serializePins L hal (h.advance.header L hal))[mosiHdr + p.byteOffset + i]? := by
    rw [HostBridge.getElem?_withBlock, if_pos (by omega), habs.stagedOut, getElem?_slice, if_pos (by omega),
      ← Nat.add_assoc, h.buildFrame_front hf hal (by omega)]
  rw [List.getD_eq_getElem?_getD, List.getD_eq_getElem?_getD, hbyte]

theorem receive_intact {miso : List UInt8} (hm : intact L miso = true) (h : HostComponent) (hal : Hal) :
    (h.receive L hal miso).1.status.online = true ∧ (h.receive L hal miso).2 = deserializePins L miso hal := by
  rw [receive, if_neg (by rw [hm]; decide)]
  exact ⟨rfl, rfl⟩

end HostComponent

theorem valueIn_stageTx (hsize : L.outBytes ≤ L.bus.imageSize) (b : HostBridge L) (image : List UInt8) (st : ReplyStatus)
    {p : PinCfg} (h₁ : L.outBytes ≤ p.byteOffset) (h₂ : p.byteOffset + p.width ≤ L.bus.imageSize) :
    p.valueIn (stageTx L (b.buildReply image st).reply) (misoHdr + (p.byteOffset - L.outBytes)) =
      p.valueIn image p.byteOffset := by
  apply PinCfg.valueIn_congr
  intro i hi
  have hin : p.byteOffset - L.outBytes + i < L.inBytes := by
    rw [Layout.inBytes]
    omega
  have hlt : misoHdr + (p.byteOffset - L.outBytes + i) < L.misoLen := by
    rw [Layout.misoLen]
    omega
  have hreply := HostBridge.reply_inputs hsize b image st hin
  have hoff : L.outBytes + (p.byteOffset - L.outBytes + i) = p.byteOffset + i := by omega
  rw [hoff] at hreply
  rw [Nat.add_assoc, List.getD_eq_getElem?_getD, getElem?_stageTx (HostBridge.length_reply _) hlt,
    ← List.getD_eq_getElem?_getD, hreply]

/-- On every layout that `resolve` produces, with pins that fit, both sides of the wire and the header agree. -/
theorem wire_agrees {refClock : ℕ} {slaves : List BusSlave} {esi : Esi} {cfg : Resolved}
    (h : resolve refClock slaves esi = .ok cfg) (hp : cfg.PinsFit) : WireAgreement cfg := by
  have hd := resolve_describes h
  have hL := hp.layout h
  have hf : cfg.render.SampleFits := hd.sampleFits
  have hs : ∀ p ∈ cfg.render.bus.pins, p.Shaped := hp.shaped
  refine ⟨hd.header_eq, teensyCrc16_eq, ?_, ?_, ?_, ?_⟩
  · intro c hal miso b
    have ha := b.ingest_accepted (c.buildFrame_accepted hf hal)
    cases miso <;> exact ha
  · intro c hal miso b image cycleIndex hdue k p hk ho hi
    cases miso <;> exact c.readValue_ingested hL hf hs hal b image cycleIndex hdue hk ho hi
  · intro c hal b image st
    exact (HostComponent.receive_intact (HostComponent.stageTx_intact b image st) _ hal).1
  · intro c hal b image st k p hk hi
    have hm := List.mem_of_getElem? hk
    have hout := hd.render_outBytes
    have hsize : cfg.outBytes ≤ cfg.image := by
      rw [hd.image]
      omega
    obtain ⟨h₁, h₂⟩ := PinCfg.bytes_of_bits (hs p hm).bitLen_pos (hL.bitPos_lt p hm) (hp.inputs p hm hi)
    have hr := (HostComponent.receive_intact (HostComponent.stageTx_intact b image st)
      (c.buildFrame cfg.render hal).2 hal).2
    rw [PinCfg.readValue_valueIn (hs p hm).sized, ← valueIn_stageTx (L := cfg.render) (by rw [hout]; exact hsize) b image st
      (by rw [hout]; exact h₁) (by change _ ≤ cfg.image; omega)]
    change ((c.buildFrame cfg.render hal).2.receive cfg.render hal _).2.value p k = _
    rw [hr]
    exact HostComponent.deserializePins_value hL hs _ hal hk hi

theorem wire_agrees_axis : ∃ cfg, resolve 0 [axis] fourSms = .ok cfg ∧ WireAgreement cfg := by
  obtain ⟨cfg, h, hshaped⟩ : ∃ cfg, resolve 0 [axis] fourSms = .ok cfg ∧ ∀ p ∈ cfg.pins, p.Shaped :=
    ⟨_, rfl, by decide⟩
  have hs : cfg.Sound := (sound_iff_fits h).mpr fun _ hs => List.mem_singleton.mp hs ▸ axis_fits
  exact ⟨cfg, h, wire_agrees h ⟨hs.pins_disjoint, hs.halves.1, hs.halves.2, hshaped⟩⟩

end EcMaster
