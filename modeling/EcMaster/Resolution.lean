import EcMaster.Generator
import EcMaster.Library.Packing

namespace EcMaster

open Library.Packing

def SyncManager.placed (sm : SyncManager) : List (ℕ × PdoEntry) := place PdoEntry.bits 0 sm.entries

def PdoEntry.named (e : PdoEntry) : Bool := e.halPin ≠ []

def pinAt (cursor : ℕ) (dir : EcDirection) (p : ℕ × PdoEntry) : PinCfg :=
  ⟨p.2.halPin, cursor + p.1 / 8, p.1 % 8, p.2.bits, p.2.halType, dir⟩

def pinsOf (cursor : ℕ) (dir : EcDirection) (ps : List (ℕ × PdoEntry)) : List PinCfg :=
  (ps.filter fun p => p.2.named).map (pinAt cursor dir)

def fieldsOf (cursor : ℕ) (ps : List (ℕ × PdoEntry)) : List (ℕ × ℕ) :=
  (ps.filter fun p => p.2.motion).map fun p => (cursor + p.1 / 8, p.2.bits / 8)

namespace ResolvedSlave

variable (r : ResolvedSlave)

def pins : List PinCfg :=
  pinsOf r.outLogical .output (r.slave.outSms.flatMap SyncManager.placed) ++
    pinsOf r.inLogical .input (r.slave.inSms.flatMap SyncManager.placed)

def fields : List (ℕ × ℕ) := fieldsOf r.outLogical (r.slave.outSms.flatMap SyncManager.placed)

end ResolvedSlave

def MotionAligned (ps : List (ℕ × PdoEntry)) : Prop := ∀ p ∈ ps, p.2.motion → p.1 % 8 = 0 ∧ p.2.bits % 8 = 0

def streamFieldsOf (off : ℕ) (fields : List (ℕ × ℕ)) : List StreamField :=
  (place Prod.snd off fields).map fun p => ⟨p.1, p.2.1, p.2.2⟩

namespace Collected

structure Appends (c : Collected) (pins : List PinCfg) (fields : List (ℕ × ℕ)) (c' : Collected) : Prop where
  pins : c'.pins = c.pins ++ pins
  motionFields : c'.motionFields = c.motionFields ++ streamFieldsOf c.sampleOff fields
  sampleOff : c'.sampleOff = c.sampleOff + (fields.map Prod.snd).sum

theorem Appends.refl (c : Collected) : c.Appends [] [] c :=
  ⟨(List.append_nil _).symm, (List.append_nil _).symm, rfl⟩

theorem Appends.trans {c c' c'' : Collected} {ps qs : List PinCfg} {fs gs : List (ℕ × ℕ)} (h : c.Appends ps fs c')
    (h' : c'.Appends qs gs c'') : c.Appends (ps ++ qs) (fs ++ gs) c'' := by
  refine ⟨by rw [h'.pins, h.pins, List.append_assoc], ?_, ?_⟩
  · rw [h'.motionFields, h.motionFields, h.sampleOff, List.append_assoc, streamFieldsOf, streamFieldsOf, streamFieldsOf,
      place_append, List.map_append]
  · rw [h'.sampleOff, h.sampleOff, List.map_append, List.sum_append, Nat.add_assoc]

theorem addPin_appends (c : Collected) (cursor bitAcc : ℕ) (e : PdoEntry) (dir : EcDirection) :
    c.Appends (pinsOf cursor dir [(bitAcc, e)]) [] (c.addPin cursor bitAcc e dir) := by
  rw [addPin]
  by_cases he : e.halPin = []
  · have hp : pinsOf cursor dir [(bitAcc, e)] = [] := by simp [pinsOf, PdoEntry.named, he]
    rw [if_pos he, hp]
    exact Appends.refl c
  · have hp : pinsOf cursor dir [(bitAcc, e)] = [pinAt cursor dir (bitAcc, e)] := by simp [pinsOf, PdoEntry.named, he]
    rw [if_neg he, hp]
    exact ⟨rfl, (List.append_nil _).symm, rfl⟩

theorem addField_appends (c : Collected) (cursor bitAcc : ℕ) (e : PdoEntry) :
    c.Appends [] [(cursor + bitAcc / 8, e.bits / 8)] (c.addField cursor bitAcc e) :=
  ⟨(List.append_nil _).symm, rfl, rfl⟩

theorem pinsOf_cons (cursor : ℕ) (dir : EcDirection) (p : ℕ × PdoEntry) (ps : List (ℕ × PdoEntry)) :
    pinsOf cursor dir (p :: ps) = pinsOf cursor dir [p] ++ pinsOf cursor dir ps := by
  rw [pinsOf, pinsOf, pinsOf, ← List.map_append, ← List.filter_append]
  rfl

theorem outputEntries_ok {cursor bitAcc : ℕ} {es : List PdoEntry} {c c' : Collected}
    (h : outputEntries cursor bitAcc es c = .ok c') :
    c.Appends (pinsOf cursor .output (place PdoEntry.bits bitAcc es)) (fieldsOf cursor (place PdoEntry.bits bitAcc es)) c' ∧
      MotionAligned (place PdoEntry.bits bitAcc es) := by
  induction es generalizing bitAcc c with
  | nil =>
    obtain rfl := Except.ok.inj h
    exact ⟨Appends.refl c, fun p hp => absurd hp List.not_mem_nil⟩
  | cons e es ih =>
    have hpin := c.addPin_appends cursor bitAcc e .output
    rw [outputEntries] at h
    rw [place, pinsOf_cons]
    cases hm : e.motion with
    | true =>
      rw [hm, if_pos rfl] at h
      split_ifs at h with ha
      obtain ⟨happ, hal⟩ := ih h
      have hf : fieldsOf cursor ((bitAcc, e) :: place PdoEntry.bits (bitAcc + e.bits) es) =
          (cursor + bitAcc / 8, e.bits / 8) :: fieldsOf cursor (place PdoEntry.bits (bitAcc + e.bits) es) := by
        simp [fieldsOf, hm]
      refine ⟨?_, ?_⟩
      · rw [hf]
        have happ := (hpin.trans (addField_appends _ cursor bitAcc e)).trans happ
        rwa [List.append_nil] at happ
      · intro p hp hpm
        rcases List.mem_cons.mp hp with rfl | hp
        · exact ⟨by by_contra hn; exact ha (Or.inr hn), by by_contra hn; exact ha (Or.inl hn)⟩
        · exact hal p hp hpm
    | false =>
      rw [hm, if_neg (by decide)] at h
      obtain ⟨happ, hal⟩ := ih h
      have hf : fieldsOf cursor ((bitAcc, e) :: place PdoEntry.bits (bitAcc + e.bits) es) =
          fieldsOf cursor (place PdoEntry.bits (bitAcc + e.bits) es) := by
        simp [fieldsOf, hm]
      refine ⟨?_, ?_⟩
      · rw [hf]
        exact hpin.trans happ
      · intro p hp hpm
        rcases List.mem_cons.mp hp with rfl | hp
        · rw [hm] at hpm
          exact absurd hpm (by decide)
        · exact hal p hp hpm

theorem inputEntries_appends (cursor bitAcc : ℕ) (es : List PdoEntry) (c : Collected) :
    c.Appends (pinsOf cursor .input (place PdoEntry.bits bitAcc es)) [] (inputEntries cursor bitAcc es c) := by
  induction es generalizing bitAcc c with
  | nil => exact Appends.refl c
  | cons e es ih =>
    rw [place, pinsOf_cons]
    exact (c.addPin_appends cursor bitAcc e .input).trans (ih _ _)

theorem pinsOf_append (cursor : ℕ) (dir : EcDirection) (ps qs : List (ℕ × PdoEntry)) :
    pinsOf cursor dir (ps ++ qs) = pinsOf cursor dir ps ++ pinsOf cursor dir qs := by
  rw [pinsOf, List.filter_append, List.map_append]
  rfl

theorem fieldsOf_append (cursor : ℕ) (ps qs : List (ℕ × PdoEntry)) :
    fieldsOf cursor (ps ++ qs) = fieldsOf cursor ps ++ fieldsOf cursor qs := by
  rw [fieldsOf, List.filter_append, List.map_append]
  rfl

theorem outputSms_ok {cursor : ℕ} {sms : List SyncManager} {c c' : Collected} (h : outputSms cursor sms c = .ok c') :
    c.Appends (pinsOf cursor .output (sms.flatMap SyncManager.placed))
        (fieldsOf cursor (sms.flatMap SyncManager.placed)) c' ∧
      ∀ sm ∈ sms, MotionAligned sm.placed := by
  induction sms generalizing c with
  | nil =>
    obtain rfl := Except.ok.inj h
    exact ⟨Appends.refl c, fun sm hsm => absurd hsm List.not_mem_nil⟩
  | cons sm sms ih =>
    rw [outputSms] at h
    cases he : outputEntries cursor 0 sm.entries c with
    | error err => rw [he] at h; exact absurd h (by simp [bind, Except.bind])
    | ok c₁ =>
      rw [he] at h
      obtain ⟨happ, hal⟩ := outputEntries_ok he
      obtain ⟨happ', hal'⟩ := ih h
      rw [List.flatMap_cons, pinsOf_append, fieldsOf_append]
      exact ⟨happ.trans happ', List.forall_mem_cons.mpr ⟨hal, hal'⟩⟩

theorem inputSms_appends (cursor : ℕ) (sms : List SyncManager) (c : Collected) :
    c.Appends (pinsOf cursor .input (sms.flatMap SyncManager.placed)) [] (inputSms cursor sms c) := by
  induction sms generalizing c with
  | nil => exact Appends.refl c
  | cons sm sms ih =>
    rw [List.flatMap_cons, pinsOf_append]
    exact (c.inputEntries_appends cursor 0 sm.entries).trans (ih _)

end Collected

structure ResolvesTo (outCursor inCursor : ℕ) (ss : List BusSlave) (c : Collected) (rs : List ResolvedSlave)
    (c' : Collected) (image : ℕ) : Prop where
  slaves : rs.map ResolvedSlave.slave = ss
  sizes : ∀ r ∈ rs, r.outSize = smBytes r.slave.outSms ∧ r.inSize = smBytes r.slave.inSms
  outputs : rs.map ResolvedSlave.outLogical = (place ResolvedSlave.outSize outCursor rs).map Prod.fst
  inputs : rs.map ResolvedSlave.inLogical = (place ResolvedSlave.inSize inCursor rs).map Prod.fst
  image : image = inCursor + (rs.map ResolvedSlave.inSize).sum
  appends : c.Appends (rs.flatMap ResolvedSlave.pins) (rs.flatMap ResolvedSlave.fields) c'
  aligned : ∀ r ∈ rs, ∀ sm ∈ r.slave.outSms, MotionAligned sm.placed

theorem resolveSlaves_ok {esi : Esi} {outCursor inCursor : ℕ} {ss : List BusSlave} {c c' : Collected}
    {rs : List ResolvedSlave} {image : ℕ} (h : resolveSlaves esi outCursor inCursor ss c = .ok (rs, c', image)) :
    ResolvesTo outCursor inCursor ss c rs c' image := by
  induction ss generalizing outCursor inCursor c rs with
  | nil =>
    obtain ⟨rfl, rfl, rfl⟩ : [] = rs ∧ c = c' ∧ inCursor = image := by
      have hi := Except.ok.inj h
      simpa using hi
    exact ⟨rfl, by simp, rfl, rfl, rfl, Collected.Appends.refl c, by simp⟩
  | cons s ss ih =>
    rw [resolveSlaves] at h
    cases hsm : syncManagers esi s with
    | error err => rw [hsm] at h; exact absurd h (by simp [bind, Except.bind])
    | ok sms =>
      rw [hsm] at h
      cases ho : c.outputSms outCursor s.outSms with
      | error err => simp [bind, Except.bind, ho] at h
      | ok c₁ =>
        simp only [bind, Except.bind, ho] at h
        cases hr : resolveSlaves esi (outCursor + smBytes s.outSms) (inCursor + smBytes s.inSms) ss
            (c₁.inputSms inCursor s.inSms) with
        | error err => simp [hr] at h
        | ok found =>
          obtain ⟨rs', c'', image'⟩ := found
          simp only [hr, Except.ok.injEq, Prod.mk.injEq] at h
          obtain ⟨rfl, rfl, rfl⟩ := h
          have hrec := ih hr
          obtain ⟨happ, hal⟩ := Collected.outputSms_ok ho
          have hin := c₁.inputSms_appends inCursor s.inSms
          refine ⟨?_, ?_, ?_, ?_, ?_, ?_, ?_⟩
          · rw [List.map_cons, hrec.slaves]
          · exact List.forall_mem_cons.mpr ⟨⟨rfl, rfl⟩, hrec.sizes⟩
          · rw [List.map_cons, hrec.outputs]
            rfl
          · rw [List.map_cons, hrec.inputs]
            rfl
          · rw [hrec.image, List.map_cons, List.sum_cons, Nat.add_assoc]
          · have ht := (happ.trans hin).trans hrec.appends
            rw [List.append_nil] at ht
            exact ht
          · exact List.forall_mem_cons.mpr ⟨hal, hrec.aligned⟩

/-- What `resolve` has found out about a bus that it accepts. -/
structure Resolved.Describes (cfg : Resolved) (slaves : List BusSlave) : Prop where
  slaves : cfg.slaves.map ResolvedSlave.slave = slaves
  sizes : ∀ r ∈ cfg.slaves, r.outSize = smBytes r.slave.outSms ∧ r.inSize = smBytes r.slave.inSms
  outputs : cfg.slaves.map ResolvedSlave.outLogical = (place ResolvedSlave.outSize 0 cfg.slaves).map Prod.fst
  inputs : cfg.slaves.map ResolvedSlave.inLogical =
    (place ResolvedSlave.inSize cfg.outBytes cfg.slaves).map Prod.fst
  outBytes : cfg.outBytes = (cfg.slaves.map ResolvedSlave.outSize).sum
  image : cfg.image = cfg.outBytes + (cfg.slaves.map ResolvedSlave.inSize).sum
  inBytes : cfg.inBytes = cfg.image - cfg.outBytes
  pins : cfg.pins = cfg.slaves.flatMap ResolvedSlave.pins
  motionFields : cfg.motionFields = streamFieldsOf 0 (cfg.slaves.flatMap ResolvedSlave.fields)
  sampleBytes : cfg.streamSampleBytes = ((cfg.slaves.flatMap ResolvedSlave.fields).map Prod.snd).sum
  aligned : ∀ r ∈ cfg.slaves, ∀ sm ∈ r.slave.outSms, MotionAligned sm.placed
  maxSamples : 0 < cfg.streamSampleBytes → 0 < cfg.maxSamplesPerFrame ∧ cfg.maxSamplesPerFrame ≤ 32

theorem resolve_describes {refClock : ℕ} {slaves : List BusSlave} {esi : Esi} {cfg : Resolved}
    (h : resolve refClock slaves esi = .ok cfg) : cfg.Describes slaves := by
  rw [resolve] at h
  dsimp only at h
  cases hr : resolveSlaves esi 0 (slaves.map fun s => smBytes s.outSms).sum slaves ⟨[], [], 0⟩ with
  | error err => simp [bind, Except.bind, hr] at h
  | ok found =>
    obtain ⟨rs, c, image⟩ := found
    simp only [bind, Except.bind, hr] at h
    cases hd : duplicate [] c.pins with
    | some name => simp [hd] at h
    | none =>
      simp only [hd, Except.ok.injEq] at h
      have hs := resolveSlaves_ok hr
      have hout : (slaves.map fun s => smBytes s.outSms).sum = (rs.map ResolvedSlave.outSize).sum := by
        rw [← hs.slaves, List.map_map]
        congr 1
        apply List.map_congr_left
        intro r hr
        exact (hs.sizes r hr).1.symm
      rw [← h]
      refine ⟨hs.slaves, hs.sizes, hs.outputs, hs.inputs, hout, hs.image, rfl, ?_, ?_, ?_, hs.aligned, ?_⟩
      · exact hs.appends.pins.trans (List.nil_append _)
      · exact hs.appends.motionFields.trans (List.nil_append _)
      · exact hs.appends.sampleOff.trans (Nat.zero_add _)
      · intro hpos
        dsimp only at hpos ⊢
        rw [if_pos hpos]
        omega

end EcMaster
