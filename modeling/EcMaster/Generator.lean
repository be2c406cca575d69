import EcMaster.Config

namespace EcMaster

/-- A `<pdoEntry>`; a missing and an empty `halPin` are the same. -/
structure PdoEntry where
  idx : ℕ
  sub : ℕ
  bits : ℕ
  halType : HalType
  halPin : List Char
  motion : Bool

structure Pdo where
  index : ℕ
  entries : List PdoEntry

structure SyncManager where
  index : ℕ
  pdos : List Pdo

structure BusSlave where
  position : ℕ
  pid : ℕ
  outSms : List SyncManager
  inSms : List SyncManager
  motionLead : ℤ

/-- The sync managers of each product in the ESI, as start address and control byte. -/
abbrev Esi := ℕ → Option (List (ℕ × ℕ))

inductive ResolveError
  | productNotFound (pid : ℕ)
  | fewSyncManagers (position pid count : ℕ)
  | motionUnaligned (entry : PdoEntry)
  | duplicatePin (name : List Char)

structure ResolvedSlave where
  slave : BusSlave
  outSize : ℕ
  inSize : ℕ
  smPhys : ℕ × ℕ
  smCtrl : ℕ × ℕ
  outLogical : ℕ
  inLogical : ℕ

structure Resolved where
  refClock : ℕ
  slaves : List ResolvedSlave
  pins : List PinCfg
  image : ℕ
  outBytes : ℕ
  inBytes : ℕ
  motionFields : List StreamField
  streamSampleBytes : ℕ
  defaultLead : ℤ
  maxSamplesPerFrame : ℕ

namespace SyncManager

def entries (sm : SyncManager) : List PdoEntry := sm.pdos.flatMap Pdo.entries

end SyncManager

def smBytes (sms : List SyncManager) : ℕ :=
  (sms.map fun sm => (sm.pdos.map fun pdo => (pdo.entries.map PdoEntry.bits).sum).sum).sum / 8

/-- The lists that `resolve` appends to, and its sample offset. -/
structure Collected where
  pins : List PinCfg
  motionFields : List StreamField
  sampleOff : ℕ

namespace Collected

def addPin (c : Collected) (cursor bitAcc : ℕ) (e : PdoEntry) (dir : EcDirection) : Collected :=
  if e.halPin = [] then c
  else { c with pins := c.pins ++ [⟨e.halPin, cursor + bitAcc / 8, bitAcc % 8, e.bits, e.halType, dir⟩] }

def addField (c : Collected) (cursor bitAcc : ℕ) (e : PdoEntry) : Collected :=
  { c with
    motionFields := c.motionFields ++ [⟨c.sampleOff, cursor + bitAcc / 8, e.bits / 8⟩]
    sampleOff := c.sampleOff + e.bits / 8 }

def outputEntries (cursor : ℕ) : ℕ → List PdoEntry → Collected → Except ResolveError Collected
  | _, [], c => .ok c
  | bitAcc, e :: es, c =>
    let c := c.addPin cursor bitAcc e .output
    if e.motion then
      if e.bits % 8 ≠ 0 ∨ bitAcc % 8 ≠ 0 then .error (.motionUnaligned e)
      else outputEntries cursor (bitAcc + e.bits) es (c.addField cursor bitAcc e)
    else outputEntries cursor (bitAcc + e.bits) es c

def inputEntries (cursor : ℕ) : ℕ → List PdoEntry → Collected → Collected
  | _, [], c => c
  | bitAcc, e :: es, c => inputEntries cursor (bitAcc + e.bits) es (c.addPin cursor bitAcc e .input)

def outputSms (cursor : ℕ) : List SyncManager → Collected → Except ResolveError Collected
  | [], c => .ok c
  | sm :: sms, c => do
    let c ← outputEntries cursor 0 sm.entries c
    outputSms cursor sms c

def inputSms (cursor : ℕ) (sms : List SyncManager) (c : Collected) : Collected :=
  sms.foldl (fun c sm => inputEntries cursor 0 sm.entries c) c

end Collected

def syncManagers (esi : Esi) (s : BusSlave) : Except ResolveError ((ℕ × ℕ) × (ℕ × ℕ)) :=
  match esi s.pid with
  | none => .error (.productNotFound s.pid)
  | some (_ :: _ :: sm2 :: sm3 :: _) => .ok (sm2, sm3)
  | some sms => .error (.fewSyncManagers s.position s.pid sms.length)

def resolveSlaves (esi : Esi) : ℕ → ℕ → List BusSlave → Collected → Except ResolveError (List ResolvedSlave × Collected × ℕ)
  | _, inCursor, [], c => .ok ([], c, inCursor)
  | outCursor, inCursor, s :: ss, c => do
    let (sm2, sm3) ← syncManagers esi s
    let r : ResolvedSlave :=
      ⟨s, smBytes s.outSms, smBytes s.inSms, (sm2.1, sm3.1), (sm2.2, sm3.2), outCursor, inCursor⟩
    let c ← c.outputSms outCursor s.outSms
    let c := c.inputSms inCursor s.inSms
    let (rs, c, image) ← resolveSlaves esi (outCursor + r.outSize) (inCursor + r.inSize) ss c
    .ok (r :: rs, c, image)

def duplicate : List (List Char) → List PinCfg → Option (List Char)
  | _, [] => none
  | seen, p :: ps => if p.name ∈ seen then some p.name else duplicate (p.name :: seen) ps

def resolve (refClock : ℕ) (slaves : List BusSlave) (esi : Esi) : Except ResolveError Resolved := do
  let totalOut := (slaves.map fun s => smBytes s.outSms).sum
  let (rs, c, image) ← resolveSlaves esi 0 totalOut slaves ⟨[], [], 0⟩
  match duplicate [] c.pins with
  | some name => .error (.duplicatePin name)
  | none =>
    let leads := (slaves.map BusSlave.motionLead).filter fun lead => 0 < lead
    let defaultLead : ℤ := if 0 < c.sampleOff then (if leads = [] then 8 else leads.foldl max 0) else 0
    let maxSamples : ℕ := if 0 < c.sampleOff then (min (max defaultLead 1) 32).toNat else 0
    .ok ⟨refClock, rs, c.pins, image, totalOut, image - totalOut, c.motionFields, c.sampleOff, defaultLead, maxSamples⟩

namespace ResolvedSlave

def fmmus (r : ResolvedSlave) : List FmmuCfg :=
  [⟨r.outLogical, r.outSize, r.smPhys.1, .output⟩, ⟨r.inLogical, r.inSize, r.smPhys.2, .input⟩]

def render (r : ResolvedSlave) : SlaveCfg := ⟨r.slave.position, r.fmmus, r.outSize, r.inSize⟩

end ResolvedSlave

/-- The firmware's constants as `render` and `render_spi_layout` write them. -/
def Resolved.render (cfg : Resolved) : Layout where
  bus := ⟨UInt16.ofNat cfg.refClock, cfg.slaves.map ResolvedSlave.render, cfg.pins, cfg.image⟩
  streamSampleBytes := cfg.streamSampleBytes
  maxSamplesPerFrame := cfg.maxSamplesPerFrame
  streamFields := cfg.motionFields

end EcMaster
