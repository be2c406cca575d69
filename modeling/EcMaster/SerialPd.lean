import EcMaster.Firmware
import EcMaster.InputWindows

namespace EcMaster

open Library.Run

def BusCfg.pin (bus : BusCfg) (name : List Char) : Option PinCfg := bus.pins.find? fun p => p.name = name

inductive PdAnswer
  | notRunning
  | dump (phase : Phase) (wkc expectedWkc : UInt16) (cycles : UInt32) (image : List UInt8)
  | unknownPin (name : List Char)
  | written (name : List Char) (value : Int64)
  | reading (name : List Char) (value : Int64)

def pdDumpMax : ℕ := 320

variable {L : Layout}

/-- `write_value` into the image of the engine. -/
def Cyclic.writePin (c : Cyclic L) (p : PinCfg) (value : Int64) : Cyclic L :=
  c.putImage (writeValue c.domain.image p value) (length_writeValue _ _ _)

def ecatPd (cyclic : Option (Cyclic L)) (pin : Option (List Char)) (value : Option Int64) :
    PdAnswer × Option (Cyclic L) :=
  match pin with
  | none =>
    match cyclic with
    | some c =>
      (.dump c.phase c.domain.lastWkc c.domain.expectedWkc c.totalCycles (c.domain.image.take pdDumpMax), cyclic)
    | none => (.notRunning, cyclic)
  | some name =>
    match L.bus.pin name with
    | none => (.unknownPin name, cyclic)
    | some p =>
      match value with
      | some v =>
        match cyclic with
        | some c => (.written name v, some (c.writePin p v))
        | none => (.notRunning, cyclic)
      | none =>
        match cyclic with
        | some c => (.reading name (readValue c.domain.image p), cyclic)
        | none => (.notRunning, cyclic)

/-- What happens to the firmware, the serial `pd` command included. -/
inductive Action
  | event (e : Event)
  | pd (pin : Option (List Char)) (value : Option Int64)

namespace Firmware

def act (s : Firmware L) : Action → Firmware L
  | .event e => step s e
  | .pd pin value => { s with cyclic := (ecatPd s.cyclic pin value).2 }

theorem act_pd (s : Firmware L) (pin : Option (List Char)) (value : Option Int64) :
    act s (.pd pin value) = s ∨ ∃ c name p v, s.cyclic = some c ∧ pin = some name ∧ value = some v ∧
      L.bus.pin name = some p ∧ act s (.pd pin value) = { s with cyclic := some (c.writePin p v) } := by
  rw [act]
  cases pin with
  | none => cases hc : s.cyclic <;> exact Or.inl (by rw [ecatPd, ← hc])
  | some name =>
    cases hp : L.bus.pin name with
    | none => exact Or.inl (by simp only [ecatPd, hp])
    | some p =>
      cases value with
      | none => cases hc : s.cyclic <;> exact Or.inl (by simp only [ecatPd, hp, ← hc])
      | some v =>
        cases hc : s.cyclic with
        | none => exact Or.inl (by simp only [ecatPd, hp, ← hc])
        | some c => exact Or.inr ⟨c, name, p, v, rfl, rfl, rfl, hp, by simp only [ecatPd, hp]⟩

end Firmware

end EcMaster
