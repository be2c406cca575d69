import EcMaster.Requests

namespace EcMaster

open Library.Dialogue Library.Dialogue.Script Library.Segment Library.LittleEndian Library.Memory

namespace Master

variable {B : Bus}

theorem sdoState_mem (info : SlaveInfo) : sdoState info ∈ [alStatePreop, alStateSafeop, alStateOp] := by
  have hmailbox {al : UInt8} (h : needsMailbox al = true) : al ∈ [alStatePreop, alStateSafeop, alStateOp] := by
    simpa [needsMailbox] using h
  rw [sdoState]
  split_ifs with h
  · exact hmailbox h
  · exact List.mem_cons_self

section Requests

variable {m m' : Master B} {w : Stations} {es : ℕ → List (PitTick B.layout) × Device} {slave index : UInt16}
  {subindex : UInt8} {info : SlaveInfo} {s : Esc}

def Serves (info : SlaveInfo) (s : Esc) : Prop := (s.prepared info.mailbox true).allows (sdoState info) = true

theorem Named.station (hn : m.Named w slave info s) : s.make.mailbox.stationAddr = info.stationAddr := by
  rw [hn.mailbox]
  rfl

theorem Named.mailboxOn (hn : m.Named w slave info s) :
    s.make.mailboxOn (sdoState info) (s.prepared info.mailbox true).mem = true := by
  obtain ⟨-, -, -, -, hset⟩ := hn.idle.prepared info.mailbox true
  have hne : sdoState info &&& alStateMask ≠ alStateInit := by
    have hstate := sdoState_mem info
    simp only [List.mem_cons, List.not_mem_nil, or_false] at hstate
    rcases hstate with h | h | h <;> rw [h] <;> decide
  rw [EscMake.mailboxOn, hn.mailbox, hset rfl, decide_eq_true hne]
  rfl

end Requests

end Master

end EcMaster
