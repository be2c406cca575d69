import EcMaster.HostTick

namespace EcMaster

open Library.Segment Library.LittleEndian

structure Keeps {L : Layout} (c c' : Cyclic L) : Prop where
  domain : c'.domain = c.domain
  slaves : c'.slaves = c.slaves
  refRingPos : c'.refRingPos = c.refRingPos
  phase : c'.phase = c.phase
  goodCycles : c'.goodCycles = c.goodCycles
  totalCycles : c'.totalCycles = c.totalCycles
  cia402 : c'.cia402 = c.cia402

theorem Keeps.rfl {L : Layout} {c : Cyclic L} : Keeps c c := ⟨Eq.refl _, Eq.refl _, Eq.refl _, Eq.refl _, Eq.refl _, Eq.refl _, Eq.refl _⟩

theorem Keeps.trans {L : Layout} {a b c : Cyclic L} (h : Keeps a b) (h' : Keeps b c) : Keeps a c :=
  ⟨h'.domain.trans h.domain, h'.slaves.trans h.slaves, h'.refRingPos.trans h.refRingPos, h'.phase.trans h.phase,
    h'.goodCycles.trans h.goodCycles, h'.totalCycles.trans h.totalCycles, h'.cia402.trans h.cia402⟩

namespace Cyclic

variable {L : Layout}

theorem appendDatagram_keeps (c : Cyclic L) (index : UInt8) (cmd : Command) (adp ado : UInt16)
    (payload : List UInt8) (kind : Appended) : Keeps c (c.appendDatagram index cmd adp ado payload kind) :=
  ⟨rfl, rfl, rfl, rfl, rfl, rfl, rfl⟩

theorem seekOp_keeps (c : Cyclic L) : Keeps c c.seekOp := ⟨rfl, rfl, rfl, rfl, rfl, rfl, rfl⟩

theorem toggleCtrl_keeps (c : Cyclic L) : Keeps c c.toggleCtrl := ⟨rfl, rfl, rfl, rfl, rfl, rfl, rfl⟩

theorem advanceMonitor_keeps (c : Cyclic L) : Keeps c c.advanceMonitor := ⟨rfl, rfl, rfl, rfl, rfl, rfl, rfl⟩

theorem toggleMonitor_keeps (c : Cyclic L) : Keeps c c.toggleMonitor := ⟨rfl, rfl, rfl, rfl, rfl, rfl, rfl⟩

theorem startFrame_keeps (c : Cyclic L) (index : UInt8) : Keeps c (c.startFrame index) :=
  ⟨rfl, rfl, rfl, rfl, rfl, rfl, rfl⟩

theorem appendOpRequest_keeps (c : Cyclic L) (index : UInt8) : Keeps c (c.appendOpRequest index).1 := by
  rw [appendOpRequest]
  dsimp only
  split
  · exact c.seekOp_keeps
  · apply c.seekOp_keeps.trans
    apply Keeps.trans _ (toggleCtrl_keeps _)
    split_ifs
    · exact appendDatagram_keeps _ _ _ _ _ _ _
    · exact appendDatagram_keeps _ _ _ _ _ _ _

theorem appendTelemetry_keeps (c : Cyclic L) (index : UInt8) : Keeps c (c.appendTelemetry index) := by
  rw [appendTelemetry]
  split_ifs
  · exact appendDatagram_keeps _ _ _ _ _ _ _
  · exact c.advanceMonitor_keeps.trans (appendDatagram_keeps _ _ _ _ _ _ _)

theorem appendMonitor_keeps (c : Cyclic L) (index : UInt8) : Keeps c (c.appendMonitor index).1 := by
  rw [appendMonitor]
  split_ifs
  · split
    · exact appendDatagram_keeps _ _ _ _ _ _ _
    · exact Keeps.rfl
  · exact (appendDatagram_keeps _ _ _ _ _ _ _).trans ((appendTelemetry_keeps _ _).trans (toggleMonitor_keeps _))

theorem buildFrame_keeps (c : Cyclic L) (index : UInt8) : Keeps c (c.buildFrame index).1 := by
  apply (c.startFrame_keeps index).trans
  rw [buildFrame]
  split
  · exact appendOpRequest_keeps _ _
  · exact appendMonitor_keeps _ _
  · exact Keeps.rfl
  · exact Keeps.rfl

theorem send_keeps (c : Cyclic L) (dev : Device) (index : UInt8) : Keeps c (c.send dev index).1 := by
  have h := c.buildFrame_keeps index
  exact ⟨h.domain, h.slaves, h.refRingPos, h.phase, h.goodCycles, h.totalCycles, h.cia402⟩

/-- The frame that a receive hands to `process`: the first with the expected index among those it may look at. -/
def matchedReply (index : UInt8) : ℕ → Device → Option (List UInt8)
  | 0, _ => none
  | n + 1, dev =>
    match dev.poll cyclicBuf with
    | (some frame, dev) =>
      if frame.length ≥ 4 ∧ frame.getD 3 0 = index then some frame else matchedReply index n dev
    | (none, _) => none

theorem receive_eq (n : ℕ) (c : Cyclic L) (dev : Device) :
    (receive n c dev).1 = match matchedReply c.expectedIndex n dev with
      | some frame => c.process frame
      | none => c := by
  induction n generalizing dev with
  | zero => rfl
  | succ n ih =>
    rw [receive, matchedReply]
    rcases dev.poll cyclicBuf with ⟨_ | frame, dev'⟩
    · rfl
    · by_cases hm : frame.length ≥ 4 ∧ frame.getD 3 0 = c.expectedIndex
      · simp only [if_pos hm]
      · simp only [if_neg hm]
        exact ih dev'

def matched (c : Cyclic L) (dev : Device) : Option (List UInt8) :=
  if c.outstanding then matchedReply c.expectedIndex ecatRxLen dev else none

def processed (c : Cyclic L) (dev : Device) : Option (Reply × ℕ) :=
  (c.matched dev).bind fun frame => parseAt frame ecFrameHeaderSize

def answered (c : Cyclic L) (dev : Device) : List (Appended × Reply) :=
  match c.matched dev with
  | none => []
  | some frame =>
    match parseAt frame ecFrameHeaderSize with
    | none => []
    | some (_, next) => pairReplies frame c.appended next

end Cyclic

end EcMaster
