import EcMaster.Cyclic
import EcMaster.Fsm

namespace EcMaster

open Library.Dialogue Library.Dialogue.Script Library.LittleEndian

def regAlStatusCode : UInt16 := 0x0134

def alStateInit : UInt8 := 0x01
def alStatePreop : UInt8 := 0x02
def alStateSafeop : UInt8 := 0x04
def alStateAckError : UInt8 := 0x10

def maxStateWaits : ℕ := 1000

inductive ChangeState
  | writeControl
  | readStatus
  | ackError
  | readStatusCode
  | done
  deriving DecidableEq

structure FsmChange where
  station : UInt16
  target : UInt8
  state : ChangeState
  x : Exchange
  waits : ℕ
  acked : Bool

def statusCode (reply : Reply) : UInt16 := if reply.data.length ≥ 2 then u16Le (reply.data.take 2) else 0

namespace FsmChange

def new (station : UInt16) (target : UInt8) : FsmChange := ⟨station, target, .writeControl, .idle, 0, false⟩

def buffers : Buffers := ⟨64, 128⟩

def poll (s : FsmChange) (request : Access) (k : Link) (hear : Reply → Except EcError (Bool × FsmChange)) :
    Except EcError (Bool × FsmChange) × Link :=
  s.x.step buffers [request] k (fun x => (false, { s with x := x })) (onReply hear)

def step (s : FsmChange) (k : Link) : Except EcError (Bool × FsmChange) × Link :=
  match s.state with
  | .writeControl =>
    s.poll ⟨.fpwr, s.station, regAlControl, [s.target, 0]⟩ k fun reply =>
      if reply.workingCounter ≠ 1 then .error .workingCounter
      else .ok (false, { s with state := .readStatus, x := .idle, waits := 0 })
  | .readStatus =>
    s.poll ⟨.fprd, s.station, regAlStatus, [0, 0]⟩ k fun reply =>
      if reply.workingCounter ≠ 1 then .error .workingCounter
      else
        let status := reply.data.headD 0
        if status &&& alStateError ≠ 0 then
          .ok (false, { s with state := if s.acked then .readStatusCode else .ackError, x := .idle })
        else if status &&& alStateMask = s.target then .ok (true, { s with state := .done })
        else if s.waits + 1 ≥ maxStateWaits then .error (.stateChange 0)
        else .ok (false, { s with x := .idle, waits := s.waits + 1 })
  | .ackError =>
    s.poll ⟨.fpwr, s.station, regAlControl, [s.target ||| alStateAckError, 0]⟩ k fun reply =>
      if reply.workingCounter ≠ 1 then .error .workingCounter
      else .ok (false, { s with state := .readStatus, x := .idle, waits := 0, acked := true })
  | .readStatusCode =>
    s.poll ⟨.fprd, s.station, regAlStatusCode, [0, 0]⟩ k fun reply => .error (.stateChange (statusCode reply))
  | .done => (.ok (true, s), k)

end FsmChange

def readCode (station : UInt16) : Procedure Unit :=
  exchange [⟨.fprd, station, regAlStatusCode, [0, 0]⟩] (replied fun reply => .fail (.stateChange (statusCode reply)))

def heardStatus (target : UInt8) (onError again : Procedure Unit) (reply : Reply) : Procedure Unit :=
  confirmed
    (if reply.data.headD 0 &&& alStateError ≠ 0 then onError
      else if reply.data.headD 0 &&& alStateMask = target then .done ()
      else again) reply

def awaitState (station : UInt16) (target : UInt8) (onError : Procedure Unit) : ℕ → Procedure Unit
  | 0 => exchange [⟨.fprd, station, regAlStatus, [0, 0]⟩] (replied (heardStatus target onError (.fail (.stateChange 0))))
  | n + 1 =>
    exchange [⟨.fprd, station, regAlStatus, [0, 0]⟩]
      (replied (heardStatus target onError (awaitState station target onError n)))

def acknowledge (station : UInt16) (target : UInt8) : Procedure Unit :=
  exchange [⟨.fpwr, station, regAlControl, [target ||| alStateAckError, 0]⟩]
    (replied (confirmed (awaitState station target (readCode station) (maxStateWaits - 1))))

def changeState (station : UInt16) (target : UInt8) : Procedure Unit :=
  exchange [⟨.fpwr, station, regAlControl, [target, 0]⟩]
    (replied (confirmed (awaitState station target (acknowledge station target) (maxStateWaits - 1))))

namespace FsmChange

def plan (s : FsmChange) : Procedure Unit :=
  match s.state with
  | .writeControl =>
    exchange [⟨.fpwr, s.station, regAlControl, [s.target, 0]⟩]
      (replied (confirmed (awaitState s.station s.target
        (if s.acked then readCode s.station else acknowledge s.station s.target) (maxStateWaits - 1))))
  | .readStatus =>
    awaitState s.station s.target (if s.acked then readCode s.station else acknowledge s.station s.target)
      (maxStateWaits - 1 - s.waits)
  | .ackError => acknowledge s.station s.target
  | .readStatusCode => readCode s.station
  | .done => .skip (.done ())

def script (s : FsmChange) : Procedure Unit := s.x.resume s.plan

def left (s : FsmChange) : ℕ := s.x.left

abbrev pos : Except EcError (Bool × FsmChange) → Procedure Unit × ℕ := position script left fun _ => ()

theorem pos_idle {s : FsmChange} (h : s.x = .idle) : (pos (.ok (false, s))).1 = s.plan := by
  change s.x.resume s.plan = _
  rw [h, Exchange.resume_idle]

theorem poll_turns {s : FsmChange} {request : Access} {hear : Reply → Except EcError (Bool × FsmChange)}
    {next : Reply → Procedure Unit} (hplan : s.plan = exchange [request] (replied next))
    (hhear : ∀ reply, (pos (hear reply)).1 = next reply) (k : Link) :
    Turns (s.script, s.left) k (pos (s.poll request k hear).1) (s.poll request k hear).2 := by
  rw [script, hplan]
  refine Exchange.poll_turns (fun y => ?_) (fun y => rfl) (hear_onReply hhear)
  rw [script, ← hplan]
  rfl

theorem awaitState_eq (station : UInt16) (target : UInt8) (onError : Procedure Unit) (waits : ℕ) :
    awaitState station target onError (maxStateWaits - 1 - waits) =
      exchange [⟨.fprd, station, regAlStatus, [0, 0]⟩] (replied (heardStatus target onError
        (if waits + 1 ≥ maxStateWaits then .fail (.stateChange 0)
          else awaitState station target onError (maxStateWaits - 1 - (waits + 1))))) := by
  by_cases h : waits + 1 ≥ maxStateWaits
  · have he : maxStateWaits - 1 - waits = 0 := by omega
    rw [if_pos h, he, awaitState]
  · have he : maxStateWaits - 1 - waits = (maxStateWaits - 1 - (waits + 1)) + 1 := by omega
    rw [if_neg h, he, awaitState]

theorem step_turns (s : FsmChange) (k : Link) : Turns (s.script, s.left) k (pos (s.step k).1) (s.step k).2 := by
  rw [step]
  rcases hs : s.state
  case writeControl =>
    refine poll_turns (by rw [plan, hs]) (fun reply => ?_) k
    rw [confirmed]
    split
    · rfl
    · exact pos_idle rfl
  case readStatus =>
    refine poll_turns (by rw [plan, hs, awaitState_eq]) (fun reply => ?_) k
    rw [heardStatus, confirmed]
    split
    · rfl
    dsimp only
    split
    · rw [pos_idle rfl]
      cases s.acked <;> rfl
    split
    · rfl
    split
    · rfl
    · exact pos_idle rfl
  case ackError =>
    refine poll_turns (by rw [plan, hs, acknowledge]) (fun reply => ?_) k
    rw [confirmed]
    split
    · rfl
    · exact pos_idle rfl
  case readStatusCode =>
    have hplan : s.plan = readCode s.station := by rw [plan, hs]
    exact poll_turns hplan (fun reply => rfl) k
  case done =>
    have hscript : s.script = .skip (.done ()) := by rw [script, plan, hs]; rfl
    rw [hscript]
    exact Turns.skip _ _ _ _

def fsm : Fsm FsmChange Unit := .simple step script left (fun _ => ()) (fun s => s.x.left_le) step_turns

theorem script_new (station : UInt16) (target : UInt8) : (new station target).script = changeState station target :=
  Exchange.resume_idle _

end FsmChange

end EcMaster
