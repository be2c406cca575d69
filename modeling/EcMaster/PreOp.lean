import EcMaster.FsmChange
import EcMaster.FsmDc
import EcMaster.SlavePages

namespace EcMaster

open Library.Dialogue Library.Dialogue.Script

inductive PreStage
  | configSm0
  | configSm1
  | change
  deriving DecidableEq

structure PreOp where
  station : UInt16
  target : UInt8
  configure : Bool
  mbox : Mailbox
  stage : PreStage
  x : Exchange
  change : FsmChange

namespace PreOp

def new (station : UInt16) (mbox : Mailbox) (target : UInt8) (configure : Bool) : PreOp :=
  ⟨station, target, configure, mbox, .configSm0, .idle, FsmChange.new station target⟩

def buffers : Buffers := ⟨64, 128⟩

def writePage (s : PreOp) (ado : UInt16) (page : List UInt8) (k : Link) (next : PreStage) :
    Except EcError (Bool × PreOp) × Link :=
  s.x.step buffers [⟨.fpwr, s.station, ado, page⟩] k (fun x => (false, { s with x := x })) (onReply fun reply =>
    if reply.workingCounter ≠ 1 then .error .workingCounter
    else .ok (false, { s with stage := next, x := .idle }))

def step (s : PreOp) (k : Link) : Except EcError (Bool × PreOp) × Link :=
  match s.stage with
  | .configSm0 =>
    if !s.configure then (.ok (false, { s with stage := .change }), k)
    else s.writePage regSm0 (mailboxOutPage s.mbox.rxOffset s.mbox.rxSize) k .configSm1
  | .configSm1 => s.writePage regSm1 (mailboxInPage s.mbox.txOffset s.mbox.txSize) k .change
  | .change => nested (s.change.step k) (fun c => (false, { s with change := c })) fun c => .ok (true, { s with change := c })

end PreOp

def configureSm1 (station : UInt16) (mbox : Mailbox) (next : Procedure Unit) : Procedure Unit :=
  put station regSm1 (mailboxInPage mbox.txOffset mbox.txSize) next

def configureMailbox (station : UInt16) (mbox : Mailbox) (configure : Bool) (next : Procedure Unit) : Procedure Unit :=
  if configure then put station regSm0 (mailboxOutPage mbox.rxOffset mbox.rxSize) (configureSm1 station mbox next)
  else .skip next

namespace PreOp

def script (s : PreOp) : Procedure Unit :=
  match s.stage with
  | .configSm0 => s.x.resume (configureMailbox s.station s.mbox s.configure s.change.script)
  | .configSm1 => s.x.resume (configureSm1 s.station s.mbox s.change.script)
  | .change => s.change.script

def left (s : PreOp) : ℕ :=
  match s.stage with
  | .configSm0 | .configSm1 => s.x.left
  | .change => s.change.left

theorem left_le (s : PreOp) : s.left ≤ Exchange.fresh := by
  rw [left]
  split
  · exact s.x.left_le
  · exact s.x.left_le
  · exact s.change.x.left_le

abbrev pos : Except EcError (Bool × PreOp) → Procedure Unit × ℕ := position script left fun _ => ()

theorem writePage_turns {s : PreOp} {ado : UInt16} {page : List UInt8} {next : PreStage} {p : Procedure Unit}
    (hs : ∀ x, ({ s with x := x } : PreOp).script = x.resume (put s.station ado page p))
    (hl : ∀ x, ({ s with x := x } : PreOp).left = x.left)
    (hnext : ({ s with stage := next, x := .idle } : PreOp).script = p) (k : Link) :
    Turns (s.script, s.left) k (pos (s.writePage ado page k next).1) (s.writePage ado page k next).2 := by
  have hscript := hs s.x
  have hleft := hl s.x
  change s.script = _ at hscript
  change s.left = _ at hleft
  rw [hscript, hleft]
  refine Exchange.poll_turns hs hl (hear_onReply fun reply => ?_)
  rw [confirmed]
  split
  · rfl
  · exact hnext

theorem step_turns (s : PreOp) (k : Link) : Turns (s.script, s.left) k (pos (s.step k).1) (s.step k).2 := by
  rw [step]
  rcases hs : s.stage
  case configSm0 =>
    cases hc : s.configure with
    | false =>
      have hscript : s.script = .skip s.change.script := by rw [script, hs, configureMailbox, hc]; rfl
      rw [hscript]
      exact Turns.skip _ _ _ _
    | true =>
      have hx (x : Exchange) : ({ s with x := x } : PreOp).script =
          x.resume (put s.station regSm0 (mailboxOutPage s.mbox.rxOffset s.mbox.rxSize)
            (configureSm1 s.station s.mbox s.change.script)) := by
        rw [script, hs, configureMailbox, hc]
        rfl
      have hl (x : Exchange) : ({ s with x := x } : PreOp).left = x.left := by
        rw [left, hs]
      have hnext : ({ s with stage := .configSm1, x := .idle } : PreOp).script =
          configureSm1 s.station s.mbox s.change.script := by
        rw [script]
        exact Exchange.resume_idle _
      exact writePage_turns hx hl hnext k
  case configSm1 =>
    have hx (x : Exchange) : ({ s with x := x } : PreOp).script =
        x.resume (put s.station regSm1 (mailboxInPage s.mbox.txOffset s.mbox.txSize) s.change.script) := by
      rw [script, hs]
      rfl
    have hl (x : Exchange) : ({ s with x := x } : PreOp).left = x.left := by
      rw [left, hs]
    exact writePage_turns hx hl rfl k
  case change =>
    have hscript : s.script = s.change.script.bind .done := by rw [script, hs, bind_done]
    have hleft : s.left = s.change.left := by rw [left, hs]
    rw [hscript, hleft]
    refine FsmChange.fsm.nested_turns trivial (fun e => rfl) (fun c => ?_) (fun c => ⟨rfl, le_rfl⟩)
    exact Prod.ext (bind_done _).symm rfl

theorem step_same {s s' : PreOp} {k : Link} {b : Bool} (h : (s.step k).1 = .ok (b, s')) :
    s'.station = s.station ∧ s'.target = s.target := by
  have hpage {ado : UInt16} {page : List UInt8} {next : PreStage} (hp : (s.writePage ado page k next).1 = .ok (b, s')) :
      s'.station = s.station ∧ s'.target = s.target := by
    rcases Exchange.step_ok hp with ⟨x, hx⟩ | ⟨rx, hrx⟩
    · obtain rfl := (Prod.mk.inj hx).2
      exact ⟨rfl, rfl⟩
    · obtain ⟨reply, -, hr⟩ := onReply_ok hrx
      split_ifs at hr
      obtain rfl := (Prod.mk.inj (Except.ok.inj hr)).2
      exact ⟨rfl, rfl⟩
  rw [step] at h
  split at h
  · split_ifs at h
    · obtain rfl := (Prod.mk.inj (Except.ok.inj h)).2
      exact ⟨rfl, rfl⟩
    · exact hpage h
  · exact hpage h
  · rcases FsmChange.fsm.nested_ok trivial h with ⟨c, -, hc⟩ | ⟨c, hc⟩
    · obtain rfl := (Prod.mk.inj hc).2
      exact ⟨rfl, rfl⟩
    · obtain rfl := (Prod.mk.inj (Except.ok.inj hc)).2
      exact ⟨rfl, rfl⟩

def fsm : Fsm PreOp Unit := .simple step script left (fun _ => ()) left_le step_turns

theorem script_new (station : UInt16) (mbox : Mailbox) (target : UInt8) (configure : Bool) :
    (new station mbox target configure).script =
      configureMailbox station mbox configure (changeState station target) := by
  refine (Exchange.resume_idle _).trans ?_
  rw [← FsmChange.script_new]
  rfl

end PreOp

/-- The stations of the engine on their way down; `change` is that of the one at `idx`. -/
structure DownSeq where
  stations : List UInt16
  idx : ℕ
  change : Option FsmChange

namespace DownSeq

def new (stations : List UInt16) : DownSeq := ⟨stations, 0, none⟩

def step (s : DownSeq) (k : Link) : (Bool × Option UInt16 × DownSeq) × Link :=
  match s.stations[s.idx]? with
  | none => ((true, none, s), k)
  | some station =>
    let next := { s with change := none, idx := s.idx + 1 }
    match (s.change.getD (FsmChange.new station alStatePreop)).step k with
    | (.ok (false, c), k) => ((false, none, { s with change := some c }), k)
    | (.ok (true, _), k) => ((decide (s.idx + 1 ≥ s.stations.length), some station, next), k)
    | (.error _, k) => ((decide (s.idx + 1 ≥ s.stations.length), none, next), k)

end DownSeq

def allDown : List UInt16 → Procedure Unit
  | [] => .done ()
  | station :: stations => (changeState station alStatePreop).attempt.bind fun _ => allDown stations

namespace DownSeq

def script (s : DownSeq) : Procedure Unit :=
  match s.stations.drop s.idx with
  | [] => .skip (.done ())
  | station :: stations =>
    (s.change.getD (FsmChange.new station alStatePreop)).script.attempt.bind fun _ => allDown stations

def left (s : DownSeq) : ℕ := s.change.elim Exchange.fresh FsmChange.left

def pos (r : Bool × Option UInt16 × DownSeq) : Procedure Unit × ℕ :=
  if r.1 then (.done (), Exchange.fresh) else (r.2.2.script, r.2.2.left)

theorem script_next {s : DownSeq} (hc : s.change = none) (h : s.idx < s.stations.length) :
    s.script = allDown (s.stations.drop s.idx) := by
  rw [script, List.drop_eq_getElem_cons h, allDown]
  dsimp only
  rw [hc, Option.getD_none, FsmChange.script_new]

theorem step_turns (s : DownSeq) (k : Link) : Turns (s.script, s.left) k (pos (s.step k).1) (s.step k).2 := by
  rw [step]
  cases hst : s.stations[s.idx]? with
  | none =>
    have hscript : s.script = .skip (.done ()) := by
      rw [script, List.drop_eq_nil_of_le (List.getElem?_eq_none_iff.mp hst)]
    rw [hscript]
    exact Turns.skip _ _ _ _
  | some station =>
    obtain ⟨hi, rfl⟩ := List.getElem?_eq_some_iff.mp hst
    have hscript (c : Option FsmChange) : ({ s with change := c } : DownSeq).script =
        (c.getD (FsmChange.new s.stations[s.idx] alStatePreop)).script.attempt.bind fun _ =>
          allDown (s.stations.drop (s.idx + 1)) := by
      rw [script, List.drop_eq_getElem_cons hi]
    have hleft : s.left = (s.change.getD (FsmChange.new s.stations[s.idx] alStatePreop)).left := by
      rw [left]
      cases s.change <;> rfl
    have hnext (reached : Option UInt16) :
        pos (decide (s.idx + 1 ≥ s.stations.length), reached, { s with change := none, idx := s.idx + 1 }) =
          (allDown (s.stations.drop (s.idx + 1)), Exchange.fresh) := by
      by_cases hlast : s.idx + 1 ≥ s.stations.length
      · rw [decide_eq_true hlast, List.drop_eq_nil_of_le hlast]
        rfl
      · rw [decide_eq_false hlast]
        exact Prod.ext (script_next rfl (not_le.mp hlast)) rfl
    have h := (FsmChange.step_turns (s.change.getD (FsmChange.new s.stations[s.idx] alStatePreop)) k).attempt.bind
      fun _ => allDown (s.stations.drop (s.idx + 1))
    have hs := hscript s.change
    change s.script = _ at hs
    rw [hs, hleft]
    dsimp only
    rcases hr : (s.change.getD (FsmChange.new s.stations[s.idx] alStatePreop)).step k with ⟨_ | ⟨_ | _, c⟩, k'⟩
    all_goals rw [hr] at h
    · rw [hnext]
      exact h
    · have hp : pos (false, none, { s with change := some c }) =
          (c.script.attempt.bind fun _ => allDown (s.stations.drop (s.idx + 1)), c.left) :=
        Prod.ext (hscript (some c)) rfl
      rw [hp]
      exact h
    · rw [hnext]
      exact h

theorem step_stations {s : DownSeq} {k : Link} {r : Bool × Option UInt16 × DownSeq} (h : (s.step k).1 = r) :
    r.2.2.stations = s.stations := by
  subst h
  rw [step]
  cases s.stations[s.idx]? with
  | none => rfl
  | some station =>
    dsimp only
    rcases (s.change.getD (FsmChange.new station alStatePreop)).step k with ⟨_ | ⟨_ | _, c⟩, k'⟩
    · rfl
    · rfl
    · rfl

end DownSeq

end EcMaster
