import EcMaster.BringUp
import EcMaster.SlavePages

namespace EcMaster

open Library.Dialogue Library.Dialogue.Script Library.Segment

structure ConfigSeq where
  idx : ℕ
  fsm : Option FsmSlaveConfig
  ready : List CyclicSlave

def slaveAt (slaves : List SlaveInfo) (position : ℕ) : Option SlaveInfo :=
  slaves.find? fun s => s.ringPos.toNat = position

namespace Bus

variable (B : Bus)

def dcRef (slaves : List SlaveInfo) (info : SlaveInfo) : DcRef :=
  match slaveAt slaves B.layout.bus.refClockSlave.toNat with
  | some r => if r.stationAddr ≠ info.stationAddr then ⟨r.stationAddr, true⟩ else .reference
  | none => .reference

def slaveFsm (slaves : List SlaveInfo) (info : SlaveInfo) (cfg : SlaveSetup) : FsmSlaveConfig :=
  .new info.stationAddr info.mailbox cfg (B.dcRef slaves info)

end Bus

def SlaveInfo.cyclicSlave (info : SlaveInfo) : CyclicSlave := ⟨info.stationAddr, info.ringPos⟩

namespace ConfigSeq

variable (B : Bus)

def new : ConfigSeq := ⟨0, none, []⟩

def stepSlave (s : ConfigSeq) (fsm : FsmSlaveConfig) (k : Link) : Except EcError (Bool × ConfigSeq) × Link :=
  nested (fsm.step k) (fun fsm => (false, { s with fsm := some fsm })) fun _ =>
    .ok (decide (s.idx + 1 ≥ B.slaves.length), { s with fsm := none, idx := s.idx + 1 })

def step (slaves : List SlaveInfo) (s : ConfigSeq) (k : Link) : Except EcError (Bool × ConfigSeq) × Link :=
  match B.slaves[s.idx]? with
  | none => (.ok (true, s), k)
  | some cfg =>
    match s.fsm with
    | some fsm => s.stepSlave B fsm k
    | none =>
      match slaveAt slaves cfg.position with
      | none => (.error .noSuchSlave, k)
      | some info =>
        { s with ready := pushWithin ecMaxSlaves s.ready info.cyclicSlave }.stepSlave B (B.slaveFsm slaves info cfg) k

end ConfigSeq

def bringUpAll (B : Bus) (slaves : List SlaveInfo) : List SlaveSetup → List CyclicSlave → Procedure (List CyclicSlave)
  | [], ready => .done ready
  | cfg :: cfgs, ready =>
    match slaveAt slaves cfg.position with
    | none => .skip (.fail .noSuchSlave)
    | some info =>
      (B.slaveFsm slaves info cfg).script.bind fun _ =>
        bringUpAll B slaves cfgs (pushWithin ecMaxSlaves ready info.cyclicSlave)

namespace ConfigSeq

variable (B : Bus) (slaves : List SlaveInfo)

def script (s : ConfigSeq) : Procedure (List CyclicSlave) :=
  match B.slaves.drop s.idx with
  | [] => .skip (.done s.ready)
  | cfg :: cfgs =>
    match s.fsm with
    | some fsm => fsm.script.bind fun _ => bringUpAll B slaves cfgs s.ready
    | none => bringUpAll B slaves (cfg :: cfgs) s.ready

def left (s : ConfigSeq) : ℕ := s.fsm.elim Exchange.fresh FsmSlaveConfig.left

def Tidy (s : ConfigSeq) : Prop := ∀ fsm, s.fsm = some fsm → fsm.Tidy

abbrev Plays (s : ConfigSeq) (k : Link) (r : Except EcError (Bool × ConfigSeq) × Link) : Prop :=
  EcMaster.Plays (script B slaves) left ready Tidy s k r

variable {B slaves}

theorem left_le (s : ConfigSeq) : s.left ≤ Exchange.fresh := by
  rw [left]
  cases s.fsm with
  | none => exact le_rfl
  | some fsm => exact fsm.left_le

theorem script_running {s : ConfigSeq} {fsm : FsmSlaveConfig} (hi : s.idx < B.slaves.length) (hf : s.fsm = some fsm) :
    s.script B slaves = fsm.script.bind fun _ => bringUpAll B slaves (B.slaves.drop (s.idx + 1)) s.ready := by
  rw [script, List.drop_eq_getElem_cons hi, hf]

theorem script_next {s : ConfigSeq} (hi : s.idx < B.slaves.length) (hf : s.fsm = none) :
    s.script B slaves = bringUpAll B slaves (B.slaves.drop s.idx) s.ready := by
  rw [script, List.drop_eq_getElem_cons hi, hf]

theorem stepSlave_turns {s : ConfigSeq} {fsm : FsmSlaveConfig} (hi : s.idx < B.slaves.length) (hf : fsm.Tidy) (k : Link) :
    Turns (fsm.script.bind fun _ => bringUpAll B slaves (B.slaves.drop (s.idx + 1)) s.ready, fsm.left) k
      (position (script B slaves) left ready (s.stepSlave B fsm k).1) (s.stepSlave B fsm k).2 := by
  refine FsmSlaveConfig.fsm.nested_turns hf (fun e => rfl) (fun f => ?_) (fun f => ?_)
  · exact Prod.ext (script_running (s := { s with fsm := some f }) hi rfl) rfl
  · by_cases hlast : s.idx + 1 ≥ B.slaves.length
    · rw [decide_eq_true hlast, List.drop_eq_nil_of_le hlast]
      exact ⟨rfl, le_rfl⟩
    · rw [decide_eq_false hlast]
      exact ⟨script_next (s := { s with fsm := none, idx := s.idx + 1 }) (not_le.mp hlast) rfl,
        left_le { s with fsm := none, idx := s.idx + 1 }⟩

theorem stepSlave_keeps {s s' : ConfigSeq} {fsm : FsmSlaveConfig} {k : Link} (hf : fsm.Tidy)
    (h : (s.stepSlave B fsm k).1 = .ok (false, s')) : s'.Tidy := by
  rcases FsmSlaveConfig.fsm.nested_ok hf h with ⟨f, hgood, hs⟩ | ⟨f, hs⟩
  · obtain rfl := (Prod.mk.inj hs).2
    intro f' hf'
    obtain rfl := Option.some.inj hf'
    exact hgood
  · obtain rfl := (Prod.mk.inj (Except.ok.inj hs)).2
    exact fun f' hf' => absurd hf' (by simp)

theorem plays_step (s : ConfigSeq) (k : Link) (hs : s.Tidy) : s.Plays B slaves k (s.step B slaves k) := by
  rw [step]
  cases hcfg : B.slaves[s.idx]? with
  | none =>
    have hscript : s.script B slaves = .skip (.done s.ready) := by
      rw [script, List.drop_eq_nil_of_le (List.getElem?_eq_none_iff.mp hcfg)]
    refine ⟨?_, fun s' h => absurd h (by simp)⟩
    rw [hscript]
    exact Turns.skip _ _ _ _
  | some cfg =>
    obtain ⟨hi, rfl⟩ := List.getElem?_eq_some_iff.mp hcfg
    dsimp only
    cases hf : s.fsm with
    | some fsm =>
      have hleft : s.left = fsm.left := by rw [left, hf]; rfl
      refine ⟨?_, fun s' h => stepSlave_keeps (hs fsm hf) h⟩
      rw [script_running hi hf, hleft]
      exact stepSlave_turns hi (hs fsm hf) k
    | none =>
      have hscript : s.script B slaves = bringUpAll B slaves (B.slaves.drop s.idx) s.ready := script_next hi hf
      rw [List.drop_eq_getElem_cons hi, bringUpAll] at hscript
      cases hinfo : slaveAt slaves B.slaves[s.idx].position with
      | none =>
        rw [hinfo] at hscript
        refine ⟨?_, fun s' h => absurd h (by simp)⟩
        rw [hscript]
        exact Turns.skip _ _ _ _
      | some info =>
        rw [hinfo] at hscript
        have htidy : (B.slaveFsm slaves info B.slaves[s.idx]).Tidy := FsmSlaveConfig.tidy_of_none ⟨rfl, rfl, rfl⟩
        have hleft : s.left = (B.slaveFsm slaves info B.slaves[s.idx]).left := by rw [left, hf]; rfl
        refine ⟨?_, fun s' h => stepSlave_keeps htidy h⟩
        rw [hscript, hleft]
        exact stepSlave_turns
          (s := { s with ready := pushWithin ecMaxSlaves s.ready info.cyclicSlave, fsm := none }) hi htidy k

variable (B slaves)

def machine : Fsm ConfigSeq (List CyclicSlave) :=
  ⟨step B slaves, script B slaves, left, ready, Tidy, left_le, plays_step⟩

theorem script_new : new.script B slaves =
    if B.slaves = [] then .skip (.done []) else bringUpAll B slaves B.slaves [] := by
  rw [script]
  change (match B.slaves with
    | [] => _
    | cfg :: cfgs => _) = _
  cases hb : B.slaves with
  | nil => rfl
  | cons cfg cfgs => rfl

end ConfigSeq

end EcMaster
