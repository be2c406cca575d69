import EcMaster.BusStartUp
import EcMaster.AlMonitor
import EcMaster.PrimingCount
import EcMaster.Library.Machine

namespace EcMaster

open Library.Machine Library.Memory

structure Esc.InOp (s : Esc) : Prop where
  state : s.al = alStateOp
  shown : s.lag = 0 ∨ s.shown = alStateOp

/-- How far a slave is, when a frame is on its way that asks it for OP, or else for its state, and the frames that are
left until it is seen in OP. -/
inductive Rung : Bool → Esc → ℕ → Prop
  | first {s : Esc} (h : s.al = alStateSafeop) : Rung true s 4
  | late {s : Esc} (h : s.al = alStateOp) (hs : s.shown = alStateSafeop) (hl : s.lag ≠ 0) : Rung false s 3
  | again {s : Esc} (h : s.al = alStateOp) : Rung true s 2
  | last {s : Esc} (h : s.InOp) : Rung false s 1

section Slave

variable {s : Esc} {n : ℕ}

theorem Rung.pos {asking : Bool} (h : Rung asking s n) : 0 < n := by
  cases h <;> exact Nat.succ_pos _

theorem Esc.InOp.read (h : s.InOp) : ∃ s', s.read regAlStatus 2 = (some [alStateOp, 0], s') ∧ s'.InOp := by
  by_cases hl : s.lag = 0
  · exact ⟨s, by rw [read_status_now hl, h.state], h⟩
  · have hs := h.shown.resolve_left hl
    refine ⟨{ s with lag := s.lag - 1 }, ?_, h.state, Or.inr hs⟩
    rw [read_status_late hl, hs]

theorem Esc.write_op (h : s.al = alStateSafeop ∨ s.al = alStateOp) : s.write regAlControl [alStateOp, 0] =
    { s with al := alStateOp, shown := s.al, lag := s.make.delays s.job, job := s.job + 1 } := by
  have hallows : s.allows (alStateOp &&& alStateMask) = true := by
    rw [Esc.allows]
    rcases h with h | h <;> rw [h] <;> rfl
  rw [Esc.write, if_pos rfl, List.headD_cons, Esc.control, if_neg, if_pos hallows]
  · rcases h with h | h <;> rw [h] <;> rfl
  · rcases h with h | h <;> rw [h] <;> decide

theorem Rung.write (h : Rung true s n) : ∃ m, m + 1 ≤ n ∧ Rung false (s.write regAlControl [alStateOp, 0]) m := by
  cases h with
  | first h =>
    rw [Esc.write_op (Or.inl h)]
    by_cases hl : s.make.delays s.job = 0
    · exact ⟨1, by decide, Rung.last ⟨rfl, Or.inl hl⟩⟩
    · exact ⟨3, by decide, Rung.late rfl h hl⟩
  | again h =>
    rw [Esc.write_op (Or.inr h)]
    exact ⟨1, by decide, Rung.last ⟨rfl, Or.inr h⟩⟩

theorem Rung.read (h : Rung false s n) : ∃ status s', s.read regAlStatus 2 = (some [status, 0], s') ∧
    (status = alStateOp ∧ s'.InOp ∨ status = alStateSafeop ∧ ∃ m, m + 1 ≤ n ∧ Rung true s' m) := by
  cases h with
  | late h hs hl => exact ⟨_, _, read_status_late hl, Or.inr ⟨hs, 2, by decide, Rung.again h⟩⟩
  | last h =>
    obtain ⟨s', hread, h'⟩ := h.read
    exact ⟨_, s', hread, Or.inl ⟨rfl, h'⟩⟩

end Slave

namespace Stations

def hears (w : Stations) (d : Datagram) (reply : Reply) : Option Stations :=
  if d.command = Command.code .fpwr then w.takes ⟨.fpwr, d.adp, d.ado, d.data⟩ reply
  else if d.command = Command.code .fprd ∧ d.ado = regAlStatus then w.takes ⟨.fprd, d.adp, d.ado, d.data⟩ reply
  else some w

def hearsAll : Stations → List Datagram → List Reply → Option Stations
  | w, [], [] => some w
  | w, d :: ds, r :: rs => (w.hears d r).bind fun w => w.hearsAll ds rs
  | _, _, _ => none

variable {L : Layout}

def serves (w : Stations) (c : Cyclic L) (dev : Device) : Option Stations :=
  match c.processed dev with
  | none => none
  | some (lrw, _) =>
    if lrw.workingCounter = 0 then none
    else w.hearsAll (datagrams c.sentFrame).tail ((c.answered dev).map Prod.snd)

def ticking (s : Cyclic L × Stations) (e : EngineTick L) : Option (Cyclic L × Stations) :=
  if (engineStep s.1 e).outstanding then
    (if s.1.outstanding then s.2.serves s.1 e.dev else some s.2).map fun w => (engineStep s.1 e, w)
  else none

theorem length_hearsAll {w w' : Stations} {ds : List Datagram} {rs : List Reply} (h : w.hearsAll ds rs = some w') :
    rs.length = ds.length := by
  induction ds generalizing w rs with
  | nil =>
    cases rs with
    | nil => rfl
    | cons r rs => cases h
  | cons d ds ih =>
    cases rs with
    | nil => cases h
    | cons r rs =>
      obtain ⟨v, -, hv⟩ := Option.bind_eq_some_iff.mp h
      rw [List.length_cons, List.length_cons, ih hv]

end Stations

theorem decodeAppended_status {reply : Reply} {j : ℕ} (h : SaysOp reply) :
    decodeAppended (.status j) reply = .opReached j := by
  obtain ⟨hw, he, hs⟩ := h
  simp only [decodeAppended]
  rw [if_neg hw, if_neg (not_not_intro he), if_pos hs]

namespace Cyclic

variable {L : Layout} {c : Cyclic L} {dev : Device} {w w' : Stations}

structure Carrying (c : Cyclic L) (ps : List (Appended × Datagram)) : Prop where
  appended : c.appended = ps.map Prod.fst
  datagrams : (EcMaster.datagrams c.sentFrame).tail = ps.map Prod.snd

theorem engineStep_carrying (c : Cyclic L) (e : EngineTick L) :
    (engineStep c e).Carrying ((c.received e.dev e.latency).appendix (e.index + 1)) := by
  have hq := c.engineStep_requests e
  obtain ⟨image, hd⟩ := hq.datagrams
  refine ⟨hq.appended, ?_⟩
  rw [hd, List.tail_cons]

theorem pairReplies_zip (frame : List UInt8) (kinds : List Appended) (next : ℕ) :
    pairReplies frame kinds next = kinds.zip ((pairReplies frame kinds next).map Prod.snd) := by
  induction kinds generalizing next with
  | nil => rfl
  | cons kind kinds ih =>
    rw [pairReplies]
    split_ifs with hn
    · rfl
    · cases parseAt frame next with
      | none => rfl
      | some p =>
        dsimp only
        rw [List.map_cons, List.zip_cons_cons, ← ih]

theorem answered_zip (c : Cyclic L) (dev : Device) :
    c.answered dev = c.appended.zip ((c.answered dev).map Prod.snd) := by
  rw [answered]
  cases c.matched dev with
  | none => exact (List.zip_nil_right).symm
  | some frame =>
    dsimp only
    cases parseAt frame ecFrameHeaderSize with
    | none => exact (List.zip_nil_right).symm
    | some p => exact pairReplies_zip _ _ _

theorem Carrying.serves {ps : List (Appended × Datagram)} (hc : c.Carrying ps) (h : w.serves c dev = some w') :
    ∃ lrw next replies, c.processed dev = some (lrw, next) ∧ lrw.workingCounter ≠ 0 ∧
      c.answered dev = (ps.map Prod.fst).zip replies ∧ w.hearsAll (ps.map Prod.snd) replies = some w' := by
  rw [Stations.serves] at h
  cases hp : c.processed dev with
  | none =>
    rw [hp] at h
    cases h
  | some p =>
    rw [hp] at h
    dsimp only at h
    split_ifs at h with hw
    rw [hc.datagrams] at h
    have hz := c.answered_zip dev
    rw [hc.appended] at hz
    exact ⟨p.1, p.2, _, rfl, hw, hz, h⟩

theorem Carrying.serves_one {p : Appended × Datagram} (hc : c.Carrying [p]) (h : w.serves c dev = some w') :
    ∃ reply, (c.processed dev).isSome = true ∧ c.answered dev = [(p.1, reply)] ∧ w.hears p.2 reply = some w' := by
  obtain ⟨lrw, next, replies, hp, -, ha, hw⟩ := hc.serves h
  have hlen := Stations.length_hearsAll hw
  obtain ⟨reply, rfl⟩ := List.length_eq_one_iff.mp hlen
  obtain ⟨v, hv, hv'⟩ := Option.bind_eq_some_iff.mp hw
  obtain rfl := Option.some.inj hv'
  exact ⟨reply, by rw [hp]; rfl, ha, hv⟩

theorem foldl_reaches (c : Cyclic L) {actions : List AppliedReply} {j : ℕ} (h : .opReached j ∈ actions)
    (hj : j < c.slaves.length) : (actions.foldl applyAction c).reached j = true := by
  induction actions generalizing c with
  | nil => exact absurd h List.not_mem_nil
  | cons a actions ih =>
    rcases List.mem_cons.mp h with rfl | h
    · rw [List.foldl_cons]
      apply foldl_keepsReached
      rw [reached_opReached, decide_eq_true ⟨rfl, hj⟩, Bool.or_true]
    · apply ih _ h
      rw [(c.applyAction_holds a).slaveCount]
      exact hj

theorem received_phase_eq (latency : UInt32) (hp : (c.processed dev).isSome = true)
    (hf : ∀ p ∈ c.answered dev, decodeAppended p.1 p.2 ≠ .fault) {phase : Phase}
    (hphase : (c.phase = .priming ∧ (c.received dev latency).goodCycles ≥ primingCycles) ∧ phase = .requestingOp ∨
      ¬(c.phase = .priming ∧ (c.received dev latency).goodCycles ≥ primingCycles) ∧ phase = c.phase) :
    (c.received dev latency).phase =
      if phase = .requestingOp ∧ (c.received dev latency).allReachedOp then .operational else phase := by
  obtain ⟨⟨lrw, next⟩, hp⟩ := Option.isSome_iff_exists.mp hp
  set actions := (c.answered dev).map fun p => decodeAppended p.1 p.2 with hactions
  set b := c.beginTick latency with hb
  set d := ({ b with domain := (b.domain.applyReply lrw).2 : Cyclic L }.countGood lrw.workingCounter) with hd
  set r := actions.foldl applyAction d.primed with hr
  have hreceived : c.received dev latency = r.entered.clearOutstanding := by
    rw [received_eq, hp]
    rfl
  have hgood : (c.received dev latency).goodCycles = d.goodCycles := by
    rw [hreceived]
    apply (entered_goodCycles r).trans
    rw [hr, foldl_goodCycles, primed_goodCycles]
  have hnone : .fault ∉ actions := by
    intro h
    obtain ⟨p, hp, hpf⟩ := List.mem_map.mp h
    exact hf p hp hpf
  have hdphase : d.phase = c.phase := rfl
  have hrphase : r.phase = phase := by
    rw [hgood] at hphase
    rw [hr, foldl_phase, if_neg hnone, primed, hdphase]
    rcases hphase with ⟨h, he⟩ | ⟨h, he⟩
    · rw [if_pos h, he]
    · rw [if_neg h, hdphase, he]
  have hall : (c.received dev latency).allReachedOp = r.allReachedOp := by
    rw [hreceived, allReachedOp, allReachedOp]
    exact congrArg (fun slaves : List SlaveRt => slaves.all SlaveRt.reachedOp) r.entered_slaves
  rw [hall, ← hrphase, hreceived]
  change r.entered.phase = _
  rw [entered]
  split_ifs <;> rfl

theorem received_reaches (latency : UInt32) {j : ℕ} {reply : Reply} (ha : (.status j, reply) ∈ c.answered dev)
    (hop : SaysOp reply) (hj : j < c.slaves.length) : (c.received dev latency).reached j = true := by
  rw [received_eq]
  cases hp : c.processed dev with
  | none =>
    rw [answered_of_unprocessed hp] at ha
    exact absurd ha List.not_mem_nil
  | some p =>
    have hmem : .opReached j ∈ (c.answered dev).map fun p => decodeAppended p.1 p.2 :=
      List.mem_map.mpr ⟨_, ha, decodeAppended_status hop⟩
    have hbase (d : Cyclic L) (hd : d.slaves.length = c.slaves.length) :
        (((c.answered dev).map fun p => decodeAppended p.1 p.2).foldl applyAction d).entered.reached j = true := by
      rw [reached, entered_slaves]
      exact foldl_reaches d hmem (hd ▸ hj)
    apply hbase
    rw [primed]
    split_ifs <;> rfl

theorem seekOp_stay (h : c.reached c.opCursor = false) : c.seekOp = c := by
  have hskip : skipReached c.slaves c.slaves.length c.opCursor c.opCtrlPhase = (c.opCursor, c.opCtrlPhase) := by
    cases c.slaves.length with
    | zero => rfl
    | succ fuel =>
      rw [skipReached]
      rw [reached] at h
      cases hs : c.slaves[c.opCursor]? with
      | none => rfl
      | some s =>
        rw [hs] at h
        dsimp only
        rw [if_neg]
        exact fun hr => absurd (h.symm.trans hr) (by decide)
  rw [seekOp, hskip]

theorem seekOp_next (h : c.reached c.opCursor = true) (h' : c.reached (c.opCursor + 1) = false) :
    c.seekOp.opCursor = c.opCursor + 1 ∧ c.seekOp.opCtrlPhase = true := by
  have hlt := lt_of_reached h
  obtain ⟨fuel, hfuel⟩ := Nat.exists_eq_succ_of_ne_zero (Nat.ne_of_gt (Nat.zero_lt_of_lt hlt))
  have hskip : skipReached c.slaves c.slaves.length c.opCursor c.opCtrlPhase = (c.opCursor + 1, true) := by
    rw [reached, List.getElem?_eq_getElem hlt] at h
    rw [hfuel, skipReached, List.getElem?_eq_getElem hlt]
    dsimp only
    rw [if_pos (show c.slaves[c.opCursor].reachedOp = true from h)]
    cases fuel with
    | zero => rfl
    | succ fuel =>
      rw [skipReached]
      rw [reached] at h'
      cases hs : c.slaves[c.opCursor + 1]? with
      | none => rfl
      | some s =>
        rw [hs] at h'
        dsimp only
        rw [if_neg]
        exact fun hr => absurd (h'.symm.trans hr) (by decide)
  rw [seekOp, hskip]
  exact ⟨rfl, rfl⟩

theorem appendOpRequest_ctrl {index : UInt8} {s : SlaveRt} (h : c.slaves[c.seekOp.opCursor]? = some s) :
    (c.appendOpRequest index).1.opCtrlPhase = !c.seekOp.opCtrlPhase := by
  have hslaves : c.seekOp.slaves[c.seekOp.opCursor]? = some s := h
  rw [appendOpRequest]
  dsimp only
  rw [hslaves]
  dsimp only
  split_ifs <;> rfl

theorem appendTelemetry_ctrl (c : Cyclic L) (index : UInt8) : (c.appendTelemetry index).opCtrlPhase = c.opCtrlPhase := by
  rw [appendTelemetry]
  split_ifs <;> rfl

theorem appendMonitor_ctrl (c : Cyclic L) (index : UInt8) : (c.appendMonitor index).1.opCtrlPhase = c.opCtrlPhase := by
  rw [appendMonitor]
  split_ifs
  · cases c.slaves.head? <;> rfl
  · exact appendTelemetry_ctrl _ _

theorem send_ctrl (c : Cyclic L) (dev : Device) (index : UInt8) :
    (c.phase ≠ .requestingOp → (c.send dev index).1.opCtrlPhase = c.opCtrlPhase) ∧
      ∀ s, c.phase = .requestingOp → c.slaves[c.seekOp.opCursor]? = some s →
        (c.send dev index).1.opCtrlPhase = !c.seekOp.opCtrlPhase := by
  have hphase : (c.startFrame index).phase = c.phase := rfl
  change (c.phase ≠ .requestingOp → (c.buildFrame index).1.opCtrlPhase = c.opCtrlPhase) ∧
    ∀ s, c.phase = .requestingOp → c.slaves[c.seekOp.opCursor]? = some s →
      (c.buildFrame index).1.opCtrlPhase = !c.seekOp.opCtrlPhase
  rw [buildFrame, hphase]
  cases hp : c.phase with
  | priming | faulted => exact ⟨fun _ => rfl, fun s h => absurd h (by decide)⟩
  | operational => exact ⟨fun _ => (c.startFrame index).appendMonitor_ctrl _, fun s h => absurd h (by decide)⟩
  | requestingOp => exact ⟨fun h => absurd rfl h, fun s _ hs => appendOpRequest_ctrl (c := c.startFrame index) hs⟩

theorem engineStep_ctrl (c : Cyclic L) (e : EngineTick L) {r : Cyclic L} (hr : c.received e.dev e.latency = r) :
    (r.phase ≠ .requestingOp → (engineStep c e).opCtrlPhase = r.opCtrlPhase) ∧
      ∀ s, r.phase = .requestingOp → r.slaves[r.seekOp.opCursor]? = some s →
        (engineStep c e).opCtrlPhase = !r.seekOp.opCtrlPhase := by
  obtain ⟨d, dev, hphase, hslaves, hctrl, hseek, hseek', he⟩ : ∃ (d : Cyclic L) (dev : Device), d.phase = r.phase ∧
      d.slaves = r.slaves ∧
      d.opCtrlPhase = r.opCtrlPhase ∧ d.seekOp.opCursor = r.seekOp.opCursor ∧
      d.seekOp.opCtrlPhase = r.seekOp.opCtrlPhase ∧ engineStep c e = (d.send dev e.index).1 := by
    obtain ⟨image, hi, drives, dev, he⟩ := c.engineStep_controlled e
    rw [← hr]
    refine ⟨_, dev, ?_, ?_, ?_, ?_, ?_, he⟩ <;> rfl
  have hs := send_ctrl d dev e.index
  rw [hphase, hslaves, hctrl, hseek, hseek'] at hs
  rw [he]
  exact hs

end Cyclic

def opDatagram (asking : Bool) (k : ℕ) (station : UInt16) (index : UInt8) : Appended × Datagram :=
  if asking then (.control, ⟨Command.code .fpwr, index, station, regAlControl, [alStateOp, 0]⟩)
  else (.status k, ⟨Command.code .fprd, index, station, regAlStatus, [0, 0]⟩)

structure Climb (stations : List UInt16) (w : Stations) (k : ℕ) : Prop where
  below : ∀ j station, stations[j]? = some station → j < k → ∃ s, w station = some s ∧ s.InOp
  above : ∀ j station, stations[j]? = some station → k < j → ∃ s, w station = some s ∧ s.al = alStateSafeop

section Climb

variable {stations : List UInt16} {w : Stations} {k : ℕ} {station : UInt16} {s : Esc}

theorem Climb.put (h : Climb stations w k) (hn : stations.Nodup) (hk : stations[k]? = some station) (s : Esc) :
    Climb stations (w.put station s) k := by
  have hne {j : ℕ} {other : UInt16} (hj : stations[j]? = some other) (hjk : j ≠ k) : other ≠ station := by
    rintro rfl
    obtain ⟨hlt, -⟩ := List.getElem?_eq_some_iff.mp hj
    exact hjk ((List.getElem?_inj hlt hn).mp (hj.trans hk.symm))
  refine ⟨fun j other hj hlt => ?_, fun j other hj hlt => ?_⟩
  · rw [Stations.put_of_ne (hne hj hlt.ne)]
    exact h.below j other hj hlt
  · rw [Stations.put_of_ne (hne hj hlt.ne')]
    exact h.above j other hj hlt

theorem Climb.next (h : Climb stations w k) (hk : stations[k]? = some station) (hs : w station = some s)
    (hop : s.InOp) : Climb stations w (k + 1) := by
  refine ⟨fun j other hj hlt => ?_, fun j other hj hlt => h.above j other hj (Nat.lt_of_succ_lt hlt)⟩
  rcases Nat.lt_succ_iff_lt_or_eq.mp hlt with hlt | rfl
  · exact h.below j other hj hlt
  · obtain rfl := Option.some.inj (hk.symm.trans hj)
    exact ⟨s, hs, hop⟩

end Climb

inductive Watch (stations : List UInt16) : Appended × Datagram → Prop
  | clock {kind : Appended} {d : Datagram} (hk : kind = .dcArmw ∨ kind = .dcDiff) (hd : d.command ≠ Command.code .fpwr)
    (ha : d.ado ≠ regAlStatus) : Watch stations (kind, d)
  | poll {station : UInt16} {index : UInt8} (h : station ∈ stations) :
    Watch stations (.alPoll, ⟨Command.code .fprd, index, station, regAlStatus, [0, 0]⟩)

def AllInOp (stations : List UInt16) (w : Stations) : Prop := ∀ station ∈ stations, ∃ s, w station = some s ∧ s.InOp

section Ascent

variable {L : Layout} {stations : List UInt16} {c : Cyclic L} {w w' : Stations} {k n : ℕ} {station : UInt16}
  {index : UInt8} {asking : Bool} {s : Esc} {reply : Reply}

/-- How far the slaves are, and the ticks that are left to OP. -/
inductive Ascent (stations : List UInt16) : ℕ → Cyclic L × Stations → Prop
  | priming {c : Cyclic L} {w : Stations} (hp : c.phase = .priming) (hc : c.Carrying []) (hctrl : c.opCtrlPhase = true)
    (hg : c.goodCycles < primingCycles)
    (hw : ∀ station ∈ stations, ∃ s, w station = some s ∧ s.al = alStateSafeop) :
    Ascent stations (4 * stations.length + (3 - c.goodCycles.toNat)) (c, w)
  | climbing {c : Cyclic L} {w : Stations} {asking : Bool} {n : ℕ} {station : UInt16} {index : UInt8} {s : Esc}
    (hp : c.phase = .requestingOp) (hfresh : c.reached c.opCursor = false) (hk : stations[c.opCursor]? = some station)
    (hc : c.Carrying [opDatagram asking c.opCursor station index]) (hctrl : c.opCtrlPhase = !asking)
    (hs : w station = some s) (hr : Rung asking s n) (hw : Climb stations w c.opCursor) :
    Ascent stations (4 * (stations.length - c.opCursor - 1) + n) (c, w)
  | operational {c : Cyclic L} {w : Stations} {ps : List (Appended × Datagram)} (hp : c.phase = .operational)
    (hc : c.Carrying ps) (hps : ∀ p ∈ ps, Watch stations p) (hw : AllInOp stations w) : Ascent stations 0 (c, w)

theorem hears_control (hs : w station = some s) (hr : Rung true s n)
    (h : w.hears (opDatagram true k station index).2 reply = some w') :
    ∃ s' m, w' = w.put station s' ∧ m + 1 ≤ n ∧ Rung false s' m := by
  rw [← Stations.put_eq_self hs] at h
  obtain ⟨-, rfl⟩ := takes_write h
  obtain ⟨m, hm, hr'⟩ := hr.write
  exact ⟨_, m, rfl, hm, hr'⟩

theorem hears_status (hs : w station = some s) (hr : Rung false s n)
    (h : w.hears (opDatagram false k station index).2 reply = some w') :
    ∃ s', w' = w.put station s' ∧
      (SaysOp reply ∧ s'.InOp ∨ decodeAppended (.status k) reply = .none ∧ ∃ m, m + 1 ≤ n ∧ Rung true s' m) := by
  obtain ⟨status, s', hread, hstatus⟩ := hr.read
  rw [← Stations.put_eq_self hs] at h
  have hread : s.read regAlStatus [(0 : UInt8), 0].length = (some [status, 0], s') := hread
  obtain ⟨hwkc, -, hdata, rfl⟩ := takes_read hread h
  have hhead : reply.data.headD 0 = status := by
    rw [hdata rfl]
    rfl
  refine ⟨s', rfl, hstatus.imp (fun ⟨he, hop⟩ => ⟨?_, hop⟩) fun ⟨he, hm⟩ => ⟨?_, hm⟩⟩
  · rw [SaysOp, hwkc, hhead, he]
    decide
  · rw [decodeAppended, hwkc, hhead, he]
    rfl

theorem ascent_asks {r : Cyclic L} {e : EngineTick L} (hr : c.received e.dev e.latency = r) (hp : r.phase = .requestingOp)
    (hst : r.slaves.map SlaveRt.station = stations) (hcursor : r.seekOp.opCursor = k)
    (hasking : r.seekOp.opCtrlPhase = asking) (hfresh : r.reached k = false) (hk : stations[k]? = some station)
    (hs : w station = some s) (hrung : Rung asking s n) (hw : Climb stations w k) :
    Ascent stations (4 * (stations.length - k - 1) + n) (engineStep c e, w) := by
  have hq := c.engineStep_requests e
  rw [hr] at hq
  obtain ⟨rt, hrt, rfl⟩ : ∃ rt, r.slaves[k]? = some rt ∧ rt.station = station := by
    rw [← hst, List.getElem?_map] at hk
    exact Option.map_eq_some_iff.mp hk
  rw [← hcursor] at hrt
  have hcarry := c.engineStep_carrying e
  have happendix : r.appendix (e.index + 1) = [opDatagram asking k rt.station (e.index + 1)] := by
    rw [Cyclic.appendix, hp, ← hasking, ← hcursor]
    simp only [Cyclic.opRequest, hrt, opDatagram]
    split_ifs <;> rfl
  have hctrl := (c.engineStep_ctrl e hr).2 rt hp hrt
  have hstep : (engineStep c e).opCursor = k := by rw [hq.opCursor, if_pos hp, hcursor]
  rw [hr, happendix] at hcarry
  rw [hasking] at hctrl
  rw [← hstep] at hfresh hk hw hcarry ⊢
  exact Ascent.climbing (hq.phase.trans hp) ((hq.reached _).trans hfresh) hk hcarry hctrl hs hrung hw

theorem watch_monitor {r : Cyclic L} (hst : r.slaves.map SlaveRt.station = stations) (index : UInt8) :
    ∀ p ∈ r.monitor index, Watch stations p := by
  have hdiff (station : UInt16) (index : UInt8) :
      Watch stations (.dcDiff, ⟨Command.code .fprd, index, station, regDcSysTimeDiff, [0, 0, 0, 0]⟩) :=
    Watch.clock (Or.inr rfl) (show Command.code .fprd ≠ Command.code .fpwr by decide)
      (show regDcSysTimeDiff ≠ regAlStatus by decide)
  intro p hp
  rw [Cyclic.monitor] at hp
  split_ifs at hp with hn
  · cases hs : r.slaves.head? with
    | none =>
      rw [hs] at hp
      exact absurd hp List.not_mem_nil
    | some s =>
      rw [hs] at hp
      rw [List.mem_singleton.mp hp]
      exact hdiff _ _
  · rcases List.mem_cons.mp hp with rfl | hp
    · exact Watch.clock (Or.inl rfl) (show Command.code .armw ≠ Command.code .fpwr by decide)
        (show regDcSysTime ≠ regAlStatus by decide)
    · rw [List.mem_singleton.mp hp, Cyclic.telemetry]
      split_ifs
      · exact hdiff _ _
      · obtain ⟨s, hs⟩ := Cyclic.advanceMonitor_slave (not_le.mp hn)
        rw [Cyclic.pollStation_of_slave hs]
        apply Watch.poll
        rw [← hst]
        exact List.mem_map_of_mem (List.mem_of_getElem? hs)

theorem ascent_done {r : Cyclic L} {e : EngineTick L} (hr : c.received e.dev e.latency = r) (hp : r.phase = .operational)
    (hst : r.slaves.map SlaveRt.station = stations) (hw : AllInOp stations w) :
    Ascent stations 0 (engineStep c e, w) := by
  have hcarry := c.engineStep_carrying e
  rw [hr, Cyclic.appendix, hp] at hcarry
  exact Ascent.operational ((c.engineStep_requests e).phase.trans (hr ▸ hp)) hcarry (watch_monitor hst _) hw

theorem hears_watch {p : Appended × Datagram} (hp : Watch stations p) (hw : AllInOp stations w)
    (h : w.hears p.2 reply = some w') : decodeAppended p.1 reply ≠ .fault ∧ AllInOp stations w' := by
  cases hp with
  | clock hk hd ha =>
    rw [Stations.hears, if_neg hd, if_neg (fun h => ha h.2)] at h
    obtain rfl := Option.some.inj h
    refine ⟨?_, hw⟩
    intro hf
    rcases decodeAppended_fault hf with ⟨j, he⟩ | ⟨he, -⟩
    · rcases hk with rfl | rfl <;> exact absurd he (by simp)
    · rcases hk with rfl | rfl <;> exact absurd he (by simp)
  | @poll station index hm =>
    obtain ⟨s, hs, hop⟩ := hw _ hm
    obtain ⟨s', hread, hop'⟩ := hop.read
    rw [← Stations.put_eq_self hs] at h
    have hread : s.read regAlStatus [(0 : UInt8), 0].length = (some [alStateOp, 0], s') := hread
    obtain ⟨-, -, hdata, rfl⟩ := takes_read hread h
    refine ⟨?_, fun other ho => ?_⟩
    · intro hf
      rcases decodeAppended_fault hf with ⟨j, he⟩ | ⟨-, -, hf⟩
      · exact absurd he (by simp)
      · rw [hdata rfl] at hf
        exact absurd hf (by decide)
    · by_cases he : other = station
      · rw [he]
        exact ⟨s', Stations.put_self, hop'⟩
      · rw [Stations.put_of_ne he]
        exact hw other ho

theorem hearsAll_watch {ps : List (Appended × Datagram)} (hps : ∀ p ∈ ps, Watch stations p) {replies : List Reply}
    (hw : AllInOp stations w) (h : w.hearsAll (ps.map Prod.snd) replies = some w') :
    (∀ p ∈ (ps.map Prod.fst).zip replies, decodeAppended p.1 p.2 ≠ .fault) ∧ AllInOp stations w' := by
  induction ps generalizing w replies with
  | nil =>
    obtain rfl : replies = [] := List.length_eq_zero_iff.mp (Stations.length_hearsAll h)
    obtain rfl := Option.some.inj h
    exact ⟨fun p hp => absurd hp List.not_mem_nil, hw⟩
  | cons p ps ih =>
    obtain ⟨hp, hps⟩ := List.forall_mem_cons.mp hps
    cases replies with
    | nil => cases h
    | cons reply replies =>
      obtain ⟨v, hv, hrest⟩ := Option.bind_eq_some_iff.mp h
      obtain ⟨hfirst, hw'⟩ := hears_watch hp hw hv
      obtain ⟨hothers, hw''⟩ := ih hps hw' hrest
      exact ⟨List.forall_mem_cons.mpr ⟨hfirst, hothers⟩, hw''⟩

theorem received_reached_same {dev : Device} (latency : UInt32)
    (hf : ∀ j dg, (.status j, dg) ∈ c.answered dev → ¬SaysOp dg) (j : ℕ) :
    (c.received dev latency).reached j = c.reached j := by
  have hm := c.received_moves dev latency
  apply Bool.eq_iff_iff.mpr
  constructor
  · intro h
    rcases hm.reached_of j h with h | ⟨dg, ha, hop⟩
    · exact h
    · exact absurd hop (hf j dg ha)
  · exact hm.reached_keep j

theorem not_allReachedOp {r : Cyclic L} (hst : r.slaves.map SlaveRt.station = stations) (hk : stations[k]? = some station)
    (h : r.reached k = false) : r.allReachedOp = false := by
  obtain ⟨hlt, -⟩ := List.getElem?_eq_some_iff.mp hk
  rw [← hst, List.length_map] at hlt
  rw [Bool.eq_false_iff]
  intro hall
  exact absurd (h.symm.trans ((Cyclic.allReachedOp_iff r).mp hall k hlt)) (by decide)

structure Aloft (stations : List UInt16) (n : ℕ) (s : Cyclic L × Stations) : Prop where
  ascent : Ascent stations n s
  gated : s.1.Gated
  stations : s.1.slaves.map SlaveRt.station = stations
  flying : s.1.outstanding = true

section Tick

variable {e : EngineTick L}

theorem goodCycles_counts {lrw : Reply} {next : ℕ} (hp : c.processed e.dev = some (lrw, next))
    (hw : lrw.workingCounter ≠ 0) (hg : c.goodCycles < primingCycles) :
    (c.received e.dev e.latency).goodCycles.toNat = c.goodCycles.toNat + 1 := by
  have hcount := c.received_goodCycles e
  rw [hp, c.engineStep_goodCycles] at hcount
  have hpos : lrw.workingCounter > 0 := UInt16.pos_iff_ne_zero.mpr hw
  have hlt : c.goodCycles.toNat < 3 := hg
  have hne : c.goodCycles ≠ 0xFFFFFFFF := by
    intro he
    rw [he] at hlt
    exact absurd hlt (by decide)
  rw [hcount]
  dsimp only [Cyclic.countGood]
  rw [if_pos hpos, if_neg hne, UInt32.toNat_add]
  exact Nat.mod_eq_of_lt (by change c.goodCycles.toNat + 1 < 2 ^ 32; omega)

theorem Ascent.prime (hgated : c.Gated) (hst : c.slaves.map SlaveRt.station = stations) (hne : stations ≠ []) (hp : c.phase = .priming) (hc : c.Carrying []) (hctrl : c.opCtrlPhase = true)
    (hg : c.goodCycles < primingCycles) (hw : ∀ station ∈ stations, ∃ s, w station = some s ∧ s.al = alStateSafeop)
    (h : w.serves c e.dev = some w') :
    ∃ m, m ≤ 4 * stations.length + (3 - c.goodCycles.toNat) - 1 ∧ Ascent stations m (engineStep c e, w') := by
  obtain ⟨lrw, next, replies, hproc, hwkc, hans, hheard⟩ := hc.serves h
  have hcount := goodCycles_counts hproc hwkc hg
  have hlt : c.goodCycles.toNat < 3 := hg
  obtain ⟨rfl⟩ : replies = [] := List.length_eq_zero_iff.mp (Stations.length_hearsAll hheard)
  obtain rfl : w = w' := Option.some.inj hheard
  have hnone : ∀ p ∈ c.answered e.dev, decodeAppended p.1 p.2 ≠ .fault := by
    rw [hans]
    exact fun p hp => absurd hp List.not_mem_nil
  have hfresh := hgated.received_unprimed e.dev e.latency hp
  have hold := (c.received_holds e.dev e.latency).1
  obtain ⟨station, hk⟩ : ∃ station, stations[0]? = some station := by
    cases stations with
    | nil => exact absurd rfl hne
    | cons station stations => exact ⟨station, rfl⟩
  have hshort := not_allReachedOp (hold.stations.trans hst) hk (hfresh 0)
  have hphase {phase : Phase} (hphase : (c.phase = .priming ∧ (c.received e.dev e.latency).goodCycles ≥ primingCycles) ∧
      phase = .requestingOp ∨ ¬(c.phase = .priming ∧ (c.received e.dev e.latency).goodCycles ≥ primingCycles) ∧
        phase = c.phase) : (c.received e.dev e.latency).phase = phase := by
    rw [Cyclic.received_phase_eq e.latency (by rw [hproc]; rfl) hnone hphase, if_neg]
    rw [hshort]
    exact fun h => absurd h.2 (by decide)
  by_cases hge : (c.received e.dev e.latency).goodCycles ≥ primingCycles
  · have hcursor : c.opCursor = 0 := by
      by_contra hpos
      exact absurd ((hgated.unprimed hp 0).symm.trans (hgated.behind 0 (Nat.pos_of_ne_zero hpos))) (by decide)
    have hseek : (c.received e.dev e.latency).seekOp = c.received e.dev e.latency := Cyclic.seekOp_stay (hfresh _)
    obtain ⟨s, hs, hal⟩ := hw station (List.mem_of_getElem? hk)
    have hclimb : Climb stations w 0 := ⟨fun j _ _ hj => absurd hj (Nat.not_lt_zero j),
      fun j other hj _ => hw other (List.mem_of_getElem? hj)⟩
    refine ⟨_, ?_, ascent_asks rfl (hphase (Or.inl ⟨⟨hp, hge⟩, rfl⟩)) (hold.stations.trans hst) ?_ ?_ (hfresh 0) hk hs
      (Rung.first hal) hclimb⟩
    · have hlen : 0 < stations.length := List.length_pos_iff.mpr hne
      have hthree : 3 ≤ (c.received e.dev e.latency).goodCycles.toNat := hge
      omega
    · rw [hseek]
      exact hold.opCursor.trans hcursor
    · rw [hseek]
      exact hold.opCtrlPhase.trans hctrl
  · have hr := hphase (Or.inr ⟨fun h => hge h.2, rfl⟩)
    have hq := c.engineStep_requests e
    have hgood := c.engineStep_goodCycles e
    have hcarry := c.engineStep_carrying e
    have hctrl' := (c.engineStep_ctrl e rfl).1 (by rw [hr, hp]; decide)
    rw [Cyclic.appendix, hr, hp] at hcarry
    refine ⟨_, ?_, Ascent.priming (hq.phase.trans (hr.trans hp)) hcarry (hctrl'.trans (hold.opCtrlPhase.trans hctrl))
      ?_ hw⟩
    · rw [hgood, hcount]
      omega
    · rw [hgood]
      exact UInt32.not_le.mp hge

theorem received_waits (hst : c.slaves.map SlaveRt.station = stations) (hp : c.phase = .requestingOp)
    (hfresh : c.reached c.opCursor = false) (hk : stations[c.opCursor]? = some station)
    (hproc : (c.processed e.dev).isSome = true) {p : Appended × Reply} (hans : c.answered e.dev = [p])
    (hnone : decodeAppended p.1 p.2 = .none) (hn : stations.Nodup) (hw : Climb stations w c.opCursor) {s' : Esc}
    (hctrl : c.opCtrlPhase = asking) (hr : Rung asking s' n) :
    Ascent stations (4 * (stations.length - c.opCursor - 1) + n) (engineStep c e, w.put station s') := by
  have hold := (c.received_holds e.dev e.latency).1
  have hmem : ∀ q ∈ c.answered e.dev, decodeAppended q.1 q.2 = .none := by
    intro q hq
    rw [hans] at hq
    rw [List.mem_singleton.mp hq, hnone]
  have hfresh' : (c.received e.dev e.latency).reached c.opCursor = false := by
    rw [received_reached_same, hfresh]
    intro j dg ha hop
    exact absurd ((decodeAppended_status hop).symm.trans (hmem _ ha)) (by simp)
  have hphase : (c.received e.dev e.latency).phase = .requestingOp := by
    rw [Cyclic.received_phase_eq e.latency hproc (fun q hq => by rw [hmem q hq]; simp)
        (Or.inr ⟨fun h => absurd (hp.symm.trans h.1) (by decide), rfl⟩),
      not_allReachedOp (hold.stations.trans hst) hk hfresh', if_neg (fun h => absurd h.2 (by decide)), hp]
  have hseek : (c.received e.dev e.latency).seekOp = c.received e.dev e.latency := by
    apply Cyclic.seekOp_stay
    rw [hold.opCursor]
    exact hfresh'
  refine ascent_asks rfl hphase (hold.stations.trans hst) ?_ ?_ hfresh' hk Stations.put_self hr (hw.put hn hk s')
  · rw [hseek]
    exact hold.opCursor
  · rw [hseek]
    exact hold.opCtrlPhase.trans hctrl

theorem Ascent.control (hst : c.slaves.map SlaveRt.station = stations) (hn : stations.Nodup)
    (hp : c.phase = .requestingOp) (hfresh : c.reached c.opCursor = false) (hk : stations[c.opCursor]? = some station)
    (hc : c.Carrying [opDatagram true c.opCursor station index]) (hctrl : c.opCtrlPhase = false)
    (hs : w station = some s) (hr : Rung true s n) (hw : Climb stations w c.opCursor)
    (h : w.serves c e.dev = some w') :
    ∃ m, m ≤ 4 * (stations.length - c.opCursor - 1) + n - 1 ∧ Ascent stations m (engineStep c e, w') := by
  obtain ⟨reply, hproc, hans, hheard⟩ := hc.serves_one h
  obtain ⟨s', m, rfl, hm, hr'⟩ := hears_control hs hr hheard
  refine ⟨_, ?_, received_waits hst hp hfresh hk hproc hans rfl hn hw hctrl hr'⟩
  omega

theorem Ascent.status (hgated : c.Gated) (hst : c.slaves.map SlaveRt.station = stations) (hn : stations.Nodup)
    (hp : c.phase = .requestingOp) (hfresh : c.reached c.opCursor = false) (hk : stations[c.opCursor]? = some station)
    (hc : c.Carrying [opDatagram false c.opCursor station index]) (hctrl : c.opCtrlPhase = true)
    (hs : w station = some s) (hr : Rung false s n) (hw : Climb stations w c.opCursor)
    (h : w.serves c e.dev = some w') :
    ∃ m, m ≤ 4 * (stations.length - c.opCursor - 1) + n - 1 ∧ Ascent stations m (engineStep c e, w') := by
  obtain ⟨reply, hproc, hans, hheard⟩ := hc.serves_one h
  obtain ⟨s', rfl, ⟨hop, hin⟩ | ⟨hdec, m, hm, hr'⟩⟩ := hears_status hs hr hheard
  · have hold := (c.received_holds e.dev e.latency).1
    have hpos := hr.pos
    obtain ⟨hlt, -⟩ := List.getElem?_eq_some_iff.mp hk
    have hlen : stations.length = c.slaves.length := by rw [← hst, List.length_map]
    have hmem : (Appended.status c.opCursor, reply) ∈ c.answered e.dev := by
      rw [hans]
      exact List.mem_singleton_self _
    have hreached := Cyclic.received_reaches e.latency hmem hop (hlen ▸ hlt)
    have hnext := (hw.put hn hk s').next hk Stations.put_self hin
    have hnone : ∀ q ∈ c.answered e.dev, decodeAppended q.1 q.2 ≠ .fault := by
      intro q hq
      rw [hans] at hq
      rw [List.mem_singleton.mp hq]
      exact fun h => absurd ((decodeAppended_status hop).symm.trans h) (by simp)
    have hphase := Cyclic.received_phase_eq e.latency hproc hnone
      (Or.inr ⟨fun h => absurd (hp.symm.trans h.1) (by decide), rfl⟩)
    cases hnk : stations[c.opCursor + 1]? with
    | none =>
      have hlast : stations.length ≤ c.opCursor + 1 := List.getElem?_eq_none_iff.mp hnk
      have hall : (c.received e.dev e.latency).allReachedOp = true := by
        apply (Cyclic.allReachedOp_iff _).mpr
        intro j hj
        rw [hold.slaveCount] at hj
        rcases Nat.lt_or_ge j c.opCursor with hjc | hjc
        · exact hgated.received_behind e.dev e.latency j hjc
        · obtain rfl : j = c.opCursor := by
            change j < c.slaves.length at hj
            omega
          exact hreached
      rw [hall, if_pos ⟨hp, rfl⟩] at hphase
      refine ⟨0, Nat.zero_le _, ascent_done rfl hphase (hold.stations.trans hst) fun other ho => ?_⟩
      obtain ⟨j, hj, rfl⟩ := List.mem_iff_getElem.mp ho
      exact hnext.below j _ (List.getElem?_eq_getElem hj) (hj.trans_le hlast)
    | some next =>
      have hfresh' : (c.received e.dev e.latency).reached (c.opCursor + 1) = false := by
        rw [Bool.eq_false_iff]
        intro hj
        exact absurd (hgated.received_ahead e.dev e.latency _ hj) (Nat.not_succ_le_self _)
      rw [not_allReachedOp (hold.stations.trans hst) hnk hfresh', if_neg (fun h => absurd h.2 (by decide)), hp] at hphase
      have hcursor : (c.received e.dev e.latency).opCursor = c.opCursor := hold.opCursor
      obtain ⟨hseek, hseek'⟩ := Cyclic.seekOp_next (c := c.received e.dev e.latency) (by rw [hcursor]; exact hreached)
        (by rw [hcursor]; exact hfresh')
      rw [hcursor] at hseek
      obtain ⟨x, hx, hal⟩ := (hw.put hn hk s').above (c.opCursor + 1) next hnk (Nat.lt_succ_self _)
      refine ⟨_, ?_, ascent_asks rfl hphase (hold.stations.trans hst) hseek hseek' hfresh' hnk hx (Rung.first hal) hnext⟩
      obtain ⟨hlt', -⟩ := List.getElem?_eq_some_iff.mp hnk
      omega
  · refine ⟨_, ?_, received_waits hst hp hfresh hk hproc hans hdec hn hw hctrl hr'⟩
    omega

theorem Ascent.watch (hst : c.slaves.map SlaveRt.station = stations) (hp : c.phase = .operational)
    {ps : List (Appended × Datagram)} (hc : c.Carrying ps) (hps : ∀ p ∈ ps, Watch stations p) (hw : AllInOp stations w)
    (h : w.serves c e.dev = some w') : Ascent stations 0 (engineStep c e, w') := by
  obtain ⟨lrw, next, replies, hproc, -, hans, hheard⟩ := hc.serves h
  obtain ⟨hnone, hw'⟩ := hearsAll_watch hps hw hheard
  rw [← hans] at hnone
  have hphase := Cyclic.received_phase_eq e.latency (by rw [hproc]; rfl) hnone
    (Or.inr ⟨fun h => absurd (hp.symm.trans h.1) (by decide), rfl⟩)
  rw [hp, if_neg (fun h => absurd h.1 (by decide))] at hphase
  exact ascent_done rfl hphase ((c.received_holds e.dev e.latency).1.stations.trans hst) hw'

end Tick

theorem ticking_some {p p' : Cyclic L × Stations} {e : EngineTick L} (h : Stations.ticking p e = some p') :
    p'.1 = engineStep p.1 e ∧ p'.1.outstanding = true ∧
      (if p.1.outstanding then p.2.serves p.1 e.dev else some p.2) = some p'.2 := by
  rw [Stations.ticking] at h
  by_cases ho : (engineStep p.1 e).outstanding = true
  · rw [if_pos ho] at h
    obtain ⟨w', hw, rfl⟩ := Option.map_eq_some_iff.mp h
    exact ⟨rfl, ho, hw⟩
  · rw [if_neg ho] at h
    cases h

theorem Aloft.tick (hne : stations ≠ []) (hn : stations.Nodup) {p p' : Cyclic L × Stations} {e : EngineTick L}
    (h : Aloft stations n p) (ht : Stations.ticking p e = some p') : ∃ m, m ≤ n - 1 ∧ Aloft stations m p' := by
  obtain ⟨c', w'⟩ := p'
  obtain ⟨rfl, hflying, hserves⟩ := ticking_some ht
  rw [if_pos h.flying] at hserves
  have hslaves : p.1.slaves ≠ [] := by
    intro hs
    exact hne (h.stations.symm.trans (by rw [hs]; rfl))
  have hascent : ∃ m, m ≤ n - 1 ∧ Ascent stations m (engineStep p.1 e, w') := by
    cases h.ascent with
    | priming hp hc hctrl hg hw => exact Ascent.prime h.gated h.stations hne hp hc hctrl hg hw hserves
    | @climbing c w asking n station index s hp hfresh hk hc hctrl hs hr hw =>
      cases asking with
      | true => exact Ascent.control h.stations hn hp hfresh hk hc hctrl hs hr hw hserves
      | false => exact Ascent.status h.gated h.stations hn hp hfresh hk hc hctrl hs hr hw hserves
    | operational hp hc hps hw => exact ⟨0, Nat.zero_le _, Ascent.watch h.stations hp hc hps hw hserves⟩
  obtain ⟨m, hm, ha⟩ := hascent
  exact ⟨m, hm, ha, h.gated.step hslaves e, (p.1.engineStep_stations e).trans h.stations, hflying⟩

theorem Ascent.arrived {p : Cyclic L × Stations} (h : Ascent stations n p) (hne : stations ≠ []) (hz : n = 0) :
    p.1.phase = .operational ∧ AllInOp stations p.2 := by
  cases h with
  | priming =>
    have hlen : 0 < stations.length := List.length_pos_iff.mpr hne
    omega
  | climbing hp hfresh hk hc hctrl hs hr hw =>
    have hpos := hr.pos
    omega
  | operational hp hc hps hw => exact ⟨hp, hw⟩

theorem Ascent.sound {p : Cyclic L × Stations} (h : Ascent stations n p) : p.1.phase ≠ .faulted := by
  intro hf
  cases h with
  | priming hp | climbing hp | operational hp => exact absurd (hp.symm.trans hf) (by decide)

end Ascent

namespace Cyclic

variable {L : Layout}

end Cyclic

end EcMaster
