import EcMaster.BusStartUp

namespace EcMaster

open Library.Dialogue Library.Dialogue.Script Library.Segment Library.LittleEndian Library.Memory

structure Esc.Idle (s : Esc) : Prop where
  free : s.server.answer = none
  settled : s.al &&& alStateError ≠ 0 → s.lag = 0

theorem Esc.Idle.rests {s : Esc} (h : s.Idle) : s.Rests s.make s.al s.mem s.server.objects :=
  ⟨rfl, rfl, rfl, rfl, h.free, h.settled⟩

theorem Esc.Rests.idle {s : Esc} {t : EscMake} {al : UInt8} {mem : ℕ → UInt8} {objects : Objects}
    (h : s.Rests t al mem objects) : s.Idle :=
  ⟨h.free, h.settled⟩

namespace Esc

def latched (al : UInt8) : UInt8 := (al &&& alStateMask) ||| alStateError

def behind (s : Esc) (target : UInt8) : UInt8 := if s.allows target then target else latched s.al

def statusCode (s : Esc) : UInt16 := u16Le (peek s.mem regAlStatusCode.toNat 2)

def verdict (s : Esc) (target : UInt8) : Except EcError Unit :=
  if s.allows target then .ok () else .error (.stateChange s.statusCode)

end Esc

theorem latched_mask (al : UInt8) : Esc.latched al &&& alStateMask = al &&& alStateMask := by
  obtain ⟨v⟩ := al
  revert v
  decide

theorem latched_latched (al : UInt8) : Esc.latched (Esc.latched al) = Esc.latched al := by
  rw [Esc.latched, latched_mask]
  rfl

theorem latched_error (al : UInt8) : Esc.latched al &&& alStateError ≠ 0 := by
  obtain ⟨v⟩ := al
  revert v
  decide

section Refusal

variable {w : Stations} {station : UInt16} {s : Esc} {target : UInt8} {post : Except EcError Unit → Stations → Prop}

theorem attempts_datagram {a : Access} {hear : Reply → Procedure Unit}
    (h : ∀ reply w', w.takes a reply = some w' → (hear reply).attempt.Secures stationAnswers post w') :
    (exchange [a] (replied hear)).attempt.Secures stationAnswers post w := by
  intro o w' hw
  obtain ⟨rx, reply, rfl, hparse, htake⟩ := answered_datagram hw
  change (replied hear rx).attempt.Secures stationAnswers post w'
  rw [replied, hparse]
  exact h reply w' htake

theorem attempts_write {ado : UInt16} {data : List UInt8} {next : Procedure Unit}
    (h : next.attempt.Secures stationAnswers post (w.put station (s.write ado data))) :
    (exchange [⟨.fpwr, station, ado, data⟩] (replied (confirmed next))).attempt.Secures stationAnswers post
      (w.put station s) := by
  apply attempts_datagram
  intro reply w' htake
  obtain ⟨hwkc, rfl⟩ := takes_write htake
  rw [confirmed, if_neg (not_not_intro hwkc)]
  exact h

theorem attempts_awaitState {onError : Procedure Unit} (n : ℕ) (hlag : s.lag = 0) (herr : s.al &&& alStateError ≠ 0)
    (h : onError.attempt.Secures stationAnswers post (w.put station s)) :
    (awaitState station target onError n).attempt.Secures stationAnswers post (w.put station s) := by
  have hread (again : Procedure Unit) :
      (exchange [⟨.fprd, station, regAlStatus, [0, 0]⟩] (replied (heardStatus target onError again))).attempt.Secures
        stationAnswers post (w.put station s) := by
    apply attempts_datagram
    intro reply w' htake
    obtain ⟨hwkc, -, hdata, rfl⟩ := takes_read (read_status_now hlag) htake
    rw [heardStatus, confirmed, if_neg (not_not_intro hwkc), hdata rfl, List.headD_cons, if_pos herr]
    exact h
  cases n with
  | zero => exact hread _
  | succ n => exact hread _

theorem attempts_readCode :
    (readCode station).attempt.Secures stationAnswers
      (fun r w' => r = .error (.stateChange s.statusCode) ∧ w' = w.put station s) (w.put station s) := by
  apply attempts_datagram
  intro reply w' htake
  have hread : s.read regAlStatusCode 2 = (some (peek s.mem regAlStatusCode.toNat 2), s) :=
    read_register (by decide) (by decide) (by decide) 2
  obtain ⟨-, hlen, hdata, rfl⟩ := takes_read hread htake
  have htwo : reply.data.length ≥ 2 := hlen.ge
  have hcode : EcMaster.statusCode reply = s.statusCode := by
    rw [EcMaster.statusCode, if_pos htwo, hdata (by decide), List.take_of_length_le (by simp), Esc.statusCode]
  exact ⟨by rw [hcode], rfl⟩

theorem control_refused {ctl : UInt8} (hctl : ctl &&& alStateMask = target) (hrefuse : s.allows target = false)
    (hack : s.al &&& alStateError = 0 ∨ ctl &&& alStateAckError ≠ 0) :
    s.write regAlControl [ctl, 0] = { s with al := Esc.latched s.al, lag := 0 } := by
  rw [Esc.write, if_pos rfl, List.headD_cons, Esc.control, hctl, hrefuse, if_neg, if_neg (by decide), Esc.latched]
  rintro ⟨he, ha⟩
  rcases hack with h | h
  · exact he h
  · exact h ha

theorem allows_latched {al : UInt8} {lag : ℕ} (hal : al &&& alStateMask = s.al &&& alStateMask) :
    ({ s with al := al, lag := lag } : Esc).allows target = s.allows target := by
  simp only [Esc.allows, hal]

theorem attempts_refused (ht : PlainState target) (hs : s.Idle) (hrefuse : s.allows target = false) :
    (changeState station target).attempt.Secures stationAnswers
      (fun r w' => r = .error (.stateChange s.statusCode) ∧
        w.Rest station s.make (Esc.latched s.al) s.mem s.server.objects w') (w.put station s) := by
  have hlatched : (Esc.latched s.al) &&& alStateMask = s.al &&& alStateMask := latched_mask s.al
  have hrests : ({ s with al := Esc.latched s.al, lag := 0 } : Esc).Rests s.make (Esc.latched s.al) s.mem
      s.server.objects := ⟨rfl, rfl, rfl, rfl, hs.free, fun _ => rfl⟩
  have hlast : (readCode station).attempt.Secures stationAnswers
      (fun r w' => r = .error (.stateChange s.statusCode) ∧
        w.Rest station s.make (Esc.latched s.al) s.mem s.server.objects w')
      (w.put station { s with al := Esc.latched s.al, lag := 0 }) := by
    refine attempts_readCode.mono ?_
    rintro r w' ⟨rfl, rfl⟩
    exact ⟨rfl, _, rfl, hrests⟩
  have hacknowledge {s' : Esc} (hw : s'.write regAlControl [target ||| alStateAckError, 0] =
      { s with al := Esc.latched s.al, lag := 0 }) : (acknowledge station target).attempt.Secures stationAnswers
      (fun r w' => r = .error (.stateChange s.statusCode) ∧
        w.Rest station s.make (Esc.latched s.al) s.mem s.server.objects w') (w.put station s') := by
    refine attempts_write ?_
    rw [hw]
    exact attempts_awaitState _ rfl (latched_error s.al) hlast
  refine attempts_write ?_
  by_cases he : s.al &&& alStateError = 0
  · rw [control_refused ht.state hrefuse (Or.inl he)]
    refine attempts_awaitState _ rfl (latched_error s.al) (hacknowledge ?_)
    rw [control_refused ht.acknowledged ((allows_latched hlatched).trans hrefuse) (Or.inr ht.acknowledges)]
    change ({ s with al := Esc.latched (Esc.latched s.al), lag := 0 } : Esc) = _
    rw [latched_latched]
  · have hsame : s.write regAlControl [target, 0] = s := by
      rw [Esc.write, if_pos rfl, Esc.control, if_pos]
      exact ⟨he, by rw [← ht.state, List.headD_cons, UInt8.and_assoc]; exact UInt8.and_zero⟩
    rw [hsame]
    refine attempts_awaitState _ (hs.settled he) he (hacknowledge ?_)
    exact control_refused ht.acknowledged hrefuse (Or.inr ht.acknowledges)

theorem attempts_changeState (station : UInt16) (ht : PlainState target) (hs : s.Idle) :
    (changeState station target).attempt.Secures stationAnswers
      (fun r w' => r = s.verdict target ∧ w.Rest station s.make (s.behind target) s.mem s.server.objects w')
      (w.put station s) := by
  cases ha : s.allows target with
  | true =>
    refine (secures_changeState ht hs.rests ha).attempt.mono ?_
    rintro r w' ⟨-, rfl, h⟩
    rw [Esc.verdict, Esc.behind, ha, if_pos rfl, if_pos rfl]
    exact ⟨rfl, h⟩
  | false =>
    refine (attempts_refused ht hs ha).mono ?_
    rintro r w' ⟨rfl, h⟩
    rw [Esc.verdict, Esc.behind, ha, if_neg (by decide), if_neg (by decide)]
    exact ⟨rfl, h⟩

theorem attempts_absent (h : w station = none) :
    (changeState station target).attempt.Secures stationAnswers (fun r w' => r = .error .workingCounter ∧ w' = w) w := by
  apply attempts_datagram
  intro reply w' htake
  simp only [Stations.takes, h] at htake
  split_ifs at htake with hwkc
  obtain rfl := Option.some.inj htake
  have hne : reply.workingCounter ≠ 1 := by
    rw [hwkc]
    decide
  rw [confirmed, if_pos hne]
  exact ⟨rfl, rfl⟩

end Refusal

structure Lowered (stations : List UInt16) (w w' : Stations) : Prop where
  lowered : ∀ station ∈ stations, ∀ s, w station = some s →
    ∃ s', w' station = some s' ∧ s'.Rests s.make (s.behind alStatePreop) s.mem s.server.objects
  others : ∀ station, station ∉ stations ∨ w station = none → w' station = w station

theorem secures_allDown {stations : List UInt16} {w : Stations} (hn : stations.Nodup)
    (hidle : ∀ station ∈ stations, ∀ s, w station = some s → s.Idle) :
    (allDown stations).Secures stationAnswers (fun _ => Lowered stations w) w := by
  induction stations generalizing w with
  | nil => exact ⟨fun station h => absurd h List.not_mem_nil, fun _ _ => rfl⟩
  | cons station stations ih =>
    obtain ⟨hnot, hn⟩ := List.nodup_cons.mp hn
    obtain ⟨hhead, htail⟩ := List.forall_mem_cons.mp hidle
    apply Secures.bind
    cases hs : w station with
    | none =>
      refine (attempts_absent hs).mono ?_
      rintro r w' ⟨-, rfl⟩
      refine (ih hn htail).mono fun _ w' h => ⟨List.forall_mem_cons.mpr ⟨fun s hs' => ?_, h.lowered⟩, fun other ho => ?_⟩
      · rw [hs] at hs'
        cases hs'
      · by_cases he : other = station
        · subst he
          exact h.others other (Or.inl hnot)
        · exact h.others other (ho.imp_left fun hm hmem => hm (List.mem_cons_of_mem _ hmem))
    | some s =>
      have hchange := attempts_changeState (w := w) station plainState_preop (hhead s hs)
      rw [Stations.put_eq_self hs] at hchange
      refine hchange.mono ?_
      rintro r w' ⟨-, s', rfl, hr⟩
      have hkeep {other : UInt16} (ho : other ∈ stations) : (w.put station s') other = w other :=
        Stations.put_of_ne fun he => hnot (he ▸ ho)
      have htail' : ∀ other ∈ stations, ∀ x, (w.put station s') other = some x → x.Idle := fun other ho x hx =>
        htail other ho x ((hkeep ho).symm.trans hx)
      refine (ih hn htail').mono fun _ w' h => ⟨List.forall_mem_cons.mpr ⟨fun x hx => ?_, fun other ho x hx => ?_⟩,
        fun other ho => ?_⟩
      · obtain rfl := Option.some.inj (hs.symm.trans hx)
        exact ⟨s', (h.others station (Or.inl hnot)).trans Stations.put_self, hr⟩
      · exact h.lowered other ho x ((hkeep ho).trans hx)
      · have hne : other ≠ station := by
          rintro rfl
          rcases ho with ho | ho
          · exact ho List.mem_cons_self
          · rw [hs] at ho
            cases ho
        have hput : (w.put station s') other = w other := Stations.put_of_ne hne
        rw [h.others other (ho.imp (fun hm hmem => hm (List.mem_cons_of_mem _ hmem)) fun hnone => hput.trans hnone), hput]

def Esc.prepared (s : Esc) (mbox : Mailbox) (configure : Bool) : Esc :=
  if configure then
    (s.write regSm0 (mailboxOutPage mbox.rxOffset mbox.rxSize)).write regSm1 (mailboxInPage mbox.txOffset mbox.txSize)
  else s

section Prepared

variable {w : Stations} {s : Esc}

theorem Esc.Idle.prepared (h : s.Idle) (mbox : Mailbox) (configure : Bool) :
    (s.prepared mbox configure).Idle ∧ (s.prepared mbox configure).make = s.make ∧
      (s.prepared mbox configure).al = s.al ∧ (s.prepared mbox configure).server.objects = s.server.objects ∧
        (configure = true → mbox.isSet (s.prepared mbox configure).mem = true) := by
  have hsm₀ : Plain regSm0 := plain_of_place (by decide)
  have hsm₁ : Plain regSm1 := plain_of_place (by decide)
  cases configure with
  | false => exact ⟨h, rfl, rfl, rfl, fun hc => absurd hc (by decide)⟩
  | true =>
    have hr := (h.rests.write hsm₀ (mailboxOutPage mbox.rxOffset mbox.rxSize)).write hsm₁
      (mailboxInPage mbox.txOffset mbox.txSize)
    rw [Esc.prepared, if_pos rfl]
    refine ⟨hr.idle, hr.make, hr.al, hr.objects, fun _ => ?_⟩
    rw [hr.mem]
    exact isSet_of_pokes mbox s.mem

end Prepared

namespace Master

variable {B : Bus} {m m' : Master B} {w : Stations} {es : ℕ → List (PitTick B.layout) × Device}

structure Named (m : Master B) (w : Stations) (slave : UInt16) (info : SlaveInfo) (s : Esc) : Prop where
  listed : m.slaves[slave.toNat]? = some info
  there : w info.stationAddr = some s
  mailbox : s.make.mailbox = info.mailbox
  idle : s.Idle

def askedMaster : Master (.plain []) := ⟨[startedInfo], 0, none, [], some (.new _ [⟨1, 0⟩, ⟨2, 1⟩] 0 1000000), []⟩

def askedTimes (payloads : List (List UInt8)) (n : ℕ) : List (PitTick (Bus.plain []).layout) × Device :=
  ([], (attended 0 payloads).getD n (Device.receiving []))

theorem stop_lowers {stations : List UInt16} (hbegin : m.begin .stopCyclic = (.ok (), m'))
    (hst : m.cyclic.elim [] Cyclic.slaveStations = stations) (hn : stations.Nodup)
    (hidle : ∀ station ∈ stations, ∀ s, w station = some s → s.Idle) (hans : m'.Answered stationAnswers w es) :
    ∃ m'' lines w', Ends m' es (.ok .cyclicStopped) m'' ∧ m''.log = m'.log ++ lines ∧
      replay stationAnswers w lines = some w' ∧ Lowered stations w w' := by
  have hactive := begin_active hbegin
  obtain ⟨op, hop, -, hpos⟩ := begin_pos hbegin
  obtain rfl := Except.ok.inj hop
  have hdown : (DownSeq.new stations).script.Secures stationAnswers (fun _ => Lowered stations w) w := by
    cases stations with
    | nil => exact ⟨fun station h => absurd h List.not_mem_nil, fun _ _ => rfl⟩
    | cons station stations =>
      rw [DownSeq.script_next rfl (Nat.succ_pos _)]
      exact secures_allDown hn hidle
  have hsec : m'.pos.1.Secures stationAnswers (fun outcome w' => outcome = .cyclicStopped ∧ Lowered stations w w') w := by
    rw [hpos, hst]
    exact Secures.map (hdown.mono fun _ _ h => ⟨rfl, h⟩)
  obtain ⟨outcome, m'', lines, w', he, hlog, hw, rfl, hl⟩ := ends_secured hactive hsec hans
  exact ⟨m'', lines, w', he, hlog, hw, hl⟩

def askedStations : Stations := startedStations.put 2 { startedEsc with al := alStateSafeop }

theorem askedStations_idle (station : UInt16) (s : Esc) (h : askedStations station = some s) : s.Idle := by
  rw [askedStations, startedStations, Stations.put, Stations.put, Function.update_apply, Function.update_apply] at h
  split_ifs at h <;> obtain rfl := Option.some.inj h <;> exact ⟨rfl, fun _ => rfl⟩

theorem stop_lowers_two :
    ∃ m'' lines w', Ends (askedMaster.begin .stopCyclic).2
        (askedTimes [[], [0x11, 0], [], [0x11, 0], [0, 0], [], [2, 0]]) (.ok .cyclicStopped) m'' ∧
      m''.log = (askedMaster.begin .stopCyclic).2.log ++ lines ∧ replay stationAnswers askedStations lines = some w' ∧
      Lowered [1, 2] askedStations w' :=
  stop_lowers (m := askedMaster) rfl rfl (by decide) (fun station _ => askedStations_idle station)
    (answered_of_exchangedAt (n := 13) (by decide +kernel))

end Master

end EcMaster
