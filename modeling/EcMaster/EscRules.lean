import EcMaster.Agenda
import EcMaster.EscSlave

namespace EcMaster

open Library.Dialogue Library.Dialogue.Script Library.Segment Library.LittleEndian Library.Memory

namespace Stations

variable {w : Stations} {station other : UInt16} {s s' : Esc}

@[simp] theorem put_self : w.put station s station = some s := by simp [put]

@[simp] theorem put_put : (w.put station s).put station s' = w.put station s' := by simp [put]

theorem put_of_ne (h : other ≠ station) : w.put station s other = w other := by simp [put, h]

theorem put_eq_self (h : w station = some s) : w.put station s = w := by
  rw [put, ← h, Function.update_eq_self]

theorem takesAll_nil {rs : List Reply} {w' : Stations} (h : w.takesAll [] rs = some w') : rs = [] ∧ w' = w := by
  cases rs with
  | nil => exact ⟨rfl, (Option.some.inj h).symm⟩
  | cons r rs => cases h

theorem takesAll_cons {a : Access} {as : List Access} {rs : List Reply} {w' : Stations}
    (h : w.takesAll (a :: as) rs = some w') :
    ∃ r rs' w₁, rs = r :: rs' ∧ w.takes a r = some w₁ ∧ w₁.takesAll as rs' = some w' := by
  cases rs with
  | nil => cases h
  | cons r rs =>
    obtain ⟨w₁, h₁, h⟩ := Option.bind_eq_some_iff.mp h
    exact ⟨r, rs, w₁, rfl, h₁, h⟩

end Stations

section Exchange

variable {α : Type} {post : α → Stations → Prop} {w : Stations}

theorem answered_frame {request : List Access} {o : Except EcError (List UInt8)} {w' : Stations}
    (h : stationAnswers w request o = some w') :
    ∃ rx rs, o = .ok rx ∧ replies rx ecFrameHeaderSize request = some rs ∧ w.takesAll request rs = some w' := by
  cases o with
  | error e => cases h
  | ok rx =>
    obtain ⟨rs, hrs, htakes⟩ := Option.bind_eq_some_iff.mp h
    exact ⟨rx, rs, rfl, hrs, htakes⟩

theorem answered_datagram {a : Access} {o : Except EcError (List UInt8)} {w' : Stations}
    (h : stationAnswers w [a] o = some w') : ∃ rx reply, o = .ok rx ∧ parse rx = some reply ∧ w.takes a reply = some w' := by
  obtain ⟨rx, rs, rfl, hrs, htakes⟩ := answered_frame h
  rw [replies_single] at hrs
  obtain ⟨reply, hparse, rfl⟩ := Option.map_eq_some_iff.mp hrs
  obtain ⟨r, rs, w₁, hr, htake, htakes⟩ := Stations.takesAll_cons htakes
  obtain ⟨rfl, rfl⟩ := List.cons.inj hr
  obtain ⟨-, rfl⟩ := Stations.takesAll_nil htakes
  exact ⟨rx, reply, rfl, hparse, htake⟩

theorem secures_datagram {a : Access} {hear : Reply → Procedure α}
    (h : ∀ reply w', w.takes a reply = some w' → (hear reply).Secures stationAnswers post w') :
    (exchange [a] (replied hear)).Secures stationAnswers post w := by
  intro o w' hw
  obtain ⟨rx, reply, rfl, hparse, htake⟩ := answered_datagram hw
  change (replied hear rx).Secures stationAnswers post w'
  rw [replied, hparse]
  exact h reply w' htake

end Exchange

structure Esc.Rests (s : Esc) (t : EscMake) (al : UInt8) (mem : ℕ → UInt8) (objects : Objects) : Prop where
  make : s.make = t
  al : s.al = al
  mem : s.mem = mem
  objects : s.server.objects = objects
  free : s.server.answer = none
  settled : s.al &&& alStateError ≠ 0 → s.lag = 0

section Slave

variable {post : Unit → Stations → Prop} {w : Stations} {station : UInt16} {s : Esc} {t : EscMake} {al : UInt8}
  {mem : ℕ → UInt8} {objects : Objects}

theorem takes_write {ado : UInt16} {data : List UInt8} {reply : Reply} {w' : Stations}
    (h : (w.put station s).takes ⟨.fpwr, station, ado, data⟩ reply = some w') :
    reply.workingCounter = 1 ∧ w' = w.put station (s.write ado data) := by
  simp only [Stations.takes, Stations.put_self, Stations.put_put] at h
  split_ifs at h with hw
  exact ⟨hw, (Option.some.inj h).symm⟩

theorem takes_read {ado : UInt16} {payload : List UInt8} {reply : Reply} {w' : Stations} {data : List UInt8} {s' : Esc}
    (hread : s.read ado payload.length = (some data, s'))
    (h : (w.put station s).takes ⟨.fprd, station, ado, payload⟩ reply = some w') :
    reply.workingCounter = 1 ∧ reply.data.length = payload.length ∧ (clocked ado = false → reply.data = data) ∧
      w' = w.put station s' := by
  simp only [Stations.takes, Stations.put_self, Stations.put_put, hread] at h
  split_ifs at h with hw
  obtain ⟨hwkc, hlen, hdata⟩ := hw
  refine ⟨hwkc, hlen, fun hc => ?_, (Option.some.inj h).symm⟩
  rcases hdata with hdata | hdata
  · rw [hc] at hdata
    cases hdata
  · exact hdata

theorem secures_write {α : Type} {post : α → Stations → Prop} {ado : UInt16} {data : List UInt8} {next : Procedure α}
    (h : next.Secures stationAnswers post (w.put station (s.write ado data))) :
    (exchange [⟨.fpwr, station, ado, data⟩] (replied (confirmed next))).Secures stationAnswers post
      (w.put station s) := by
  apply secures_datagram
  intro reply w' htake
  obtain ⟨hwkc, rfl⟩ := takes_write htake
  rw [confirmed, if_neg (not_not_intro hwkc)]
  exact h

structure Plain (ado : UInt16) : Prop where
  not_control : ado ≠ regAlControl
  not_clocked : clocked ado = false
  before : ado < 0x1000

theorem Esc.Rests.write (h : s.Rests t al mem objects) {ado : UInt16} (hp : Plain ado) (data : List UInt8) :
    (s.write ado data).Rests t al (poke mem ado.toNat data) objects := by
  have hrx : ado ≠ s.make.mailbox.rxOffset := fun he => absurd (he ▸ hp.before) (UInt16.not_lt.mpr s.make.rx_behind)
  rw [Esc.write, if_neg hp.not_control, hp.not_clocked, if_neg (by decide), if_neg fun hc => hrx hc.2]
  exact ⟨h.make, h.al, congrArg (poke · ado.toNat data) h.mem, h.objects, h.free, h.settled⟩

end Slave

def Stations.Rest (w : Stations) (station : UInt16) (t : EscMake) (al : UInt8) (mem : ℕ → UInt8) (objects : Objects)
    (w' : Stations) : Prop :=
  ∃ s : Esc, w' = w.put station s ∧ s.Rests t al mem objects

section StateChange

variable {w : Stations} {station : UInt16} {s : Esc} {t : EscMake} {al target : UInt8} {mem : ℕ → UInt8}
  {objects : Objects}

structure PlainState (target : UInt8) : Prop where
  state : target &&& alStateMask = target
  no_error : target &&& alStateError = 0
  acknowledged : (target ||| alStateAckError) &&& alStateMask = target
  acknowledges : (target ||| alStateAckError) &&& alStateAckError ≠ 0

theorem masked_no_error (x : UInt8) : (x &&& alStateMask) &&& alStateError = 0 := by
  rw [UInt8.and_assoc]
  exact UInt8.and_zero

theorem secures_readStatus {onError again : Procedure Unit} {post : Unit → Stations → Prop} {shown : UInt8} {s' : Esc}
    (hread : s.read regAlStatus 2 = (some [shown, 0], s'))
    (herr : shown &&& alStateError ≠ 0 → onError.Secures stationAnswers post (w.put station s'))
    (hreached : shown &&& alStateError = 0 → shown &&& alStateMask = target → post () (w.put station s'))
    (hagain : shown &&& alStateError = 0 → shown &&& alStateMask ≠ target →
      again.Secures stationAnswers post (w.put station s')) :
    (exchange [⟨.fprd, station, regAlStatus, [0, 0]⟩] (replied (heardStatus target onError again))).Secures
      stationAnswers post (w.put station s) := by
  apply secures_datagram
  intro reply w' htake
  obtain ⟨hwkc, -, hdata, rfl⟩ := takes_read hread htake
  rw [heardStatus, confirmed, if_neg (not_not_intro hwkc), hdata rfl, List.headD_cons]
  split_ifs with he ht
  · exact herr he
  · exact hreached (not_not.mp he) ht
  · exact hagain (not_not.mp he) ht

theorem read_status_late (h : s.lag ≠ 0) : s.read regAlStatus 2 = (some [s.shown, 0], { s with lag := s.lag - 1 }) := by
  rw [Esc.read, if_pos rfl, if_neg h]
  rfl

theorem read_status_now (h : s.lag = 0) : s.read regAlStatus 2 = (some [s.al, 0], s) := by
  rw [Esc.read, if_pos rfl, if_pos h]
  rfl

theorem secures_reached {onError again : Procedure Unit} (ht : PlainState target) (hr : s.Rests t target mem objects)
    (h : s.lag = 0) :
    (exchange [⟨.fprd, station, regAlStatus, [0, 0]⟩] (replied (heardStatus target onError again))).Secures
      stationAnswers (fun _ => w.Rest station t target mem objects) (w.put station s) := by
  refine secures_readStatus (read_status_now h) (fun he => absurd ?_ he) (fun _ _ => ⟨s, rfl, hr⟩)
    fun _ hne => absurd ?_ hne
  · rw [hr.al]
    exact ht.no_error
  · rw [hr.al]
    exact ht.state

theorem secures_awaitState {onError : Procedure Unit} {n : ℕ} (ht : PlainState target) (hr : s.Rests t target mem objects)
    (hlag : s.lag ≤ n) (hshown : s.shown &&& alStateError = 0) :
    (awaitState station target onError n).Secures stationAnswers (fun _ => w.Rest station t target mem objects)
      (w.put station s) := by
  induction n generalizing s with
  | zero => exact secures_reached ht hr (Nat.le_zero.mp hlag)
  | succ n ih =>
    by_cases h : s.lag = 0
    · exact secures_reached ht hr h
    · have hr' : ({ s with lag := s.lag - 1 } : Esc).Rests t target mem objects :=
        ⟨hr.make, hr.al, hr.mem, hr.objects, hr.free, fun he => congrArg (· - 1) (hr.settled he)⟩
      have hlag' : s.lag - 1 ≤ n := by omega
      exact secures_readStatus (read_status_late h) (fun he => absurd hshown he) (fun _ _ => ⟨_, rfl, hr'⟩)
        fun _ _ => ih hr' hlag' hshown

theorem control_taken {ctl : UInt8} (ht : PlainState target) (hr : s.Rests t al mem objects) (hctl : ctl &&& alStateMask = target)
    (hallow : s.allows target = true) (hack : s.al &&& alStateError = 0 ∨ ctl &&& alStateAckError ≠ 0) :
    (s.write regAlControl [ctl, 0]).Rests t target mem objects ∧
      (s.write regAlControl [ctl, 0]).lag ≤ maxStateWaits - 1 ∧
      (s.write regAlControl [ctl, 0]).shown &&& alStateError = 0 := by
  have hw : s.write regAlControl [ctl, 0] =
      { s with al := target, shown := s.al &&& alStateMask, lag := s.make.delays s.job, job := s.job + 1 } := by
    rw [Esc.write, if_pos rfl, List.headD_cons, Esc.control, hctl, hallow, if_neg, if_pos rfl]
    rintro ⟨he, ha⟩
    rcases hack with h | h
    · exact he h
    · exact h ha
  have hlag : s.make.delays s.job ≤ maxStateWaits - 1 := by
    have := lt_min_iff.mp (s.make.prompt s.job)
    omega
  rw [hw]
  exact ⟨⟨hr.make, rfl, hr.mem, hr.objects, hr.free, fun he => absurd ht.no_error he⟩, hlag, masked_no_error s.al⟩

theorem secures_changeState (ht : PlainState target) (hr : s.Rests t al mem objects) (hallow : s.allows target = true) :
    (changeState station target).Secures stationAnswers (fun _ => w.Rest station t target mem objects)
      (w.put station s) := by
  refine secures_write ?_
  by_cases he : s.al &&& alStateError = 0
  · obtain ⟨hr', hlag, hshown⟩ := control_taken ht hr ht.state hallow (Or.inl he)
    exact secures_awaitState ht hr' hlag hshown
  · have hsame : s.write regAlControl [target, 0] = s := by
      rw [Esc.write, if_pos rfl, Esc.control, if_pos]
      exact ⟨he, by rw [← ht.state, List.headD_cons, UInt8.and_assoc]; exact UInt8.and_zero⟩
    rw [hsame]
    refine secures_readStatus (read_status_now (hr.settled he)) (fun _ => ?_) (fun h => absurd h he)
      fun h => absurd h he
    obtain ⟨hr', hlag, hshown⟩ := control_taken ht hr ht.acknowledged hallow (Or.inr ht.acknowledges)
    exact secures_write (secures_awaitState ht hr' hlag hshown)

end StateChange

def stored (objects : Objects) (index : UInt16) (subindex : UInt8) (data : List UInt8) : Objects :=
  fun i s => if i = index ∧ s = subindex then data else objects i s

section Transfer

variable {w : Stations} {s : Esc} {t : EscMake} {al : UInt8} {mem : ℕ → UInt8} {objects : Objects}

structure Esc.Answers (s : Esc) (t : EscMake) (al : UInt8) (mem : ℕ → UInt8) (objects : Objects) (msg : List UInt8) :
    Prop where
  make : s.make = t
  al : s.al = al
  mem : s.mem = mem
  objects : s.server.objects = objects
  answer : s.server.answer = some msg
  settled : s.al &&& alStateError ≠ 0 → s.lag = 0

theorem Esc.Answers.on {msg : List UInt8} (h : s.Answers t al mem objects msg) (hon : t.mailboxOn al mem = true) :
    s.mailboxOn = true := by
  rw [Esc.mailboxOn, h.make, h.al, h.mem]
  exact hon

theorem behind_ne {offset ado : UInt16} (h : 0x1000 ≤ offset) (hado : ado < 0x1000) : offset ≠ ado := by
  rintro rfl
  exact absurd hado (UInt16.not_lt.mpr h)

end Transfer

end EcMaster
