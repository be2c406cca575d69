import EcMaster.Agenda
import EcMaster.Master

namespace EcMaster

open Library.Dialogue Library.Dialogue.Script Library.Segment

def SdoOp.outcome : SdoOp → List UInt8 → Outcome
  | .upload _ _, result => .sdoUploaded (result.take 4).length
  | .download _ _ _, _ => .sdoDownloaded

def sdoTransfer (slaves : List SlaveInfo) (slave : UInt16) (request : SdoOp) : Procedure Outcome :=
  match slaves[slave.toNat]? with
  | none => .fail .noSuchSlave
  | some s => (request.build s.mailbox).script.map request.outcome

namespace Op

variable (B : Bus)

def script (slaves : List SlaveInfo) : Op → Procedure Outcome
  | .rescan fsm => (ScanFsm.rescanScript (fsm, slaves)).map fun slaves => .rescanned slaves.length
  | .state pre => pre.script.map fun _ => .stateReached pre.target
  | .sdo slave pre none request => pre.script.bind fun _ => sdoTransfer slaves slave request
  | .sdo _ _ (some coe) request => coe.script.map request.outcome
  | .startCyclic seq _ => (seq.script B slaves).map fun _ => .cyclicStarted
  | .stopCyclic down => down.script.map fun _ => .cyclicStopped

def left : Op → ℕ
  | .rescan fsm => fsm.left
  | .state pre => pre.left
  | .sdo _ pre none _ => pre.left
  | .sdo _ _ (some coe) _ => coe.left
  | .startCyclic seq _ => seq.left
  | .stopCyclic down => down.left

def Good : Op → Prop
  | .rescan fsm => fsm.completed = none
  | .startCyclic seq _ => seq.Tidy
  | _ => True

def Follows : Op → Op → Prop
  | .rescan _, .rescan _ => True
  | .state pre, .state pre' => pre'.station = pre.station ∧ pre'.target = pre.target
  | .sdo slave pre _ request, .sdo slave' pre' _ request' =>
    slave' = slave ∧ (pre'.station = pre.station ∧ pre'.target = pre.target) ∧ request' = request
  | .startCyclic _ cycleNs, .startCyclic _ cycleNs' => cycleNs' = cycleNs
  | .stopCyclic down, .stopCyclic down' => down'.stations = down.stations
  | _, _ => False

end Op

theorem sdoTransfer_updateState (slaves : List SlaveInfo) (station : UInt16) (target : UInt8) (slave : UInt16)
    (request : SdoOp) : sdoTransfer (updateState slaves station target) slave request = sdoTransfer slaves slave request := by
  rw [sdoTransfer, sdoTransfer, updateState, List.getElem?_map]
  cases slaves[slave.toNat]? with
  | none => rfl
  | some s =>
    rw [Option.map_some]
    by_cases h : s.stationAddr = station
    · rw [if_pos h]
      rfl
    · rw [if_neg h]

namespace Master

variable {B : Bus}

def Driven.pos (r : Driven B) : Procedure Outcome × ℕ :=
  match r.1 with
  | .error e => (.fail e, Exchange.fresh)
  | .ok (.inl outcome) => (.done outcome, Exchange.fresh)
  | .ok (.inr op) => (op.script B r.2.1.slaves, op.left)

theorem drive_turns (m : Master B) {op : Op} (h : op.Good) (k : Link) :
    Turns (op.script B m.slaves, op.left) k (Driven.pos (m.drive op k)) (m.drive op k).2.2 := by
  rcases op with fsm | pre | ⟨slave, pre, _ | coe, request⟩ | ⟨seq, cycleNs⟩ | down
  case rescan =>
    have ht := (ScanFsm.rescan_plays (fsm, m.slaves) k h).turns.bind fun slaves => .done (Outcome.rescanned slaves.length)
    rw [drive]
    rcases hr : ScanFsm.rescanStep (fsm, m.slaves) k with ⟨_ | ⟨_ | _, fsm', slaves⟩, k'⟩
    all_goals
      rw [hr] at ht
      exact ht
  case state =>
    have ht := (PreOp.step_turns pre k).bind fun _ => .done (Outcome.stateReached pre.target)
    rw [drive]
    rcases hr : pre.step k with ⟨_ | ⟨_ | _, pre'⟩, k'⟩
    all_goals rw [hr] at ht
    · exact ht
    · obtain ⟨-, htarget⟩ := PreOp.step_same (congrArg Prod.fst hr)
      rw [← htarget] at ht
      rw [Op.script, ← htarget]
      exact ht
    · obtain ⟨-, htarget⟩ := PreOp.step_same (congrArg Prod.fst hr)
      rw [← htarget] at ht
      rw [Op.script, ← htarget]
      exact ht
  case sdo.none =>
    have ht := (PreOp.step_turns pre k).bind fun _ => sdoTransfer m.slaves slave request
    rw [drive]
    rcases hr : pre.step k with ⟨_ | ⟨_ | _, pre'⟩, k'⟩
    all_goals rw [hr] at ht
    · exact ht
    · exact ht
    · have hnext : Turns (Op.script B m.slaves (.sdo slave pre none request), pre.left) k
          (sdoTransfer (updateState m.slaves pre'.station pre'.target) slave request, Exchange.fresh) k' := by
        rw [sdoTransfer_updateState]
        exact ht
      dsimp only
      cases hs : (updateState m.slaves pre'.station pre'.target)[slave.toNat]? with
      | none =>
        rw [sdoTransfer, hs] at hnext
        exact hnext
      | some s =>
        rw [sdoTransfer, hs] at hnext
        exact hnext.patience (Exchange.left_le _)
  case sdo.some =>
    have ht := (FsmCoe.step_turns coe k).bind fun result => .done (request.outcome result)
    rw [drive]
    rcases hr : coe.step k with ⟨_ | ⟨_ | _, coe'⟩, k'⟩
    all_goals rw [hr] at ht
    · exact ht
    · exact ht
    · cases request with
      | upload => exact ht
      | download => exact ht
  case startCyclic =>
    have hp : seq.Plays B m.slaves k (seq.step B m.slaves k) := seq.plays_step k h
    have ht := hp.turns.bind fun _ => .done Outcome.cyclicStarted
    rw [drive]
    rcases hr : seq.step B m.slaves k with ⟨_ | ⟨_ | _, seq'⟩, k'⟩
    all_goals
      rw [hr] at ht
      exact ht
  case stopCyclic =>
    have ht := (DownSeq.step_turns down k).bind fun _ => .done Outcome.cyclicStopped
    rw [drive]
    rcases hr : down.step k with ⟨⟨_ | _, reached, down'⟩, k'⟩
    all_goals
      rw [hr] at ht
      exact ht

theorem drive_follows (m : Master B) {op op' : Op} {k : Link} (hr : (m.drive op k).1 = .ok (.inr op')) :
    op.Follows op' := by
  rcases op with fsm | pre | ⟨slave, pre, _ | coe, request⟩ | ⟨seq, cycleNs⟩ | down
  all_goals rw [drive] at hr
  case rescan =>
    rcases hs : ScanFsm.rescanStep (fsm, m.slaves) k with ⟨_ | ⟨_ | _, fsm', slaves⟩, k'⟩
    all_goals
      rw [hs] at hr
      cases hr
    trivial
  case state =>
    rcases hs : pre.step k with ⟨_ | ⟨_ | _, pre'⟩, k'⟩
    all_goals
      rw [hs] at hr
      cases hr
    exact PreOp.step_same (congrArg Prod.fst hs)
  case sdo.none =>
    rcases hs : pre.step k with ⟨_ | ⟨_ | _, pre'⟩, k'⟩
    all_goals rw [hs] at hr
    · cases hr
    · cases hr
      exact ⟨rfl, PreOp.step_same (congrArg Prod.fst hs), rfl⟩
    · dsimp only at hr
      cases hu : (updateState m.slaves pre'.station pre'.target)[slave.toNat]? with
      | none =>
        rw [hu] at hr
        cases hr
      | some s =>
        rw [hu] at hr
        cases hr
        exact ⟨rfl, PreOp.step_same (congrArg Prod.fst hs), rfl⟩
  case sdo.some =>
    rcases hs : coe.step k with ⟨_ | ⟨_ | _, coe'⟩, k'⟩
    all_goals rw [hs] at hr
    · cases hr
    · cases hr
      exact ⟨rfl, ⟨rfl, rfl⟩, rfl⟩
    · cases request with
      | upload => cases hr
      | download => cases hr
  case startCyclic =>
    rcases hs : seq.step B m.slaves k with ⟨_ | ⟨_ | _, seq'⟩, k'⟩
    all_goals
      rw [hs] at hr
      cases hr
    rfl
  case stopCyclic =>
    rcases hs : down.step k with ⟨⟨_ | _, reached, down'⟩, k'⟩
    all_goals
      rw [hs] at hr
      cases hr
    exact DownSeq.step_stations (congrArg Prod.fst hs)

theorem drive_good (m : Master B) {op op' : Op} (h : op.Good) (k : Link) (hr : (m.drive op k).1 = .ok (.inr op')) :
    op'.Good := by
  rcases op with fsm | pre | ⟨slave, pre, _ | coe, request⟩ | ⟨seq, cycleNs⟩ | down
  case rescan =>
    have hk := (ScanFsm.rescan_plays (fsm, m.slaves) k h).keeps
    rw [drive] at hr
    rcases hs : ScanFsm.rescanStep (fsm, m.slaves) k with ⟨_ | ⟨_ | _, fsm', slaves⟩, k'⟩
    all_goals rw [hs] at hr hk
    · exact absurd hr (by simp)
    · obtain rfl := Sum.inr.inj (Except.ok.inj hr)
      exact hk _ rfl
    · exact absurd hr (by simp)
  case startCyclic =>
    have hp : seq.Plays B m.slaves k (seq.step B m.slaves k) := seq.plays_step k h
    have hk := hp.keeps
    rw [drive] at hr
    rcases hs : seq.step B m.slaves k with ⟨_ | ⟨_ | _, seq'⟩, k'⟩
    all_goals rw [hs] at hr hk
    · exact absurd hr (by simp)
    · obtain rfl := Sum.inr.inj (Except.ok.inj hr)
      exact hk _ rfl
    · exact absurd hr (by simp)
  all_goals
    have hf := m.drive_follows hr
    cases op' with
    | rescan => exact hf.elim
    | startCyclic => exact hf.elim
    | _ => trivial

def pos (m : Master B) : Procedure Outcome × ℕ :=
  m.op.elim (.done .cyclicStopped, 0) fun op => (op.script B m.slaves, op.left)

def polled (r : Option (Except EcError Outcome)) (m : Master B) : Procedure Outcome × ℕ :=
  match r with
  | some (.error e) => (.fail e, Exchange.fresh)
  | some (.ok outcome) => (.done outcome, Exchange.fresh)
  | none => m.pos

def Active (m : Master B) : Prop := ∃ op, m.op = some op ∧ op.Good

theorem pollOp_turns {m : Master B} (h : m.Active) (dev : Device) :
    (∃ lines, (m.pollOp dev).2.1.log = m.log ++ lines ∧
        Move m.pos lines (polled (m.pollOp dev).1 (m.pollOp dev).2.1)) ∧
      ((m.pollOp dev).1 = none → (m.pollOp dev).2.1.Active) := by
  obtain ⟨op, hop, hgood⟩ := h
  have ht := drive_turns { m with op := none } hgood ⟨dev, m.index, m.log⟩
  have hg (op' : Op) (h : (drive { m with op := none } op ⟨dev, m.index, m.log⟩).1 = .ok (.inr op')) : op'.Good :=
    drive_good { m with op := none } hgood _ h
  have hpos : m.pos = (op.script B m.slaves, op.left) := by rw [pos, hop]; rfl
  rw [pollOp, hop, hpos]
  dsimp only
  rcases hr : drive { m with op := none } op ⟨dev, m.index, m.log⟩ with ⟨e | outcome | op', m', k⟩
  all_goals rw [hr] at ht hg
  · exact ⟨ht, fun h => absurd h (by simp [settle])⟩
  · exact ⟨ht, fun h => absurd h (by simp [settle])⟩
  · exact ⟨ht, fun _ => ⟨op', rfl, hg op' rfl⟩⟩

def ticked (m : Master B) (es : List (PitTick B.layout)) : Master B := es.foldl tick m

def continued (m : Master B) (e : List (PitTick B.layout) × Device) : Option (Master B) :=
  match (m.ticked e.1).pollOp e.2 with
  | (none, m, _) => some m
  | (some _, _, _) => none

/-- The calls of `poll_op` come to their end, with this result. -/
def Ends (m : Master B) (es : ℕ → List (PitTick B.layout) × Device) (r : Except EcError Outcome) (m' : Master B) : Prop :=
  ∃ n s dev, playing continued m es n = some s ∧ (s.ticked (es n).1).pollOp (es n).2 = (some r, m', dev)

structure SameOp (m m' : Master B) : Prop where
  slaves : m'.slaves = m.slaves
  op : m'.op = m.op
  log : m'.log = m.log

theorem tick_same (m : Master B) (e : PitTick B.layout) : SameOp m (m.tick e) := by
  rw [tick]
  cases m.cyclic with
  | none => exact ⟨rfl, rfl, rfl⟩
  | some c =>
    cases e.host with
    | none => exact ⟨rfl, rfl, rfl⟩
    | some host => exact ⟨rfl, rfl, rfl⟩

theorem ticked_same (m : Master B) (es : List (PitTick B.layout)) : SameOp m (m.ticked es) := by
  induction es generalizing m with
  | nil => exact ⟨rfl, rfl, rfl⟩
  | cons e es ih =>
    have h := m.tick_same e
    have h' := ih (m.tick e)
    exact ⟨h'.slaves.trans h.slaves, h'.op.trans h.op, h'.log.trans h.log⟩

theorem SameOp.pos {m m' : Master B} (h : SameOp m m') : m'.pos = m.pos := by
  rw [Master.pos, h.op, h.slaves]
  rfl

theorem SameOp.active {m m' : Master B} (h : SameOp m m') (ha : m.Active) : m'.Active := by
  rw [Active, h.op]
  exact ha

theorem continued_turns {m m' : Master B} {e : List (PitTick B.layout) × Device} (ha : m.Active)
    (h : m.continued e = some m') : m'.Active ∧ ∃ lines, m'.log = m.log ++ lines ∧ Move m.pos lines m'.pos := by
  have hs := m.ticked_same e.1
  obtain ⟨ht, hg⟩ := pollOp_turns (hs.active ha) e.2
  rw [hs.pos, hs.log] at ht
  rw [continued] at h
  rcases hr : (m.ticked e.1).pollOp e.2 with ⟨_ | r, m'', dev⟩
  all_goals rw [hr] at h ht hg
  · obtain rfl := Option.some.inj h
    exact ⟨hg rfl, ht⟩
  · exact absurd h (by simp)

theorem active_ends {m : Master B} (ha : m.Active) (es : ℕ → List (PitTick B.layout) × Device) :
    ∃ r m', Ends m es r m' := by
  have hturn (s : Master B) (e : List (PitTick B.layout) × Device) (s' : Master B) (hs : s.Active)
      (h : s.continued e = some s') : s'.Active ∧ Turn s'.pos s.pos := by
    obtain ⟨ha', lines, -, hm⟩ := continued_turns hs h
    exact ⟨ha', lines, hm⟩
  obtain ⟨n, hn⟩ := playing_ends pos hturn ha es
  obtain ⟨n, s, hs, hend⟩ := playing_last hn
  rw [continued] at hend
  rcases hr : (s.ticked (es n).1).pollOp (es n).2 with ⟨_ | r, m', dev⟩
  all_goals rw [hr] at hend
  · exact absurd hend (by simp)
  · exact ⟨r, m', n, s, dev, hs, hr⟩

theorem Ends.reaches {m m' : Master B} (ha : m.Active) {es : ℕ → List (PitTick B.layout) × Device}
    {r : Except EcError Outcome} (h : Ends m es r m') :
    ∃ lines, m'.log = m.log ++ lines ∧ m.pos.1.Reaches lines (polled (some r) m').1 := by
  obtain ⟨n, s, dev, hs, hr⟩ := h
  obtain ⟨hactive, lines, hlog, hreach⟩ := playing_reaches pos log (fun s e s' hs h => continued_turns hs h) ha hs
  have hsame := s.ticked_same (es n).1
  obtain ⟨⟨lines', hlog', hm⟩, -⟩ := pollOp_turns (hsame.active hactive) (es n).2
  rw [hr] at hlog' hm
  rw [hsame.log, hlog, List.append_assoc] at hlog'
  rw [hsame.pos] at hm
  exact ⟨lines ++ lines', hlog', hreach.trans hm.reaches⟩

theorem begin_active {m m' : Master B} {request : Request} (h : m.begin request = (.ok (), m')) : m'.Active := by
  rw [begin] at h
  cases hp : m.prepare request with
  | error e =>
    rw [hp] at h
    exact absurd h (by simp)
  | ok op =>
    rw [hp] at h
    obtain ⟨-, rfl⟩ := Prod.mk.inj h
    refine ⟨op, rfl, ?_⟩
    cases request with
    | rescan =>
      obtain rfl := Except.ok.inj hp
      rfl
    | startCyclic cycleNs =>
      rw [prepare] at hp
      split_ifs at hp
      obtain rfl := Except.ok.inj hp
      exact fun fsm hf => absurd hf (by simp [ConfigSeq.new])
    | stopCyclic =>
      obtain rfl := Except.ok.inj hp
      trivial
    | _ =>
      rw [prepare] at hp
      repeat' split at hp
      all_goals cases hp
      all_goals trivial

end Master

def downRequest (line : List Access × Except EcError (List UInt8)) : Option UInt16 :=
  match line.1 with
  | [⟨.fpwr, station, ado, payload⟩] => if ado = regAlControl ∧ payload = [alStatePreop, 0] then some station else none
  | _ => none

def downRequests (log : Exchanged) : List UInt16 := log.filterMap downRequest

theorem asks_replied {P : List Access → Prop} {α : Type} {hear : Reply → Procedure α} (h : ∀ reply, (hear reply).Asks P)
    (rx : List UInt8) : (replied hear rx).Asks P := by
  rw [replied]
  cases parse rx with
  | none => trivial
  | some reply => exact h reply

theorem asks_exchange {P : List Access → Prop} {α : Type} {request : List Access} {hear : Reply → Procedure α}
    (h : P request) (hs : ∀ reply, (hear reply).Asks P) : (exchange request (replied hear)).Asks P := by
  refine ⟨h, fun o => ?_⟩
  cases o with
  | error e => trivial
  | ok rx => exact asks_replied hs rx

theorem asks_fail {P : List Access → Prop} {α : Type} (e : EcError) : (fail e : Procedure α).Asks P := trivial

theorem asks_confirmed {P : List Access → Prop} {α : Type} {next : Procedure α} (h : next.Asks P) (reply : Reply) :
    (confirmed next reply).Asks P := by
  rw [confirmed]
  split
  · trivial
  · exact h

def Awaits (station : UInt16) (target : UInt8) (request : List Access) : Prop :=
  request = [⟨.fprd, station, regAlStatus, [0, 0]⟩] ∨ request = [⟨.fprd, station, regAlStatusCode, [0, 0]⟩] ∨
    request = [⟨.fpwr, station, regAlControl, [target ||| alStateAckError, 0]⟩]

theorem asks_awaitState {station : UInt16} {target : UInt8} {onError : Procedure Unit}
    (h : onError.Asks (Awaits station target)) (n : ℕ) :
    (awaitState station target onError n).Asks (Awaits station target) := by
  have hheard {again : Procedure Unit} (ha : again.Asks (Awaits station target)) (reply : Reply) :
      (heardStatus target onError again reply).Asks (Awaits station target) := by
    refine asks_confirmed ?_ reply
    split_ifs
    · exact h
    · trivial
    · exact ha
  induction n with
  | zero => exact asks_exchange (Or.inl rfl) (hheard trivial)
  | succ n ih => exact asks_exchange (Or.inl rfl) (hheard ih)

theorem asks_acknowledge (station : UInt16) (target : UInt8) : (acknowledge station target).Asks (Awaits station target) :=
  have hcode : (readCode station).Asks (Awaits station target) :=
    asks_exchange (Or.inr (Or.inl rfl)) fun _ => asks_fail _
  asks_exchange (Or.inr (Or.inr rfl)) (asks_confirmed (asks_awaitState hcode _))

theorem changeState_requests {station : UInt16} {target : UInt8} {log : Exchanged} {r : Except EcError Unit}
    (h : (changeState station target).attempt.Returns log r) :
    ∃ o rest, log = ([⟨.fpwr, station, regAlControl, [target, 0]⟩], o) :: rest ∧ ∀ x ∈ rest, Awaits station target x.1 := by
  obtain ⟨o, rest, rfl, hr⟩ := returns_ask.mp h
  refine ⟨o, rest, rfl, ?_⟩
  cases o with
  | error e =>
    obtain ⟨rfl, -⟩ := returns_done.mp hr
    exact fun x hx => absurd hx List.not_mem_nil
  | ok rx =>
    have hasks := asks_replied (asks_confirmed (asks_awaitState (asks_acknowledge station target) (maxStateWaits - 1))) rx
    exact (hasks.attempt.reaches hr).1

theorem downRequests_change {station : UInt16} {log : Exchanged} {r : Except EcError Unit}
    (h : (changeState station alStatePreop).attempt.Returns log r) : downRequests log = [station] := by
  obtain ⟨o, rest, rfl, hrest⟩ := changeState_requests h
  have hnil : downRequests rest = [] := by
    refine List.filterMap_eq_nil_iff.mpr fun x hx => ?_
    rw [downRequest]
    rcases hrest x hx with h | h | h
    · rw [h]
    · rw [h]
    · rw [h]
      exact if_neg (by decide)
  rw [downRequests, List.filterMap_cons]
  exact congrArg (station :: ·) hnil

theorem downRequests_allDown {stations : List UInt16} {log : Exchanged} (h : (allDown stations).Returns log ()) :
    downRequests log = stations := by
  induction stations generalizing log with
  | nil =>
    obtain ⟨rfl, -⟩ := returns_done.mp h
    rfl
  | cons station stations ih =>
    obtain ⟨l, l', r, rfl, hl, hl'⟩ := returns_bind.mp h
    rw [downRequests, List.filterMap_append]
    exact congrArg₂ (· ++ ·) (downRequests_change hl) (ih hl')

theorem DownSeq.returns_new {stations : List UInt16} {log : Exchanged} (h : (new stations).script.Returns log ()) :
    (allDown stations).Returns log () := by
  cases stations with
  | nil => exact returns_skip.mp h
  | cons station stations => rwa [script_next rfl (Nat.succ_pos _)] at h

namespace Master

variable {B : Bus}

theorem polled_stop {m : Master B} {down : DownSeq} (h : m.op = some (.stopCyclic down)) {dev : Device}
    {r : Except EcError Outcome} (hr : (m.pollOp dev).1 = some r) :
    r = .ok .cyclicStopped ∧ (m.pollOp dev).2.1.cyclic = none := by
  rw [pollOp, h] at hr ⊢
  dsimp only at hr ⊢
  rw [drive] at hr ⊢
  rcases hs : down.step ⟨dev, m.index, m.log⟩ with ⟨⟨_ | _, reached, down'⟩, k⟩
  all_goals rw [hs] at hr
  · exact absurd hr (by simp [settle])
  · obtain rfl := Option.some.inj hr
    exact ⟨rfl, rfl⟩

theorem pollOp_follows {m : Master B} {op : Op} (h : m.op = some op) {dev : Device} (hr : (m.pollOp dev).1 = none) :
    ∃ op', (m.pollOp dev).2.1.op = some op' ∧ op.Follows op' := by
  rw [pollOp, h] at hr ⊢
  dsimp only at hr ⊢
  rcases hd : drive { m with op := none } op ⟨dev, m.index, m.log⟩ with ⟨e | outcome | op', m', k⟩
  all_goals rw [hd] at hr
  · exact absurd hr (by simp [settle])
  · exact absurd hr (by simp [settle])
  · exact ⟨op', rfl, drive_follows _ (congrArg Prod.fst hd)⟩

theorem Ends.stop {m m' : Master B} (h : ∃ down, m.op = some (.stopCyclic down))
    {es : ℕ → List (PitTick B.layout) × Device} {r : Except EcError Outcome} (he : Ends m es r m') :
    r = .ok .cyclicStopped ∧ m'.cyclic = none := by
  obtain ⟨n, s, dev, hs, hr⟩ := he
  have hkeep (s : Master B) (e : List (PitTick B.layout) × Device) (s' : Master B)
      (hs : ∃ down, s.op = some (.stopCyclic down)) (hc : s.continued e = some s') :
      ∃ down, s'.op = some (.stopCyclic down) := by
    obtain ⟨down, hop⟩ := hs
    rw [continued] at hc
    rcases hp : (s.ticked e.1).pollOp e.2 with ⟨_ | r, m'', dev⟩
    all_goals rw [hp] at hc
    · obtain rfl := Option.some.inj hc
      obtain ⟨op', hop', hf⟩ := pollOp_follows ((s.ticked_same e.1).op.trans hop) (congrArg Prod.fst hp)
      rw [hp] at hop'
      cases op' with
      | stopCyclic down' => exact ⟨down', hop'⟩
      | _ => exact hf.elim
    · exact absurd hc (by simp)
  obtain ⟨down, hop⟩ := playing_keeps hkeep h hs
  have hend := polled_stop ((s.ticked_same (es n).1).op.trans hop) (congrArg Prod.fst hr)
  rw [hr] at hend
  exact hend

/-- A stop is over: the engine is gone, and each of the stations has been asked to go to PRE-OP, in this order. -/
structure Stopped (stations : List UInt16) (m : Master B) (r : Except EcError Outcome) (m' : Master B) : Prop where
  stopped : r = .ok .cyclicStopped
  dropped : m'.cyclic = none
  asked : ∃ lines, m'.log = m.log ++ lines ∧ downRequests lines = stations

theorem Stopped.stations_eq {stations stations' : List UInt16} {m m' : Master B} {r : Except EcError Outcome}
    (h : Stopped stations m r m') (h' : Stopped stations' m r m') : stations = stations' := by
  obtain ⟨lines, hlog, rfl⟩ := h.asked
  obtain ⟨lines', hlog', rfl⟩ := h'.asked
  rw [List.append_cancel_left (hlog.symm.trans hlog')]

theorem stopped_of_ends {m m' m'' : Master B} (h : m.begin .stopCyclic = (.ok (), m'))
    {es : ℕ → List (PitTick B.layout) × Device} {r : Except EcError Outcome} (he : Ends m' es r m'') :
    Stopped (m.cyclic.elim [] Cyclic.slaveStations) m' r m'' := by
  obtain ⟨lines, hlog, hreach⟩ := he.reaches (begin_active h)
  obtain ⟨-, rfl⟩ := Prod.mk.inj h
  obtain ⟨rfl, hdropped⟩ := he.stop ⟨_, rfl⟩
  refine ⟨rfl, hdropped, lines, hlog, ?_⟩
  obtain ⟨_, hdown, -⟩ := returns_map.mp hreach
  exact downRequests_allDown (DownSeq.returns_new hdown)

def ringStations (m : Master B) : List UInt16 :=
  m.cyclic.elim [] fun c => (c.slaves.insertionSort fun a b => a.ringPos ≤ b.ringPos).map SlaveRt.station

theorem ringStations_eq {m : Master B} {c : Cyclic B.layout} (hc : m.cyclic = some c)
    (h : c.slaves.Pairwise fun a b => a.ringPos ≤ b.ringPos) : m.ringStations = c.slaveStations := by
  rw [ringStations, hc]
  exact congrArg (List.map _) h.insertionSort_eq

/-- Every operation ends, and a stop does what it is there for in ring order if the engine has its slaves so. -/
theorem requests_end_iff {m m' : Master B} {request : Request} (h : m.begin request = (.ok (), m')) :
    (∀ es, ∃ r m'', Ends m' es r m'' ∧ (request = .stopCyclic → Stopped m.ringStations m' r m'')) ↔
      (request = .stopCyclic → m.cyclic.elim [] Cyclic.slaveStations = m.ringStations) := by
  constructor
  · rintro hall rfl
    obtain ⟨r, m'', he, hs⟩ := hall fun _ => ([], Device.receiving [])
    exact (stopped_of_ends h he).stations_eq (hs rfl)
  · intro hring es
    obtain ⟨r, m'', he⟩ := active_ends (begin_active h) es
    refine ⟨r, m'', he, ?_⟩
    rintro rfl
    rw [← hring rfl]
    exact stopped_of_ends h he

end Master

def Bus.plain (slaves : List SlaveSetup) : Bus where
  layout := ⟨⟨0, slaves.map SlaveSetup.toSlaveCfg, [], 0⟩, 0, 0, []⟩
  cycleNs := 1000000
  slaves := slaves
  same := rfl

namespace Master

def running (slaves : List CyclicSlave) :
    Master (.plain (slaves.map fun s => { valuesSlave 0 with position := s.ringPos.toNat })) :=
  ⟨[], 0, none, [], some (.new _ slaves 0 1000000), []⟩

theorem requests_end_iff_two :
    (∀ es, ∃ r m'', Ends ((running [⟨1, 0⟩, ⟨2, 1⟩]).begin .stopCyclic).2 es r m'' ∧
        (Request.stopCyclic = .stopCyclic → Stopped (running [⟨1, 0⟩, ⟨2, 1⟩]).ringStations
          ((running [⟨1, 0⟩, ⟨2, 1⟩]).begin .stopCyclic).2 r m'')) ↔
      (Request.stopCyclic = .stopCyclic → [1, 2] = (running [⟨1, 0⟩, ⟨2, 1⟩]).ringStations) :=
  requests_end_iff rfl

theorem stop_out_of_order : ∃ m', (running [⟨2, 1⟩, ⟨1, 0⟩]).begin .stopCyclic = (.ok (), m') ∧
    ∀ es r m'', Ends m' es r m'' → ¬Stopped (running [⟨2, 1⟩, ⟨1, 0⟩]).ringStations m' r m'' := by
  refine ⟨_, rfl, fun es r m'' he hs => ?_⟩
  have heq := (stopped_of_ends rfl he).stations_eq hs
  exact absurd heq (by decide)

end Master

end EcMaster
