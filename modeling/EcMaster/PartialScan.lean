import EcMaster.ScanFsm

namespace EcMaster

open Library.Dialogue Library.Dialogue.Script Library.Segment

def completeFrom (count : UInt16) : ℕ → UInt16 → Exchanged → List SlaveInfo
  | 0, ringPos, log =>
    match (scanSlave (.done []) (Cur.start ringPos)).consume log with
    | none => []
    | some (found, _) => found
  | n + 1, ringPos, log =>
    match (scanSlave (.done []) (Cur.start ringPos)).consume log with
    | none => []
    | some (found, log) => found ++ if ringPos + 1 < count then completeFrom count n (ringPos + 1) log else []

/-- The slaves that are complete after these exchanges of a scan. -/
def completeSlaves : Exchanged → List SlaveInfo
  | (_, .ok rx) :: log =>
    match parse rx, log with
    | some reply, _ :: log =>
      if reply.workingCounter = 0 then [] else completeFrom reply.workingCounter (ecMaxSlaves - 1) 0 log
    | _, _ => []
  | _ => []

def completeBehind (count ringPos : UInt16) (log : Exchanged) : List SlaveInfo :=
  if ringPos + 1 < count ∧ (ringPos + 1).toNat < ecMaxSlaves then
    completeFrom count (ecMaxSlaves - 1 - (ringPos + 1).toNat) (ringPos + 1) log
  else []

theorem completeFrom_eq (count : UInt16) {ringPos : UInt16} (h : ringPos.toNat < ecMaxSlaves) (log : Exchanged) :
    completeFrom count (ecMaxSlaves - 1 - ringPos.toNat) ringPos log =
      match (scanSlave (.done []) (Cur.start ringPos)).consume log with
      | none => []
      | some (found, log) => found ++ completeBehind count ringPos log := by
  have hn : (ringPos + 1).toNat = ringPos.toNat + 1 := by
    rw [UInt16.toNat_add]
    change (ringPos.toNat + 1) % 65536 = _
    exact Nat.mod_eq_of_lt (by simp only [ecMaxSlaves] at h; omega)
  by_cases hlast : ringPos.toNat + 1 < ecMaxSlaves
  · have he : ecMaxSlaves - 1 - ringPos.toNat = (ecMaxSlaves - 1 - (ringPos.toNat + 1)) + 1 := by omega
    rw [he, completeFrom]
    cases (scanSlave (.done []) (Cur.start ringPos)).consume log with
    | none => rfl
    | some p => simp only [completeBehind, hn, hlast, and_true]
  · have he : ecMaxSlaves - 1 - ringPos.toNat = 0 := by omega
    rw [he, completeFrom]
    cases (scanSlave (.done []) (Cur.start ringPos)).consume log with
    | none => rfl
    | some p => simp only [completeBehind, hn, hlast, and_false, if_false, List.append_nil]

namespace ScanFsm

def slaveScript (s : ScanFsm) : Procedure (List SlaveInfo) :=
  match s.completed with
  | some info => .done [info]
  | none =>
    match s.stage with
    | .apwr => s.x.resume (scanSlave (.done []) s.cur)
    | .al => s.x.resume (readAl (.done []) s.cur)
    | .dl => s.x.resume (readDl (.done []) s.cur)
    | .sii field => (s.sii.script s.cur.station).bind (afterField (.done []) s.cur field)
    | .count | .clear | .done => .done []

abbrev slavePos : Except EcError (Bool × ScanFsm) → Procedure (List SlaveInfo) × ℕ :=
  position slaveScript left fun s => s.completed.toList

def inSlave (s : ScanFsm) : Bool :=
  match s.stage with
  | .count | .clear | .done => false
  | _ => true

theorem slaveScript_idle {s : ScanFsm} (h : s.completed = none) (hx : s.x = .idle) : (slavePos (.ok (false, s))).1 =
    match s.stage with
    | .apwr => scanSlave (.done []) s.cur
    | .al => readAl (.done []) s.cur
    | .dl => readDl (.done []) s.cur
    | .sii field => (s.sii.script s.cur.station).bind (afterField (.done []) s.cur field)
    | .count | .clear | .done => .done [] := by
  change s.slaveScript = _
  rw [slaveScript, h]
  dsimp only
  rw [hx]
  split <;> simp only [Exchange.resume_idle]

theorem slaveScript_finishSlave (s : ScanFsm) (protocols : UInt16) :
    (s.finishSlave protocols).slaveScript = .done [s.cur.info protocols] := by
  rw [finishSlave]
  dsimp only
  split_ifs <;> rfl

theorem slaveScript_readNext {s : ScanFsm} (h : s.completed = none) (field : SiiField) :
    (s.readNext field).slaveScript = readField field (fun c => afterField (.done []) c field) s.cur := by
  rw [slaveScript]
  change (match s.completed with
    | some info => Script.done [info]
    | none => ((s.sii.reset (siiWord field)).script s.cur.station).bind (afterField (.done []) s.cur field)) = _
  rw [h, Sii.script_reset]
  rfl

theorem slaveScript_applySii {s : ScanFsm} (h : s.completed = none) (field : SiiField) (value : UInt32) :
    (s.applySii field value).slaveScript = afterField (.done []) s.cur field value := by
  cases field with
  | vendor => exact slaveScript_readNext (s := { s with cur := { s.cur with vendor := value } }) h .product
  | product => exact slaveScript_readNext (s := { s with cur := { s.cur with product := value } }) h .revision
  | revision => exact slaveScript_readNext (s := { s with cur := { s.cur with revision := value } }) h .rxMbox
  | rxMbox => exact slaveScript_readNext (s := { s with cur := { s.cur with rxMbox := value } }) h .txMbox
  | txMbox => exact slaveScript_readNext (s := { s with cur := { s.cur with txMbox := value } }) h .protocols
  | protocols => exact slaveScript_finishSlave s _

theorem slave_poll {s : ScanFsm} {request : Access} {hear : UInt16 → List UInt8 → Except EcError ScanFsm}
    (next : Reply → Procedure (List SlaveInfo))
    (hscript : ∀ y : Exchange, ({ s with x := y } : ScanFsm).slaveScript = y.resume (exchange [request] (replied next)))
    (hleft : ∀ y : Exchange, ({ s with x := y } : ScanFsm).left = y.left)
    (hhear : ∀ reply, (slavePos (match hear reply.workingCounter (reply.data.take 16) with
      | .error e => .error e
      | .ok s => .ok (false, { s with x := .idle }))).1 = next reply) (k : Link) :
    Turns (s.slaveScript, s.left) k (slavePos (s.poll request k hear).1) (s.poll request k hear).2 := by
  rw [show s.slaveScript = _ from hscript s.x, show s.left = _ from hleft s.x]
  exact Exchange.poll_turns hscript hleft (hear_onReply hhear)

theorem slave_turns {s : ScanFsm} (hc : s.completed = none) (ho : s.inSlave = true) (k : Link) :
    Turns (s.slaveScript, s.left) k (slavePos (s.step k).1) (s.step k).2 := by
  obtain ⟨stage, count, x, cur, sii, _⟩ := s
  obtain rfl : _ = none := hc
  cases stage with
  | count | clear | done => exact absurd ho Bool.false_ne_true
  | apwr =>
    refine slave_poll (confirmed (readAl (.done []) cur)) (fun y => rfl) (fun y => rfl) (fun reply => ?_) k
    rw [confirmed]
    split_ifs
    · rfl
    · exact slaveScript_idle rfl rfl
  | al =>
    refine slave_poll (fun reply => confirmed (readDl (.done [])
      { cur with al := (reply.data.take 16).headD 0 &&& alStateMask }) reply) (fun y => rfl) (fun y => rfl)
      (fun reply => ?_) k
    rw [confirmed]
    split_ifs
    · rfl
    · exact slaveScript_idle rfl rfl
  | dl =>
    refine slave_poll (fun reply => confirmed (readField .vendor (afterVendor (.done [])) { cur with
      baseType := (reply.data.take 16).headD 0
      baseFmmuCount := (reply.data.take 16).getD 4 0
      baseSyncCount := (reply.data.take 16).getD 5 0 }) reply) (fun y => rfl) (fun y => rfl) (fun reply => ?_) k
    rw [confirmed]
    split_ifs
    · rfl
    · exact slaveScript_readNext (s := ⟨.dl, count, .idle, _, sii, none⟩) rfl .vendor
  | sii field =>
    refine (Sii.fsm cur.station).nested_turns trivial (fun e => rfl) (fun sii => rfl) (fun sii => ⟨?_, left_le _⟩)
    exact slaveScript_applySii rfl field sii.value

def completes (s : ScanFsm) (log : Exchanged) : List SlaveInfo :=
  match s.stage with
  | .count => completeSlaves log
  | .clear =>
    match log with
    | [] => []
    | _ :: log => completeFrom s.count (ecMaxSlaves - 1) 0 log
  | .done => []
  | _ =>
    match s.slaveScript.consume log with
    | none => []
    | some (found, log) => found ++ completeBehind s.count s.cur.ringPos log

theorem completes_inSlave {s : ScanFsm} (h : s.inSlave = true) (log : Exchanged) : s.completes log =
    match s.slaveScript.consume log with
    | none => []
    | some (found, log) => found ++ completeBehind s.count s.cur.ringPos log := by
  obtain ⟨stage, count, x, cur, sii, completed⟩ := s
  cases stage with
  | count | clear | done => exact absurd h Bool.false_ne_true
  | apwr | al | dl | sii => rfl

theorem poll_cases (s : ScanFsm) (request : Access) (k : Link) (hear : UInt16 → List UInt8 → Except EcError ScanFsm) :
    (∃ e, (s.poll request k hear).1 = .error e) ∨
      (∃ y, (s.poll request k hear).1 = .ok (false, { s with x := y }) ∧ (s.poll request k hear).2.log = k.log) ∨
      ∃ asked rx reply, parse rx = some reply ∧ (s.poll request k hear).2.log = k.log ++ [(asked, .ok rx)] ∧
        (s.poll request k hear).1 = match hear reply.workingCounter (reply.data.take 16) with
          | .error e => .error e
          | .ok s => .ok (false, { s with x := .idle }) := by
  have hcases := s.x.drive_cases scanBuffers [request] k
  rw [poll, Exchange.step]
  rcases hd : s.x.drive scanBuffers [request] k with ⟨e | _ | rx, y, k'⟩
  all_goals rw [hd] at hcases
  · exact Or.inl ⟨e, rfl⟩
  · rcases hcases with ⟨e', he, -⟩ | ⟨rx, hrx, -⟩ | ⟨-, hlog, -⟩
    · cases he
    · cases hrx
    · exact Or.inr (Or.inl ⟨y, rfl, hlog⟩)
  · rcases hcases with ⟨e', he, -⟩ | ⟨rx', hrx, hlog⟩ | ⟨hn, -⟩
    · cases he
    · obtain rfl := Option.some.inj (Except.ok.inj hrx)
      dsimp only
      rw [onReply]
      cases hp : parse rx with
      | none => exact Or.inl ⟨_, rfl⟩
      | some reply => exact Or.inr (Or.inr ⟨_, rx, reply, hp, hlog, rfl⟩)
    · cases hn

def Proceeds (s : ScanFsm) : Except EcError (Bool × ScanFsm) → Prop
  | .error _ => True
  | .ok (b, s') => b = false ∧
      ((s'.completed = none ∧ s'.inSlave = true ∧ s'.count = s.count ∧ s'.cur.ringPos = s.cur.ringPos) ∨
        ∃ t : ScanFsm, ∃ protocols, t.count = s.count ∧ t.cur.ringPos = s.cur.ringPos ∧ s' = t.finishSlave protocols)

theorem proceeds_applySii {s : ScanFsm} (hc : s.completed = none) (field : SiiField) (value : UInt32) :
    s.Proceeds (.ok (false, s.applySii field value)) := by
  refine ⟨rfl, ?_⟩
  cases field with
  | protocols => exact Or.inr ⟨s, value.toUInt16, rfl, rfl, rfl⟩
  | vendor | product | revision | rxMbox | txMbox => exact Or.inl ⟨hc, rfl, rfl, rfl⟩

theorem slave_proceeds {s : ScanFsm} (hc : s.completed = none) (ho : s.inSlave = true) (k : Link) :
    s.Proceeds (s.step k).1 := by
  obtain ⟨stage, count, x, cur, sii, _⟩ := s
  obtain rfl : _ = none := hc
  have hpoll {s : ScanFsm} {request : Access} {hear : UInt16 → List UInt8 → Except EcError ScanFsm}
      (hs : s.completed = none) (ho : s.inSlave = true) (hh : ∀ wkc data t, hear wkc data = .ok t →
        t.completed = none ∧ t.inSlave = true ∧ t.count = s.count ∧ t.cur.ringPos = s.cur.ringPos) :
      s.Proceeds (s.poll request k hear).1 := by
    rcases s.poll_cases request k hear with ⟨e, he⟩ | ⟨y, hy, -⟩ | ⟨asked, rx, reply, -, -, hr⟩
    · rw [he]
      trivial
    · rw [hy]
      exact ⟨rfl, Or.inl ⟨hs, ho, rfl, rfl⟩⟩
    · rw [hr]
      cases hear' : hear reply.workingCounter (reply.data.take 16) with
      | error e => trivial
      | ok t => exact ⟨rfl, Or.inl (hh _ _ t hear')⟩
  cases stage with
  | count | clear | done => exact absurd ho Bool.false_ne_true
  | apwr =>
    refine hpoll rfl rfl fun wkc data t ht => ?_
    split_ifs at ht
    obtain rfl := Except.ok.inj ht
    exact ⟨rfl, rfl, rfl, rfl⟩
  | al =>
    refine hpoll rfl rfl fun wkc data t ht => ?_
    split_ifs at ht
    obtain rfl := Except.ok.inj ht
    exact ⟨rfl, rfl, rfl, rfl⟩
  | dl =>
    refine hpoll rfl rfl fun wkc data t ht => ?_
    split_ifs at ht
    obtain rfl := Except.ok.inj ht
    exact ⟨rfl, rfl, rfl, rfl⟩
  | sii field =>
    rw [step]
    dsimp only
    rw [nested]
    rcases sii.step cur.station k with ⟨e | ⟨_ | _, sii'⟩, k'⟩
    · trivial
    · exact ⟨rfl, Or.inl ⟨rfl, rfl, rfl, rfl⟩⟩
    · exact proceeds_applySii rfl field sii'.value

def taken (s : ScanFsm) : ScanFsm := { s with completed := none }

theorem completes_finishSlave (s : ScanFsm) (protocols : UInt16) (log : Exchanged) :
    (s.finishSlave protocols).taken.completes log = completeBehind s.count s.cur.ringPos log := by
  rw [completeBehind, finishSlave]
  dsimp only
  split_ifs with hgo
  · rw [completeFrom_eq s.count hgo.2, completes_inSlave rfl]
    change (match (Exchange.idle.resume (scanSlave (.done []) (Cur.start (s.cur.ringPos + 1)))).consume log with
      | none => []
      | some (found, log) => found ++ completeBehind s.count (s.cur.ringPos + 1) log) = _
    rw [Exchange.resume_idle]
  · rfl

def Stands (s : ScanFsm) (n : ℕ) : Prop :=
  match s.stage with
  | .count | .clear => n = 0
  | .done => n ≤ ecMaxSlaves
  | _ => s.cur.ringPos.toNat = n ∧ n < ecMaxSlaves

theorem stands_inSlave {s : ScanFsm} (h : s.inSlave = true) (n : ℕ) :
    s.Stands n ↔ s.cur.ringPos.toNat = n ∧ n < ecMaxSlaves := by
  obtain ⟨stage, count, x, cur, sii, completed⟩ := s
  cases stage with
  | count | clear | done => exact absurd h Bool.false_ne_true
  | apwr | al | dl | sii => exact Iff.rfl

structure Adds (s : ScanFsm) (n : ℕ) (k : Link) (s' : ScanFsm) (k' : Link) : Prop where
  lines : ∃ lines, k'.log = k.log ++ lines ∧
    ∀ log, s.completes (lines ++ log) = s'.completed.toList ++ s'.taken.completes log
  stands : s'.taken.Stands (n + s'.completed.toList.length)
  room : n + s'.completed.toList.length ≤ ecMaxSlaves

theorem stands_finishSlave {s : ScanFsm} {n : ℕ} (h : s.cur.ringPos.toNat = n ∧ n < ecMaxSlaves) (protocols : UInt16) :
    (s.finishSlave protocols).taken.Stands (n + 1) := by
  have hnext : (s.cur.ringPos + 1).toNat = n + 1 := by
    rw [UInt16.toNat_add, h.1]
    exact Nat.mod_eq_of_lt (lt_trans (Nat.succ_lt_succ h.2) (by decide))
  rw [finishSlave]
  dsimp only
  split_ifs with hgo
  · exact ⟨hnext, hnext ▸ hgo.2⟩
  · exact h.2

theorem adds_slave {s s' : ScanFsm} {n : ℕ} {k : Link} {b : Bool} (hc : s.completed = none) (ho : s.inSlave = true)
    (hn : s.Stands n) (h : (s.step k).1 = .ok (b, s')) : s.Adds n k s' (s.step k).2 := by
  obtain ⟨lines, hlog, hmove⟩ := slave_turns hc ho k
  have hp := slave_proceeds hc ho k
  rw [h] at hmove hp
  obtain ⟨rfl, hp⟩ := hp
  have hn' := (stands_inSlave ho n).mp hn
  have hcompletes (log : Exchanged) : s.completes (lines ++ log) =
      match s'.slaveScript.consume log with
      | none => []
      | some (found, log) => found ++ completeBehind s.count s.cur.ringPos log := by
    have hm : s.slaveScript.consume (lines ++ log) = s'.slaveScript.consume log := hmove.consume log
    rw [completes_inSlave ho, hm]
  rcases hp with ⟨hc', ho', hcount, hpos⟩ | ⟨t, protocols, hcount, hpos, rfl⟩
  · have ht : s'.taken = s' := by
      obtain ⟨stage, count, x, cur, sii, _⟩ := s'
      obtain rfl : _ = none := hc'
      rfl
    rw [← hpos] at hn'
    refine ⟨⟨lines, hlog, fun log => ?_⟩, ?_, ?_⟩
    · rw [hcompletes, ht, hc', completes_inSlave ho', hcount, hpos]
      rfl
    · rw [ht, hc']
      exact (stands_inSlave ho' _).mpr hn'
    · rw [hc']
      exact hn'.2.le
  · have hinfo : (t.finishSlave protocols).completed = some (t.cur.info protocols) := by
      rw [finishSlave]
      dsimp only
      split_ifs <;> rfl
    rw [← hpos] at hn'
    refine ⟨⟨lines, hlog, fun log => ?_⟩, ?_, ?_⟩
    · rw [hcompletes, slaveScript_finishSlave, hinfo, completes_finishSlave, ← hcount, ← hpos]
      rfl
    · rw [hinfo]
      exact stands_finishSlave hn' protocols
    · rw [hinfo]
      exact hn'.2

theorem adds_step {s s' : ScanFsm} {n : ℕ} {k : Link} {b : Bool} (hc : s.completed = none) (hn : s.Stands n)
    (h : (s.step k).1 = .ok (b, s')) : s.Adds n k s' (s.step k).2 := by
  by_cases ho : s.inSlave = true
  · exact adds_slave hc ho hn h
  obtain ⟨stage, count, x, cur, sii, _⟩ := s
  obtain rfl : _ = none := hc
  cases stage with
  | apwr | al | dl | sii => exact absurd rfl ho
  | count =>
    obtain rfl : n = 0 := hn
    rcases poll_cases _ _ k _ with ⟨e, he⟩ | ⟨y, hy, hlog⟩ | ⟨asked, rx, reply, hp, hlog, hr⟩
    · exact absurd (he.symm.trans h) nofun
    · obtain ⟨-, rfl⟩ := Prod.mk.inj (Except.ok.inj (hy.symm.trans h))
      exact ⟨⟨[], hlog.trans (List.append_nil _).symm, fun log => rfl⟩, rfl, Nat.zero_le _⟩
    · obtain ⟨-, rfl⟩ := Prod.mk.inj (Except.ok.inj (hr.symm.trans h))
      refine ⟨⟨_, hlog, fun log => ?_⟩, ?_, Nat.zero_le _⟩
      · rw [List.cons_append, List.nil_append]
        simp only [completes, completeSlaves, hp]
        by_cases hz : reply.workingCounter = 0
        · cases log with
          | nil => simp [hz, taken]
          | cons x log => simp [hz, taken]
        · cases log with
          | nil => simp [hz, taken]
          | cons x log => simp [hz, taken]
      · by_cases hz : reply.workingCounter = 0
        · simp [hz, taken, Stands]
        · simp [hz, taken, Stands]
  | clear =>
    obtain rfl : n = 0 := hn
    rcases poll_cases _ _ k _ with ⟨e, he⟩ | ⟨y, hy, hlog⟩ | ⟨asked, rx, reply, hp, hlog, hr⟩
    · exact absurd (he.symm.trans h) nofun
    · obtain ⟨-, rfl⟩ := Prod.mk.inj (Except.ok.inj (hy.symm.trans h))
      exact ⟨⟨[], hlog.trans (List.append_nil _).symm, fun log => rfl⟩, rfl, Nat.zero_le _⟩
    · obtain ⟨-, rfl⟩ := Prod.mk.inj (Except.ok.inj (hr.symm.trans h))
      refine ⟨⟨_, hlog, fun log => ?_⟩, ⟨rfl, Nat.zero_lt_succ _⟩, Nat.zero_le _⟩
      have heq := completeFrom_eq count (show (0 : UInt16).toNat < ecMaxSlaves by decide) log
      change completeFrom count (ecMaxSlaves - 1 - (0 : UInt16).toNat) 0 log = _
      rw [heq]
      change _ = (match (Exchange.idle.resume (scanSlave (.done []) (Cur.start 0))).consume log with
        | none => []
        | some (found, log) => found ++ completeBehind count 0 log)
      rw [Exchange.resume_idle]
  | done =>
    obtain ⟨-, rfl⟩ := Prod.mk.inj (Except.ok.inj h)
    exact ⟨⟨[], (List.append_nil _).symm, fun log => rfl⟩, hn, hn⟩

theorem completes_nil {s : ScanFsm} (hc : s.completed = none) : s.completes [] = [] := by
  obtain ⟨stage, count, x, cur, sii, _⟩ := s
  obtain rfl : _ = none := hc
  cases stage with
  | count | clear | done | apwr | al | dl => rfl
  | sii field =>
    obtain ⟨phase, word, polls, y, value⟩ := sii
    cases phase with
    | command => rfl
    | poll =>
      change (match (((y.resume (pollSii cur.station (siiMaxPolls - 1 - polls))).bind _).consume []) with
        | none => []
        | some (found, log) => found ++ completeBehind count cur.ringPos log) = []
      cases siiMaxPolls - 1 - polls with
      | zero => rfl
      | succ n => rfl

structure HandedOver (p : Rescan) (log : Exchanged) : Prop where
  completed : p.1.completed = none
  complete : ∀ rest, completeSlaves (log ++ rest) = p.2 ++ p.1.completes rest
  stands : p.1.Stands p.2.length

theorem handedOver_new : HandedOver (new, []) [] := ⟨rfl, fun _ => rfl, rfl⟩

theorem HandedOver.eq {p : Rescan} {log : Exchanged} (h : HandedOver p log) : completeSlaves log = p.2 := by
  have hc := h.complete []
  rwa [List.append_nil, completes_nil h.completed, List.append_nil] at hc

theorem foldl_drained {slaves : List SlaveInfo} {o : Option SlaveInfo} (h : slaves.length + o.toList.length ≤ ecMaxSlaves) :
    o.toList.foldl (pushWithin ecMaxSlaves) slaves = slaves ++ o.toList := by
  cases o with
  | none => exact (List.append_nil slaves).symm
  | some info => exact pushWithin_of_lt _ h

theorem HandedOver.step {p p' : Rescan} {log lines : Exchanged} {k : Link} {b : Bool} (h : HandedOver p log)
    (hr : (rescanStep p k).1 = .ok (b, p')) (hk : (rescanStep p k).2.log = k.log ++ lines) :
    HandedOver p' (log ++ lines) := by
  obtain ⟨s, slaves⟩ := p
  have hstep : ∃ s', (s.step k).1 = .ok (b, s') ∧ p' = s'.drained slaves := by
    rw [rescanStep, nested] at hr
    rcases hs : s.step k with ⟨e | ⟨_ | _, s'⟩, k'⟩
    all_goals rw [hs] at hr
    · cases hr
    · obtain ⟨rfl, rfl⟩ := Prod.mk.inj (Except.ok.inj hr)
      exact ⟨s', rfl, rfl⟩
    · obtain ⟨rfl, rfl⟩ := Prod.mk.inj (Except.ok.inj hr)
      exact ⟨s', rfl, rfl⟩
  obtain ⟨s', hs, rfl⟩ := hstep
  obtain ⟨⟨lines', hlog, hcomplete⟩, hstands, hroom⟩ := adds_step h.completed h.stands hs
  obtain rfl : lines' = lines := List.append_cancel_left (hlog.symm.trans hk)
  refine ⟨rfl, fun rest => ?_, ?_⟩
  · change _ = s'.completed.toList.foldl (pushWithin ecMaxSlaves) slaves ++ s'.taken.completes rest
    rw [foldl_drained hroom, List.append_assoc, h.complete, hcomplete, List.append_assoc]
  · change s'.taken.Stands (s'.completed.toList.foldl (pushWithin ecMaxSlaves) slaves).length
    rw [foldl_drained hroom, List.length_append]
    exact hstands

end ScanFsm

end EcMaster
