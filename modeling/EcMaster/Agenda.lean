import EcMaster.BringUp
import EcMaster.SdoAnswers

namespace EcMaster

open Library.Dialogue Library.Dialogue.Script Library.Segment Library.LittleEndian

def Heard (request : Access) (P : Reply → Prop) (log : Exchanged) : Prop :=
  ∃ rx reply, log = [([request], .ok rx)] ∧ parse rx = some reply ∧ P reply

def Acknowledged (station ado : UInt16) (payload : List UInt8) : Exchanged → Prop :=
  Heard ⟨.fpwr, station, ado, payload⟩ fun reply => reply.workingCounter = 1

def Downloaded (mbox : Mailbox) (request : List UInt8) (log : Exchanged) : Prop :=
  ∃ l waits l', log = l ++ waits ++ l' ∧
    Acknowledged mbox.stationAddr mbox.rxOffset (mailboxWrite mbox request) l ∧
    (∀ x ∈ waits, x.1 = [⟨.fprd, mbox.stationAddr, regSm1Status, [0]⟩]) ∧
    Heard ⟨.fprd, mbox.stationAddr, mbox.txOffset, mailboxRead mbox⟩
      (fun reply => reply.workingCounter = 1 ∧ parseSdoResponse .download reply.data = .ok []) l'

def Confirmed (station : UInt16) (target : UInt8) (log : Exchanged) : Prop :=
  ∃ earlier l, log = earlier ++ l ∧
    Heard ⟨.fprd, station, regAlStatus, [0, 0]⟩
      (fun reply => reply.workingCounter = 1 ∧ reply.data.headD 0 &&& alStateError = 0 ∧
        reply.data.headD 0 &&& alStateMask = target) l

def Reached (station : UInt16) (target : UInt8) (log : Exchanged) : Prop :=
  ∃ l l', log = l ++ l' ∧ Acknowledged station regAlControl [target, 0] l ∧ Confirmed station target l'

theorem returns_heard {request : Access} {hear : Reply → Procedure Unit} {log : Exchanged}
    (h : (exchange [request] (replied hear)).Returns log ()) :
    ∃ l l' reply, log = l ++ l' ∧ (∀ P : Reply → Prop, P reply → Heard request P l) ∧ (hear reply).Returns l' () := by
  obtain ⟨rx, rest, rfl, hrest⟩ := returns_exchange.mp h
  obtain ⟨reply, hparse, hnext⟩ := returns_replied.mp hrest
  exact ⟨[([request], .ok rx)], rest, reply, rfl, fun P hP => ⟨rx, reply, rfl, hparse, hP⟩, hnext⟩

theorem returns_put {station ado : UInt16} {payload : List UInt8} {next : Procedure Unit} {log : Exchanged}
    (h : (put station ado payload next).Returns log ()) :
    ∃ l l', log = l ++ l' ∧ Acknowledged station ado payload l ∧ next.Returns l' () := by
  obtain ⟨l, l', reply, rfl, hl, hrest⟩ := returns_heard h
  obtain ⟨hwkc, hnext⟩ := returns_confirmed.mp hrest
  exact ⟨l, l', rfl, hl _ hwkc, hnext⟩

theorem heard_readResponse {mbox : Mailbox} {log : Exchanged} {result : List UInt8}
    (h : (readResponse mbox .download).Returns log result) :
    Heard ⟨.fprd, mbox.stationAddr, mbox.txOffset, mailboxRead mbox⟩
      (fun reply => reply.workingCounter = 1 ∧ parseSdoResponse .download reply.data = .ok []) log := by
  obtain ⟨rx, reply, rfl, hparse, hwkc, hdata⟩ := returns_readResponse.mp h
  obtain ⟨-, -, rfl⟩ := accepted_of_ok hdata
  exact ⟨rx, reply, rfl, hparse, hwkc, hdata⟩

theorem returns_transfer {mbox : Mailbox} {request : List UInt8} {log : Exchanged} {result : List UInt8}
    (h : (transfer mbox .download request).Returns log result) : Downloaded mbox request log := by
  obtain ⟨rx, rest, rfl, hrest⟩ := returns_exchange.mp h
  obtain ⟨reply, hparse, hnext⟩ := returns_replied.mp hrest
  obtain ⟨hwkc, hawait⟩ := returns_confirmed.mp hnext
  obtain ⟨waits, l, rfl, hw, hl⟩ := returns_awaitMailbox hawait
  exact ⟨[_], waits, l, rfl, ⟨rx, reply, rfl, hparse, hwkc⟩, hw, heard_readResponse hl⟩

theorem Confirmed.prepend {station : UInt16} {target : UInt8} {log : Exchanged} (h : Confirmed station target log)
    (l : Exchanged) : Confirmed station target (l ++ log) := by
  obtain ⟨earlier, l', rfl, hl⟩ := h
  exact ⟨l ++ earlier, l', (List.append_assoc _ _ _).symm, hl⟩

theorem returns_readStatus {station : UInt16} {target : UInt8} {onError again : Procedure Unit} {log : Exchanged}
    (herr : ∀ log, onError.Returns log () → Confirmed station target log)
    (hagain : ∀ log, again.Returns log () → Confirmed station target log)
    (h : (exchange [⟨.fprd, station, regAlStatus, [0, 0]⟩] (replied (heardStatus target onError again))).Returns log ()) :
    Confirmed station target log := by
  obtain ⟨l, l', reply, rfl, hl, hrest⟩ := returns_heard h
  obtain ⟨hwkc, hnext⟩ := returns_confirmed.mp hrest
  split_ifs at hnext with he ht
  · exact (herr _ hnext).prepend l
  · obtain ⟨rfl, -⟩ := returns_done.mp hnext
    exact ⟨[], l, List.append_nil _, hl _ ⟨hwkc, not_not.mp he, ht⟩⟩
  · exact (hagain _ hnext).prepend l

theorem returns_awaitState {station : UInt16} {target : UInt8} {onError : Procedure Unit} {n : ℕ} {log : Exchanged}
    (herr : ∀ log, onError.Returns log () → Confirmed station target log)
    (h : (awaitState station target onError n).Returns log ()) : Confirmed station target log := by
  induction n generalizing log with
  | zero => exact returns_readStatus herr (fun log hl => absurd hl not_returns_fail) h
  | succ n ih => exact returns_readStatus herr (fun log hl => ih hl) h

theorem not_returns_readCode {station : UInt16} {log : Exchanged} : ¬(readCode station).Returns log () := by
  intro h
  obtain ⟨l, l', reply, rfl, hl, hrest⟩ := returns_heard h
  exact not_returns_fail hrest

theorem returns_acknowledge {station : UInt16} {target : UInt8} {log : Exchanged}
    (h : (acknowledge station target).Returns log ()) : Confirmed station target log := by
  obtain ⟨l, l', reply, rfl, hl, hrest⟩ := returns_heard h
  obtain ⟨-, hnext⟩ := returns_confirmed.mp hrest
  exact (returns_awaitState (fun log hl => absurd hl not_returns_readCode) hnext).prepend l

theorem returns_changeState {station : UInt16} {target : UInt8} {log : Exchanged}
    (h : (changeState station target).Returns log ()) : Reached station target log := by
  obtain ⟨l, l', reply, rfl, hl, hrest⟩ := returns_heard h
  obtain ⟨hwkc, hnext⟩ := returns_confirmed.mp hrest
  exact ⟨l, l', rfl, hl _ hwkc, returns_awaitState (fun log hl => returns_acknowledge hl) hnext⟩

inductive Item
  | sdo (w : SdoInit)
  | page (ado : UInt16) (payload : List UInt8)

def Item.Done (station : UInt16) (mbox : Mailbox) : Item → Exchanged → Prop
  | .sdo w => Downloaded mbox
      (sdoRequest .download w.index w.subindex (w.data ++ zeros (4 - w.data.length)) w.data.length)
  | .page ado payload => Acknowledged station ado payload

def arrayValues (obj : UInt16) (values : List (List UInt8)) : List SdoInit :=
  ⟨obj, 0, [0]⟩ :: (values.zipIdx.map fun p => ⟨obj, UInt8.ofNat (p.2 + 1), p.1⟩) ++ [⟨obj, 0, [UInt8.ofNat values.length]⟩]

def PdoCfg.mapping (pdo : PdoCfg) : List SdoInit := arrayValues pdo.index (pdo.entries.map fun e => leBytes 4 (pack e).toNat)

def SmCfg.assignment (sm : SmCfg) : List SdoInit :=
  arrayValues (pdoAssign sm.index) (sm.pdos.map fun pdo => leBytes 2 pdo.index.toNat)

namespace SlaveSetup

def agenda (slave : SlaveSetup) : List Item :=
  (slave.sdoInit ++ slave.sms.flatMap (fun sm => sm.pdos.flatMap PdoCfg.mapping) ++
      slave.sms.flatMap SmCfg.assignment).map .sdo ++
    slave.sms.map (fun sm => .page (smRegister sm.index) (processPage sm.physStart sm.size sm.control)) ++
    [.page regWdDivider (leBytes 2 wdDividerValue.toNat), .page regWdPdata (leBytes 2 wdPdataValue.toNat)] ++
    slave.fmmus.zipIdx.map fun p => .page (fmmuRegister p.2) (fmmuPage p.1)

/-- The values fit into an expedited transfer, as the generator makes sure. -/
def Expedited (slave : SlaveSetup) : Prop := ∀ sdo ∈ slave.sdoInit, sdo.data.length ≤ 4

/-- Every sequence of SDO writes fits into the queue. -/
structure Fits (slave : SlaveSetup) : Prop where
  inits : slave.sdoInit.length ≤ maxSeq
  entries : ∀ sm ∈ slave.sms, ∀ pdo ∈ sm.pdos, pdo.entries.length + 2 ≤ maxSeq
  pdos : ∀ sm ∈ slave.sms, sm.pdos.length + 2 ≤ maxSeq

end SlaveSetup

theorem leBytes_pack (e : EcPdoEntryInfo) :
    leBytes 4 (pack e).toNat = [e.bitLength, e.subindex] ++ leBytes 2 e.index.toNat := by
  have hb := e.bitLength.toNat_lt
  have hs := e.subindex.toNat_lt
  have hi := e.index.toNat_lt
  have hlow : 2 ^ 8 * e.subindex.toNat + e.bitLength.toNat < 2 ^ 16 := by omega
  have hpack : (pack e).toNat = 2 ^ 16 * e.index.toNat + (2 ^ 8 * e.subindex.toNat + e.bitLength.toNat) := by
    simp only [pack, UInt32.toNat_or, UInt32.toNat_shiftLeft, UInt16.toNat_toUInt32, UInt8.toNat_toUInt32]
    have h16 : (16 : UInt32).toNat % 32 = 16 := rfl
    have h8 : (8 : UInt32).toNat % 32 = 8 := rfl
    rw [h16, h8, Nat.shiftLeft_eq, Nat.shiftLeft_eq, Nat.mod_eq_of_lt (by omega), Nat.mod_eq_of_lt (by omega), Nat.or_assoc,
      Nat.mul_comm e.subindex.toNat, ← Nat.two_pow_add_eq_or_of_lt hb, Nat.mul_comm e.index.toNat,
      ← Nat.two_pow_add_eq_or_of_lt hlow]
  have h1 : (2 ^ 16 * e.index.toNat + (2 ^ 8 * e.subindex.toNat + e.bitLength.toNat)) / 256 =
      e.index.toNat * 2 ^ 8 + e.subindex.toNat := by omega
  have h2 : (e.index.toNat * 2 ^ 8 + e.subindex.toNat) / 256 = e.index.toNat := by omega
  rw [hpack, leBytes, leBytes, h1, h2]
  congr 1
  · apply UInt8.toNat_inj.mp
    rw [UInt8.toNat_ofNat']
    omega
  congr 1
  · apply UInt8.toNat_inj.mp
    rw [UInt8.toNat_ofNat']
    omega

theorem sdoRequest_download (index : UInt16) (subindex : UInt8) {data : List UInt8} (h : data.length ≤ 4) :
    sdoRequest .download index subindex (data ++ zeros (4 - data.length)) data.length =
      [10, 0, 0, 0, 0, 3, 0, 0x20, UInt8.ofNat (0x33 - 4 * data.length)] ++ leBytes 2 index.toNat ++ [subindex] ++
        (data ++ zeros (4 - data.length)) := by
  have hcommand : (0x23 : UInt8) ||| (UInt8.ofNat (4 - min data.length 4) <<< (2 : UInt8)) =
      UInt8.ofNat (0x33 - 4 * data.length) := by
    generalize data.length = n at h
    interval_cases n <;> rfl
  rw [sdoRequest, hcommand]
  rfl

theorem processPage_bytes (physStart size : UInt16) (control : UInt8) :
    processPage physStart size control =
      leBytes 2 physStart.toNat ++ leBytes 2 size.toNat ++ [control, 0, if size = 0 then 0 else 1, 0] := by
  rw [processPage, syncPage]
  by_cases h : size = 0
  · rw [if_pos h, if_neg (by simp [h])]
  · rw [if_neg h, if_pos (UInt16.pos_iff_ne_zero.mpr h)]

theorem fmmuPage_bytes (cfg : FmmuCfg) :
    fmmuPage cfg = leBytes 4 cfg.logicalStart ++ leBytes 2 cfg.size ++ [0, 7] ++ leBytes 2 cfg.physStart ++
      [0, if cfg.dir = .input then 1 else 2, 1, 0, 0, 0] := by
  obtain ⟨start, size, phys, dir⟩ := cfg
  cases dir <;> rfl
theorem padded_eq {data : List UInt8} (h : data.length ≤ 4) : padded data = data ++ zeros (4 - data.length) := by
  match data, h with
  | [], _ => rfl
  | [_], _ => rfl
  | [_, _], _ => rfl
  | [_, _, _], _ => rfl
  | [_, _, _, _], _ => rfl

theorem sdoWrite_request {index : UInt16} {subindex : UInt8} {data : List UInt8} (h : data.length ≤ 4) :
    (sdoWrite index subindex data).request =
      sdoRequest .download index subindex (data ++ zeros (4 - data.length)) data.length := by
  have htake : (padded data).take (min data.length 4) = data := by
    rw [padded_eq h, Nat.min_eq_left h, List.take_left]
  rw [SdoWrite.request, sdoWrite, htake, padded_eq h, Nat.min_eq_left h]

theorem listWrites_eq (obj : UInt16) (values : List (List UInt8)) :
    listWrites obj values = initWrites (arrayValues obj values) := by
  simp [listWrites, initWrites, arrayValues]

theorem length_arrayValues (obj : UInt16) (values : List (List UInt8)) :
    (arrayValues obj values).length = values.length + 2 := by
  simp [arrayValues]

theorem arrayValues_short {obj : UInt16} {values : List (List UInt8)} (h : ∀ v ∈ values, v.length ≤ 4) :
    ∀ w ∈ arrayValues obj values, w.data.length ≤ 4 := by
  simp only [arrayValues, List.cons_append, List.mem_cons, List.mem_append, List.mem_map, List.not_mem_nil, or_false]
  rintro w (rfl | ⟨⟨v, i⟩, hv, rfl⟩ | rfl)
  · simp
  · exact h v (List.fst_mem_of_mem_zipIdx hv)
  · simp

section

variable (station : UInt16) (mbox : Mailbox)

def Follows (items : List Item) (next : Procedure Unit) (log : Exchanged) : Prop :=
  ∃ l l', log = l ++ l' ∧ Pieces (Item.Done station mbox) items l ∧ next.Returns l' ()

variable {station mbox} {next : Procedure Unit} {log : Exchanged}

theorem follows_nil (h : next.Returns log ()) : Follows station mbox [] next log := ⟨[], log, rfl, rfl, h⟩

theorem Follows.then {is js : List Item} {next' : Procedure Unit} (h : Follows station mbox is next log)
    (h' : ∀ log, next.Returns log () → Follows station mbox js next' log) :
    Follows station mbox (is ++ js) next' log := by
  obtain ⟨l, l', rfl, hl, hnext⟩ := h
  obtain ⟨m, m', rfl, hm, hnext'⟩ := h' l' hnext
  exact ⟨l ++ m, m', (List.append_assoc _ _ _).symm, hl.append hm, hnext'⟩

theorem follows_put {ado : UInt16} {payload : List UInt8} (h : (put station ado payload next).Returns log ()) :
    Follows station mbox [.page ado payload] next log := by
  obtain ⟨l, l', rfl, hl, hnext⟩ := returns_put h
  exact ⟨l, l', rfl, .single hl, hnext⟩

theorem downloads_pieces {ws : List SdoInit} (hdata : ∀ w ∈ ws, w.data.length ≤ 4)
    (h : (downloads mbox (initWrites ws)).Returns log ()) :
    Pieces (Item.Done station mbox) (ws.map .sdo) log := by
  induction ws generalizing log with
  | nil => exact (returns_done.mp h).1
  | cons w ws ih =>
    obtain ⟨hw, hws⟩ := List.forall_mem_cons.mp hdata
    obtain ⟨l, l', bytes, rfl, hl, hrest⟩ := returns_bind.mp h
    refine ⟨l, l', rfl, ?_, ih hws hrest⟩
    rw [Item.Done, ← sdoWrite_request hw]
    exact returns_transfer hl

theorem follows_sequence {ws : List SdoInit} (hlen : ws.length ≤ maxSeq) (hdata : ∀ w ∈ ws, w.data.length ≤ 4)
    (h : ((sequence mbox ((initWrites ws).take maxSeq)).bind fun _ => next).Returns log ()) :
    Follows station mbox (ws.map .sdo) next log := by
  have hlen' : (initWrites ws).length ≤ maxSeq := by rwa [initWrites, List.length_map]
  obtain ⟨l, l', _, rfl, hl, hnext⟩ := returns_bind.mp h
  refine ⟨l, l', rfl, ?_, hnext⟩
  rw [List.take_of_length_le hlen', sequence] at hl
  split_ifs at hl with hn
  · obtain rfl : ws = [] := List.map_eq_nil_iff.mp hn
    exact (returns_done.mp (returns_skip.mp hl)).1
  · exact downloads_pieces hdata hl

theorem follows_pdoMappings {pdos : List PdoCfg} (hlen : ∀ pdo ∈ pdos, pdo.entries.length + 2 ≤ maxSeq)
    (h : (BringUp.pdoMappings mbox next pdos).Returns log ()) :
    Follows station mbox ((pdos.flatMap PdoCfg.mapping).map .sdo) next log := by
  induction pdos generalizing log with
  | nil => exact follows_nil (returns_skip.mp h)
  | cons pdo pdos ih =>
    obtain ⟨hpdo, hpdos⟩ := List.forall_mem_cons.mp hlen
    rw [List.flatMap_cons, List.map_append]
    rw [BringUp.pdoMappings, mappingWrites, listWrites_eq] at h
    refine (follows_sequence ?_ ?_ h).then fun log hl => ih hpdos hl
    · rwa [length_arrayValues, List.length_map]
    · exact arrayValues_short (by simp)

theorem follows_mappings {sms : List SmCfg} (hlen : ∀ sm ∈ sms, ∀ pdo ∈ sm.pdos, pdo.entries.length + 2 ≤ maxSeq)
    (h : (BringUp.mappings mbox next sms).Returns log ()) :
    Follows station mbox ((sms.flatMap fun sm => sm.pdos.flatMap PdoCfg.mapping).map .sdo) next log := by
  induction sms generalizing log with
  | nil => exact follows_nil (returns_skip.mp h)
  | cons sm sms ih =>
    obtain ⟨hsm, hsms⟩ := List.forall_mem_cons.mp hlen
    rw [List.flatMap_cons, List.map_append]
    exact (follows_pdoMappings hsm h).then fun log hl => ih hsms hl

theorem follows_assigns {sms : List SmCfg} (hlen : ∀ sm ∈ sms, sm.pdos.length + 2 ≤ maxSeq)
    (h : (BringUp.assigns mbox next sms).Returns log ()) :
    Follows station mbox ((sms.flatMap SmCfg.assignment).map .sdo) next log := by
  induction sms generalizing log with
  | nil => exact follows_nil (returns_skip.mp h)
  | cons sm sms ih =>
    obtain ⟨hsm, hsms⟩ := List.forall_mem_cons.mp hlen
    rw [List.flatMap_cons, List.map_append]
    rw [BringUp.assigns, assignWrites, listWrites_eq] at h
    refine (follows_sequence ?_ ?_ h).then fun log hl => ih hsms hl
    · rwa [length_arrayValues, List.length_map]
    · exact arrayValues_short (by simp)

theorem follows_smPages {sms : List SmCfg} (h : (BringUp.smPages station next sms).Returns log ()) :
    Follows station mbox
      (sms.map fun sm => .page (smRegister sm.index) (processPage sm.physStart sm.size sm.control)) next log := by
  induction sms generalizing log with
  | nil => exact follows_nil (returns_skip.mp h)
  | cons sm sms ih => exact (follows_put h).then fun log hl => ih hl

theorem follows_fmmuPages {i : ℕ} {fmmus : List FmmuCfg}
    (h : (BringUp.fmmuPages station next i fmmus).Returns log ()) :
    Follows station mbox ((fmmus.zipIdx i).map fun p => .page (fmmuRegister p.2) (fmmuPage p.1)) next log := by
  induction fmmus generalizing i log with
  | nil => exact follows_nil (returns_skip.mp h)
  | cons f fmmus ih => exact (follows_put h).then fun log hl => ih hl

end

theorem FsmSlaveConfig.script_new (station : UInt16) (mbox : Mailbox) (slave : SlaveSetup) (dcRef : DcRef) :
    (new station mbox slave dcRef).script =
      put station regFmmuBase (zeros 48) (new station mbox slave dcRef).afterClear :=
  script_idle rfl

theorem FsmSlaveConfig.follows_agenda (s : FsmSlaveConfig) {log : Exchanged} (hx : s.slave.Expedited)
    (hfit : s.slave.Fits) (h : s.afterPreop.Returns log ()) :
    Follows s.station s.mbox s.slave.agenda s.afterFmmus log := by
  have hinit : Follows s.station s.mbox (s.slave.sdoInit.map .sdo) s.afterInit log :=
    follows_sequence hfit.inits hx h
  have hmap := hinit.then fun log hl => follows_mappings hfit.entries hl
  have hassign := hmap.then fun log hl => follows_assigns hfit.pdos hl
  have hpages := hassign.then fun log hl => follows_smPages hl
  have hwd := hpages.then fun log hl => (follows_put hl).then fun log hl => follows_put hl
  have hfmmu := hwd.then fun log hl => follows_fmmuPages hl
  rw [SlaveSetup.agenda, List.map_append, List.map_append]
  exact hfmmu

/-- The record of a bring-up that has come to its end. -/
def BroughtUp (station : UInt16) (mbox : Mailbox) (slave : SlaveSetup) (log : Exchanged) : Prop :=
  ∃ setup preop writes dc safeop, log = setup ++ preop ++ writes ++ dc ++ safeop ∧
    Reached station alStatePreop preop ∧ Pieces (Item.Done station mbox) slave.agenda writes ∧
    Reached station alStateSafeop safeop

theorem returns_dcStage {station : UInt16} {dcRef : DcRef} {next : Procedure Unit} {dc : Option DcCfg}
    {log : Exchanged} (h : (BringUp.dcStage station dcRef next dc).Returns log ()) :
    ∃ l l', log = l ++ l' ∧ next.Returns l' () := by
  cases dc with
  | none => exact ⟨[], log, rfl, returns_skip.mp h⟩
  | some cfg =>
    obtain ⟨l, l', _, rfl, -, hnext⟩ := returns_bind.mp h
    exact ⟨l, l', rfl, hnext⟩

theorem broughtUp_of_returns {station : UInt16} {mbox : Mailbox} {slave : SlaveSetup} {dcRef : DcRef} {log : Exchanged}
    (hx : slave.Expedited) (hfit : slave.Fits)
    (h : (FsmSlaveConfig.new station mbox slave dcRef).script.Returns log ()) : BroughtUp station mbox slave log := by
  rw [FsmSlaveConfig.script_new] at h
  obtain ⟨fmmus, log₁, rfl, -, h₁⟩ := returns_put h
  obtain ⟨clear, log₂, rfl, -, h₂⟩ := returns_put h₁
  obtain ⟨sm0, log₃, rfl, -, h₃⟩ := returns_put h₂
  obtain ⟨sm1, log₄, rfl, -, h₄⟩ := returns_put h₃
  obtain ⟨preop, log₅, _, rfl, hpreop, h₅⟩ := returns_bind.mp h₄
  obtain ⟨writes, log₆, rfl, hwrites, h₆⟩ := FsmSlaveConfig.follows_agenda _ hx hfit h₅
  obtain ⟨dc, safeop, rfl, hsafeop⟩ := returns_dcStage h₆
  refine ⟨fmmus ++ clear ++ sm0 ++ sm1, preop, writes, dc, safeop, ?_, returns_changeState hpreop, hwrites,
    returns_changeState hsafeop⟩
  simp only [List.append_assoc]

/-- A bring-up that says it is complete has written everything, if the writes of each object fit into a queue. -/
theorem bringUp_complete {station : UInt16} {mbox : Mailbox} {slave : SlaveSetup} {dcRef : DcRef}
    (hx : slave.Expedited) (hfit : slave.Fits) {es : List (Device × UInt8)} {s : FsmSlaveConfig} {log : Exchanged}
    (h : calls FsmSlaveConfig.step (.new station mbox slave dcRef) [] es = (.ok (true, s), log)) :
    BroughtUp station mbox slave log :=
  broughtUp_of_returns hx hfit
    (FsmSlaveConfig.fsm.returns_of_calls (FsmSlaveConfig.tidy_of_none ⟨rfl, rfl, rfl⟩) h)

def valuesSlave (n : ℕ) : SlaveSetup where
  position := 0
  fmmus := [⟨0, 0, 0x1100, .output⟩, ⟨0, 0, 0x1400, .input⟩]
  outSize := 0
  inSize := 0
  vendorId := 1
  productCode := 1
  sms := [⟨2, 0x1100, 0x24, .output, 0, []⟩, ⟨3, 0x1400, 0x20, .input, 0, []⟩]
  dc := none
  sdoInit := (List.range n).map fun i => ⟨0x2000, UInt8.ofNat i, [0]⟩

def smallMailbox : Mailbox := ⟨1, 0x1000, 16, 0x1080, 16⟩

def goodBringUp (slave : SlaveSetup) (n m : ℕ) : Except EcError (Bool × FsmSlaveConfig) × Exchanged :=
  let confirm := answering [8, 0, 0, 0, 0, 3, 0, 0, 0x60, 0, 0, 0, 0, 0, 0, 0] 1
  calls FsmSlaveConfig.step (.new 1 smallMailbox slave .reference) []
    (List.replicate n confirm ++ List.replicate 2 (answering [2] 1) ++ List.replicate m confirm ++
      List.replicate 2 (answering [4] 1))

def mappedSlave : SlaveSetup :=
  { valuesSlave 1 with
    outSize := 2
    inSize := 3
    sms := [⟨2, 0x1100, 0x24, .output, 2, [⟨0x1600, [⟨0x6040, 0, 16⟩]⟩]⟩,
      ⟨3, 0x1400, 0x20, .input, 3, [⟨0x1A00, [⟨0x6041, 0, 16⟩, ⟨0x6061, 0, 8⟩]⟩]⟩] }

theorem bringUp_complete_mapped : ∃ s log, goodBringUp mappedSlave 10 105 = (.ok (true, s), log) ∧
    BroughtUp 1 smallMailbox mappedSlave log := by
  have hdone : finished (goodBringUp mappedSlave 10 105).1 = true := by decide +kernel
  obtain ⟨s, hs⟩ := of_finished hdone
  have hx : mappedSlave.Expedited := by simp [SlaveSetup.Expedited, mappedSlave, valuesSlave]
  have hfit : mappedSlave.Fits := ⟨by decide, by simp [mappedSlave, maxSeq], by simp [mappedSlave, maxSeq]⟩
  exact ⟨s, _, hs, bringUp_complete hx hfit hs⟩

theorem bringUp_incomplete : ∃ s log, goodBringUp (valuesSlave 37) 10 261 = (.ok (true, s), log) ∧
    ¬BroughtUp 1 smallMailbox (valuesSlave 37) log := by
  obtain ⟨hdone, hlost⟩ : finished (goodBringUp (valuesSlave 37) 10 261).1 = true ∧
      ∀ x ∈ (goodBringUp (valuesSlave 37) 10 261).2, x.1 ≠ [⟨.fpwr, 1, 0x1000,
        mailboxWrite smallMailbox (sdoRequest .download 0x2000 36 [0, 0, 0, 0] 1)⟩] := by decide +kernel
  obtain ⟨s, hs⟩ := of_finished hdone
  refine ⟨s, _, hs, ?_⟩
  rintro ⟨setup, preop, writes, dc, safeop, hlog, -, hwrites, -⟩
  have hmem : Item.sdo ⟨0x2000, 36, [0]⟩ ∈ (valuesSlave 37).agenda := by
    simp only [SlaveSetup.agenda, List.map_append, List.mem_append, List.append_assoc]
    refine Or.inl (List.mem_map_of_mem ?_)
    exact List.mem_map.mpr ⟨36, List.mem_range.mpr (by decide), rfl⟩
  obtain ⟨l, ⟨w, waits, l', rfl, ⟨rx, reply, rfl, -, -⟩, -, -⟩, hsub⟩ := hwrites.mem hmem
  refine hlost ([_], .ok rx) ?_ rfl
  rw [hlog]
  simp only [List.mem_append]
  exact Or.inl (Or.inl (Or.inr (hsub _ (List.mem_append_left _ (List.mem_append_left _ (List.mem_singleton.mpr rfl))))))

end EcMaster
