import EcMaster.Agenda

namespace EcMaster

open Library.Dialogue Library.Dialogue.Script Library.Segment Library.LittleEndian

def Obeys {α : Type} (rule : Exchanged → List Access → Prop) : Exchanged → Procedure α → Prop
  | _, .done _ => True
  | _, .fail _ => True
  | log, .skip next => Obeys rule log next
  | log, .ask q next => rule log q ∧ ∀ o, Obeys rule (log ++ [(q, o)]) (next o)

def Lawful {α : Type} (rule : Exchanged → List Access → Prop) (p : Procedure α) : Prop := ∀ log, Obeys rule log p

section Rules

variable {α β : Type} {rule : Exchanged → List Access → Prop} {log : Exchanged}

theorem Obeys.reaches {p r : Procedure α} {log : Exchanged} (hr : p.Reaches log r) {base : Exchanged}
    (h : Obeys rule base p) {before after : Exchanged} {x : List Access × Except EcError (List UInt8)}
    (hlog : log = before ++ x :: after) : rule (base ++ before) x.1 := by
  induction hr generalizing base before with
  | here => exact absurd hlog.symm (List.append_ne_nil_of_right_ne_nil _ (List.cons_ne_nil _ _))
  | skip _ ih => exact ih h hlog
  | @ask q next o r log _ ih =>
    cases before with
    | nil =>
      obtain ⟨rfl, -⟩ := List.cons.inj hlog
      rw [List.append_nil]
      exact h.1
    | cons y before =>
      obtain ⟨rfl, hrest⟩ := List.cons.inj hlog
      have hnext := ih (h.2 o) hrest
      rwa [List.append_assoc] at hnext

theorem Obeys.bind {p : Procedure α} {f : α → Procedure β} (h : Obeys rule log p) (hf : ∀ a, Lawful rule (f a)) :
    Obeys rule log (p.bind f) := by
  induction p generalizing log with
  | done a => exact hf a log
  | fail e => trivial
  | skip p ih => exact ih h
  | ask q next ih => exact ⟨h.1, fun o => ih o (h.2 o)⟩

theorem Lawful.bind {p : Procedure α} {f : α → Procedure β} (h : Lawful rule p) (hf : ∀ a, Lawful rule (f a)) :
    Lawful rule (p.bind f) := fun log => (h log).bind hf

theorem obeys_exchange {request : List Access} {hear : List UInt8 → Procedure α} (hask : rule log request)
    (h : ∀ rx, Obeys rule (log ++ [(request, .ok rx)]) (hear rx)) : Obeys rule log (exchange request hear) := by
  refine ⟨hask, fun o => ?_⟩
  cases o with
  | error e => trivial
  | ok rx => exact h rx

theorem obeys_replied {request : List Access} {hear : Reply → Procedure α} (hask : rule log request)
    (h : ∀ rx reply, parse rx = some reply → Obeys rule (log ++ [(request, .ok rx)]) (hear reply)) :
    Obeys rule log (exchange request (replied hear)) := by
  refine obeys_exchange hask fun rx => ?_
  rw [replied]
  cases hp : parse rx with
  | none => trivial
  | some reply => exact h rx reply hp

theorem obeys_confirmed {next : Procedure α} (h : Obeys rule log next) (reply : Reply) :
    Obeys rule log (confirmed next reply) := by
  rw [confirmed]
  split_ifs
  · trivial
  · exact h

theorem obeys_put {station ado : UInt16} {payload : List UInt8} {next : Procedure Unit}
    (hask : rule log [⟨.fpwr, station, ado, payload⟩])
    (h : ∀ rx, Obeys rule (log ++ [([⟨.fpwr, station, ado, payload⟩], .ok rx)]) next) :
    Obeys rule log (put station ado payload next) :=
  obeys_replied hask fun rx reply _ => obeys_confirmed (h rx) reply

theorem lawful_put {station ado : UInt16} {payload : List UInt8} {next : Procedure Unit}
    (hask : ∀ log, rule log [⟨.fpwr, station, ado, payload⟩]) (h : Lawful rule next) :
    Lawful rule (put station ado payload next) := fun log => obeys_put (hask log) fun _ => h _

end Rules

inductive Asked (station : UInt16) (mbox : Mailbox) (slave : SlaveSetup) : List Access → Prop
  | clearFmmus : Asked station mbox slave [⟨.fpwr, station, regFmmuBase, zeros 48⟩]
  | sm0 : Asked station mbox slave [⟨.fpwr, station, regSm0, mailboxOutPage mbox.rxOffset mbox.rxSize⟩]
  | sm1 : Asked station mbox slave [⟨.fpwr, station, regSm1, mailboxInPage mbox.txOffset mbox.txSize⟩]
  | control (target : UInt8) (h : target = alStatePreop ∨ target = alStateSafeop) :
    Asked station mbox slave [⟨.fpwr, station, regAlControl, [target, 0]⟩]
  | acknowledge (target : UInt8) (h : target = alStatePreop ∨ target = alStateSafeop) :
    Asked station mbox slave [⟨.fpwr, station, regAlControl, [target ||| alStateAckError, 0]⟩]
  | status : Asked station mbox slave [⟨.fprd, station, regAlStatus, [0, 0]⟩]
  | statusCode : Asked station mbox slave [⟨.fprd, station, regAlStatusCode, [0, 0]⟩]
  | sdoRequest (request : List UInt8) :
    Asked station mbox slave [⟨.fpwr, mbox.stationAddr, mbox.rxOffset, mailboxWrite mbox request⟩]
  | mailboxStatus : Asked station mbox slave [⟨.fprd, mbox.stationAddr, regSm1Status, [0]⟩]
  | sdoResponse : Asked station mbox slave [⟨.fprd, mbox.stationAddr, mbox.txOffset, mailboxRead mbox⟩]
  | smPage (sm : SmCfg) (h : sm ∈ slave.sms) :
    Asked station mbox slave [⟨.fpwr, station, smRegister sm.index, processPage sm.physStart sm.size sm.control⟩]
  | wdDivider : Asked station mbox slave [⟨.fpwr, station, regWdDivider, leBytes 2 wdDividerValue.toNat⟩]
  | wdTime : Asked station mbox slave [⟨.fpwr, station, regWdPdata, leBytes 2 wdPdataValue.toNat⟩]
  | fmmuPage (i : ℕ) (f : FmmuCfg) (h : f ∈ slave.fmmus) :
    Asked station mbox slave [⟨.fpwr, station, fmmuRegister i, fmmuPage f⟩]

section Slave

variable {station : UInt16} {mbox : Mailbox} {slave : SlaveSetup} {rule : Exchanged → List Access → Prop}
  {next : Procedure Unit}

theorem lawful_changeState {target : UInt8} (hcontrol : ∀ log, rule log [⟨.fpwr, station, regAlControl, [target, 0]⟩])
    (hack : ∀ log, rule log [⟨.fpwr, station, regAlControl, [target ||| alStateAckError, 0]⟩])
    (hstatus : ∀ log, rule log [⟨.fprd, station, regAlStatus, [0, 0]⟩])
    (hcode : ∀ log, rule log [⟨.fprd, station, regAlStatusCode, [0, 0]⟩]) : Lawful rule (changeState station target) := by
  have hwait : ∀ {onError : Procedure Unit}, Lawful rule onError → ∀ n, Lawful rule (awaitState station target onError n) := by
    intro onError hon n
    induction n with
    | zero =>
      refine fun log => obeys_replied (hstatus log) fun rx reply _ => obeys_confirmed ?_ reply
      split_ifs
      · exact hon _
      · trivial
      · trivial
    | succ n ih =>
      refine fun log => obeys_replied (hstatus log) fun rx reply _ => obeys_confirmed ?_ reply
      split_ifs
      · exact hon _
      · trivial
      · exact ih _
  have hread : Lawful rule (readCode station) := fun log => obeys_replied (hcode log) fun _ _ _ => trivial
  have hacknowledge : Lawful rule (acknowledge station target) := fun log =>
    obeys_replied (hack log) fun _ reply _ => obeys_confirmed (hwait hread _ _) reply
  exact fun log => obeys_replied (hcontrol log) fun _ reply _ => obeys_confirmed (hwait hacknowledge _ _) reply

theorem lawful_transfer {kind : SdoKind} {request : List UInt8}
    (hrequest : ∀ log, rule log [⟨.fpwr, mbox.stationAddr, mbox.rxOffset, mailboxWrite mbox request⟩])
    (hstatus : ∀ log, rule log [⟨.fprd, mbox.stationAddr, regSm1Status, [0]⟩])
    (hresponse : ∀ log, rule log [⟨.fprd, mbox.stationAddr, mbox.txOffset, mailboxRead mbox⟩]) :
    Lawful rule (transfer mbox kind request) := by
  have hread : Lawful rule (readResponse mbox kind) := by
    refine fun log => obeys_replied (hresponse log) fun _ reply _ => obeys_confirmed ?_ reply
    cases parseSdoResponse kind reply.data <;> trivial
  have hwait : ∀ n, Lawful rule (awaitMailbox mbox kind n) := by
    intro n
    induction n with
    | zero =>
      refine fun log => obeys_replied (hstatus log) fun rx reply _ => ?_
      rw [heardMailbox]
      split_ifs
      · exact hread _
      · trivial
    | succ n ih =>
      refine fun log => obeys_replied (hstatus log) fun rx reply _ => ?_
      rw [heardMailbox]
      split_ifs
      · exact hread _
      · exact ih _
  exact fun log => obeys_replied (hrequest log) fun _ reply _ => obeys_confirmed (hwait _ _) reply

variable (hask : ∀ log q, Asked station mbox slave q → rule log q)
include hask

theorem lawful_sequence (ws : List SdoWrite) : Lawful rule (sequence mbox ws) := by
  have hdown : ∀ ws, Lawful rule (downloads mbox ws) := by
    intro ws
    induction ws with
    | nil => exact fun _ => trivial
    | cons w ws ih =>
      refine Lawful.bind (lawful_transfer (fun log => hask log _ (.sdoRequest _)) (fun log => hask log _ .mailboxStatus)
        fun log => hask log _ .sdoResponse) fun _ => ih
  rw [sequence]
  split_ifs
  · exact fun _ => trivial
  · exact hdown ws

theorem lawful_pdoMappings (hnext : Lawful rule next) (pdos : List PdoCfg) :
    Lawful rule (BringUp.pdoMappings mbox next pdos) := by
  induction pdos with
  | nil => exact hnext
  | cons pdo pdos ih => exact (lawful_sequence hask _).bind fun _ => ih

theorem lawful_mappings (hnext : Lawful rule next) (sms : List SmCfg) : Lawful rule (BringUp.mappings mbox next sms) := by
  induction sms with
  | nil => exact hnext
  | cons sm sms ih => exact lawful_pdoMappings hask ih sm.pdos

theorem lawful_assigns (hnext : Lawful rule next) (sms : List SmCfg) : Lawful rule (BringUp.assigns mbox next sms) := by
  induction sms with
  | nil => exact hnext
  | cons sm sms ih => exact (lawful_sequence hask _).bind fun _ => ih

theorem lawful_smPages (hnext : Lawful rule next) {sms : List SmCfg} (hsms : ∀ sm ∈ sms, sm ∈ slave.sms) :
    Lawful rule (BringUp.smPages station next sms) := by
  induction sms with
  | nil => exact hnext
  | cons sm sms ih =>
    obtain ⟨hsm, hsms⟩ := List.forall_mem_cons.mp hsms
    exact lawful_put (fun log => hask log _ (.smPage sm hsm)) (ih hsms)

theorem lawful_fmmuPages (hnext : Lawful rule next) {fmmus : List FmmuCfg} (hfmmus : ∀ f ∈ fmmus, f ∈ slave.fmmus) (i : ℕ) :
    Lawful rule (BringUp.fmmuPages station next i fmmus) := by
  induction fmmus generalizing i with
  | nil => exact hnext
  | cons f fmmus ih =>
    obtain ⟨hf, hfmmus⟩ := List.forall_mem_cons.mp hfmmus
    exact lawful_put (fun log => hask log _ (.fmmuPage i f hf)) (ih hfmmus _)

theorem lawful_toState {target : UInt8} (h : target = alStatePreop ∨ target = alStateSafeop) :
    Lawful rule (changeState station target) :=
  lawful_changeState (fun log => hask log _ (.control target h)) (fun log => hask log _ (.acknowledge target h))
    (fun log => hask log _ .status) fun log => hask log _ .statusCode

theorem lawful_slaveConfig {dcRef : DcRef}
    (hclear : ∀ log o, rule (log ++ [([⟨.fpwr, station, regFmmuBase, zeros 48⟩], o)])
      [⟨.fpwr, station, regDcActivation, zeros 2⟩])
    (hdc : ∀ cfg, slave.dc = some cfg → Lawful rule (configureDc station cfg dcRef)) :
    Lawful rule (FsmSlaveConfig.new station mbox slave dcRef).script := by
  have hsafeop : Lawful rule (FsmSlaveConfig.new station mbox slave dcRef).afterDc := lawful_toState hask (Or.inr rfl)
  have hstage : Lawful rule (FsmSlaveConfig.new station mbox slave dcRef).afterFmmus := by
    change Lawful rule (BringUp.dcStage station dcRef _ slave.dc)
    cases hd : slave.dc with
    | none => exact hsafeop
    | some cfg => exact (hdc cfg hd).bind fun _ => hsafeop
  have hpages : Lawful rule (FsmSlaveConfig.new station mbox slave dcRef).afterAssign :=
    lawful_smPages hask (lawful_put (fun log => hask log _ .wdDivider) (lawful_put (fun log => hask log _ .wdTime)
      (lawful_fmmuPages hask hstage (fun _ h => h) 0))) fun _ h => h
  have hpreop : Lawful rule (FsmSlaveConfig.new station mbox slave dcRef).afterPreop :=
    (lawful_sequence hask _).bind fun _ => lawful_mappings hask (lawful_assigns hask hpages _) _
  have hmailbox : Lawful rule (FsmSlaveConfig.new station mbox slave dcRef).afterDcClear :=
    lawful_put (fun log => hask log _ .sm0) (lawful_put (fun log => hask log _ .sm1)
      ((lawful_toState hask (Or.inl rfl)).bind fun _ => hpreop))
  rw [FsmSlaveConfig.script_new]
  exact fun log => obeys_put (hask log _ .clearFmmus) fun rx => obeys_put (hclear log _) fun _ => hmailbox _

end Slave

end EcMaster
