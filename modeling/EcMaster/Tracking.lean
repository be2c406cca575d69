import EcMaster.Operations
import EcMaster.ScanResults

namespace EcMaster

open Library.Dialogue Library.Dialogue.Script Library.Segment

def Found (info : SlaveInfo) (log : Exchanged) : Prop :=
  ∃ before apwr status after, log = before ++ apwr ++ status ++ after ∧
    Heard (addressWrite info.ringPos info.stationAddr) (fun reply => reply.workingCounter = 1) apwr ∧
    Heard (alRead info.stationAddr)
      (fun reply => reply.workingCounter = 1 ∧ reply.data[0]?.map (· &&& alStateMask) = some info.alState) status

def Changed (station : UInt16) (state : UInt8) (log : Exchanged) : Prop :=
  ∃ before session status after, log = before ++ session ++ status ++ after ∧
    (changeState station state).Returns (session ++ status) () ∧
    Heard (alRead station)
      (fun reply => reply.workingCounter = 1 ∧
        ∃ al, reply.data[0]? = some al ∧ al &&& alStateError = 0 ∧ al &&& alStateMask = state) status

def Tracked (info : SlaveInfo) (log : Exchanged) : Prop := Found info log ∨ Changed info.stationAddr info.alState log

theorem Found.surround {info : SlaveInfo} {log : Exchanged} (h : Found info log) (earlier later : Exchanged) :
    Found info (earlier ++ log ++ later) := by
  obtain ⟨before, apwr, status, after, rfl, ha, hs⟩ := h
  exact ⟨earlier ++ before, apwr, status, after ++ later, by simp only [List.append_assoc], ha, hs⟩

theorem Changed.surround {station : UInt16} {state : UInt8} {log : Exchanged} (h : Changed station state log)
    (earlier later : Exchanged) : Changed station state (earlier ++ log ++ later) := by
  obtain ⟨before, session, status, after, rfl, hr, hs⟩ := h
  exact ⟨earlier ++ before, session, status, after ++ later, by simp only [List.append_assoc], hr, hs⟩

theorem Changed.append {station : UInt16} {state : UInt8} {log : Exchanged} (h : Changed station state log)
    (later : Exchanged) : Changed station state (log ++ later) := h.surround [] later

theorem Tracked.append {info : SlaveInfo} {log : Exchanged} (h : Tracked info log) (later : Exchanged) :
    Tracked info (log ++ later) := h.imp (fun hf => hf.surround [] later) fun hc => hc.append later

theorem Changed.nibble {station : UInt16} {state : UInt8} {log : Exchanged} (h : Changed station state log) :
    state &&& alStateMask = state := by
  obtain ⟨-, -, -, -, -, -, rx, reply, -, -, -, al, -, -, rfl⟩ := h
  rw [UInt8.and_assoc, UInt8.and_self]

theorem changed_of_returns {station : UInt16} {state : UInt8} {log : Exchanged}
    (h : (changeState station state).Returns log ()) (hl : ∀ x ∈ log, KeepsLength x) : Changed station state log := by
  obtain ⟨l, l', rfl, -, earlier, status, rfl, rx, reply, rfl, hparse, hwkc, herr, hstate⟩ := returns_changeState h
  refine ⟨[], l ++ earlier, [([alRead station], .ok rx)], [], ?_, ?_, rx, reply, rfl, hparse, hwkc, reply.data.headD 0, ?_,
    herr, hstate⟩
  · rw [List.append_nil]
    exact (List.append_assoc l earlier _).symm
  · rw [List.append_assoc]
    exact h
  · have hlen : reply.data.length = 2 := hl ([alRead station], .ok rx) (by simp [alRead, zeros, regAlStatus]) reply hparse
    rw [headD_eq_getD, List.getD_eq_getElem?_getD, List.getElem?_eq_getElem (by omega)]
    rfl

section

variable {α : Type}

def UnderWay (p r : Procedure α) (log : Exchanged) : Prop := ∃ before lines, log = before ++ lines ∧ p.Reaches lines r

theorem UnderWay.start (p : Procedure α) (log : Exchanged) : UnderWay p p log :=
  ⟨log, [], (List.append_nil log).symm, .here p⟩

theorem UnderWay.move {p q r : Procedure α} {n n' : ℕ} {log lines : Exchanged} (h : UnderWay p q log)
    (hm : Move (q, n) lines (r, n')) : UnderWay p r (log ++ lines) := by
  obtain ⟨before, earlier, rfl, hr⟩ := h
  exact ⟨before, earlier ++ lines, List.append_assoc _ _ _, hr.trans hm.reaches⟩

end

def Leads (p next : Procedure Unit) : Prop := ∀ log, p.Returns log () → ∃ l l', log = l ++ l' ∧ next.Returns l' ()

theorem Leads.refl (p : Procedure Unit) : Leads p p := fun log h => ⟨[], log, rfl, h⟩

theorem Leads.trans {p q r : Procedure Unit} (h : Leads p q) (h' : Leads q r) : Leads p r := by
  intro log hr
  obtain ⟨l₁, rest, rfl, hq⟩ := h log hr
  obtain ⟨l₂, l₃, rfl, hnext⟩ := h' rest hq
  exact ⟨l₁ ++ l₂, l₃, (List.append_assoc _ _ _).symm, hnext⟩

theorem leads_put {station ado : UInt16} {payload : List UInt8} {p next : Procedure Unit} (h : Leads p next) :
    Leads (put station ado payload p) next := by
  refine Leads.trans (fun log hr => ?_) h
  obtain ⟨l, l', rfl, -, hp⟩ := returns_put hr
  exact ⟨l, l', rfl, hp⟩

theorem leads_bind {α : Type} {q : Procedure α} {p next : Procedure Unit} (h : Leads p next) :
    Leads (q.bind fun _ => p) next := by
  refine Leads.trans (fun log hr => ?_) h
  obtain ⟨l, l', _, rfl, -, hp⟩ := returns_bind.mp hr
  exact ⟨l, l', rfl, hp⟩

theorem leads_skip {p next : Procedure Unit} (h : Leads p next) : Leads (.skip p) next := fun log hr =>
  h log (returns_skip.mp hr)

theorem leads_configureMailbox {station : UInt16} {mbox : Mailbox} {configure : Bool} {next : Procedure Unit} :
    Leads (configureMailbox station mbox configure next) next := by
  rw [configureMailbox]
  split_ifs
  · exact leads_put (leads_put (.refl next))
  · exact leads_skip (.refl next)

section BringUp

open BringUp

variable {station : UInt16} {mbox : Mailbox} {p next : Procedure Unit}

theorem leads_fmmuPages (h : Leads p next) (fmmus : List FmmuCfg) (i : ℕ) : Leads (fmmuPages station p i fmmus) next := by
  induction fmmus generalizing i with
  | nil => exact leads_skip h
  | cons f fmmus ih => exact leads_put (ih (i + 1))

theorem leads_smPages (h : Leads p next) (sms : List SmCfg) : Leads (smPages station p sms) next := by
  induction sms with
  | nil => exact leads_skip h
  | cons sm sms ih => exact leads_put ih

theorem leads_assigns (h : Leads p next) (sms : List SmCfg) : Leads (assigns mbox p sms) next := by
  induction sms with
  | nil => exact leads_skip h
  | cons sm sms ih => exact leads_bind ih

theorem leads_pdoMappings (h : Leads p next) (pdos : List PdoCfg) : Leads (pdoMappings mbox p pdos) next := by
  induction pdos with
  | nil => exact leads_skip h
  | cons pdo pdos ih => exact leads_bind ih

theorem leads_mappings (h : Leads p next) (sms : List SmCfg) : Leads (mappings mbox p sms) next := by
  induction sms with
  | nil => exact leads_skip h
  | cons sm sms ih => exact leads_pdoMappings ih sm.pdos

theorem leads_slaveConfig (slave : SlaveSetup) (dcRef : DcRef) :
    Leads (FsmSlaveConfig.new station mbox slave dcRef).script (changeState station alStateSafeop) := by
  have hdc : Leads (FsmSlaveConfig.new station mbox slave dcRef).afterFmmus (changeState station alStateSafeop) := by
    change Leads (dcStage station dcRef (changeState station alStateSafeop) slave.dc) _
    cases slave.dc with
    | none => exact leads_skip (.refl _)
    | some cfg => exact leads_bind (.refl _)
  rw [FsmSlaveConfig.script_new]
  exact leads_put (leads_put (leads_put (leads_put (leads_bind (leads_bind (leads_mappings (leads_assigns
    (leads_smPages (leads_put (leads_put (leads_fmmuPages hdc _ _))) _) _) _))))))

end BringUp

theorem mem_pushWithin {α : Type} {cap : ℕ} {xs : List α} {x y : α} (h : y ∈ pushWithin cap xs x) : y ∈ xs ∨ y = x := by
  rw [pushWithin] at h
  split_ifs at h
  · exact (List.mem_append.mp h).imp_right List.mem_singleton.mp
  · exact Or.inl h

theorem changed_of_bringUpAll {B : Bus} {slaves : List SlaveInfo} {cfgs : List SlaveSetup} {ready out : List CyclicSlave}
    {log : Exchanged} (h : (bringUpAll B slaves cfgs ready).Returns log out) (hl : ∀ x ∈ log, KeepsLength x) {c : CyclicSlave}
    (hc : c ∈ out) : c ∈ ready ∨ Changed c.station alStateSafeop log := by
  induction cfgs generalizing ready log with
  | nil =>
    obtain ⟨-, rfl⟩ := returns_done.mp h
    exact Or.inl hc
  | cons cfg cfgs ih =>
    rw [bringUpAll] at h
    cases hinfo : slaveAt slaves cfg.position with
    | none =>
      rw [hinfo] at h
      exact absurd (returns_skip.mp h) not_returns_fail
    | some info =>
      rw [hinfo] at h
      obtain ⟨l, l', _, rfl, hslave, hrest⟩ := returns_bind.mp h
      rcases ih hrest fun x hx => hl x (List.mem_append_right l hx) with hready | hchanged
      · refine (mem_pushWithin hready).imp_right ?_
        rintro rfl
        obtain ⟨early, session, rfl, hs⟩ := leads_slaveConfig cfg (B.dcRef slaves info) l hslave
        exact (changed_of_returns hs fun x hx =>
          hl x (List.mem_append_left l' (List.mem_append_right early hx))).surround early l'
      · have hs := hchanged.surround l []
        rw [List.append_nil] at hs
        exact Or.inr hs

structure Known (slaves : List SlaveInfo) (log : Exchanged) : Prop where
  inOrder : InOrder slaves
  within : slaves.length ≤ ecMaxSlaves
  tracked : ∀ info ∈ slaves, Tracked info log

theorem Known.append {slaves : List SlaveInfo} {log : Exchanged} (h : Known slaves log) (lines : Exchanged) :
    Known slaves (log ++ lines) :=
  ⟨h.inOrder, h.within, fun info hi => (h.tracked info hi).append lines⟩

theorem known_nil (log : Exchanged) : Known [] log :=
  ⟨fun i info hi => absurd hi (by simp), Nat.zero_le _, fun info hi => absurd hi List.not_mem_nil⟩

theorem Known.update {slaves : List SlaveInfo} {log : Exchanged} (h : Known slaves log) {station : UInt16} {state : UInt8}
    (hc : Changed station state log) : Known (updateState slaves station state) log := by
  refine ⟨fun i info hi => ?_, ?_, fun info hinfo => ?_⟩
  · rw [updateState, List.getElem?_map] at hi
    obtain ⟨s, hs, rfl⟩ := Option.map_eq_some_iff.mp hi
    have hplace := h.inOrder i s hs
    split_ifs
    · exact hplace
    · exact hplace
  · rw [updateState, List.length_map]
    exact h.within
  · obtain ⟨s, hs, rfl⟩ := List.mem_map.mp hinfo
    split_ifs with hst
    · subst hst
      refine Or.inr ?_
      change Changed s.stationAddr (state &&& alStateMask) log
      rw [hc.nibble]
      exact hc
    · exact h.tracked s hs

theorem Known.update_all {slaves : List SlaveInfo} {log : Exchanged} (h : Known slaves log) {ready : List CyclicSlave}
    (hc : ∀ c ∈ ready, Changed c.station alStateSafeop log) :
    Known (ready.foldl (fun slaves c => updateState slaves c.station alStateSafeop) slaves) log := by
  induction ready generalizing slaves with
  | nil => exact h
  | cons c ready ih =>
    obtain ⟨hfirst, hrest⟩ := List.forall_mem_cons.mp hc
    exact ih (h.update hfirst) hrest

theorem SlaveScan.found {info : SlaveInfo} {log : Exchanged} (h : SlaveScan info log) : Found info log := by
  obtain ⟨apwr, status, base, words, w, rfl, hb, -, -⟩ := h
  exact ⟨[], apwr, status, base ++ words, by simp only [List.append_assoc, List.nil_append], hb.addressed, hb.status⟩

theorem ScanFsm.Progress.within {s : ScanFsm} {published : List SlaveInfo} {log : Exchanged} (h : s.Progress published log) :
    published.length ≤ ecMaxSlaves := by
  have hturn {count : UInt16} {c : Cur} {l : Exchanged} (ht : InTurn count c published l) :
      published.length ≤ ecMaxSlaves := ht.below.le.trans (min_le_right _ _)
  obtain ⟨stage, count, x, cur, sii, completed⟩ := s
  cases stage with
  | count =>
    obtain ⟨-, rfl, -⟩ := h
    exact Nat.zero_le _
  | clear =>
    obtain ⟨-, rfl, -⟩ := h
    exact Nat.zero_le _
  | apwr => exact hturn h.2
  | al =>
    obtain ⟨-, l, apwr, -, ht, -⟩ := h
    exact hturn ht
  | dl =>
    obtain ⟨-, l, apwr, status, -, ht, -⟩ := h
    exact hturn ht
  | sii field =>
    obtain ⟨-, l, apwr, status, base, words, p, -, ht, -⟩ := h
    exact hturn ht
  | done =>
    obtain ⟨count, c, rest, scans, -, -, -, -, -, hlen⟩ := h
    exact hlen.le.trans (min_le_right _ _)

theorem ScanFsm.Progress.known {s : ScanFsm} {published : List SlaveInfo} {log : Exchanged} (h : s.Progress published log) :
    Known published log := by
  obtain ⟨⟨head, scans, tail, rfl, hscans, -⟩, horder, -⟩ := h.going
  refine ⟨horder, h.within, fun info hi => Or.inl ?_⟩
  obtain ⟨l, hl, before, after, rfl⟩ := hscans.piece hi
  have hf := hl.found.surround (head ++ before) (after ++ tail)
  simpa only [List.append_assoc] using hf

def PreOp.Traced (pre : PreOp) (log : Exchanged) : Prop :=
  ∃ mbox configure, UnderWay (configureMailbox pre.station mbox configure (changeState pre.station pre.target)) pre.script log

def DownSeq.Traced (down : DownSeq) (log : Exchanged) : Prop :=
  ∀ change, down.change = some change → ∃ station, down.stations[down.idx]? = some station ∧
    UnderWay (changeState station alStatePreop) change.script log

def Op.Traced (B : Bus) (slaves : List SlaveInfo) (log : Exchanged) : Op → Prop
  | .rescan fsm => fsm.completed = none ∧ fsm.Progress slaves log
  | .state pre => pre.Traced log
  | .sdo _ pre none _ => pre.Traced log
  | .sdo _ _ (some _) _ => True
  | .startCyclic seq _ => seq.Tidy ∧ UnderWay (ConfigSeq.new.script B slaves) (seq.script B slaves) log
  | .stopCyclic down => down.Traced log

theorem changed_of_leads {p : Procedure Unit} {station : UInt16} {state : UInt8} {log : Exchanged}
    (hp : Leads p (changeState station state)) (h : UnderWay p (.done ()) log) (hl : ∀ x ∈ log, KeepsLength x) :
    Changed station state log := by
  obtain ⟨before, lines, rfl, hr⟩ := h
  obtain ⟨l, session, rfl, hs⟩ := hp lines hr
  have hkeep : ∀ x ∈ session, KeepsLength x := fun x hx =>
    hl x (List.mem_append_right before (List.mem_append_right l hx))
  have hc := (changed_of_returns hs hkeep).surround (before ++ l) []
  rwa [List.append_nil, List.append_assoc] at hc

theorem PreOp.Traced.step {pre : PreOp} {log : Exchanged} (h : pre.Traced log) (k : Link) :
    ∃ lines, (pre.step k).2.log = k.log ++ lines ∧
      (∀ pre', (pre.step k).1 = .ok (false, pre') → pre'.Traced (log ++ lines)) ∧
      ∀ pre', (pre.step k).1 = .ok (true, pre') → (∀ x ∈ log ++ lines, KeepsLength x) →
        Changed pre'.station pre'.target (log ++ lines) := by
  obtain ⟨mbox, configure, hway⟩ := h
  obtain ⟨lines, hlog, hm⟩ := PreOp.step_turns pre k
  refine ⟨lines, hlog, fun pre' hr => ?_, fun pre' hr hl => ?_⟩
  · obtain ⟨hst, htarget⟩ := PreOp.step_same hr
    rw [hr] at hm
    refine ⟨mbox, configure, ?_⟩
    rw [hst, htarget]
    exact hway.move hm
  · obtain ⟨hst, htarget⟩ := PreOp.step_same hr
    rw [hr] at hm
    rw [hst, htarget]
    exact changed_of_leads leads_configureMailbox (hway.move hm) hl

theorem DownSeq.Traced.step {down : DownSeq} {log : Exchanged} (h : down.Traced log) (k : Link) :
    ∃ lines, (down.step k).2.log = k.log ++ lines ∧ (down.step k).1.2.2.Traced (log ++ lines) ∧
      ∀ station, (down.step k).1.2.1 = some station → (∀ x ∈ log ++ lines, KeepsLength x) →
        Changed station alStatePreop (log ++ lines) := by
  rw [DownSeq.step]
  cases hst : down.stations[down.idx]? with
  | none =>
    refine ⟨[], (List.append_nil _).symm, ?_, fun station hs => absurd hs (by simp)⟩
    rw [List.append_nil]
    exact h
  | some station =>
    have hway : UnderWay (changeState station alStatePreop)
        (down.change.getD (FsmChange.new station alStatePreop)).script log := by
      cases hc : down.change with
      | none =>
        rw [Option.getD_none, FsmChange.script_new]
        exact .start _ log
      | some change =>
        obtain ⟨station', hst', hway⟩ := h change hc
        obtain rfl := Option.some.inj (hst.symm.trans hst')
        exact hway
    obtain ⟨lines, hlog, hm⟩ := FsmChange.step_turns (down.change.getD (FsmChange.new station alStatePreop)) k
    refine ⟨lines, ?_⟩
    dsimp only
    rcases hr : (down.change.getD (FsmChange.new station alStatePreop)).step k with ⟨_ | ⟨_ | _, change⟩, k'⟩
    all_goals rw [hr] at hlog hm
    · exact ⟨hlog, fun _ hc => absurd hc (by simp), fun _ hs => absurd hs (by simp)⟩
    · refine ⟨hlog, fun change' hc => ?_, fun _ hs => absurd hs (by simp)⟩
      obtain rfl := Option.some.inj hc
      exact ⟨station, hst, hway.move hm⟩
    · refine ⟨hlog, fun _ hc => absurd hc (by simp), fun station' hs hl => ?_⟩
      obtain rfl := Option.some.inj hs
      exact changed_of_leads (.refl _) (hway.move hm) hl

theorem changed_of_ready {B : Bus} {slaves : List SlaveInfo} {ready : List CyclicSlave} {log : Exchanged}
    (h : UnderWay (ConfigSeq.new.script B slaves) (.done ready) log) (hl : ∀ x ∈ log, KeepsLength x) :
    ∀ c ∈ ready, Changed c.station alStateSafeop log := by
  intro c hc
  obtain ⟨before, lines, rfl, hr⟩ := h
  rw [ConfigSeq.script_new] at hr
  split_ifs at hr
  · obtain ⟨-, rfl⟩ := returns_done.mp (returns_skip.mp hr)
    exact absurd hc List.not_mem_nil
  · rcases changed_of_bringUpAll hr (fun x hx => hl x (List.mem_append_right before hx)) hc with hnil | hs
    · exact absurd hnil List.not_mem_nil
    · have hs := hs.surround before []
      rwa [List.append_nil] at hs

namespace Master

variable {B : Bus}

section Operations

variable {m : Master B} {base log : Exchanged} {k : Link}

def Knows (B : Bus) (log : Exchanged) (k : Link) (r : Except EcError (Outcome ⊕ Op) × Master B × Link) : Prop :=
  ∃ lines, r.2.2.log = k.log ++ lines ∧ Known r.2.1.slaves (log ++ lines) ∧
    ∀ op', r.1 = .ok (.inr op') → op'.Traced B r.2.1.slaves (log ++ lines)

theorem keepsLength_since (hk : k.log = base ++ log) {lines all : Exchanged} (hall : all = k.log ++ lines)
    (hl : ∀ x ∈ all, KeepsLength x) : ∀ x ∈ log ++ lines, KeepsLength x := by
  intro x hx
  refine hl x ?_
  rw [hall, hk, List.append_assoc]
  exact List.mem_append_right base hx

theorem knows_rescan {fsm : ScanFsm} (hknown : Known m.slaves log)
    (hop : Op.Traced B m.slaves log (.rescan fsm)) (hk : k.log = base ++ log)
    (hl : ∀ x ∈ (m.drive (.rescan fsm) k).2.2.log, KeepsLength x) : Knows B log k (m.drive (.rescan fsm) k) := by
  obtain ⟨hnone, hp⟩ := hop
  obtain ⟨lines, hlog, -⟩ := ScanFsm.step_turns hnone k
  have hlink : (m.drive (.rescan fsm) k).2.2 = (fsm.step k).2 := by
    rw [drive, ScanFsm.rescanStep, nested]
    rcases fsm.step k with ⟨_ | ⟨_ | _, fsm'⟩, k'⟩
    · rfl
    · rfl
    · rfl
  have hs := hp.step hnone hk (hlink ▸ hl)
  have hlines {log' : Exchanged} (h : (fsm.step k).2.log = base ++ log') : log' = log ++ lines := by
    rw [hlog, hk, List.append_assoc] at h
    exact (List.append_cancel_left h).symm
  refine ⟨lines, hlink ▸ hlog, ?_⟩
  rw [drive, ScanFsm.rescanStep, nested]
  rcases hs with ⟨fsm', log', hr, hlog', hp'⟩ | ⟨fsm', hr, hlog', hnone', hp', -⟩ | ⟨e, z, hr, -, -⟩
  · obtain rfl := hlines hlog'
    have hwithin := hp'.within
    have hpush : (fsm'.drained m.slaves).2 = m.slaves ++ fsm'.completed.toList := by
      rw [ScanFsm.drained, foldl_pushWithin _ _ _ hknown.within, List.take_of_length_le]
      rw [List.length_append] at hwithin
      omega
    rw [hr]
    dsimp only
    rw [hpush]
    refine ⟨hp'.known, fun op' h => ?_⟩
    obtain rfl := Sum.inr.inj (Except.ok.inj h)
    exact ⟨rfl, hp'⟩
  · rw [hr]
    refine ⟨?_, fun _ h => by cases h⟩
    change Known (fsm'.drained m.slaves).2 _
    rw [ScanFsm.drained, hnone']
    exact hknown.append lines
  · rw [hr]
    exact ⟨hknown.append lines, fun _ h => by cases h⟩

theorem knows_state {pre : PreOp} (hknown : Known m.slaves log)
    (hop : Op.Traced B m.slaves log (.state pre)) (hk : k.log = base ++ log)
    (hl : ∀ x ∈ (m.drive (.state pre) k).2.2.log, KeepsLength x) : Knows B log k (m.drive (.state pre) k) := by
  obtain ⟨lines, hlog, hgoes, hends⟩ := hop.step k
  rw [drive] at hl ⊢
  rcases hr : pre.step k with ⟨_ | ⟨_ | _, pre'⟩, k'⟩
  all_goals rw [hr] at hlog hgoes hends hl
  · exact ⟨lines, hlog, hknown.append lines, fun _ h => by cases h⟩
  · refine ⟨lines, hlog, hknown.append lines, fun op' h => ?_⟩
    obtain rfl := Sum.inr.inj (Except.ok.inj h)
    exact hgoes pre' rfl
  · exact ⟨lines, hlog, (hknown.append lines).update (hends pre' rfl (keepsLength_since hk hlog hl)), fun _ h => by cases h⟩

theorem knows_sdoPreop {slave : UInt16} {pre : PreOp} {request : SdoOp} (hknown : Known m.slaves log)
    (hop : Op.Traced B m.slaves log (.sdo slave pre none request)) (hk : k.log = base ++ log)
    (hl : ∀ x ∈ (m.drive (.sdo slave pre none request) k).2.2.log, KeepsLength x) :
    Knows B log k (m.drive (.sdo slave pre none request) k) := by
  obtain ⟨lines, hlog, hgoes, hends⟩ := hop.step k
  rw [drive] at hl ⊢
  rcases hr : pre.step k with ⟨_ | ⟨_ | _, pre'⟩, k'⟩
  all_goals rw [hr] at hlog hgoes hends hl
  · exact ⟨lines, hlog, hknown.append lines, fun _ h => by cases h⟩
  · refine ⟨lines, hlog, hknown.append lines, fun op' h => ?_⟩
    obtain rfl := Sum.inr.inj (Except.ok.inj h)
    exact hgoes pre' rfl
  · dsimp only at hl ⊢
    cases hs : (updateState m.slaves pre'.station pre'.target)[slave.toNat]? with
    | none =>
      rw [hs] at hl
      exact ⟨lines, hlog, (hknown.append lines).update (hends pre' rfl (keepsLength_since hk hlog hl)), fun _ h => by cases h⟩
    | some s =>
      rw [hs] at hl
      refine ⟨lines, hlog, (hknown.append lines).update (hends pre' rfl (keepsLength_since hk hlog hl)), fun op' h => ?_⟩
      obtain rfl := Sum.inr.inj (Except.ok.inj h)
      trivial

theorem knows_sdo {slave : UInt16} {pre : PreOp} {coe : FsmCoe} {request : SdoOp} (hknown : Known m.slaves log) :
    Knows B log k (m.drive (.sdo slave pre (some coe) request) k) := by
  obtain ⟨lines, hlog, -⟩ := FsmCoe.step_turns coe k
  rw [drive]
  rcases hr : coe.step k with ⟨_ | ⟨_ | _, coe'⟩, k'⟩
  all_goals rw [hr] at hlog
  · exact ⟨lines, hlog, hknown.append lines, fun _ h => by cases h⟩
  · refine ⟨lines, hlog, hknown.append lines, fun op' h => ?_⟩
    obtain rfl := Sum.inr.inj (Except.ok.inj h)
    trivial
  · cases request with
    | upload => exact ⟨lines, hlog, hknown.append lines, fun _ h => by cases h⟩
    | download => exact ⟨lines, hlog, hknown.append lines, fun _ h => by cases h⟩

theorem knows_startCyclic {seq : ConfigSeq} {cycleNs : UInt64} (hknown : Known m.slaves log)
    (hop : Op.Traced B m.slaves log (.startCyclic seq cycleNs)) (hk : k.log = base ++ log)
    (hl : ∀ x ∈ (m.drive (.startCyclic seq cycleNs) k).2.2.log, KeepsLength x) :
    Knows B log k (m.drive (.startCyclic seq cycleNs) k) := by
  obtain ⟨htidy, hway⟩ := hop
  have hp : seq.Plays B m.slaves k (seq.step B m.slaves k) := seq.plays_step k htidy
  obtain ⟨⟨lines, hlog, hm⟩, hkeeps⟩ := hp
  rw [drive] at hl ⊢
  rcases hr : seq.step B m.slaves k with ⟨_ | ⟨_ | _, seq'⟩, k'⟩
  all_goals rw [hr] at hlog hm hkeeps hl
  · exact ⟨lines, hlog, hknown.append lines, fun _ h => by cases h⟩
  · refine ⟨lines, hlog, hknown.append lines, fun op' h => ?_⟩
    obtain rfl := Sum.inr.inj (Except.ok.inj h)
    exact ⟨hkeeps seq' rfl, hway.move hm⟩
  · refine ⟨lines, hlog, (hknown.append lines).update_all ?_, fun _ h => by cases h⟩
    exact changed_of_ready (hway.move hm) (keepsLength_since hk hlog hl)

theorem knows_stopCyclic {down : DownSeq} (hknown : Known m.slaves log)
    (hop : Op.Traced B m.slaves log (.stopCyclic down)) (hk : k.log = base ++ log)
    (hl : ∀ x ∈ (m.drive (.stopCyclic down) k).2.2.log, KeepsLength x) :
    Knows B log k (m.drive (.stopCyclic down) k) := by
  obtain ⟨lines, hlog, htraced, hreached⟩ := hop.step k
  rw [drive] at hl ⊢
  rcases hr : down.step k with ⟨⟨_ | _, _ | station, down'⟩, k'⟩
  all_goals rw [hr] at hlog htraced hreached hl
  all_goals refine ⟨lines, hlog, ?_, fun op' h => ?_⟩
  · exact hknown.append lines
  · obtain rfl := Sum.inr.inj (Except.ok.inj h)
    exact htraced
  · exact (hknown.append lines).update (hreached station rfl (keepsLength_since hk hlog hl))
  · obtain rfl := Sum.inr.inj (Except.ok.inj h)
    exact htraced
  · exact hknown.append lines
  · cases h
  · exact (hknown.append lines).update (hreached station rfl (keepsLength_since hk hlog hl))
  · cases h

end Operations

theorem drive_known (m : Master B) {op : Op} {base log : Exchanged} (hknown : Known m.slaves log)
    (hop : op.Traced B m.slaves log) {k : Link} (hk : k.log = base ++ log)
    (hl : ∀ x ∈ (m.drive op k).2.2.log, KeepsLength x) : Knows B log k (m.drive op k) := by
  cases op with
  | rescan fsm => exact knows_rescan hknown hop hk hl
  | state pre => exact knows_state hknown hop hk hl
  | sdo slave pre coe request =>
    cases coe with
    | none => exact knows_sdoPreop hknown hop hk hl
    | some coe => exact knows_sdo hknown
  | startCyclic seq cycleNs => exact knows_startCyclic hknown hop hk hl
  | stopCyclic down => exact knows_stopCyclic hknown hop hk hl

end Master

end EcMaster
