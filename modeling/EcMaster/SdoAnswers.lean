import EcMaster.FsmCoe

namespace EcMaster

open Library.Dialogue Library.Dialogue.Script Library.Segment Library.LittleEndian

def coeSdoResponse : UInt16 := 0x03

def IsCoe (data : List UInt8) : Prop := 16 ≤ data.length ∧ data.getD 5 0 &&& 0x0F = mboxTypeCoe

def coeService (data : List UInt8) : UInt16 := u16Le (slice data 6 2) >>> 12

def sdoCommand (data : List UInt8) : UInt8 := data.getD 8 0

def sdoIndex (data : List UInt8) : UInt16 := u16Le (slice data 9 2)

def sdoSubindex (data : List UInt8) : UInt8 := data.getD 11 0

def Aborts (data : List UInt8) : Prop := sdoCommand data &&& 0xE0 = 0x80

def abortCode (data : List UInt8) : UInt32 := u32Le (slice data 12 4)

def Succeeds (kind : SdoKind) (data : List UInt8) : Prop :=
  ¬Aborts data ∧ (kind = .upload → sdoCommand data &&& 0x02 ≠ 0)

def payload (kind : SdoKind) (data : List UInt8) : List UInt8 :=
  match kind with
  | .download => []
  | .upload => slice data 12 (4 - ((sdoCommand data >>> (2 : UInt8)) &&& 0x03).toNat)

structure AnswersRequest (kind : SdoKind) (index : UInt16) (subindex : UInt8) (data : List UInt8) : Prop where
  coe : IsCoe data
  service : coeService data = coeSdoResponse
  specifier : sdoCommand data &&& 0xE0 = match kind with | .download => 0x60 | .upload => 0x40
  expedited : kind = .upload → sdoCommand data &&& 0x02 ≠ 0
  index : sdoIndex data = index
  subindex : sdoSubindex data = subindex

/-- The outcome that a transfer must have when it reads this content: the answer is accepted with its data, an abort
gives its code, and everything else is an error. -/
structure Judged (kind : SdoKind) (index : UInt16) (subindex : UInt8) (data : List UInt8)
    (r : Except EcError (Bool × FsmCoe)) : Prop where
  answered : AnswersRequest kind index subindex data → ∃ s, r = .ok (true, s) ∧ s.result = payload kind data
  aborted : IsCoe data → Aborts data → r = .error (.sdoAbort (abortCode data))
  refused : ¬AnswersRequest kind index subindex data → ∃ e, r = .error e

/-- A content shows what it is by the mailbox type, its length and the command byte alone: it is no CoE message, or
an abort, or not expedited although an upload must be, or the answer. -/
def Unmistakable (kind : SdoKind) (index : UInt16) (subindex : UInt8) (data : List UInt8) : Prop :=
  ¬IsCoe data ∨ Aborts data ∨ (kind = .upload ∧ sdoCommand data &&& 0x02 = 0) ∨ AnswersRequest kind index subindex data

instance (data : List UInt8) : Decidable (IsCoe data) := by unfold IsCoe; infer_instance

instance (data : List UInt8) : Decidable (Aborts data) := by unfold Aborts; infer_instance

instance (kind : SdoKind) (data : List UInt8) : Decidable (Succeeds kind data) := by unfold Succeeds; infer_instance

instance (kind : SdoKind) (index : UInt16) (subindex : UInt8) (data : List UInt8) :
    Decidable (AnswersRequest kind index subindex data) :=
  decidable_of_iff (IsCoe data ∧ coeService data = coeSdoResponse ∧
    (sdoCommand data &&& 0xE0 = match kind with | .download => 0x60 | .upload => 0x40) ∧
      (kind = .upload → sdoCommand data &&& 0x02 ≠ 0) ∧ sdoIndex data = index ∧ sdoSubindex data = subindex)
    ⟨fun h => ⟨h.1, h.2.1, h.2.2.1, h.2.2.2.1, h.2.2.2.2.1, h.2.2.2.2.2⟩,
      fun h => ⟨h.coe, h.service, h.specifier, h.expedited, h.index, h.subindex⟩⟩

theorem AnswersRequest.succeeds {kind : SdoKind} {index : UInt16} {subindex : UInt8} {data : List UInt8}
    (h : AnswersRequest kind index subindex data) : Succeeds kind data := by
  refine ⟨fun ha => ?_, h.expedited⟩
  have hs := ha.symm.trans h.specifier
  cases kind with
  | download => exact absurd hs (by decide)
  | upload => exact absurd hs (by decide)

theorem parseSdoResponse_eq (kind : SdoKind) (data : List UInt8) : parseSdoResponse kind data =
    if ¬IsCoe data then .error .mailboxProtocol
    else if Aborts data then .error (.sdoAbort (abortCode data))
    else if Succeeds kind data then .ok (payload kind data)
    else .error .mailboxProtocol := by
  rw [parseSdoResponse, parseHeader]
  by_cases hshort : data.length < 6
  · have hcoe : ¬IsCoe data := fun h => absurd h.1 (by omega)
    rw [if_pos hshort, if_pos hcoe]
  rw [if_neg hshort]
  dsimp only
  by_cases hcoe : IsCoe data
  · rw [if_neg (not_not.mpr hcoe.2), if_neg (not_lt.mpr hcoe.1), if_neg (not_not.mpr hcoe)]
    by_cases habort : Aborts data
    · rw [if_pos habort]
      exact if_pos habort
    rw [if_neg habort]
    refine (if_neg habort).trans ?_
    cases kind with
    | download => exact (if_pos ⟨habort, nofun⟩).symm
    | upload =>
      dsimp only
      by_cases hexp : sdoCommand data &&& 0x02 = 0
      · have hfail : ¬Succeeds .upload data := fun h => h.2 rfl hexp
        rw [if_neg hfail]
        exact if_pos hexp
      · have hok : Succeeds .upload data := ⟨habort, fun _ => hexp⟩
        rw [if_pos hok]
        exact if_neg hexp
  · rw [if_pos hcoe]
    by_cases htype : data.getD 5 0 &&& 0x0F = mboxTypeCoe
    · rw [if_neg (not_not.mpr htype), if_pos (not_le.mp fun hlen => hcoe ⟨hlen, htype⟩)]
    · rw [if_pos htype]

theorem returns_readResponse {mbox : Mailbox} {kind : SdoKind} {log : Exchanged} {a : List UInt8} :
    (readResponse mbox kind).Returns log a ↔ ∃ rx reply,
      log = [([⟨.fprd, mbox.stationAddr, mbox.txOffset, mailboxRead mbox⟩], .ok rx)] ∧ parse rx = some reply ∧
        reply.workingCounter = 1 ∧ parseSdoResponse kind reply.data = .ok a := by
  simp only [readResponse, returns_exchange, returns_replied, returns_confirmed]
  constructor
  · rintro ⟨rx, rest, rfl, reply, hp, hw, h⟩
    cases hr : parseSdoResponse kind reply.data with
    | error e =>
      rw [hr] at h
      exact absurd h not_returns_fail
    | ok b =>
      rw [hr] at h
      obtain ⟨rfl, rfl⟩ := returns_done.mp h
      exact ⟨rx, reply, rfl, hp, hw, hr⟩
  · rintro ⟨rx, reply, rfl, hp, hw, hr⟩
    refine ⟨rx, [], rfl, reply, hp, hw, ?_⟩
    rw [hr]
    exact returns_done.mpr ⟨rfl, rfl⟩

def EndsWith (mbox : Mailbox) (log : Exchanged) (reply : Reply) : Prop :=
  ∃ before rx, log = before ++ [([⟨.fprd, mbox.stationAddr, mbox.txOffset, mailboxRead mbox⟩], .ok rx)] ∧
    parse rx = some reply

theorem returns_awaitMailbox {mbox : Mailbox} {kind : SdoKind} {n : ℕ} {log : Exchanged} {result : List UInt8}
    (h : (awaitMailbox mbox kind n).Returns log result) :
    ∃ waits l, log = waits ++ l ∧ (∀ x ∈ waits, x.1 = [⟨.fprd, mbox.stationAddr, regSm1Status, [0]⟩]) ∧
      (readResponse mbox kind).Returns l result := by
  induction n generalizing log with
  | zero =>
    obtain ⟨rx, rest, rfl, hrest⟩ := returns_exchange.mp h
    obtain ⟨reply, -, hnext⟩ := returns_replied.mp hrest
    rw [heardMailbox] at hnext
    split at hnext
    · exact ⟨[_], rest, rfl, by simp, hnext⟩
    · exact absurd hnext not_returns_fail
  | succ n ih =>
    obtain ⟨rx, rest, rfl, hrest⟩ := returns_exchange.mp h
    obtain ⟨reply, -, hnext⟩ := returns_replied.mp hrest
    rw [heardMailbox] at hnext
    split at hnext
    · exact ⟨[_], rest, rfl, by simp, hnext⟩
    · obtain ⟨waits, l, rfl, hw, hl⟩ := ih hnext
      exact ⟨_ :: waits, l, rfl, List.forall_mem_cons.mpr ⟨rfl, hw⟩, hl⟩

theorem ends_transfer {mbox : Mailbox} {kind : SdoKind} {request : List UInt8} {log : Exchanged} {a : List UInt8}
    (h : (transfer mbox kind request).Returns log a) :
    ∃ reply, EndsWith mbox log reply ∧ reply.workingCounter = 1 ∧ parseSdoResponse kind reply.data = .ok a := by
  obtain ⟨written, rest, rfl, hrest⟩ := returns_exchange.mp h
  obtain ⟨confirmation, -, hheard⟩ := returns_replied.mp hrest
  obtain ⟨waits, l, rfl, -, hl⟩ := returns_awaitMailbox (returns_confirmed.mp hheard).2
  obtain ⟨rx, reply, rfl, hp, hr⟩ := returns_readResponse.mp hl
  exact ⟨reply, ⟨_ :: waits, rx, rfl, hp⟩, hr⟩

theorem accepted_of_ok {kind : SdoKind} {data a : List UInt8} (h : parseSdoResponse kind data = .ok a) :
    IsCoe data ∧ Succeeds kind data ∧ a = payload kind data := by
  rw [parseSdoResponse_eq] at h
  split_ifs at h with hcoe habort hok
  exact ⟨hcoe, hok, (Except.ok.inj h).symm⟩

theorem FsmCoe.script_open (s : FsmCoe) : (∀ a, s.script ≠ .done a) ∧ ∀ e, s.script ≠ .fail e := by
  obtain ⟨mbox, kind, index, subindex, reqData, reqLen, state, x, result, waits⟩ := s
  cases state with
  | writeRequest | readResponse | done => exact ⟨nofun, nofun⟩
  | waitMailbox =>
    change (∀ a, x.resume (awaitMailbox mbox kind (maxMboxWaits - 1 - waits)) ≠ .done a) ∧
      ∀ e, x.resume (awaitMailbox mbox kind (maxMboxWaits - 1 - waits)) ≠ .fail e
    cases maxMboxWaits - 1 - waits with
    | zero => exact ⟨nofun, nofun⟩
    | succ n => exact ⟨nofun, nofun⟩

section

variable {mbox : Mailbox} {kind : SdoKind} {log : Exchanged} {rx : List UInt8} {reply : Reply}
  {x : List Access × Except EcError (List UInt8)} {p : Procedure (List UInt8)}

theorem ne_nil_of_last : log ++ [x] ≠ [] := List.append_ne_nil_of_right_ne_nil log (List.cons_ne_nil x [])

theorem reaches_last {request : List Access} {hear : Reply → Procedure (List UInt8)} (hne : x.1 ≠ request)
    (h : (exchange request (replied hear)).Reaches (log ++ [x]) p) :
    ∃ reply rest, (hear reply).Reaches (rest ++ [x]) p := by
  have hfirst {o : Except EcError (List UInt8)} {rest : Exchanged} (hl : log ++ [x] = (request, o) :: rest) :
      ∃ rest', rest = rest' ++ [x] := by
    cases log with
    | nil => exact absurd (congrArg Prod.fst (List.cons.inj hl).1) hne
    | cons y log => exact ⟨log, (List.cons.inj hl).2.symm⟩
  rcases reaches_heard h with ⟨hl, -⟩ | ⟨e, hl, -⟩ | ⟨rx, hl, -⟩ | ⟨rx, reply, rest, hl, -, h⟩
  · exact absurd hl ne_nil_of_last
  · obtain ⟨rest', h'⟩ := hfirst hl
    exact absurd h'.symm ne_nil_of_last
  · obtain ⟨rest', h'⟩ := hfirst hl
    exact absurd h'.symm ne_nil_of_last
  · obtain ⟨rest', rfl⟩ := hfirst hl
    exact ⟨reply, rest', h⟩

def Decides (kind : SdoKind) (reply : Reply) (p : Procedure (List UInt8)) : Prop :=
  p = match parseSdoResponse kind reply.data with
    | .error e => .fail e
    | .ok a => .done a

theorem decides_readResponse
    (h : (readResponse mbox kind).Reaches (log ++ [([⟨.fprd, mbox.stationAddr, mbox.txOffset, mailboxRead mbox⟩], .ok rx)]) p)
    (hp : parse rx = some reply) (hw : reply.workingCounter = 1) : Decides kind reply p := by
  have hend {heard : Reply} {l : Exchanged}
      (h : (confirmed (match parseSdoResponse kind heard.data with
        | .error e => .fail e
        | .ok a => .done a) heard).Reaches l p) : l = [] ∧ (heard.workingCounter = 1 → Decides kind heard p) := by
    rw [confirmed] at h
    split at h
    · next hn => exact ⟨(reaches_fail h).1, fun hw => absurd hw hn⟩
    · rw [Decides]
      cases hparse : parseSdoResponse kind heard.data with
      | error e =>
        rw [hparse] at h
        exact ⟨(reaches_fail h).1, fun _ => (reaches_fail h).2⟩
      | ok a =>
        rw [hparse] at h
        exact ⟨(reaches_done h).1, fun _ => (reaches_done h).2⟩
  rcases reaches_heard h with ⟨hl, -⟩ | ⟨e, hl, -⟩ | ⟨rx', hl, hp', -⟩ | ⟨rx', heard, rest, hl, hp', h⟩
  · exact absurd hl ne_nil_of_last
  · have hx := (List.append_inj' (show log ++ [_] = [] ++ [_] from hl) rfl).2
    cases congrArg Prod.snd (List.singleton_inj.mp hx)
  · have hx := (List.append_inj' (show log ++ [_] = [] ++ [_] from hl) rfl).2
    obtain rfl := Except.ok.inj (congrArg Prod.snd (List.singleton_inj.mp hx))
    cases hp.symm.trans hp'
  · obtain ⟨rfl, hdecides⟩ := hend h
    have hx := (List.append_inj' (show log ++ [_] = [] ++ [_] from hl) rfl).2
    obtain rfl := Except.ok.inj (congrArg Prod.snd (List.singleton_inj.mp hx))
    obtain rfl := Option.some.inj (hp.symm.trans hp')
    exact hdecides hw

theorem mailboxRead_ne (mbox : Mailbox) : mailboxRead mbox ≠ [0] := by
  intro h
  have hl := congrArg List.length h
  rw [mailboxRead, List.length_replicate] at hl
  exact absurd (hl ▸ le_max_left 16 _) (by decide)

theorem decides_awaitMailbox {n : ℕ}
    (h : (awaitMailbox mbox kind n).Reaches
      (log ++ [([⟨.fprd, mbox.stationAddr, mbox.txOffset, mailboxRead mbox⟩], .ok rx)]) p)
    (hp : parse rx = some reply) (hw : reply.workingCounter = 1) : Decides kind reply p := by
  have hne : [(⟨.fprd, mbox.stationAddr, mbox.txOffset, mailboxRead mbox⟩ : Access)] ≠
      [⟨.fprd, mbox.stationAddr, regSm1Status, [0]⟩] := fun hx =>
    mailboxRead_ne mbox (congrArg Access.payload (List.singleton_inj.mp hx))
  induction n generalizing log with
  | zero =>
    obtain ⟨status, rest, h⟩ := reaches_last hne h
    rw [heardMailbox] at h
    split at h
    · exact decides_readResponse h hp hw
    · exact absurd (reaches_fail h).1 ne_nil_of_last
  | succ n ih =>
    obtain ⟨status, rest, h⟩ := reaches_last hne h
    rw [heardMailbox] at h
    split at h
    · exact decides_readResponse h hp hw
    · exact ih h

theorem decides_transfer {content : List UInt8}
    (h : (transfer mbox kind content).Reaches
      (log ++ [([⟨.fprd, mbox.stationAddr, mbox.txOffset, mailboxRead mbox⟩], .ok rx)]) p)
    (hp : parse rx = some reply) (hw : reply.workingCounter = 1) : Decides kind reply p := by
  have hne : [(⟨.fprd, mbox.stationAddr, mbox.txOffset, mailboxRead mbox⟩ : Access)] ≠
      [⟨.fpwr, mbox.stationAddr, mbox.rxOffset, mailboxWrite mbox content⟩] := fun hx =>
    absurd (congrArg Access.command (List.singleton_inj.mp hx)) (by simp)
  obtain ⟨confirmation, rest, h⟩ := reaches_last hne h
  rw [confirmed] at h
  split at h
  · exact absurd (reaches_fail h).1 ne_nil_of_last
  · exact decides_awaitMailbox h hp hw

end

theorem outcome_of_read {mbox : Mailbox} {kind : SdoKind} {index : UInt16} {subindex : UInt8} {reqData : List UInt8}
    {reqLen : ℕ} {es : List (Device × UInt8)} {r : Except EcError (Bool × FsmCoe)} {log : Exchanged}
    (h : calls FsmCoe.step (.new mbox kind index subindex reqData reqLen) [] es = (r, log)) {reply : Reply}
    (he : EndsWith mbox log reply) (hw : reply.workingCounter = 1) :
    match parseSdoResponse kind reply.data with
    | .error e => r = .error e
    | .ok a => ∃ s, r = .ok (true, s) ∧ s.result = a := by
  obtain ⟨lines, hlog, hr⟩ := FsmCoe.fsm.calls_reaches (s := .new mbox kind index subindex reqData reqLen) trivial [] es
  change (FsmCoe.new mbox kind index subindex reqData reqLen).script.Reaches lines _ at hr
  have hcalls : calls FsmCoe.fsm.step (.new mbox kind index subindex reqData reqLen) [] es = (r, log) := h
  rw [hcalls] at hlog hr
  obtain rfl : log = lines := hlog
  obtain ⟨before, rx, rfl, hp⟩ := he
  rw [FsmCoe.script_new] at hr
  have hf := decides_transfer hr hp hw
  rw [Decides] at hf
  cases hparse : parseSdoResponse kind reply.data with
  | error e =>
    rw [hparse] at hf
    rcases r with e' | ⟨_ | _, s⟩
    · exact congrArg Except.error (Script.fail.inj hf)
    · exact absurd hf (s.script_open.2 e)
    · exact absurd hf nofun
  | ok a =>
    rw [hparse] at hf
    rcases r with e' | ⟨_ | _, s⟩
    · exact absurd hf nofun
    · exact absurd hf (s.script_open.1 a)
    · exact ⟨s, rfl, Script.done.inj hf⟩

/-- A transfer that ends with `Ok(true)` has read the mailbox, and what it makes of the content is right if and only
if that is unmistakable. -/
theorem sdo_response_checked (mbox : Mailbox) (kind : SdoKind) (index : UInt16) (subindex : UInt8)
    (reqData : List UInt8) (reqLen : ℕ) {es : List (Device × UInt8)} {r : Except EcError (Bool × FsmCoe)}
    {log : Exchanged} (h : calls FsmCoe.step (.new mbox kind index subindex reqData reqLen) [] es = (r, log)) :
    (∀ s, r = .ok (true, s) → ∃ reply, EndsWith mbox log reply ∧ reply.workingCounter = 1) ∧
      ∀ reply, EndsWith mbox log reply → reply.workingCounter = 1 →
        (Judged kind index subindex reply.data r ↔ Unmistakable kind index subindex reply.data) := by
  constructor
  · rintro s rfl
    have hret := FsmCoe.fsm.returns_of_calls trivial h
    change (FsmCoe.new mbox kind index subindex reqData reqLen).script.Returns log s.result at hret
    rw [FsmCoe.script_new] at hret
    obtain ⟨reply, he, hw, -⟩ := ends_transfer hret
    exact ⟨reply, he, hw⟩
  · intro reply he hw
    have hr := outcome_of_read h he hw
    rw [parseSdoResponse_eq] at hr
    by_cases hcoe : IsCoe reply.data
    · rw [if_neg (not_not.mpr hcoe)] at hr
      by_cases habort : Aborts reply.data
      · rw [if_pos habort] at hr
        exact iff_of_true ⟨fun ha => absurd habort ha.succeeds.1, fun _ _ => hr, fun _ => ⟨_, hr⟩⟩ (Or.inr (Or.inl habort))
      rw [if_neg habort] at hr
      by_cases hok : Succeeds kind reply.data
      · rw [if_pos hok] at hr
        constructor
        · intro hj
          by_contra hu
          obtain ⟨e, he⟩ := hj.refused fun ha => hu (Or.inr (Or.inr (Or.inr ha)))
          obtain ⟨s, hs, -⟩ := hr
          exact absurd (he.symm.trans hs) nofun
        · rintro (hn | ha | ⟨hup, hexp⟩ | ha)
          · exact absurd hcoe hn
          · exact absurd ha habort
          · exact absurd hexp (hok.2 hup)
          · exact ⟨fun _ => hr, fun _ h => absurd h habort, fun hn => absurd ha hn⟩
      · rw [if_neg hok] at hr
        refine iff_of_true ⟨fun ha => absurd ha.succeeds hok, fun _ h => absurd h habort, fun _ => ⟨_, hr⟩⟩ ?_
        refine Or.inr (Or.inr (Or.inl ?_))
        by_contra hn
        exact hok ⟨habort, fun hup hexp => hn ⟨hup, hexp⟩⟩
    · rw [if_pos hcoe] at hr
      exact iff_of_true ⟨fun ha => absurd ha.coe hcoe, fun h => absurd h hcoe, fun _ => ⟨_, hr⟩⟩ (Or.inl hcoe)

def smallMbox : Mailbox := ⟨1, 0x1000, 16, 0x1080, 16⟩

def finding (content : List UInt8) : List (Device × UInt8) :=
  [[], [smStatusMboxFull], content].flatMap fun data => List.replicate 2 (answering data 1)

def statuswordAnswer : List UInt8 := [10, 0, 0, 0, 0, 3, 0x00, 0x30, 0x4B, 0x41, 0x60, 0, 0x37, 0x02, 0, 0]
def controlwordAnswer : List UInt8 := [10, 0, 0, 0, 0, 3, 0x00, 0x30, 0x4B, 0x40, 0x60, 0, 0x0F, 0x00, 0, 0]

def emergency : List UInt8 := [10, 0, 0, 0, 0, 3, 0x00, 0x10, 0x10, 0x23, 1, 0, 0, 0, 0, 0]

theorem endsWith_finding (s : FsmCoe) (content : List UInt8)
    (h : (calls FsmCoe.step s [] (finding content)).2 = (calls FsmCoe.step s [] (finding content)).2.dropLast ++
      [([⟨.fprd, smallMbox.stationAddr, smallMbox.txOffset, mailboxRead smallMbox⟩], .ok (answerFrame .fpwr 0 content 1 []))])
    (hp : parse (answerFrame .fpwr 0 content 1 []) = some ⟨5, 0, 1, content⟩) :
    EndsWith smallMbox (calls FsmCoe.step s [] (finding content)).2 ⟨5, 0, 1, content⟩ :=
  ⟨_, _, h, hp⟩

theorem sdo_response_checked_statusword :
    ∃ s, (calls FsmCoe.step (.upload smallMbox 0x6041 0) [] (finding statuswordAnswer)).1 = .ok (true, s) ∧
      s.result = [0x37, 0x02] := by
  have hread := endsWith_finding (.upload smallMbox 0x6041 0) statuswordAnswer (by decide +kernel)
    (by decide +kernel)
  have hj := ((sdo_response_checked smallMbox .upload 0x6041 0 [0, 0, 0, 0] 0 rfl).2 _ hread rfl).mpr
    (Or.inr (Or.inr (Or.inr (by decide +kernel))))
  exact hj.answered (by decide +kernel)

theorem foreign_accepted :
    (¬∀ mbox kind index subindex reqData reqLen es r log,
      calls FsmCoe.step (.new mbox kind index subindex reqData reqLen) [] es = (r, log) →
        ∀ reply, EndsWith mbox log reply → reply.workingCounter = 1 → Judged kind index subindex reply.data r) ∧
      finished (calls FsmCoe.step (.download smallMbox 0x6060 0 [8]) [] (finding emergency)).1 = true := by
  refine ⟨fun h => ?_, by decide +kernel⟩
  have hread := endsWith_finding (.upload smallMbox 0x6041 0) controlwordAnswer (by decide +kernel)
    (by decide +kernel)
  have hj := h smallMbox .upload 0x6041 0 [0, 0, 0, 0] 0 _ _ _ rfl _ hread rfl
  obtain ⟨e, he⟩ := hj.refused (by decide +kernel)
  have hok : finished (calls FsmCoe.step (.new smallMbox .upload 0x6041 0 [0, 0, 0, 0] 0) []
      (finding controlwordAnswer)).1 = true := by decide +kernel
  rw [he] at hok
  exact absurd hok Bool.false_ne_true

end EcMaster
