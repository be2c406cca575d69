import EcMaster.SdoAnswers

namespace EcMaster

open Library.Dialogue Library.Dialogue.Script Library.Segment Library.LittleEndian

def sdoMessage (counter cmd : UInt8) (index : UInt16) (subindex : UInt8) (data : List UInt8) : List UInt8 :=
  mailboxHeader 10 mboxTypeCoe counter ++ leBytes 2 (coeSdoResponse <<< (12 : UInt16)).toNat ++ [cmd] ++
    leBytes 2 index.toNat ++ [subindex] ++ data

/-- A CANopen server that knows expedited transfers: the objects, the counter of its messages, and the message in its
transmit mailbox. -/
structure SdoServer where
  objects : UInt16 → UInt8 → List UInt8
  counter : UInt8
  answer : Option (List UInt8)

namespace SdoServer

def store (srv : SdoServer) (index : UInt16) (subindex : UInt8) (bytes : List UInt8) : SdoServer :=
  { srv with objects := fun i s => if i = index ∧ s = subindex then bytes else srv.objects i s }

def say (srv : SdoServer) (cmd : UInt8) (index : UInt16) (subindex : UInt8) (data : List UInt8) : SdoServer :=
  { srv with counter := srv.counter + 1, answer := some (sdoMessage srv.counter cmd index subindex data) }

def take (srv : SdoServer) (msg : List UInt8) : SdoServer :=
  let index := sdoIndex msg
  let subindex := sdoSubindex msg
  if ¬(srv.answer = none ∧ IsCoe msg ∧ coeService msg = coeSdoRequest) then srv
  else if sdoCommand msg &&& 0xE3 = 0x23 then
    (srv.store index subindex (slice msg 12 (4 - ((sdoCommand msg >>> (2 : UInt8)) &&& 0x03).toNat))).say 0x60 index
      subindex [0, 0, 0, 0]
  else if sdoCommand msg &&& 0xE0 = 0x40 then
    let stored := srv.objects index subindex
    srv.say (0x43 ||| (UInt8.ofNat (4 - stored.length) <<< (2 : UInt8))) index subindex (padded stored)
  else srv

end SdoServer

def statusRead (mbox : Mailbox) : Access := ⟨.fprd, mbox.stationAddr, regSm1Status, [0]⟩

def contentRead (mbox : Mailbox) : Access := ⟨.fprd, mbox.stationAddr, mbox.txOffset, mailboxRead mbox⟩

def requestWrite (mbox : Mailbox) (request : List UInt8) : Access :=
  ⟨.fpwr, mbox.stationAddr, mbox.rxOffset, mailboxWrite mbox request⟩

namespace SdoServer

def after (srv : SdoServer) (mbox : Mailbox) : List Access → SdoServer
  | [a] =>
    if a.command = .fpwr ∧ a.adp = mbox.stationAddr ∧ a.ado = mbox.rxOffset then
      if mbox.rxSize.toNat ≤ a.payload.length then srv.take a.payload else srv
    else if a = contentRead mbox ∧ mbox.txSize.toNat ≤ a.payload.length then { srv with answer := none }
    else srv
  | _ => srv

def Replies (srv : SdoServer) (mbox : Mailbox) (request : List Access) (reply : Reply) : Prop :=
  if request = [statusRead mbox] then
    reply.workingCounter = 1 ∧ (reply.data.headD 0 &&& smStatusMboxFull ≠ 0 → srv.answer.isSome)
  else if request = [contentRead mbox] then
    match srv.answer with
    | some msg => reply.workingCounter = 1 ∧ msg <+: reply.data
    | none => reply.workingCounter = 0
  else reply.workingCounter = 1

def Answered (srv : SdoServer) (mbox : Mailbox) (request : List Access) : Except EcError (List UInt8) → Prop
  | .error _ => False
  | .ok rx => ∃ reply ∈ parse rx, srv.Replies mbox request reply

def Serves (mbox : Mailbox) : SdoServer → Exchanged → Prop
  | _, [] => True
  | srv, (request, o) :: log => srv.Answered mbox request o ∧ Serves mbox (srv.after mbox request) log

def afterAll (srv : SdoServer) (mbox : Mailbox) (log : Exchanged) : SdoServer :=
  log.foldl (fun s x => s.after mbox x.1) srv

end SdoServer

def notFull (mbox : Mailbox) (x : List Access × Except EcError (List UInt8)) : Bool :=
  decide (x.1 = [statusRead mbox]) && match x.2 with
    | .ok rx => (parse rx).any fun reply => decide (reply.data.headD 0 &&& smStatusMboxFull = 0)
    | .error _ => false

/-- Every exchange gets the server's reply within its polls, and the mailbox is full before the master gives it up. -/
def Fair (mbox : Mailbox) (srv : SdoServer) (log : Exchanged) : Prop :=
  srv.Serves mbox log ∧ log.countP (notFull mbox) < maxMboxWaits

def Lives (mbox : Mailbox) (P : List UInt8 → SdoServer → Prop) : Procedure (List UInt8) → SdoServer → ℕ → Prop
  | .done a, srv, _ => P a srv
  | .fail _, _, _ => False
  | .skip next, srv, n => Lives mbox P next srv n
  | .ask request next, srv, n =>
    ∀ rx reply, parse rx = some reply → srv.Replies mbox request reply →
      ∀ m, (if notFull mbox (request, .ok rx) then m + 1 = n else m = n) →
        Lives mbox P (next (.ok rx)) (srv.after mbox request) m

theorem lives_reaches {mbox : Mailbox} {P : List UInt8 → SdoServer → Prop} {p r : Procedure (List UInt8)} {log : Exchanged}
    (hr : p.Reaches log r) {srv : SdoServer} {n : ℕ} (hp : Lives mbox P p srv n) (hs : srv.Serves mbox log)
    (hn : log.countP (notFull mbox) ≤ n) :
    Lives mbox P r (srv.afterAll mbox log) (n - log.countP (notFull mbox)) := by
  induction hr generalizing srv n with
  | here => exact hp
  | skip _ ih => exact ih hp hs hn
  | @ask request next o r log _ ih =>
    obtain ⟨hans, hrest⟩ := hs
    cases o with
    | error e => exact absurd hans id
    | ok rx =>
    obtain ⟨reply, hparse, hreply⟩ := hans
    rw [List.countP_cons] at hn ⊢
    have hone := hp rx reply hparse hreply (n - if notFull mbox (request, .ok rx) then 1 else 0) (by
      split_ifs at hn ⊢ <;> omega)
    have hlast := ih hone hrest (by omega)
    rw [Nat.sub_sub, Nat.add_comm] at hlast
    exact hlast

theorem lives_exchange {mbox : Mailbox} {P : List UInt8 → SdoServer → Prop} {request : List Access}
    {hear : Reply → Procedure (List UInt8)} {srv : SdoServer} {n : ℕ}
    (h : ∀ rx reply, parse rx = some reply → srv.Replies mbox request reply →
      ∀ m, (if notFull mbox (request, .ok rx) then m + 1 = n else m = n) →
        Lives mbox P (hear reply) (srv.after mbox request) m) :
    Lives mbox P (exchange request (replied hear)) srv n := by
  intro rx reply hparse hreply m hm
  dsimp only
  rw [replied, hparse]
  exact h rx reply hparse hreply m hm

theorem notFull_eq_false {mbox : Mailbox} {request : List Access} (h : request ≠ [statusRead mbox])
    (o : Except EcError (List UInt8)) : notFull mbox (request, o) = false := by
  rw [notFull, decide_eq_false h, Bool.false_and]

theorem statusRead_ne (mbox : Mailbox) : [contentRead mbox] ≠ [statusRead mbox] := by
  intro h
  have hl := congrArg (fun a : List Access => (a.map fun x => x.payload.length)) h
  simp [contentRead, statusRead, mailboxRead] at hl
  omega

theorem requestWrite_ne_status (mbox : Mailbox) (request : List UInt8) : [requestWrite mbox request] ≠ [statusRead mbox] := by
  intro h
  exact absurd (show Command.fpwr = .fprd from congrArg Access.command (List.cons.inj h).1) (by decide)

theorem requestWrite_ne_content (mbox : Mailbox) (request : List UInt8) :
    [requestWrite mbox request] ≠ [contentRead mbox] := by
  intro h
  exact absurd (show Command.fpwr = .fprd from congrArg Access.command (List.cons.inj h).1) (by decide)

theorem after_status (srv : SdoServer) (mbox : Mailbox) : srv.after mbox [statusRead mbox] = srv := by
  rw [SdoServer.after, if_neg (fun h => absurd h.1 (by decide : Command.fprd ≠ .fpwr)), if_neg]
  intro h
  exact statusRead_ne mbox (by rw [h.1])

theorem after_content {mbox : Mailbox} (htx : mbox.txSize.toNat ≤ 256) (srv : SdoServer) :
    srv.after mbox [contentRead mbox] = { srv with answer := none } := by
  have hlast : mbox.txSize.toNat ≤ (contentRead mbox).payload.length := by
    rw [contentRead, mailboxRead, List.length_replicate, maxMboxRead]
    omega
  rw [SdoServer.after, if_neg (fun h => absurd h.1 (by decide : Command.fprd ≠ .fpwr)), if_pos ⟨rfl, hlast⟩]

theorem lives_readResponse {mbox : Mailbox} (htx : mbox.txSize.toNat ≤ 256) {P : List UInt8 → SdoServer → Prop} {kind : SdoKind} {srv : SdoServer}
    {msg : List UInt8} (hans : srv.answer = some msg)
    (hok : ∀ data, msg <+: data → ∃ a, parseSdoResponse kind data = .ok a ∧ P a { srv with answer := none }) (n : ℕ) :
    Lives mbox P (readResponse mbox kind) srv n := by
  refine lives_exchange fun rx reply _ hreply m _ => ?_
  change SdoServer.Replies srv mbox [contentRead mbox] reply at hreply
  rw [SdoServer.Replies, if_neg (statusRead_ne mbox), if_pos rfl, hans] at hreply
  obtain ⟨a, ha, hP⟩ := hok reply.data hreply.2
  rw [confirmed, if_neg (not_not.mpr hreply.1), ha]
  change P a (srv.after mbox [contentRead mbox])
  rw [after_content htx]
  exact hP

theorem lives_awaitMailbox {mbox : Mailbox} (htx : mbox.txSize.toNat ≤ 256) {P : List UInt8 → SdoServer → Prop} {kind : SdoKind} {srv : SdoServer}
    {msg : List UInt8} (hans : srv.answer = some msg)
    (hok : ∀ data, msg <+: data → ∃ a, parseSdoResponse kind data = .ok a ∧ P a { srv with answer := none }) {k n : ℕ}
    (hn : n ≤ k) : Lives mbox P (awaitMailbox mbox kind k) srv n := by
  have hstatus : ∀ {again : Procedure (List UInt8)} {n : ℕ}, (∀ m, m + 1 = n → Lives mbox P again srv m) →
      Lives mbox P (exchange [statusRead mbox] (replied (heardMailbox (readResponse mbox kind) again))) srv n := by
    intro again n hagain
    refine lives_exchange fun rx reply hparse hreply m hm => ?_
    rw [SdoServer.Replies, if_pos rfl] at hreply
    rw [after_status, heardMailbox]
    split_ifs with hfull
    · exact lives_readResponse htx hans hok m
    · have hclear : reply.data.headD 0 &&& smStatusMboxFull = 0 := not_not.mp fun h => hfull ⟨hreply.1, h⟩
      have hnot : notFull mbox ([statusRead mbox], .ok rx) = true := by
        rw [notFull, decide_eq_true rfl]
        dsimp only
        rw [hparse, Option.any_some, decide_eq_true hclear, Bool.and_self]
      rw [if_pos hnot] at hm
      exact hagain m hm
  induction k generalizing n with
  | zero =>
    obtain rfl := Nat.le_zero.mp hn
    exact hstatus fun m hm => absurd hm (Nat.succ_ne_zero m)
  | succ k ih => exact hstatus fun m hm => ih (by omega)

theorem lives_transfer {mbox : Mailbox} (htx : mbox.txSize.toNat ≤ 256) {P : List UInt8 → SdoServer → Prop} {kind : SdoKind} {request : List UInt8}
    {srv srv' : SdoServer} {msg : List UInt8} (hafter : srv.after mbox [requestWrite mbox request] = srv')
    (hans : srv'.answer = some msg)
    (hok : ∀ data, msg <+: data → ∃ a, parseSdoResponse kind data = .ok a ∧ P a { srv' with answer := none }) :
    Lives mbox P (transfer mbox kind request) srv (maxMboxWaits - 1) := by
  refine lives_exchange fun rx reply _ hreply m hm => ?_
  change SdoServer.Replies srv mbox [requestWrite mbox request] reply at hreply
  rw [SdoServer.Replies, if_neg (requestWrite_ne_status mbox request), if_neg (requestWrite_ne_content mbox request)]
    at hreply
  have hfresh : notFull mbox ([requestWrite mbox request], .ok rx) = false :=
    notFull_eq_false (requestWrite_ne_status mbox request) _
  change (if notFull mbox ([requestWrite mbox request], .ok rx) then _ else _) at hm
  rw [hfresh, if_neg (by decide)] at hm
  rw [confirmed, if_neg (not_not.mpr hreply)]
  change Lives mbox P _ (srv.after mbox [requestWrite mbox request]) m
  rw [hafter]
  exact lives_awaitMailbox htx hans hok hm.le

theorem transfer_ends {mbox : Mailbox} {P : List UInt8 → SdoServer → Prop} {s : FsmCoe} {srv : SdoServer}
    (hlives : Lives mbox P s.script srv (maxMboxWaits - 1)) {es : ℕ → Device × UInt8}
    (hfair : ∀ n, Fair mbox srv (calls FsmCoe.step s [] (polls es n)).2) :
    ∃ n s' log, calls FsmCoe.step s [] (polls es n) = (.ok (true, s'), log) ∧ P s'.result (srv.afterAll mbox log) := by
  obtain ⟨n, hn⟩ := FsmCoe.fsm.calls_end (s := s) trivial es
  obtain ⟨lines, hlog, hr⟩ := FsmCoe.fsm.calls_reaches (s := s) trivial [] (polls es n)
  obtain ⟨hs, hcount⟩ := hfair n
  change (calls FsmCoe.step s [] (polls es n)).2 = [] ++ lines at hlog
  rw [List.nil_append] at hlog
  rw [hlog] at hs hcount
  have hl := lives_reaches hr hlives hs (by omega)
  refine ⟨n, ?_⟩
  rcases hc : calls FsmCoe.step s [] (polls es n) with ⟨e | ⟨_ | _, s'⟩, log⟩
  · change Lives mbox P (position _ _ _ (calls FsmCoe.step s [] (polls es n)).1).1 _ _ at hl
    rw [hc] at hl
    exact absurd hl id
  · exact absurd (congrArg Prod.fst hc) (hn s')
  · change Lives mbox P (position _ _ _ (calls FsmCoe.step s [] (polls es n)).1).1 _ _ at hl
    rw [hc] at hl hlog
    obtain rfl : log = lines := hlog
    exact ⟨s', log, rfl, hl⟩

def sdoBytes (flags : UInt8) (service : UInt16) (cmd : UInt8) (index : UInt16) (subindex : UInt8) (data : List UInt8) :
    List UInt8 :=
  [10, 0, 0, 0, 0, flags] ++ leBytes 2 (service <<< (12 : UInt16)).toNat ++ [cmd] ++ leBytes 2 index.toNat ++ [subindex] ++ data

structure Fields (msg : List UInt8) (service : UInt16) (cmd : UInt8) (index : UInt16) (subindex : UInt8)
    (data : List UInt8) : Prop where
  coe : IsCoe msg
  service : coeService msg = (service <<< (12 : UInt16)) >>> (12 : UInt16)
  command : sdoCommand msg = cmd
  index : sdoIndex msg = index
  subindex : sdoSubindex msg = subindex
  data : ∀ n ≤ data.length, slice msg 12 n = data.take n

theorem fields_of_starts {flags : UInt8} {service : UInt16} {cmd : UInt8} {index : UInt16} {subindex : UInt8}
    {data msg : List UInt8} (hf : flags &&& 0x0F = mboxTypeCoe) (hd : data.length = 4)
    (h : sdoBytes flags service cmd index subindex data <+: msg) : Fields msg service cmd index subindex data := by
  obtain ⟨rest, rfl⟩ := h
  have hindex := u16Le_leBytes index
  have hservice := u16Le_leBytes (service <<< (12 : UInt16))
  refine ⟨⟨?_, hf⟩, ?_, rfl, hindex, rfl, fun n hn => ?_⟩
  · simp [sdoBytes, hd]
    omega
  · exact congrArg (fun w : UInt16 => w >>> (12 : UInt16)) hservice
  · have hsplit : sdoBytes flags service cmd index subindex data ++ rest =
        sdoBytes flags service cmd index subindex [] ++ (data ++ rest) := by simp [sdoBytes]
    have hlen : (sdoBytes flags service cmd index subindex []).length = 12 := by simp [sdoBytes]
    rw [hsplit, slice, List.drop_left' hlen, List.take_append_of_le_length hn]

theorem command_sizes : ∀ n ∈ [1, 2, 3, 4],
    ((0x23 ||| (UInt8.ofNat (4 - n) <<< (2 : UInt8))) &&& 0xE3 = 0x23) ∧
    4 - (((0x23 ||| (UInt8.ofNat (4 - n) <<< (2 : UInt8))) >>> (2 : UInt8)) &&& (0x03 : UInt8)).toNat = n ∧
    ((0x43 ||| (UInt8.ofNat (4 - n) <<< (2 : UInt8))) &&& 0xE0 ≠ (0x80 : UInt8)) ∧
    ((0x43 ||| (UInt8.ofNat (4 - n) <<< (2 : UInt8))) &&& 0x02 ≠ (0 : UInt8)) ∧
    4 - (((0x43 ||| (UInt8.ofNat (4 - n) <<< (2 : UInt8))) >>> (2 : UInt8)) &&& (0x03 : UInt8)).toNat = n := by
  decide

theorem coe_flags (counter : UInt8) :
    ((mboxTypeCoe &&& 0x0F) ||| ((counter &&& 0x07) <<< (4 : UInt8))) &&& 0x0F = mboxTypeCoe := by
  apply UInt8.toBitVec_inj.mp
  obtain ⟨v⟩ := counter
  revert v
  decide

theorem padded_take {data : List UInt8} (h : data.length ≤ 4) : (padded data).length = 4 ∧
    (padded data).take data.length = data := by
  have hfront : padded data = data ++ (List.replicate 4 0).drop data.length := by
    rw [padded, List.take_of_length_le h, overwrite_front _ _ (by simpa using h)]
  rw [hfront]
  constructor
  · simp
    omega
  · exact List.take_left' rfl

theorem download_bytes (index : UInt16) (subindex : UInt8) (data : List UInt8) (n : ℕ) :
    sdoRequest .download index subindex data n =
      sdoBytes 3 coeSdoRequest (0x23 ||| (UInt8.ofNat (4 - min n 4) <<< (2 : UInt8))) index subindex data := by
  simp only [sdoRequest, sdoBytes, List.append_assoc]
  rfl

theorem upload_bytes (index : UInt16) (subindex : UInt8) :
    sdoRequest .upload index subindex [0, 0, 0, 0] 0 = sdoBytes 3 coeSdoRequest 0x40 index subindex [0, 0, 0, 0] := by
  simp only [sdoRequest, sdoBytes, List.append_assoc]
  rfl

theorem request_starts {mbox : Mailbox} {request : List UInt8} (h : request.length = 16) :
    request <+: mailboxWrite mbox request := by
  rw [mailboxWrite, overwrite_front _ _ (by rw [h, List.length_replicate]; decide), List.take_append]
  have hk : request.take (max 16 (min mbox.rxSize.toNat maxMboxWrite)) = request :=
    List.take_of_length_le (by rw [h]; exact le_max_left _ _)
  rw [hk]
  exact List.prefix_append _ _

theorem length_mailboxWrite (mbox : Mailbox) (request : List UInt8) :
    (mailboxWrite mbox request).length = max 16 (min mbox.rxSize.toNat maxMboxWrite) := by
  rw [mailboxWrite, List.length_take, length_overwrite, List.length_replicate, maxMboxWrite]
  omega

theorem after_request {mbox : Mailbox} (hrx : mbox.rxSize.toNat ≤ 256) (srv : SdoServer) (request : List UInt8) :
    srv.after mbox [requestWrite mbox request] = srv.take (mailboxWrite mbox request) := by
  have hfull : mbox.rxSize.toNat ≤ (mailboxWrite mbox request).length := by
    rw [length_mailboxWrite, maxMboxWrite]
    omega
  exact (if_pos ⟨rfl, rfl, rfl⟩).trans (if_pos hfull)

theorem take_download {mbox : Mailbox} {srv : SdoServer} (hfree : srv.answer = none) (index : UInt16) (subindex : UInt8) {data : List UInt8}
    (h₁ : 1 ≤ data.length) (h₄ : data.length ≤ 4) :
    srv.take (mailboxWrite mbox (sdoRequest .download index subindex (padded data) (min data.length 4))) =
      (srv.store index subindex data).say 0x60 index subindex [0, 0, 0, 0] := by
  obtain ⟨hpad, htake⟩ := padded_take h₄
  have hn : data.length ∈ [1, 2, 3, 4] := by simp; omega
  obtain ⟨hmask, hsize, -⟩ := command_sizes _ hn
  have hmin : min (min data.length 4) 4 = data.length := by omega
  have hlen : (sdoRequest .download index subindex (padded data) (min data.length 4)).length = 16 := by
    simp [sdoRequest, mailboxHeader, hpad]
  have hf : Fields (mailboxWrite mbox (sdoRequest .download index subindex (padded data) (min data.length 4)))
      coeSdoRequest (0x23 ||| (UInt8.ofNat (4 - data.length) <<< (2 : UInt8))) index subindex (padded data) := by
    apply @fields_of_starts 3 _ _ _ _ _ _ rfl hpad
    have hb := download_bytes index subindex (padded data) (min data.length 4)
    rw [hmin] at hb
    rw [← hb]
    exact request_starts hlen
  rw [SdoServer.take]
  dsimp only
  rw [if_neg (not_not.mpr ⟨hfree, hf.coe, hf.service⟩), hf.command, if_pos hmask, hf.index, hf.subindex, hsize,
    hf.data _ (by omega), htake]

theorem take_upload {mbox : Mailbox} {srv : SdoServer} (hfree : srv.answer = none) (index : UInt16) (subindex : UInt8) :
    srv.take (mailboxWrite mbox (sdoRequest .upload index subindex [0, 0, 0, 0] 0)) =
      srv.say (0x43 ||| (UInt8.ofNat (4 - (srv.objects index subindex).length) <<< (2 : UInt8))) index subindex
        (padded (srv.objects index subindex)) := by
  have hlen : (sdoRequest .upload index subindex [0, 0, 0, 0] 0).length = 16 := by simp [sdoRequest, mailboxHeader]
  have hf : Fields (mailboxWrite mbox (sdoRequest .upload index subindex [0, 0, 0, 0] 0))
      coeSdoRequest 0x40 index subindex [0, 0, 0, 0] := by
    apply @fields_of_starts 3 _ _ _ _ _ _ rfl rfl
    rw [← upload_bytes]
    exact request_starts hlen
  rw [SdoServer.take]
  dsimp only
  rw [if_neg (not_not.mpr ⟨hfree, hf.coe, hf.service⟩), hf.command, if_neg (by decide), if_pos (by decide), hf.index, hf.subindex]

theorem message_fields {counter cmd : UInt8} {index : UInt16} {subindex : UInt8} {data msg : List UInt8}
    (hd : data.length = 4) (h : sdoMessage counter cmd index subindex data <+: msg) :
    Fields msg coeSdoResponse cmd index subindex data :=
  fields_of_starts (coe_flags counter) hd h

theorem parse_confirmation {counter : UInt8} {index : UInt16} {subindex : UInt8} {msg : List UInt8}
    (h : sdoMessage counter 0x60 index subindex [0, 0, 0, 0] <+: msg) : parseSdoResponse .download msg = .ok [] := by
  have hf := message_fields rfl h
  have habort : ¬Aborts msg := by
    rw [Aborts, hf.command]
    decide
  rw [parseSdoResponse_eq, if_neg (not_not.mpr hf.coe), if_neg habort, if_pos ⟨habort, nofun⟩, payload]

theorem parse_stored {counter : UInt8} {index : UInt16} {subindex : UInt8} {data msg : List UInt8}
    (h₁ : 1 ≤ data.length) (h₄ : data.length ≤ 4)
    (h : sdoMessage counter (0x43 ||| (UInt8.ofNat (4 - data.length) <<< (2 : UInt8))) index subindex (padded data) <+: msg) :
    parseSdoResponse .upload msg = .ok data := by
  obtain ⟨hpad, htake⟩ := padded_take h₄
  have hf := message_fields hpad h
  have hn : data.length ∈ [1, 2, 3, 4] := by simp; omega
  obtain ⟨-, -, hno, hexp, hsize⟩ := command_sizes _ hn
  have habort : ¬Aborts msg := by
    rw [Aborts, hf.command]
    exact hno
  have hok : Succeeds .upload msg := ⟨habort, fun _ => by rw [hf.command]; exact hexp⟩
  rw [parseSdoResponse_eq, if_neg (not_not.mpr hf.coe), if_neg habort, if_pos hok, payload, hf.command, hsize,
    hf.data _ (by omega), htake]

theorem lives_download {mbox : Mailbox} (hrx : mbox.rxSize.toNat ≤ 256) (htx : mbox.txSize.toNat ≤ 256)
    {srv : SdoServer} (hfree : srv.answer = none) (index : UInt16) (subindex : UInt8) {data : List UInt8}
    (h₁ : 1 ≤ data.length) (h₄ : data.length ≤ 4) :
    Lives mbox (fun a srv' => a = [] ∧ srv'.answer = none ∧ srv'.objects index subindex = data)
      (FsmCoe.download mbox index subindex data).script srv (maxMboxWaits - 1) := by
  rw [FsmCoe.download, FsmCoe.script_new]
  have htake := (after_request hrx srv _).trans (take_download hfree index subindex h₁ h₄)
  refine lives_transfer htx htake rfl fun msg hmsg => ?_
  exact ⟨[], parse_confirmation hmsg, rfl, rfl, if_pos ⟨rfl, rfl⟩⟩

theorem lives_upload {mbox : Mailbox} (hrx : mbox.rxSize.toNat ≤ 256) (htx : mbox.txSize.toNat ≤ 256)
    {srv : SdoServer} (hfree : srv.answer = none) {index : UInt16} {subindex : UInt8} {data : List UInt8}
    (hdata : srv.objects index subindex = data) (h₁ : 1 ≤ data.length) (h₄ : data.length ≤ 4) :
    Lives mbox (fun a _ => a = data) (FsmCoe.upload mbox index subindex).script srv (maxMboxWaits - 1) := by
  rw [FsmCoe.upload, FsmCoe.script_new]
  have htake := (after_request hrx srv _).trans (take_upload hfree index subindex)
  refine lives_transfer htx htake rfl fun msg hmsg => ?_
  rw [hdata] at hmsg
  exact ⟨data, parse_stored h₁ h₄ hmsg, rfl⟩

/-- The access writes the whole receive mailbox, and its frame carries it to the wire. -/
structure FillsMailbox (mbox : Mailbox) (a : Access) : Prop where
  command : a.command = .fpwr
  station : a.adp = mbox.stationAddr
  offset : a.ado = mbox.rxOffset
  length : a.payload.length = mbox.rxSize.toNat
  frame : ∀ i, walk (Access.frame FsmCoe.buffers.tx i [a]) = laidOut ecFrameHeaderSize [(a.request i).datagram]

theorem requestWrite_fills {mbox : Mailbox} (h₁₆ : 16 ≤ mbox.rxSize.toNat) (hrx : mbox.rxSize.toNat ≤ 256)
    (request : List UInt8) : FillsMailbox mbox (requestWrite mbox request) := by
  have hlen : (mailboxWrite mbox request).length = mbox.rxSize.toNat := by
    rw [length_mailboxWrite, maxMboxWrite]
    omega
  refine ⟨rfl, rfl, rfl, hlen, fun i => ?_⟩
  have hroom : room [(requestWrite mbox request).request i] = 12 + mbox.rxSize.toNat := by
    rw [← hlen]
    rfl
  have hbuf : (List.replicate FsmCoe.buffers.tx (0 : UInt8)).length = 320 := List.length_replicate
  obtain ⟨init, last, hone, henc⟩ := @packed_encodes (List.replicate FsmCoe.buffers.tx 0)
    ((requestWrite mbox request).request i) [] (by omega) (by omega)
  have hback := (encodes_readsBack henc (by rw [hone]; omega)).walk
  rw [hone] at hback
  exact hback

theorem writes_first {mbox : Mailbox} (h₁₆ : 16 ≤ mbox.rxSize.toNat) (hrx : mbox.rxSize.toNat ≤ 256) {index : UInt16}
    {subindex : UInt8} {data : List UInt8} {es : List (Device × UInt8)} {s : FsmCoe} {log : Exchanged}
    (h : calls FsmCoe.step (.download mbox index subindex data) [] es = (.ok (true, s), log)) :
    ∃ a rx rest, log = ([a], .ok rx) :: rest ∧ FillsMailbox mbox a := by
  have hret : (FsmCoe.download mbox index subindex data).script.Returns log s.result :=
    FsmCoe.fsm.returns_of_calls trivial h
  rw [FsmCoe.download, FsmCoe.script_new, transfer] at hret
  obtain ⟨rx, rest, rfl, -⟩ := returns_exchange.mp hret
  exact ⟨_, rx, rest, rfl, requestWrite_fills h₁₆ hrx _⟩

/-- Served in time, a download and then an upload both come to `Ok(true)`, and the upload returns the bytes of the
download. -/
theorem sdo_roundTrip {mbox : Mailbox} (hrx : 16 ≤ mbox.rxSize.toNat ∧ mbox.rxSize.toNat ≤ 256)
    (htx : 16 ≤ mbox.txSize.toNat ∧ mbox.txSize.toNat ≤ 256) (index : UInt16) (subindex : UInt8) {data : List UInt8}
    (hdata : 1 ≤ data.length ∧ data.length ≤ 4) {srv : SdoServer} (hfree : srv.answer = none) {es : ℕ → Device × UInt8}
    (hfair : ∀ n, Fair mbox srv (calls FsmCoe.step (.download mbox index subindex data) [] (polls es n)).2) :
    ∃ n s log, calls FsmCoe.step (.download mbox index subindex data) [] (polls es n) = (.ok (true, s), log) ∧
      (∃ a rx rest, log = ([a], .ok rx) :: rest ∧ FillsMailbox mbox a) ∧
      ∀ fs : ℕ → Device × UInt8,
        (∀ m, Fair mbox (srv.afterAll mbox log) (calls FsmCoe.step (.upload mbox index subindex) [] (polls fs m)).2) →
          ∃ m s' log', calls FsmCoe.step (.upload mbox index subindex) [] (polls fs m) = (.ok (true, s'), log') ∧
            s'.result = data := by
  obtain ⟨n, s, log, hrun, -, hfree', hstored⟩ :=
    transfer_ends (lives_download hrx.2 htx.2 hfree index subindex hdata.1 hdata.2) hfair
  refine ⟨n, s, log, hrun, writes_first hrx.1 hrx.2 hrun, fun fs hfairUp => ?_⟩
  exact transfer_ends (lives_upload hrx.2 htx.2 hfree' hstored hdata.1 hdata.2) hfairUp

instance (srv : SdoServer) (mbox : Mailbox) (request : List Access) (reply : Reply) :
    Decidable (srv.Replies mbox request reply) := by
  unfold SdoServer.Replies
  cases srv.answer <;> infer_instance

instance (srv : SdoServer) (mbox : Mailbox) (request : List Access) (o : Except EcError (List UInt8)) :
    Decidable (srv.Answered mbox request o) :=
  match o with
  | .error _ => inferInstanceAs (Decidable False)
  | .ok rx => decidable_of_iff ((parse rx).any fun reply => decide (srv.Replies mbox request reply)) (by
      rw [SdoServer.Answered]
      cases parse rx <;> simp)

instance decidableServes (mbox : Mailbox) : ∀ (srv : SdoServer) (log : Exchanged), Decidable (srv.Serves mbox log)
  | _, [] => inferInstanceAs (Decidable True)
  | srv, (request, _) :: log => @instDecidableAnd _ _ _ (decidableServes mbox (srv.after mbox request) log)

instance (mbox : Mailbox) (srv : SdoServer) (log : Exchanged) : Decidable (Fair mbox srv log) := by
  unfold Fair
  infer_instance

def offers (replies : List (List UInt8)) (i : ℕ) : Device × UInt8 := answering (replies.getD (i / 2) []) 1

def emptyServer : SdoServer := ⟨fun _ _ => [], 1, none⟩

def confirms : ℕ → Device × UInt8 := offers [[], [0], [8], sdoMessage 1 0x60 0x6040 0 [0, 0, 0, 0]]

def returnsStored : ℕ → Device × UInt8 := offers [[], [8], sdoMessage 2 0x4B 0x6040 0 [0x0F, 0x01, 0, 0]]

theorem sdo_roundTrip_two : ∃ n s log m s' log',
    calls FsmCoe.step (.download smallMbox 0x6040 0 [0x0F, 0x01]) [] (polls confirms n) = (.ok (true, s), log) ∧
      calls FsmCoe.step (.upload smallMbox 0x6040 0) [] (polls returnsStored m) = (.ok (true, s'), log') ∧
      s'.result = [0x0F, 0x01] := by
  have hdown := calls_always (P := fun r => Fair smallMbox emptyServer r.2 ∧ (finished r.1 = true →
      ∀ m < 7, Fair smallMbox (emptyServer.afterAll smallMbox r.2)
        (calls FsmCoe.step (.upload smallMbox 0x6040 0) [] (polls returnsStored m)).2))
    (show finished (calls FsmCoe.step (.download smallMbox 0x6040 0 [0x0F, 0x01]) [] (polls confirms 8)).1 = true by
      decide +kernel) (by decide +kernel)
  obtain ⟨n, s, log, hrun, -, hup⟩ := sdo_roundTrip (by decide) (by decide) 0x6040 0 (by decide) rfl fun n => (hdown n).1
  have hfair := (hdown n).2
  rw [hrun] at hfair
  have hend : finished (calls FsmCoe.step (.upload smallMbox 0x6040 0) [] (polls returnsStored 6)).1 = true := by
    decide +kernel
  obtain ⟨m, s', log', hrun', hdata⟩ := hup returnsStored
    (calls_always (P := fun r => Fair smallMbox (emptyServer.afterAll smallMbox log) r.2) hend (hfair rfl))
  exact ⟨n, s, log, m, s', log', hrun, hrun', hdata⟩

end EcMaster
