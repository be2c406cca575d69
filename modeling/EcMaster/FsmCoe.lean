import EcMaster.Fsm
import EcMaster.SlavePages

namespace EcMaster

open Library.Dialogue Library.Dialogue.Script Library.Segment Library.LittleEndian

def regSm1Status : UInt16 := 0x080D

def maxMboxWaits : ℕ := 1000
def maxMboxRead : ℕ := 256
def maxMboxWrite : ℕ := 256

def smStatusMboxFull : UInt8 := 0x08
def coeSdoRequest : UInt16 := 0x02

inductive SdoKind
  | download
  | upload
  deriving DecidableEq

inductive CoeState
  | writeRequest
  | waitMailbox
  | readResponse
  | done
  deriving DecidableEq

structure FsmCoe where
  mbox : Mailbox
  kind : SdoKind
  index : UInt16
  subindex : UInt8
  reqData : List UInt8
  reqLen : ℕ
  state : CoeState
  x : Exchange
  result : List UInt8
  waits : ℕ

def padded (data : List UInt8) : List UInt8 := overwrite (List.replicate 4 0) 0 (data.take 4)

def sdoRequest (kind : SdoKind) (index : UInt16) (subindex : UInt8) (reqData : List UInt8) (reqLen : ℕ) : List UInt8 :=
  mailboxHeader 10 mboxTypeCoe 0 ++ leBytes 2 (coeSdoRequest <<< (12 : UInt16)).toNat ++
    match kind with
    | .download =>
      [0x23 ||| (UInt8.ofNat (4 - min reqLen 4) <<< (2 : UInt8))] ++ leBytes 2 index.toNat ++ [subindex] ++ reqData
    | .upload => [0x40] ++ leBytes 2 index.toNat ++ [subindex] ++ [0, 0, 0, 0]

def parseSdoResponse (kind : SdoKind) (data : List UInt8) : Except EcError (List UInt8) :=
  match parseHeader data with
  | none => .error .mailboxProtocol
  | some header =>
    if header.mboxType ≠ mboxTypeCoe then .error .mailboxProtocol
    else if data.length < 16 then .error .mailboxProtocol
    else
      let cmd := data.getD 8 0
      if cmd &&& 0xE0 = 0x80 then .error (.sdoAbort (u32Le (slice data 12 4)))
      else
        match kind with
        | .download => .ok []
        | .upload =>
          if cmd &&& 0x02 = 0 then .error .mailboxProtocol
          else .ok (slice data 12 (4 - ((cmd >>> (2 : UInt8)) &&& 0x03).toNat))

def mailboxWrite (mbox : Mailbox) (request : List UInt8) : List UInt8 :=
  (overwrite (List.replicate maxMboxWrite 0) 0 request).take (max 16 (min mbox.rxSize.toNat maxMboxWrite))

def mailboxRead (mbox : Mailbox) : List UInt8 := List.replicate (max 16 (min mbox.txSize.toNat maxMboxRead)) 0

namespace FsmCoe

def new (mbox : Mailbox) (kind : SdoKind) (index : UInt16) (subindex : UInt8) (reqData : List UInt8) (reqLen : ℕ) :
    FsmCoe :=
  ⟨mbox, kind, index, subindex, reqData, reqLen, .writeRequest, .idle, [], 0⟩

def download (mbox : Mailbox) (index : UInt16) (subindex : UInt8) (data : List UInt8) : FsmCoe :=
  new mbox .download index subindex (padded data) (min data.length 4)

def upload (mbox : Mailbox) (index : UInt16) (subindex : UInt8) : FsmCoe :=
  new mbox .upload index subindex [0, 0, 0, 0] 0

def buffers : Buffers := ⟨320, 320⟩

def request (s : FsmCoe) : List UInt8 := sdoRequest s.kind s.index s.subindex s.reqData s.reqLen

def poll (s : FsmCoe) (request : Access) (k : Link) (hear : Reply → Except EcError (Bool × FsmCoe)) :
    Except EcError (Bool × FsmCoe) × Link :=
  s.x.step buffers [request] k (fun x => (false, { s with x := x })) (onReply hear)

def step (s : FsmCoe) (k : Link) : Except EcError (Bool × FsmCoe) × Link :=
  match s.state with
  | .writeRequest =>
    s.poll ⟨.fpwr, s.mbox.stationAddr, s.mbox.rxOffset, mailboxWrite s.mbox s.request⟩ k fun reply =>
      if reply.workingCounter ≠ 1 then .error .workingCounter
      else .ok (false, { s with state := .waitMailbox, x := .idle, waits := 0 })
  | .waitMailbox =>
    s.poll ⟨.fprd, s.mbox.stationAddr, regSm1Status, [0]⟩ k fun reply =>
      let status := reply.data.headD 0
      if reply.workingCounter = 1 ∧ status &&& smStatusMboxFull ≠ 0 then
        .ok (false, { s with state := .readResponse, x := .idle })
      else if s.waits + 1 ≥ maxMboxWaits then .error .mailboxTimeout
      else .ok (false, { s with x := .idle, waits := s.waits + 1 })
  | .readResponse =>
    s.poll ⟨.fprd, s.mbox.stationAddr, s.mbox.txOffset, mailboxRead s.mbox⟩ k fun reply =>
      if reply.workingCounter ≠ 1 then .error .workingCounter
      else
        match parseSdoResponse s.kind reply.data with
        | .error e => .error e
        | .ok result => .ok (true, { s with result := result, state := .done })
  | .done => (.ok (true, s), k)

end FsmCoe

def readResponse (mbox : Mailbox) (kind : SdoKind) : Procedure (List UInt8) :=
  exchange [⟨.fprd, mbox.stationAddr, mbox.txOffset, mailboxRead mbox⟩] (replied fun reply =>
    confirmed
      (match parseSdoResponse kind reply.data with
        | .error e => .fail e
        | .ok result => .done result) reply)

def heardMailbox (full again : Procedure (List UInt8)) (reply : Reply) : Procedure (List UInt8) :=
  if reply.workingCounter = 1 ∧ reply.data.headD 0 &&& smStatusMboxFull ≠ 0 then full else again

def awaitMailbox (mbox : Mailbox) (kind : SdoKind) : ℕ → Procedure (List UInt8)
  | 0 => exchange [⟨.fprd, mbox.stationAddr, regSm1Status, [0]⟩]
      (replied (heardMailbox (readResponse mbox kind) (.fail .mailboxTimeout)))
  | n + 1 => exchange [⟨.fprd, mbox.stationAddr, regSm1Status, [0]⟩]
      (replied (heardMailbox (readResponse mbox kind) (awaitMailbox mbox kind n)))

def transfer (mbox : Mailbox) (kind : SdoKind) (request : List UInt8) : Procedure (List UInt8) :=
  exchange [⟨.fpwr, mbox.stationAddr, mbox.rxOffset, mailboxWrite mbox request⟩]
    (replied (confirmed (awaitMailbox mbox kind (maxMboxWaits - 1))))

namespace FsmCoe

def plan (s : FsmCoe) : Procedure (List UInt8) :=
  match s.state with
  | .writeRequest => transfer s.mbox s.kind s.request
  | .waitMailbox => awaitMailbox s.mbox s.kind (maxMboxWaits - 1 - s.waits)
  | .readResponse => readResponse s.mbox s.kind
  | .done => .skip (.done s.result)

def script (s : FsmCoe) : Procedure (List UInt8) := s.x.resume s.plan

def left (s : FsmCoe) : ℕ := s.x.left

abbrev pos : Except EcError (Bool × FsmCoe) → Procedure (List UInt8) × ℕ := position script left result

theorem pos_idle {s : FsmCoe} (h : s.x = .idle) : (pos (.ok (false, s))).1 = s.plan := by
  change s.x.resume s.plan = _
  rw [h, Exchange.resume_idle]

theorem poll_turns {s : FsmCoe} {request : Access} {hear : Reply → Except EcError (Bool × FsmCoe)}
    {next : Reply → Procedure (List UInt8)} (hplan : s.plan = exchange [request] (replied next))
    (hhear : ∀ reply, (pos (hear reply)).1 = next reply) (k : Link) :
    Turns (s.script, s.left) k (pos (s.poll request k hear).1) (s.poll request k hear).2 := by
  rw [script, hplan]
  refine Exchange.poll_turns (fun y => ?_) (fun y => rfl) (hear_onReply hhear)
  rw [script, ← hplan]
  rfl

theorem awaitMailbox_eq (mbox : Mailbox) (kind : SdoKind) (waits : ℕ) :
    awaitMailbox mbox kind (maxMboxWaits - 1 - waits) =
      exchange [⟨.fprd, mbox.stationAddr, regSm1Status, [0]⟩] (replied (heardMailbox (readResponse mbox kind)
        (if waits + 1 ≥ maxMboxWaits then .fail .mailboxTimeout
          else awaitMailbox mbox kind (maxMboxWaits - 1 - (waits + 1))))) := by
  by_cases h : waits + 1 ≥ maxMboxWaits
  · have he : maxMboxWaits - 1 - waits = 0 := by omega
    rw [if_pos h, he, awaitMailbox]
  · have he : maxMboxWaits - 1 - waits = (maxMboxWaits - 1 - (waits + 1)) + 1 := by omega
    rw [if_neg h, he, awaitMailbox]

theorem step_turns (s : FsmCoe) (k : Link) : Turns (s.script, s.left) k (pos (s.step k).1) (s.step k).2 := by
  rw [step]
  rcases hs : s.state
  case writeRequest =>
    refine poll_turns (by rw [plan, hs, transfer]) (fun reply => ?_) k
    rw [confirmed]
    split
    · rfl
    · exact pos_idle rfl
  case waitMailbox =>
    refine poll_turns (by rw [plan, hs, awaitMailbox_eq]) (fun reply => ?_) k
    rw [heardMailbox]
    dsimp only
    split
    · exact pos_idle rfl
    split
    · rfl
    · exact pos_idle rfl
  case readResponse =>
    have hplan : s.plan = readResponse s.mbox s.kind := by rw [plan, hs]
    refine poll_turns hplan (fun reply => ?_) k
    rw [confirmed]
    split
    · rfl
    cases parseSdoResponse s.kind reply.data <;> rfl
  case done =>
    have hscript : s.script = .skip (.done s.result) := by rw [script, plan, hs]; rfl
    rw [hscript]
    exact Turns.skip _ _ _ _

def fsm : Fsm FsmCoe (List UInt8) := .simple step script left (result) (fun s => s.x.left_le) step_turns

theorem script_new (mbox : Mailbox) (kind : SdoKind) (index : UInt16) (subindex : UInt8) (reqData : List UInt8)
    (reqLen : ℕ) : (new mbox kind index subindex reqData reqLen).script =
      transfer mbox kind (sdoRequest kind index subindex reqData reqLen) :=
  Exchange.resume_idle _

end FsmCoe

end EcMaster
