import EcMaster.Cyclic
import EcMaster.Fsm
import EcMaster.FsmDc
import EcMaster.SlavePages

namespace EcMaster

open Library.Dialogue Library.Dialogue.Script Library.Segment Library.LittleEndian

def regDlInfo : UInt16 := 0x0000
def regStationAddr : UInt16 := 0x0010
def regSiiControl : UInt16 := 0x0502

def siiMaxPolls : ℕ := 400
def siiAddrModeTwoOctet : UInt8 := 0x80
def siiCmdRead : UInt8 := 0x01
def siiStatusError : UInt8 := 0x20
def siiStatusBusy : UInt8 := 0x81
def mboxProtoCoe : UInt16 := 0x0004

inductive SiiPhase
  | command
  | poll
  deriving DecidableEq

/-- The reader of one EEPROM word; `value` is what its `step` returns in the end. -/
structure Sii where
  phase : SiiPhase
  word : UInt16
  polls : ℕ
  x : Exchange
  value : UInt32

def scanBuffers : Buffers := ⟨128, 128⟩

namespace Sii

def new : Sii := ⟨.command, 0, 0, .idle, 0⟩

def reset (s : Sii) (word : UInt16) : Sii := { s with phase := .command, word := word, polls := 0, x := .idle }

def command (word : UInt16) : List UInt8 :=
  [siiAddrModeTwoOctet, siiCmdRead, (word &&& 0xFF).toUInt8, (word >>> (8 : UInt16)).toUInt8]

def step (station : UInt16) (s : Sii) (k : Link) : Except EcError (Bool × Sii) × Link :=
  match s.phase with
  | .command =>
    s.x.step scanBuffers [⟨.fpwr, station, regSiiControl, command s.word⟩] k (fun x => (false, { s with x := x }))
      (onReply fun reply =>
        if reply.workingCounter = 0 then .error .workingCounter
        else .ok (false, { s with phase := .poll, polls := 0, x := .idle }))
  | .poll =>
    s.x.step scanBuffers [⟨.fprd, station, regSiiControl, zeros 10⟩] k (fun x => (false, { s with x := x }))
      (onReply fun reply =>
        let again : Except EcError (Bool × Sii) :=
          if s.polls + 1 ≥ siiMaxPolls then .error .siiTimeout
          else .ok (false, { s with polls := s.polls + 1, x := .idle })
        if reply.workingCounter = 0 ∨ reply.data.length < 10 then again
        else
          let status := reply.data.getD 1 0
          if status &&& siiStatusError ≠ 0 then .error .siiError
          else if status &&& siiStatusBusy = 0 then
            .ok (true, { s with x := .idle, value := u32Le (slice reply.data 6 4) })
          else again)

end Sii

def heardSii (again : Procedure UInt32) (reply : Reply) : Procedure UInt32 :=
  if reply.workingCounter = 0 ∨ reply.data.length < 10 then again
  else if reply.data.getD 1 0 &&& siiStatusError ≠ 0 then .fail .siiError
  else if reply.data.getD 1 0 &&& siiStatusBusy = 0 then .done (u32Le (slice reply.data 6 4))
  else again

def pollSii (station : UInt16) : ℕ → Procedure UInt32
  | 0 => exchange [⟨.fprd, station, regSiiControl, zeros 10⟩] (replied (heardSii (.fail .siiTimeout)))
  | n + 1 => exchange [⟨.fprd, station, regSiiControl, zeros 10⟩] (replied (heardSii (pollSii station n)))

def readSii (station word : UInt16) : Procedure UInt32 :=
  exchange [⟨.fpwr, station, regSiiControl, Sii.command word⟩] (replied fun reply =>
    if reply.workingCounter = 0 then .fail .workingCounter else pollSii station (siiMaxPolls - 1))

namespace Sii

def plan (station : UInt16) (s : Sii) : Procedure UInt32 :=
  match s.phase with
  | .command => readSii station s.word
  | .poll => pollSii station (siiMaxPolls - 1 - s.polls)

def script (station : UInt16) (s : Sii) : Procedure UInt32 := s.x.resume (s.plan station)

def left (s : Sii) : ℕ := s.x.left

abbrev pos (station : UInt16) : Except EcError (Bool × Sii) → Procedure UInt32 × ℕ := position (script station) left value

theorem pollSii_eq (station : UInt16) (polls : ℕ) :
    pollSii station (siiMaxPolls - 1 - polls) =
      exchange [⟨.fprd, station, regSiiControl, zeros 10⟩] (replied (heardSii
        (if polls + 1 ≥ siiMaxPolls then .fail .siiTimeout else pollSii station (siiMaxPolls - 1 - (polls + 1))))) := by
  by_cases h : polls + 1 ≥ siiMaxPolls
  · have he : siiMaxPolls - 1 - polls = 0 := by omega
    rw [if_pos h, he, pollSii]
  · have he : siiMaxPolls - 1 - polls = (siiMaxPolls - 1 - (polls + 1)) + 1 := by omega
    rw [if_neg h, he, pollSii]

theorem pos_idle {station : UInt16} {s : Sii} (h : s.x = .idle) : (pos station (.ok (false, s))).1 = s.plan station := by
  change s.x.resume (s.plan station) = _
  rw [h, Exchange.resume_idle]

theorem step_turns (station : UInt16) (s : Sii) (k : Link) :
    Turns (s.script station, s.left) k (pos station (s.step station k).1) (s.step station k).2 := by
  rw [step, script]
  rcases hs : s.phase
  case command =>
    have hplan : s.plan station = readSii station s.word := by rw [plan, hs]
    rw [hplan]
    refine Exchange.poll_turns (fun y => ?_) (fun y => rfl) (hear_onReply fun reply => ?_)
    · rw [script, plan]
      rfl
    · split
      · rfl
      · exact pos_idle rfl
  case poll =>
    have hplan : s.plan station = exchange [⟨.fprd, station, regSiiControl, zeros 10⟩] (replied (heardSii
        (if s.polls + 1 ≥ siiMaxPolls then .fail .siiTimeout
          else pollSii station (siiMaxPolls - 1 - (s.polls + 1))))) := by
      rw [plan, hs]
      exact pollSii_eq station s.polls
    rw [hplan]
    refine Exchange.poll_turns (fun y => ?_) (fun y => rfl) (hear_onReply fun reply => ?_)
    · rw [script, ← hplan, plan, plan]
      dsimp only
      rw [hs]
    · have hagain : (pos station (if s.polls + 1 ≥ siiMaxPolls then .error .siiTimeout
          else .ok (false, { s with phase := .poll, polls := s.polls + 1, x := .idle }))).1 =
          if s.polls + 1 ≥ siiMaxPolls then .fail .siiTimeout
            else pollSii station (siiMaxPolls - 1 - (s.polls + 1)) := by
        split
        · rfl
        · exact pos_idle rfl
      rw [heardSii]
      dsimp only
      split
      · exact hagain
      split
      · rfl
      split
      · rfl
      · exact hagain

def fsm (station : UInt16) : Fsm Sii UInt32 :=
  .simple (step station) (script station) left value (fun s => s.x.left_le) (step_turns station)

theorem script_reset (station word : UInt16) (s : Sii) : (s.reset word).script station = readSii station word :=
  Exchange.resume_idle _

end Sii

inductive SiiField
  | vendor
  | product
  | revision
  | rxMbox
  | txMbox
  | protocols
  deriving DecidableEq

def siiWord : SiiField → UInt16
  | .vendor => 0x0008
  | .product => 0x000A
  | .revision => 0x000C
  | .rxMbox => 0x0018
  | .txMbox => 0x001A
  | .protocols => 0x001C

inductive Stage
  | count
  | clear
  | apwr
  | al
  | dl
  | sii (field : SiiField)
  | done
  deriving DecidableEq

structure Cur where
  ringPos : UInt16
  station : UInt16
  al : UInt8
  baseType : UInt8
  baseFmmuCount : UInt8
  baseSyncCount : UInt8
  vendor : UInt32
  product : UInt32
  revision : UInt32
  rxMbox : UInt32
  txMbox : UInt32

def Cur.start (ringPos : UInt16) : Cur := ⟨ringPos, ringPos + 1, 0, 0, 0, 0, 0, 0, 0, 0, 0⟩

def Cur.info (c : Cur) (protocols : UInt16) : SlaveInfo where
  ringPos := c.ringPos
  stationAddr := c.station
  alState := c.al
  baseType := c.baseType
  baseFmmuCount := c.baseFmmuCount
  baseSyncCount := c.baseSyncCount
  vendorId := c.vendor
  productCode := c.product
  revision := c.revision
  rxMboxOffset := c.rxMbox.toUInt16
  rxMboxSize := (c.rxMbox >>> (16 : UInt32)).toUInt16
  txMboxOffset := c.txMbox.toUInt16
  txMboxSize := (c.txMbox >>> (16 : UInt32)).toUInt16
  mboxProtocols := protocols
  supportsCoe := protocols &&& mboxProtoCoe ≠ 0

structure ScanFsm where
  stage : Stage
  count : UInt16
  x : Exchange
  cur : Cur
  sii : Sii
  completed : Option SlaveInfo

namespace ScanFsm

def new : ScanFsm := ⟨.count, 0, .idle, ⟨0, 0, 0, 0, 0, 0, 0, 0, 0, 0, 0⟩, Sii.new, none⟩

/-- `step_simple` and `step_write`: `hear` is given the working counter and at most 16 bytes of the reply. -/
def poll (s : ScanFsm) (request : Access) (k : Link) (hear : UInt16 → List UInt8 → Except EcError ScanFsm) :
    Except EcError (Bool × ScanFsm) × Link :=
  s.x.step scanBuffers [request] k (fun x => (false, { s with x := x })) (onReply fun reply =>
    match hear reply.workingCounter (reply.data.take 16) with
    | .error e => .error e
    | .ok s => .ok (false, { s with x := .idle }))

def beginSlave (s : ScanFsm) (ringPos : UInt16) : ScanFsm :=
  { s with cur := Cur.start ringPos, x := .idle, stage := .apwr }

def finishSlave (s : ScanFsm) (protocols : UInt16) : ScanFsm :=
  let next := s.cur.ringPos + 1
  let s := { s with completed := some (s.cur.info protocols) }
  if next < s.count ∧ next.toNat < ecMaxSlaves then s.beginSlave next else { s with stage := .done }

def readNext (s : ScanFsm) (field : SiiField) : ScanFsm :=
  { s with sii := s.sii.reset (siiWord field), stage := .sii field }

def applySii (s : ScanFsm) (field : SiiField) (value : UInt32) : ScanFsm :=
  match field with
  | .vendor => { s with cur := { s.cur with vendor := value } }.readNext .product
  | .product => { s with cur := { s.cur with product := value } }.readNext .revision
  | .revision => { s with cur := { s.cur with revision := value } }.readNext .rxMbox
  | .rxMbox => { s with cur := { s.cur with rxMbox := value } }.readNext .txMbox
  | .txMbox => { s with cur := { s.cur with txMbox := value } }.readNext .protocols
  | .protocols => s.finishSlave value.toUInt16

def step (s : ScanFsm) (k : Link) : Except EcError (Bool × ScanFsm) × Link :=
  match s.stage with
  | .count =>
    s.poll ⟨.brd, 0x0000, regAlStatus, zeros 2⟩ k fun wkc _ =>
      .ok { s with count := wkc, stage := if wkc = 0 then .done else .clear }
  | .clear => s.poll ⟨.bwr, 0x0000, regStationAddr, zeros 2⟩ k fun _ _ => .ok (s.beginSlave 0)
  | .apwr =>
    s.poll ⟨.apwr, autoincAdp s.cur.ringPos, regStationAddr, leBytes 2 s.cur.station.toNat⟩ k fun wkc _ =>
      if wkc ≠ 1 then .error .workingCounter else .ok { s with stage := .al }
  | .al =>
    s.poll ⟨.fprd, s.cur.station, regAlStatus, zeros 2⟩ k fun wkc data =>
      if wkc ≠ 1 then .error .workingCounter
      else .ok { s with cur := { s.cur with al := data.headD 0 &&& alStateMask }, stage := .dl }
  | .dl =>
    s.poll ⟨.fprd, s.cur.station, regDlInfo, zeros 12⟩ k fun wkc data =>
      if wkc ≠ 1 then .error .workingCounter
      else
        .ok ({ s with cur := { s.cur with
          baseType := data.headD 0
          baseFmmuCount := data.getD 4 0
          baseSyncCount := data.getD 5 0 } }.readNext .vendor)
  | .sii field =>
    nested (s.sii.step s.cur.station k) (fun sii => (false, { s with sii := sii })) fun sii =>
      .ok (false, { s with sii := sii }.applySii field sii.value)
  | .done => (.ok (true, s), k)

def drained (s : ScanFsm) (slaves : List SlaveInfo) : ScanFsm × List SlaveInfo :=
  ({ s with completed := none }, s.completed.toList.foldl (pushWithin ecMaxSlaves) slaves)

def rescanStep (s : ScanFsm × List SlaveInfo) (k : Link) : Except EcError (Bool × (ScanFsm × List SlaveInfo)) × Link :=
  nested (s.1.step k) (fun fsm => (false, fsm.drained s.2)) fun fsm => .ok (true, fsm.drained s.2)

end ScanFsm

def readField (field : SiiField) (after : Cur → UInt32 → Procedure (List SlaveInfo)) (c : Cur) :
    Procedure (List SlaveInfo) :=
  (readSii c.station (siiWord field)).bind (after c)

section

variable (next : Procedure (List SlaveInfo))

def afterProtocols (c : Cur) (value : UInt32) : Procedure (List SlaveInfo) := next.map (c.info value.toUInt16 :: ·)

def afterTxMbox (c : Cur) (value : UInt32) : Procedure (List SlaveInfo) :=
  readField .protocols (afterProtocols next) { c with txMbox := value }

def afterRxMbox (c : Cur) (value : UInt32) : Procedure (List SlaveInfo) :=
  readField .txMbox (afterTxMbox next) { c with rxMbox := value }

def afterRevision (c : Cur) (value : UInt32) : Procedure (List SlaveInfo) :=
  readField .rxMbox (afterRxMbox next) { c with revision := value }

def afterProduct (c : Cur) (value : UInt32) : Procedure (List SlaveInfo) :=
  readField .revision (afterRevision next) { c with product := value }

def afterVendor (c : Cur) (value : UInt32) : Procedure (List SlaveInfo) :=
  readField .product (afterProduct next) { c with vendor := value }

def afterField (c : Cur) : SiiField → UInt32 → Procedure (List SlaveInfo)
  | .vendor => afterVendor next c
  | .product => afterProduct next c
  | .revision => afterRevision next c
  | .rxMbox => afterRxMbox next c
  | .txMbox => afterTxMbox next c
  | .protocols => afterProtocols next c

def readDl (c : Cur) : Procedure (List SlaveInfo) :=
  exchange [⟨.fprd, c.station, regDlInfo, zeros 12⟩] (replied fun reply =>
    confirmed
      (readField .vendor (afterVendor next) { c with
        baseType := (reply.data.take 16).headD 0
        baseFmmuCount := (reply.data.take 16).getD 4 0
        baseSyncCount := (reply.data.take 16).getD 5 0 }) reply)

def readAl (c : Cur) : Procedure (List SlaveInfo) :=
  exchange [⟨.fprd, c.station, regAlStatus, zeros 2⟩] (replied fun reply =>
    confirmed (readDl next { c with al := (reply.data.take 16).headD 0 &&& alStateMask }) reply)

def scanSlave (c : Cur) : Procedure (List SlaveInfo) :=
  exchange [⟨.apwr, autoincAdp c.ringPos, regStationAddr, leBytes 2 c.station.toNat⟩]
    (replied (confirmed (readAl next c)))

end

def scanFrom (count : UInt16) : ℕ → UInt16 → Procedure (List SlaveInfo)
  | 0, ringPos => scanSlave (.skip (.done [])) (Cur.start ringPos)
  | n + 1, ringPos =>
    scanSlave (if ringPos + 1 < count then scanFrom count n (ringPos + 1) else .skip (.done [])) (Cur.start ringPos)

def clearAddresses (count : UInt16) : Procedure (List SlaveInfo) :=
  exchange [⟨.bwr, 0x0000, regStationAddr, zeros 2⟩] (replied fun _ => scanFrom count (ecMaxSlaves - 1) 0)

def scanBus : Procedure (List SlaveInfo) :=
  exchange [⟨.brd, 0x0000, regAlStatus, zeros 2⟩] (replied fun reply =>
    if reply.workingCounter = 0 then .skip (.done []) else clearAddresses reply.workingCounter)

def scanAfter (count ringPos : UInt16) : Procedure (List SlaveInfo) :=
  if ringPos + 1 < count ∧ (ringPos + 1).toNat < ecMaxSlaves then
    scanFrom count (ecMaxSlaves - 1 - (ringPos + 1).toNat) (ringPos + 1)
  else .skip (.done [])

namespace ScanFsm

def rest (s : ScanFsm) : Procedure (List SlaveInfo) := scanAfter s.count s.cur.ringPos

def plan (s : ScanFsm) : Procedure (List SlaveInfo) :=
  match s.stage with
  | .count => scanBus
  | .clear => clearAddresses s.count
  | .apwr => scanSlave s.rest s.cur
  | .al => readAl s.rest s.cur
  | .dl => readDl s.rest s.cur
  | .sii field => (s.sii.script s.cur.station).bind (afterField s.rest s.cur field)
  | .done => .skip (.done [])

def own (s : ScanFsm) : Bool :=
  match s.stage with
  | .sii _ | .done => false
  | _ => true

def script (s : ScanFsm) : Procedure (List SlaveInfo) := if s.own then s.x.resume s.plan else s.plan

def left (s : ScanFsm) : ℕ :=
  match s.stage with
  | .sii _ => s.sii.left
  | .done => Exchange.fresh
  | _ => s.x.left

def whole (s : ScanFsm) : Procedure (List SlaveInfo) := s.script.map (s.completed.toList ++ ·)

abbrev pos : Except EcError (Bool × ScanFsm) → Procedure (List SlaveInfo) × ℕ :=
  position whole left fun s => s.completed.toList

theorem left_le (s : ScanFsm) : s.left ≤ Exchange.fresh := by
  rw [left]
  split
  · exact s.sii.x.left_le
  · exact le_rfl
  · exact s.x.left_le

theorem whole_none (s : ScanFsm) (h : s.completed = none) : s.whole = s.script := by
  rw [whole, h]
  exact bind_done _

theorem pos_idle (s : ScanFsm) (h : s.completed = none) (hx : s.x = .idle) : (pos (.ok (false, s))).1 = s.plan := by
  change s.whole = _
  rw [whole_none s h, script, hx, Exchange.resume_idle, ite_self]

theorem scanFrom_eq (count : UInt16) {ringPos : UInt16} (h : ringPos.toNat < ecMaxSlaves) :
    scanFrom count (ecMaxSlaves - 1 - ringPos.toNat) ringPos = scanSlave (scanAfter count ringPos) (Cur.start ringPos) := by
  have hn : (ringPos + 1).toNat = ringPos.toNat + 1 := by
    rw [UInt16.toNat_add]
    change (ringPos.toNat + 1) % 65536 = _
    exact Nat.mod_eq_of_lt (by simp only [ecMaxSlaves] at h; omega)
  rw [scanAfter, hn]
  by_cases hlast : ringPos.toNat + 1 < ecMaxSlaves
  · have he : ecMaxSlaves - 1 - ringPos.toNat = (ecMaxSlaves - 1 - (ringPos.toNat + 1)) + 1 := by omega
    rw [he, scanFrom]
    simp only [hlast, and_true]
  · have he : ecMaxSlaves - 1 - ringPos.toNat = 0 := by omega
    rw [he, scanFrom, if_neg fun hc => hlast hc.2]

theorem plan_beginSlave (s : ScanFsm) {ringPos : UInt16} (h : ringPos.toNat < ecMaxSlaves) :
    (s.beginSlave ringPos).plan = scanFrom s.count (ecMaxSlaves - 1 - ringPos.toNat) ringPos := by
  rw [scanFrom_eq s.count h]
  rfl

theorem poll_turns {s : ScanFsm} {request : Access} {hear : UInt16 → List UInt8 → Except EcError ScanFsm}
    {next : Reply → Procedure (List SlaveInfo)} (hc : s.completed = none) (ho : s.own = true)
    (hplan : s.plan = exchange [request] (replied next))
    (hhear : ∀ reply, (pos (match hear reply.workingCounter (reply.data.take 16) with
      | .error e => .error e
      | .ok s => .ok (false, { s with x := .idle }))).1 = next reply) (k : Link) :
    Turns (s.script, s.left) k (pos (s.poll request k hear).1) (s.poll request k hear).2 := by
  have hl (t : ScanFsm) (ht : t.own = true) : t.left = t.x.left := by
    rw [own] at ht
    rw [left]
    split <;> simp_all
  rw [script, if_pos ho, hplan, hl s ho]
  refine Exchange.poll_turns (fun y => ?_) (fun y => hl _ ho) (hear_onReply hhear)
  have hy : ({ s with x := y } : ScanFsm).whole = y.resume s.plan := by
    rw [whole_none { s with x := y } hc, script]
    exact if_pos ho
  rw [hy, hplan]

theorem finishSlave_pos (s : ScanFsm) (protocols : UInt16) :
    (pos (.ok (false, s.finishSlave protocols))).1 = s.rest.map (s.cur.info protocols :: ·) := by
  change (s.finishSlave protocols).whole = _
  rw [finishSlave, rest, scanAfter]
  dsimp only
  split
  case isTrue h =>
    have hscript (t : ScanFsm) : (t.beginSlave (s.cur.ringPos + 1)).script = (t.beginSlave (s.cur.ringPos + 1)).plan := by
      rw [script]
      exact (if_pos rfl).trans (Exchange.resume_idle _)
    rw [whole, hscript, plan_beginSlave _ h.2]
    rfl
  case isFalse h => rfl

theorem readNext_pos (s : ScanFsm) (hc : s.completed = none) (field : SiiField) :
    (pos (.ok (false, s.readNext field))).1 = readField field (fun c => afterField s.rest c field) s.cur := by
  change (s.readNext field).whole = _
  rw [whole_none (s.readNext field) hc, readField, ← Sii.script_reset _ _ s.sii]
  rfl

theorem applySii_pos {s : ScanFsm} (hc : s.completed = none) (field : SiiField) (value : UInt32) :
    (pos (.ok (false, s.applySii field value))).1 = afterField s.rest s.cur field value := by
  cases field
  case vendor => exact readNext_pos { s with cur := { s.cur with vendor := value } } hc .product
  case product => exact readNext_pos { s with cur := { s.cur with product := value } } hc .revision
  case revision => exact readNext_pos { s with cur := { s.cur with revision := value } } hc .rxMbox
  case rxMbox => exact readNext_pos { s with cur := { s.cur with rxMbox := value } } hc .txMbox
  case txMbox => exact readNext_pos { s with cur := { s.cur with txMbox := value } } hc .protocols
  case protocols => exact finishSlave_pos s _

theorem step_turns {s : ScanFsm} (hc : s.completed = none) (k : Link) :
    Turns (s.script, s.left) k (pos (s.step k).1) (s.step k).2 := by
  rw [step]
  rcases hs : s.stage
  case count =>
    refine poll_turns hc (by rw [own, hs]) (by rw [plan, hs, scanBus]) (fun reply => ?_) k
    split_ifs
    · exact pos_idle { s with stage := .done, count := reply.workingCounter, x := .idle } hc rfl
    · exact pos_idle { s with stage := .clear, count := reply.workingCounter, x := .idle } hc rfl
  case clear =>
    refine poll_turns hc (by rw [own, hs]) (by rw [plan, hs, clearAddresses]) (fun reply => ?_) k
    exact (pos_idle (s.beginSlave 0) hc rfl).trans (plan_beginSlave s (by decide))
  case apwr =>
    refine poll_turns hc (by rw [own, hs]) (by rw [plan, hs, scanSlave]) (fun reply => ?_) k
    rw [confirmed]
    split_ifs
    · rfl
    · exact pos_idle { s with stage := .al, x := .idle } hc rfl
  case al =>
    refine poll_turns hc (by rw [own, hs]) (by rw [plan, hs, readAl]) (fun reply => ?_) k
    rw [confirmed]
    split_ifs
    · rfl
    · exact pos_idle { s with
        cur := { s.cur with al := (reply.data.take 16).headD 0 &&& alStateMask }, stage := .dl, x := .idle } hc rfl
  case dl =>
    refine poll_turns hc (by rw [own, hs]) (by rw [plan, hs, readDl]) (fun reply => ?_) k
    rw [confirmed]
    split_ifs
    · rfl
    · exact readNext_pos { s with
        cur := { s.cur with
          baseType := (reply.data.take 16).headD 0
          baseFmmuCount := (reply.data.take 16).getD 4 0
          baseSyncCount := (reply.data.take 16).getD 5 0 }
        x := .idle } hc .vendor
  case sii field =>
    have hscript (sii : Sii) : ({ s with stage := .sii field, sii := sii } : ScanFsm).script =
        (sii.script s.cur.station).bind (afterField s.rest s.cur field) := by
      rw [script, own, plan]
      rfl
    have hleft (sii : Sii) : ({ s with stage := .sii field, sii := sii } : ScanFsm).left = sii.left := rfl
    have hs' : s = { s with stage := .sii field } := by rw [← hs]
    have hscript' : s.script = (s.sii.script s.cur.station).bind (afterField s.rest s.cur field) := by
      rw [hs']
      exact hscript s.sii
    have hleft' : s.left = s.sii.left := by rw [left, hs]
    rw [hscript', hleft']
    refine (Sii.fsm s.cur.station).nested_turns trivial (fun e => rfl) (fun sii => ?_) (fun sii => ⟨?_, ?_⟩)
    · exact Prod.ext ((whole_none { s with stage := .sii field, sii := sii } hc).trans (hscript sii)) (hleft sii)
    · exact applySii_pos (s := { s with stage := .sii field, sii := sii }) hc field sii.value
    · exact left_le _
  case done =>
    have hscript : s.script = .skip (.done []) := by rw [script, own, plan, hs]; rfl
    rw [hscript, ← Option.toList_none, ← hc]
    exact Turns.skip _ _ _ _

abbrev Rescan := ScanFsm × List SlaveInfo

def rescanScript (p : Rescan) : Procedure (List SlaveInfo) :=
  p.1.script.map fun found => found.foldl (pushWithin ecMaxSlaves) p.2

theorem rescan_plays (p : Rescan) (k : Link) (hc : p.1.completed = none) :
    Plays rescanScript (fun p => p.1.left) Prod.snd (fun p => p.1.completed = none) p k (rescanStep p k) := by
  have h := (step_turns hc k).bind fun found => .done (found.foldl (pushWithin ecMaxSlaves) p.2)
  rw [rescanStep, nested]
  rcases hr : p.1.step k with ⟨_ | ⟨_ | _, s'⟩, k'⟩
  all_goals rw [hr] at h
  · exact ⟨h, fun s' hs => absurd hs (by simp)⟩
  · have hscript : rescanScript (s'.drained p.2) = s'.whole.map fun found => found.foldl (pushWithin ecMaxSlaves) p.2 := by
      rw [whole, map_map]
      simp only [List.foldl_append]
      rfl
    refine ⟨?_, fun p' hp => ?_⟩
    · change Turns _ k (rescanScript (s'.drained p.2), s'.left) k'
      rw [hscript]
      exact h
    · obtain rfl := (Prod.mk.inj (Except.ok.inj hp)).2
      rfl
  · exact ⟨h, fun p' hp => absurd hp (by simp)⟩

def rescan : Fsm Rescan (List SlaveInfo) :=
  ⟨rescanStep, rescanScript, fun p => p.1.left, Prod.snd, fun p => p.1.completed = none, fun p => p.1.left_le, rescan_plays⟩

end ScanFsm

end EcMaster
