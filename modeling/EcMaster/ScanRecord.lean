import EcMaster.Agenda
import EcMaster.ScanFsm

namespace EcMaster

open Library.Dialogue Library.Dialogue.Script Library.Segment Library.LittleEndian

abbrev Ended := List Access × Except EcError (List UInt8)

/-- A reply keeps the length of the datagram that it answers. -/
def KeepsLength : Ended → Prop
  | ([a], .ok rx) => ∀ reply ∈ parse rx, reply.data.length = a.payload.length
  | _ => True

instance : DecidablePred KeepsLength := fun x => by
  unfold KeepsLength
  split <;> infer_instance

def Reply.Unready (r : Reply) : Prop :=
  r.workingCounter = 0 ∨ r.data.length < 10 ∨
    r.data.getD 1 0 &&& 0x20 = 0 ∧ r.data.getD 1 0 &&& 0x81 ≠ 0

/-- A full acknowledged answer that is neither busy nor in error. -/
structure Reply.Ready (r : Reply) : Prop where
  acknowledged : r.workingCounter ≠ 0
  full : 10 ≤ r.data.length
  sound : r.data.getD 1 0 &&& 0x20 = 0
  idle : r.data.getD 1 0 &&& 0x81 = 0

def countRead : Access := ⟨.brd, 0x0000, 0x0130, zeros 2⟩
def addressClear : Access := ⟨.bwr, 0x0000, 0x0010, zeros 2⟩
def addressWrite (ringPos station : UInt16) : Access := ⟨.apwr, 0 - ringPos, 0x0010, leBytes 2 station.toNat⟩
def alRead (station : UInt16) : Access := ⟨.fprd, station, 0x0130, zeros 2⟩
def dlRead (station : UInt16) : Access := ⟨.fprd, station, 0x0000, zeros 12⟩
def siiCommand (station word : UInt16) : Access :=
  ⟨.fpwr, station, 0x0502, [0x80, 0x01, UInt8.ofNat (word.toNat % 256), UInt8.ofNat (word.toNat / 256)]⟩
def siiRead (station : UInt16) : Access := ⟨.fprd, station, 0x0502, zeros 10⟩

def eepromWord : SiiField → UInt16
  | .vendor => 0x0008
  | .product => 0x000A
  | .revision => 0x000C
  | .rxMbox => 0x0018
  | .txMbox => 0x001A
  | .protocols => 0x001C

theorem siiWord_eq (field : SiiField) : siiWord field = eepromWord field := by
  cases field <;> rfl

theorem siiCommand_eq (station word : UInt16) :
    (⟨.fpwr, station, regSiiControl, Sii.command word⟩ : Access) = siiCommand station word := by
  have hword := word.toNat_lt
  have hlow : (word &&& 0xFF).toUInt8 = UInt8.ofNat (word.toNat % 256) := by
    apply UInt8.toNat_inj.mp
    rw [UInt16.toNat_toUInt8, UInt16.toNat_and, UInt8.toNat_ofNat']
    exact congrArg (· % 256) (Nat.and_two_pow_sub_one_eq_mod word.toNat 8)
  have hhigh : (word >>> (8 : UInt16)).toUInt8 = UInt8.ofNat (word.toNat / 256) := by
    apply UInt8.toNat_inj.mp
    rw [UInt16.toNat_toUInt8, UInt16.toNat_shiftRight, UInt8.toNat_ofNat']
    exact congrArg (· % 256) (Nat.shiftRight_eq_div_pow word.toNat 8)
  rw [Sii.command, hlow, hhigh]
  rfl

def WordRead (station word : UInt16) (value : UInt32) (log : Exchanged) : Prop :=
  ∃ c polls r, log = c ++ polls ++ r ∧
    Heard (siiCommand station word) (fun reply => reply.workingCounter ≠ 0) c ∧
    (∀ x ∈ polls, Heard (siiRead station) Reply.Unready [x]) ∧ polls.length < siiMaxPolls ∧
    Heard (siiRead station) (fun reply => reply.Ready ∧ value = u32Le (slice reply.data 6 4)) r

structure BaseRead (ringPos station : UInt16) (al baseType fmmus syncs : UInt8) (apwr status base : Exchanged) : Prop where
  addressed : Heard (addressWrite ringPos station) (fun reply => reply.workingCounter = 1) apwr
  status : Heard (alRead station)
    (fun reply => reply.workingCounter = 1 ∧ reply.data[0]?.map (· &&& 0x0F) = some al) status
  base : Heard (dlRead station)
    (fun reply => reply.workingCounter = 1 ∧ reply.data[0]? = some baseType ∧ reply.data[4]? = some fmmus ∧
      reply.data[5]? = some syncs) base

structure Worded (info : SlaveInfo) (w : SiiField → UInt32) : Prop where
  vendorId : info.vendorId = w .vendor
  productCode : info.productCode = w .product
  revision : info.revision = w .revision
  rxMboxOffset : info.rxMboxOffset = (w .rxMbox).toUInt16
  rxMboxSize : info.rxMboxSize = (w .rxMbox >>> (16 : UInt32)).toUInt16
  txMboxOffset : info.txMboxOffset = (w .txMbox).toUInt16
  txMboxSize : info.txMboxSize = (w .txMbox >>> (16 : UInt32)).toUInt16
  mboxProtocols : info.mboxProtocols = (w .protocols).toUInt16
  supportsCoe : info.supportsCoe = decide (info.mboxProtocols &&& 0x0004 ≠ 0)

def siiFields : List SiiField := [.vendor, .product, .revision, .rxMbox, .txMbox, .protocols]

def SlaveScan (info : SlaveInfo) (log : Exchanged) : Prop :=
  ∃ apwr status base words w, log = apwr ++ status ++ base ++ words ∧
    BaseRead info.ringPos info.stationAddr info.alState info.baseType info.baseFmmuCount info.baseSyncCount apwr status base ∧
    Pieces (fun field => WordRead info.stationAddr (eepromWord field) (w field)) siiFields words ∧ Worded info w

def Counted (count : UInt16) : Exchanged → Prop := Heard countRead fun reply => reply.workingCounter = count

def Cleared (count : UInt16) (log : Exchanged) : Prop :=
  ∃ c b, log = c ++ b ∧ Counted count c ∧ count ≠ 0 ∧ Heard addressClear (fun _ => True) b

def InOrder (slaves : List SlaveInfo) : Prop :=
  ∀ i info, slaves[i]? = some info → info.ringPos = UInt16.ofNat i ∧ info.stationAddr = UInt16.ofNat (i + 1)

def Refused : Ended → Prop
  | (_, .error _) => True
  | ([a], .ok rx) =>
    match parse rx with
    | none => True
    | some reply =>
      a.command = .apwr ∧ reply.workingCounter ≠ 1 ∨
        a.command = .fprd ∧ (a.ado = 0x0130 ∨ a.ado = 0x0000) ∧ reply.workingCounter ≠ 1 ∨
          a.command = .fpwr ∧ reply.workingCounter = 0 ∨
            a.command = .fprd ∧ a.ado = 0x0502 ∧ reply.workingCounter ≠ 0 ∧ 10 ≤ reply.data.length ∧
              reply.data.getD 1 0 &&& 0x20 ≠ 0
  | (_, .ok _) => True

def Exhausted (log : Exchanged) : Prop :=
  ∃ earlier polls, log = earlier ++ polls ∧ polls.length = siiMaxPolls ∧
    ∀ x ∈ polls, ∃ station, Heard (siiRead station) Reply.Unready [x]

def Stopped (log : Exchanged) : Prop := (∃ x ∈ log, Refused x) ∨ Exhausted log

def Accounted (published : List SlaveInfo) (log : Exchanged) : Prop :=
  ∃ head scans tail, log = head ++ scans ++ tail ∧ Pieces SlaveScan published scans ∧ ∀ x ∈ head ++ scans, ¬Refused x

/-- A scan with the slaves that it has published and its exchanges, and with its result when it has come to its
end. -/
structure Scanning where
  fsm : ScanFsm
  published : List SlaveInfo
  log : Exchanged
  outcome : Option (Except EcError Unit)

namespace Scanning

def new : Scanning := ⟨.new, [], [], none⟩

def step (t : Scanning) (e : Device × UInt8) : Scanning :=
  match t.outcome with
  | some _ => t
  | none =>
    match t.fsm.step ⟨e.1, e.2, t.log⟩ with
    | (.error err, k) => { t with log := k.log, outcome := some (.error err) }
    | (.ok (done', fsm), k) =>
      ⟨{ fsm with completed := none }, t.published ++ fsm.completed.toList, k.log, if done' then some (.ok ()) else none⟩

/-- The results of a scan are genuine. -/
structure Genuine (t : Scanning) : Prop where
  accounted : Accounted t.published t.log
  inOrder : InOrder t.published
  stopped : (∃ e, t.outcome = some (.error e)) ↔ Stopped t.log
  complete : t.outcome = some (.ok ()) → ∃ count c rest, t.log = c ++ rest ∧ Counted count c ∧
    t.published.length = min count.toNat 32

end Scanning

end EcMaster
