import EcMaster.ScanRecord
import EcMaster.Library.Partner

namespace EcMaster

open Library.Dialogue Library.Dialogue.Script Library.Segment Library.LittleEndian

/-- A slave on the ring, as far as a scan can see: its address and AL status registers, what it says it is, and its
EEPROM with the word asked for last and the polls for which that will not be there yet. -/
structure RingSlave where
  station : UInt16
  al : UInt8
  dlInfo : ℕ → UInt8
  eeprom : UInt16 → UInt32
  delay : UInt16 → ℕ
  word : UInt16
  busy : ℕ

namespace RingSlave

def read (s : RingSlave) (ado : UInt16) (n : ℕ) : List UInt8 × RingSlave :=
  if ado = regAlStatus then ((s.al :: zeros n).take n, s)
  else if ado = regDlInfo then ((List.range n).map s.dlInfo, s)
  else if ado = regSiiControl then
    if s.busy = 0 then (([0, 0] ++ leBytes 4 s.word.toNat ++ leBytes 4 (s.eeprom s.word).toNat ++ zeros n).take n, s)
    else (([0, siiStatusBusy] ++ zeros n).take n, { s with busy := s.busy - 1 })
  else (zeros n, s)

def write (s : RingSlave) (ado : UInt16) (data : List UInt8) : RingSlave :=
  if ado = regStationAddr then { s with station := u16Le data }
  else if ado = regSiiControl then { s with word := u16Le (data.drop 2), busy := s.delay (u16Le (data.drop 2)) }
  else s

end RingSlave

structure Passing where
  adp : UInt16
  data : List UInt8
  wkc : UInt16

def RingSlave.pass (s : RingSlave) (command : Command) (ado : UInt16) (d : Passing) : RingSlave × Passing :=
  match command with
  | .brd =>
    let (bytes, s) := s.read ado d.data.length
    (s, ⟨d.adp + 1, List.zipWith (· ||| ·) d.data bytes, d.wkc + 1⟩)
  | .bwr => (s.write ado d.data, ⟨d.adp + 1, d.data, d.wkc + 1⟩)
  | .apwr => (if d.adp = 0 then s.write ado d.data else s, ⟨d.adp + 1, d.data, if d.adp = 0 then d.wkc + 1 else d.wkc⟩)
  | .fprd =>
    if d.adp = s.station then
      let (bytes, s) := s.read ado d.data.length
      (s, { d with data := bytes, wkc := d.wkc + 1 })
    else (s, d)
  | .fpwr => if d.adp = s.station then (s.write ado d.data, { d with wkc := d.wkc + 1 }) else (s, d)
  | _ => (s, d)

def passRing (command : Command) (ado : UInt16) : List RingSlave → Passing → List RingSlave × Passing
  | [], d => ([], d)
  | s :: rest, d =>
    let (s, d) := s.pass command ado d
    let (rest, d) := passRing command ado rest d
    (s :: rest, d)

def ringAnswers : Partner (List RingSlave) (List Access) (List UInt8) EcError := fun ring q o =>
  match q, o with
  | [a], .ok rx =>
    let r := passRing a.command a.ado ring ⟨a.adp, a.payload, 0⟩
    match parse rx with
    | some reply => if reply.workingCounter = r.2.wkc ∧ reply.data = r.2.data then some r.1 else none
    | none => none
  | _, _ => none

end EcMaster
