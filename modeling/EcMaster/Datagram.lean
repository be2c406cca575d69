import EcMaster.Library.Segment
import EcMaster.Library.LittleEndian

namespace EcMaster

open Library.Segment Library.LittleEndian

def ecFrameHeaderSize : ℕ := 2
def ecDatagramHeaderSize : ℕ := 10
def ecDatagramFooterSize : ℕ := 2
def ecMinEcatFrame : ℕ := 46

inductive Command
  | aprd | apwr | aprw | fprd | fpwr | fprw | brd | bwr | brw | lrd | lwr | lrw | armw | frmw
  deriving DecidableEq, Repr

def Command.code : Command → UInt8
  | aprd => 0x01
  | apwr => 0x02
  | aprw => 0x03
  | fprd => 0x04
  | fpwr => 0x05
  | fprw => 0x06
  | brd => 0x07
  | bwr => 0x08
  | brw => 0x09
  | lrd => 0x0A
  | lwr => 0x0B
  | lrw => 0x0C
  | armw => 0x0D
  | frmw => 0x0E

structure Reply where
  command : UInt8
  index : UInt8
  workingCounter : UInt16
  data : List UInt8
  deriving DecidableEq

def autoincAdp (ringPos : UInt16) : UInt16 := 0 - ringPos

def frameHdr (datagramLen : ℕ) : UInt16 := (UInt16.ofNat datagramLen &&& 0x07FF) ||| 0x1000

def lengthWord (plen : ℕ) : UInt16 := UInt16.ofNat plen &&& 0x07FF

def padFrame (buf : List UInt8) (total : ℕ) : List UInt8 × ℕ :=
  (overwrite buf total (List.replicate (ecMinEcatFrame - total) 0), max total ecMinEcatFrame)

def writeDatagram (buf : List UInt8) (off : ℕ) (index : UInt8) (cmd : Command) (adp ado : UInt16)
    (payload : List UInt8) : List UInt8 :=
  let plen := payload.length
  let buf := overwrite buf off [cmd.code, index]
  let buf := overwrite buf (off + 2) (leBytes 2 adp.toNat)
  let buf := overwrite buf (off + 4) (leBytes 2 ado.toNat)
  let buf := overwrite buf (off + 6) (leBytes 2 (lengthWord plen).toNat)
  let buf := overwrite buf (off + 8) (leBytes 2 0)
  let buf := overwrite buf (off + 10) payload
  overwrite buf (off + 10 + plen) (leBytes 2 0)

def build (buf : List UInt8) (index : UInt8) (cmd : Command) (adp ado : UInt16) (payload : List UInt8) :
    List UInt8 × ℕ :=
  let datagramLen := ecDatagramHeaderSize + payload.length + ecDatagramFooterSize
  let buf := overwrite buf 0 (leBytes 2 (frameHdr datagramLen).toNat)
  let buf := writeDatagram buf 2 index cmd adp ado payload
  padFrame buf (ecFrameHeaderSize + datagramLen)

/-- The `loop` of `append`: the offset of the last datagram, found by walking the lengths. Each round
moves on by at least twelve bytes, so the end of the region is enough fuel. -/
def lastDatagram (buf : List UInt8) (regionEnd : ℕ) : ℕ → ℕ → ℕ
  | 0, off => off
  | fuel + 1, off =>
    let plen := (u16Le (slice buf (off + 6) 2) &&& 0x07FF).toNat
    let next := off + ecDatagramHeaderSize + plen + ecDatagramFooterSize
    if next ≥ regionEnd then off else lastDatagram buf regionEnd fuel next

def append (buf : List UInt8) (index : UInt8) (cmd : Command) (adp ado : UInt16) (payload : List UInt8) :
    List UInt8 × ℕ :=
  let region := (u16Le (slice buf 0 2) &&& 0x07FF).toNat
  let regionEnd := ecFrameHeaderSize + region
  let last := lastDatagram buf regionEnd regionEnd ecFrameHeaderSize
  let raw := u16Le (slice buf (last + 6) 2)
  let off := last + ecDatagramHeaderSize + (raw &&& 0x07FF).toNat + ecDatagramFooterSize
  let buf := overwrite buf (last + 6) (leBytes 2 (raw ||| 0x8000).toNat)
  let buf := writeDatagram buf off index cmd adp ado payload
  let newRegion := region + ecDatagramHeaderSize + payload.length + ecDatagramFooterSize
  let buf := overwrite buf 0 (leBytes 2 (frameHdr newRegion).toNat)
  padFrame buf (ecFrameHeaderSize + newRegion)

def parse (frame : List UInt8) : Option Reply :=
  if frame.length < ecFrameHeaderSize + ecDatagramHeaderSize + ecDatagramFooterSize then none
  else
    let dataLen := (u16Le (slice frame 8 2) &&& 0x07FF).toNat
    let dataStart := ecFrameHeaderSize + ecDatagramHeaderSize
    let wkcStart := dataStart + dataLen
    if frame.length < wkcStart + ecDatagramFooterSize then none
    else
      some {
        command := frame.getD 2 0
        index := frame.getD 3 0
        workingCounter := u16Le (slice frame wkcStart 2)
        data := slice frame dataStart dataLen }

def parseAt (frame : List UInt8) (off : ℕ) : Option (Reply × ℕ) :=
  if frame.length < off + ecDatagramHeaderSize + ecDatagramFooterSize then none
  else
    let lenWord := u16Le (slice frame (off + 6) 2)
    let dataLen := (lenWord &&& 0x07FF).toNat
    let more := lenWord &&& 0x8000 ≠ 0
    let dataStart := off + ecDatagramHeaderSize
    let wkcStart := dataStart + dataLen
    if frame.length < wkcStart + ecDatagramFooterSize then none
    else
      some ({
        command := frame.getD off 0
        index := frame.getD (off + 1) 0
        workingCounter := u16Le (slice frame wkcStart 2)
        data := slice frame dataStart dataLen }, if more then wkcStart + ecDatagramFooterSize else 0)

def answerFrame (cmd : Command) (index : UInt8) (data : List UInt8) (wkc : UInt16) (rest : List UInt8) : List UInt8 :=
  [0x11, 0x10, cmd.code, index, 0, 0, 0, 0] ++
    leBytes 2 (UInt16.ofNat data.length ||| if rest = [] then 0 else 0x8000).toNat ++ [0, 0] ++ data ++
      leBytes 2 wkc.toNat ++ rest

end EcMaster
