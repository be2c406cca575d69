import EcMaster.Config
import EcMaster.Library.LittleEndian

namespace EcMaster

open Library.LittleEndian

structure SlaveInfo where
  ringPos : UInt16
  stationAddr : UInt16
  alState : UInt8
  baseType : UInt8
  baseFmmuCount : UInt8
  baseSyncCount : UInt8
  vendorId : UInt32
  productCode : UInt32
  revision : UInt32
  rxMboxOffset : UInt16
  rxMboxSize : UInt16
  txMboxOffset : UInt16
  txMboxSize : UInt16
  mboxProtocols : UInt16
  supportsCoe : Bool
  deriving DecidableEq

structure Mailbox where
  stationAddr : UInt16
  rxOffset : UInt16
  rxSize : UInt16
  txOffset : UInt16
  txSize : UInt16
  deriving DecidableEq

def SlaveInfo.mailbox (s : SlaveInfo) : Mailbox :=
  ⟨s.stationAddr, s.rxMboxOffset, s.rxMboxSize, s.txMboxOffset, s.txMboxSize⟩

def regSm0 : UInt16 := 0x0800
def regSm1 : UInt16 := 0x0808
def regFmmuBase : UInt16 := 0x0600
def regWdDivider : UInt16 := 0x0400
def regWdPdata : UInt16 := 0x0420

def ecSyncPageSize : UInt16 := 8
def fmmuPageSize : UInt16 := 16

/-- `sync::write_page`. -/
def syncPage (physStart length : UInt16) (control enable : UInt8) : List UInt8 :=
  leBytes 2 physStart.toNat ++ leBytes 2 length.toNat ++ [control, 0, enable, 0]

def mailboxOutPage (physStart size : UInt16) : List UInt8 := syncPage physStart size 0x26 0x01

def mailboxInPage (physStart size : UInt16) : List UInt8 := syncPage physStart size 0x22 0x01

/-- `write_process_out` and `write_process_in`, which do the same. -/
def processPage (physStart size : UInt16) (control : UInt8) : List UInt8 :=
  syncPage physStart size control (if size > 0 then 0x01 else 0)

def fmmuDir : EcDirection → UInt8
  | .input => 0x01
  | .output => 0x02

/-- `fmmu_config::write_page`. -/
def fmmuPage (cfg : FmmuCfg) : List UInt8 :=
  leBytes 4 cfg.logicalStart ++ leBytes 2 cfg.size ++ [0x00, 0x07] ++ leBytes 2 cfg.physStart ++
    [0x00, fmmuDir cfg.dir] ++ leBytes 2 1 ++ leBytes 2 0

def mboxTypeCoe : UInt8 := 0x03

/-- `mailbox::write_header`. -/
def mailboxHeader (dataLen : UInt16) (mboxType counter : UInt8) : List UInt8 :=
  leBytes 2 dataLen.toNat ++ [0, 0, 0, (mboxType &&& 0x0F) ||| ((counter &&& 0x07) <<< (4 : UInt8))]

structure MailboxHeader where
  dataLen : UInt16
  mboxType : UInt8
  counter : UInt8

def parseHeader (buf : List UInt8) : Option MailboxHeader :=
  if buf.length < 6 then none
  else
    let flags := buf.getD 5 0
    some ⟨u16Le (buf.take 2), flags &&& 0x0F, (flags >>> (4 : UInt8)) &&& 0x07⟩

end EcMaster
