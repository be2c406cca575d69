import EcMaster.Config

namespace EcMaster

structure EcPdoEntryInfo where
  index : UInt16
  subindex : UInt8
  bitLength : UInt8
  deriving DecidableEq

structure PdoCfg where
  index : UInt16
  entries : List EcPdoEntryInfo
  deriving DecidableEq

structure SmCfg where
  index : UInt8
  physStart : UInt16
  control : UInt8
  dir : EcDirection
  size : UInt16
  pdos : List PdoCfg
  deriving DecidableEq

structure DcCfg where
  assignActivate : UInt16
  sync0CycleNs : UInt32
  sync0ShiftNs : UInt32
  sync1CycleNs : UInt32
  deriving DecidableEq

structure SdoInit where
  index : UInt16
  subindex : UInt8
  data : List UInt8
  deriving DecidableEq

/-- A `SlaveCfg` with the fields that the bring-up reads. -/
structure SlaveSetup extends SlaveCfg where
  vendorId : UInt32
  productCode : UInt32
  sms : List SmCfg
  dc : Option DcCfg
  sdoInit : List SdoInit

/-- The `BUS` of the bring-up, beside the tables that the process data uses. -/
structure Bus where
  layout : Layout
  cycleNs : UInt64
  slaves : List SlaveSetup
  same : slaves.map SlaveSetup.toSlaveCfg = layout.bus.slaves

end EcMaster
