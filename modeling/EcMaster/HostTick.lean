import EcMaster.Cyclic
import EcMaster.HostOutputs
import EcMaster.HostReply

namespace EcMaster

open Library.Segment Library.LittleEndian

/-- What stands between the receive and the send of a tick with a host. -/
structure Control (L : Layout) where
  cyclic : Cyclic L
  host : HostBridge L
  hostTimeout : Bool
  underrun : Bool

structure Ticked (L : Layout) where
  cyclic : Cyclic L
  dev : Device
  index : UInt8
  host : HostBridge L

namespace Cyclic

variable {L : Layout}

def controlFrom (c : Cyclic L) (stall : UInt16) (host : HostBridge L) : Control L :=
  let hostTimeout : Bool := stall ≥ hostWdogLimitCycles
  let applied := host.applyOutputs c.domain.image c.totalCycles
  let host := applied.2
  let c := c.putImage applied.1 (HostBridge.length_applyOutputs _ _ _)
  let underrun := host.motionUnderrun
  ⟨c.applyDriveControl host hostTimeout underrun, host, hostTimeout, underrun⟩

def control (c : Cyclic L) (host : HostBridge L) : Control L :=
  let (stall, host) := host.tickWatchdog
  c.controlFrom stall host

def tickWithHost (c : Cyclic L) (dev : Device) (index : UInt8) (latency : UInt32) (host : HostBridge L) :
    Ticked L :=
  let (c, dev) := c.intake dev latency
  let k := c.control host
  let (c, dev, index) := k.cyclic.send dev index
  ⟨c, dev, index, k.host.buildReply c.domain.image (c.replyStatus k.hostTimeout k.underrun)⟩

end Cyclic

end EcMaster
