import EcMaster.OpReached
import EcMaster.Requests

namespace EcMaster

open Library.Dialogue Library.Dialogue.Script Library.Segment

section Slaves

variable {B : Bus} {slaves : List SlaveInfo} {w : Stations} {cfgs : List SlaveSetup}

end Slaves

namespace Master

variable {B : Bus} {m m' : Master B} {cycleNs : UInt64}

end Master

namespace Master

variable {B : Bus} {m m' : Master B} {cycleNs : UInt64}

end Master

end EcMaster
