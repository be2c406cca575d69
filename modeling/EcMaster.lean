import EcMaster.Library.Segment
import EcMaster.Config
import EcMaster.Library.Circular
import EcMaster.Library.LittleEndian
import EcMaster.Library.Run
import EcMaster.Library.Streak
import EcMaster.MotionBuffer
import EcMaster.ProcessData
import EcMaster.Cia402
import EcMaster.HostBridge
import EcMaster.HostFrames
import EcMaster.HostOutputs
import EcMaster.HostReply
import EcMaster.Datagram
import EcMaster.DatagramChain
import EcMaster.Device
import EcMaster.Domain
import EcMaster.Cyclic
import EcMaster.HostTick
import EcMaster.Engine
import EcMaster.SentFrame
import EcMaster.TickEffect
import EcMaster.Firmware
import EcMaster.History
import EcMaster.Watchdog
import EcMaster.Receive
import EcMaster.Drives
import EcMaster.LinkStatus
import EcMaster.OutputRegion
import EcMaster.OpCursor
import EcMaster.OpGating
import EcMaster.SafeState
import EcMaster.DataLoss
import EcMaster.Restart
import EcMaster.StreamHold
import EcMaster.HostComponent
import EcMaster.HostSends
import EcMaster.HostStream
import EcMaster.HostReport
import EcMaster.LostFrame
import EcMaster.LockStep
import EcMaster.Settling
import EcMaster.SelfHealing
import EcMaster.Feeding
import EcMaster.Wrapping
import EcMaster.NeverStarves
import EcMaster.Library.SerialNumber
import EcMaster.TagOrder
import EcMaster.Generator
import EcMaster.Library.Packing
import EcMaster.Resolution
import EcMaster.ImageLayout
import EcMaster.FaultPin
import EcMaster.Heartbeat
import EcMaster.Stalled
import EcMaster.MotionFifo
import EcMaster.MotionRuns
import EcMaster.DatagramWalk
import EcMaster.DatagramCodec
import EcMaster.Decoding
import EcMaster.Pairing
import EcMaster.InputWindows
import EcMaster.SerialPd
import EcMaster.Reported
import EcMaster.Sequencer
import EcMaster.SerialWrites
import EcMaster.PinWire
import EcMaster.PiHeader
import EcMaster.WireAgreement
import EcMaster.Exchange
import EcMaster.Fsm
import EcMaster.FsmChange
import EcMaster.SlavePages
import EcMaster.FsmCoe
import EcMaster.CoeSeq
import EcMaster.FsmDc
import EcMaster.FsmSlaveConfig
import EcMaster.BringUp
import EcMaster.PreOp
import EcMaster.Agenda
import EcMaster.DcStart
import EcMaster.ScanFsm
import EcMaster.ConfigSeq
import EcMaster.Master
import EcMaster.Operations
import EcMaster.LastScan
import EcMaster.AlMonitor
import EcMaster.DriveTalk
import EcMaster.QuickStop
import EcMaster.AlFaults
import EcMaster.Cli
import EcMaster.Console
import EcMaster.Responses
import EcMaster.TypedLines
import EcMaster.Commands
import EcMaster.HostSpi
import EcMaster.SpiFraming
import EcMaster.FrameIndex
import EcMaster.SharedIndex
import EcMaster.RingReplies
import EcMaster.Attribution
import EcMaster.SharedRuns
import EcMaster.Attributed
import EcMaster.ScanRecord
import EcMaster.ScanProgress
import EcMaster.ScanResults
import EcMaster.RingDrain
import EcMaster.PrimingCount
import EcMaster.MultiRead
import EcMaster.SdoAnswers
import EcMaster.SdoRoundTrip
import EcMaster.PinIsolation
import EcMaster.CrcErrors
import EcMaster.Bursts
import EcMaster.TypedNumbers
import EcMaster.TypedValues
import EcMaster.DcAlignment
import EcMaster.Matching
import EcMaster.FaultReset
import EcMaster.StateChange
import EcMaster.Capacities
import EcMaster.ExpectedWkc
import EcMaster.MotionPayload
import EcMaster.MotionFidelity
import EcMaster.Topology
import EcMaster.EcatLink
import EcMaster.FullDuplex
import EcMaster.Library.Partner
import EcMaster.ScanComplete
import EcMaster.BusStartUp
import EcMaster.Requests
import EcMaster.SdoRequests
import EcMaster.Commissioning
import EcMaster.ColdStart
