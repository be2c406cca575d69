import EcMaster.HostBridge
import EcMaster.HostSpi

namespace EcMaster

open Library.Run Library.Segment

/-- What the task has still to write to the transmit FIFO: nothing, the word that goes with the one just read, or the
first words of a frame. -/
inductive Feed where
  | none
  | word
  | refill
  deriving DecidableEq

/-- Both halves of the LPSPI slave, the bridge that its task serves, and a record of what the host has read and of the
replies staged for it. -/
structure HostDuplex (L : Layout) where
  half : HostSpi L
  tx : List UInt8
  txIdx : ℕ
  nextTx : List UInt8
  txFifo : List UInt8
  feed : Feed
  bridge : HostBridge L
  miso : List (Option UInt8)
  replies : List (List UInt8)

/-- The SPI events, and the cyclic task taking its turn with the bridge. -/
inductive DuplexEvent (L : Layout) where
  | word (w : UInt8)
  | error
  | run
  | cyclic (f : HostBridge L → HostBridge L)

namespace HostDuplex

variable {L : Layout}

def frameLen (L : Layout) : ℕ := HostSpi.frameLen L

def pushTxWord (s : HostDuplex L) : HostDuplex L :=
  if s.txIdx ≥ frameLen L then s
  else if s.txFifo.length ≥ fifoDepth then s
  else { s with txFifo := s.txFifo ++ [s.tx.getD s.txIdx 0], txIdx := s.txIdx + 1 }

def reloadWord (s : HostDuplex L) : HostDuplex L :=
  if s.txIdx ≥ frameLen L ∨ s.txFifo.length ≥ fifoDepth then { s with feed := .none } else s.pushTxWord

def setNextTx (s : HostDuplex L) (frame : List UInt8) : HostDuplex L :=
  let n := min frame.length (frameLen L)
  { s with nextTx := overwrite (overwrite s.nextTx 0 (frame.take n)) n (List.replicate (frameLen L - n) 0) }

def replyFrame (h : HostBridge L) : List UInt8 := overwrite (List.replicate L.frameLen 0) 0 h.reply

def restartFrame (s : HostDuplex L) : HostDuplex L :=
  { s with half := s.half.restartFrame, txIdx := 0, txFifo := [], feed := .refill }

def beginNextFrame (s : HostDuplex L) : HostDuplex L :=
  { s with
    half := s.half.beginNextFrame
    tx := overwrite s.tx 0 (s.nextTx.take (frameLen L))
    txIdx := 0
    txFifo := []
    feed := .refill }

def ingest (s : HostDuplex L) : HostDuplex L :=
  let bridge := s.bridge.ingest s.half.rxFrame
  { s with
    bridge := bridge
    replies := s.replies ++ [replyFrame bridge]
    half := { s.half with frames := s.half.frames ++ [s.half.rxFrame] } }

def finish (s : HostDuplex L) : HostDuplex L := (s.ingest.setNextTx (replyFrame s.ingest.bridge)).beginNextFrame

def serve (s : HostDuplex L) : HostDuplex L :=
  match s.feed with
  | .word => { s.pushTxWord with feed := .none }
  | .refill => s.reloadWord
  | .none =>
    match s.half.task with
    | .waiting => if s.half.errorFlag then s.restartFrame else { s with half := s.half.serve }
    | .draining =>
      { s with half := s.half.serve, feed := if s.half.rxFifo = [] then .none else .word }
    | .complete => s.finish

def clock (s : HostDuplex L) (w : UInt8) : HostDuplex L :=
  let half := s.half.clock w
  { s with
    half := if s.txFifo = [] then { half with errorFlag := true } else half
    txFifo := s.txFifo.tail
    miso := s.miso ++ [s.txFifo.head?] }

def step (s : HostDuplex L) : DuplexEvent L → HostDuplex L
  | .word w => s.clock w
  | .error => { s with half := { s.half with errorFlag := true } }
  | .run => s.serve
  | .cyclic f => { s with bridge := f s.bridge }

def new (bridge : HostBridge L) : HostDuplex L where
  half := HostSpi.new L
  tx := List.replicate hostSpiMaxFrame 0
  txIdx := min (frameLen L) fifoDepth
  nextTx := List.replicate hostSpiMaxFrame 0
  txFifo := List.replicate (min (frameLen L) fifoDepth) 0
  feed := .none
  bridge := bridge
  miso := []
  replies := []

end HostDuplex

end EcMaster
