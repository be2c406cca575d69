import EcMaster.Cli
import EcMaster.Library.Run

namespace EcMaster

open Library.Run

def ecatRespLines : ℕ := 40

def ecatOutCap : ℕ := ecatRespLines * 98

def ecatLineCap : ℕ := 128

def usbMaxPacketSize : ℕ := 512

def rxbufSize : ℕ := 64

def bootBannerLines : ℕ := 2

/-- A line of output, as a `heapless::String<96>` holds it. -/
structure Line where
  bytes : List UInt8
  length_le : bytes.length ≤ 96

def crlf : List UInt8 := [0x0D, 0x0A]

def Line.text (l : Line) : List UInt8 := l.bytes ++ crlf

structure RespLines where
  lines : List Line
  length_le : lines.length ≤ ecatRespLines

def RespLines.text (r : RespLines) : List UInt8 := r.lines.flatMap Line.text

def asciiBytes (s : String) : List UInt8 := s.toList.map fun c => UInt8.ofNat c.toNat

/-- `heapless::Vec::extend_from_slice`: all of the bytes, or none where they do not fit. -/
def extendWithin (cap : ℕ) (buf s : List UInt8) : List UInt8 := if buf.length + s.length ≤ cap then buf ++ s else buf

structure EcatOut where
  buf : List UInt8
  cursor : ℕ

namespace EcatOut

def new : EcatOut := ⟨[], 0⟩

def pushLine (o : EcatOut) (bytes : List UInt8) : EcatOut :=
  { o with buf := extendWithin ecatOutCap (extendWithin ecatOutCap o.buf bytes) crlf }

def setLines (_ : EcatOut) (lines : RespLines) : EcatOut :=
  lines.lines.foldl (fun o line => o.pushLine line.bytes) new

def loadLine (_ : EcatOut) (line : Line) : EcatOut := new.pushLine line.bytes

def remaining (o : EcatOut) : List UInt8 := o.buf.drop (min o.cursor o.buf.length)

def pending (o : EcatOut) : Bool := o.cursor < o.buf.length

def advance (o : EcatOut) (n : ℕ) : EcatOut := { o with cursor := min (o.cursor + n) o.buf.length }

end EcatOut

/-- What the worker goes on with once a streamed line is drained or has been waited for long enough. -/
inductive AfterLine where
  | scan
  | result (line : Line)
  | return

inductive Worker where
  | booting (left : ℕ)
  | idle
  | running (cmd : Cli.Command)
  | scanning
  | emitting (left : ℕ) (next : AfterLine)
  | after

/-- The serial console: `usb_isr`, the worker and what they share, and beside it a record of what the worker has
executed and published and of what the host has been given of that. -/
structure Console where
  ecatLine : Cli.Text
  ecatCmd : Option Cli.Command
  ecatOut : EcatOut
  bannerLine : ℕ
  bannerDone : Bool
  usbReady : Bool
  worker : Worker
  monitorOn : Bool
  monRunning : Bool
  executed : List Cli.Command
  published : List (List UInt8)
  delivered : List UInt8

inductive WriteResult where
  | ok
  | wouldBlock
  | err
  deriving DecidableEq

/-- What the worker meets in a step: the lines of a finished command, those of the scan, the time and the engine. -/
structure WorkerEnv where
  lines : Option RespLines
  host : RespLines
  refusal : Option Line
  trace : Option Line
  result : Option Line
  due : Bool
  status : Option Line

inductive ConsoleEvent where
  | usb (ready : Bool) (packet : Option (List UInt8)) (write : WriteResult)
  | work (env : WorkerEnv)

namespace Console

def init : Console := ⟨[], none, .new, 0, false, false, .booting 200, false, false, [], [], []⟩

def endsLine (b : UInt8) : Bool := b = 0x0D ∨ b = 0x0A

def erases (b : UInt8) : Bool := b = 0x08 ∨ b = 0x7F

def prints (b : UInt8) : Bool := 0x20 ≤ b ∧ b ≤ 0x7E

def usbByte (c : Console) (b : UInt8) : Console :=
  if endsLine b then
    if c.ecatLine = [] then c
    else { c with ecatCmd := c.ecatCmd.or (some (Cli.parse c.ecatLine)), ecatLine := [] }
  else if erases b then { c with ecatLine := c.ecatLine.dropLast }
  else if prints b then
    { c with ecatLine := if c.ecatLine.length < ecatLineCap then c.ecatLine ++ [Char.ofNat b.toNat] else c.ecatLine }
  else c

def writeBanner (c : Console) (w : WriteResult) : Console :=
  if c.bannerLine < bootBannerLines ∧ w = .wouldBlock then c
  else { c with bannerLine := c.bannerLine + 1, bannerDone := bootBannerLines ≤ c.bannerLine + 1 }

def drain (c : Console) (w : WriteResult) : Console :=
  let chunk := c.ecatOut.remaining.take usbMaxPacketSize
  if c.ecatOut.pending then
    match w with
    | .ok => { c with ecatOut := c.ecatOut.advance chunk.length, delivered := c.delivered ++ chunk }
    | .wouldBlock => c
    | .err => { c with ecatOut := c.ecatOut.advance chunk.length }
  else if c.bannerDone then c
  else c.writeBanner w

def usb (read : ℕ → List UInt8 → Option (List UInt8)) (c : Console) (ready : Bool) (packet : Option (List UInt8))
    (w : WriteResult) : Console :=
  if ready then
    (((packet.bind (read rxbufSize)).getD []).foldl usbByte { c with usbReady := true }).drain w
  else { c with bannerDone := false, bannerLine := 0, ecatLine := [] }

def respond (c : Console) (lines : RespLines) : Console :=
  { c with ecatOut := c.ecatOut.setLines lines, published := c.published ++ [lines.text], worker := .after }

def emitLine (c : Console) (line : Line) (next : AfterLine) : Console :=
  { c with ecatOut := c.ecatOut.loadLine line, published := c.published ++ [line.text], worker := .emitting 100 next }

def resume (c : Console) : AfterLine → Console
  | .scan => { c with worker := .scanning }
  | .result line => c.emitLine line .return
  | .return => { c with worker := .after }

def monitorLine (on : Bool) : Line :=
  if on then ⟨asciiBytes "[ecat] monitor on (auto-stats ~500ms)", by decide +kernel⟩
  else ⟨asciiBytes "[ecat] monitor off (auto-stats ~500ms)", by decide +kernel⟩

def monitorAck (on : Bool) : RespLines := ⟨[monitorLine on], Nat.le_add_left 1 39⟩

def applyMode (on : Bool) : Cli.MonitorMode → Bool
  | .on => true
  | .off => false
  | .toggle => !on

def take (c : Console) (cmd : Cli.Command) : Console := { c with ecatCmd := none, executed := c.executed ++ [cmd] }

def setMonitor (c : Console) (on : Bool) : Console := { c with monitorOn := on }

def execute (c : Console) (env : WorkerEnv) (cmd : Cli.Command) : Console :=
  match cmd with
  | .rescan =>
    match env.refusal with
    | some line => (c.take cmd).emitLine line .return
    | none => { c.take cmd with worker := .scanning }
  | .host => (c.take cmd).respond env.host
  | .monitor mode =>
    let on := applyMode c.monitorOn mode
    ((c.take cmd).setMonitor on).respond (monitorAck on)
  | cmd => { c.take cmd with worker := .running cmd }

def cyclicStopped : Line := ⟨asciiBytes "[mon] cyclic stopped", by decide +kernel⟩

def publishIdle (c : Console) (line : Line) (stopping : Bool) : Console :=
  if c.ecatOut.pending then c
  else
    { c with
      ecatOut := c.ecatOut.loadLine line
      published := c.published ++ [line.text]
      monRunning := c.monRunning && !stopping }

def maybeEmitMonitor (c : Console) (status : Option Line) : Console :=
  match status with
  | some line => ({ c with monRunning := true }).publishIdle line false
  | none => if c.monRunning then c.publishIdle cyclicStopped true else c

/-- A step of `ethercat_worker`: from one point where `usb_isr` can come in between to the next. Only where `host`,
`monitor` and a refused `rescan` take their command and publish the answer in two critical sections are both one step. -/
def work (c : Console) (env : WorkerEnv) : Console :=
  match c.worker with
  | .booting 0 => { c with worker := .idle }
  | .booting (n + 1) => { c with worker := if c.usbReady then .idle else .booting n }
  | .idle =>
    match c.ecatCmd with
    | some cmd => c.execute env cmd
    | none => { c with worker := .after }
  | .running _ =>
    match env.lines with
    | some lines => c.respond lines
    | none => c
  | .scanning =>
    match env.trace, env.result with
    | some line, some result => c.emitLine line (.result result)
    | some line, none => c.emitLine line .scan
    | none, some result => c.emitLine result .return
    | none, none => c
  | .emitting 0 next => c.resume next
  | .emitting (n + 1) next => if c.ecatOut.pending then { c with worker := .emitting n next } else c.resume next
  | .after => { (if c.monitorOn ∧ env.due then c.maybeEmitMonitor env.status else c) with worker := .idle }

def step (read : ℕ → List UInt8 → Option (List UInt8)) (c : Console) : ConsoleEvent → Console
  | .usb ready packet w => c.usb read ready packet w
  | .work env => c.work env

end Console

end EcMaster
