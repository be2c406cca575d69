import EcMaster.FsmChange

namespace EcMaster.Cli

abbrev Text := List Char

/-- The Unicode white space that `trim` and `split_whitespace` go by. -/
def isWhitespace (c : Char) : Bool :=
  c = ' ' || (0x09 ≤ c.toNat && c.toNat ≤ 0x0D) || c.toNat = 0x85 || c.toNat = 0xA0 || c.toNat = 0x1680 ||
    (0x2000 ≤ c.toNat && c.toNat ≤ 0x200A) || c.toNat = 0x2028 || c.toNat = 0x2029 || c.toNat = 0x202F ||
    c.toNat = 0x205F || c.toNat = 0x3000

def trim (s : Text) : Text := ((s.dropWhile isWhitespace).reverse.dropWhile isWhitespace).reverse

def splitFrom (word : Text) : Text → List Text
  | [] => if word = [] then [] else [word.reverse]
  | c :: s =>
    if isWhitespace c then (if word = [] then [] else [word.reverse]) ++ splitFrom [] s
    else splitFrom (c :: word) s

def splitWhitespace (s : Text) : List Text := splitFrom [] s

def stripPrefix (p s : Text) : Option Text := if p.isPrefixOf s then some (s.drop p.length) else none

def eqIgnoreAsciiCase (a b : Text) : Bool := a.map Char.toLower = b.map Char.toLower

def utf8Len (s : Text) : ℕ := (s.map fun c => c.utf8Size).sum

structure SdoType where
  name : String
  code : UInt16
  size : UInt8
  deriving DecidableEq, Repr

inductive MonitorMode where
  | on
  | off
  | toggle
  deriving DecidableEq, Repr

def rateMinHz : UInt32 := 50

def rateMaxHz : UInt32 := 8000

def types : List SdoType :=
  [⟨"bool", 0x0001, 1⟩, ⟨"int8", 0x0002, 1⟩, ⟨"int16", 0x0003, 2⟩, ⟨"int32", 0x0004, 4⟩, ⟨"uint8", 0x0005, 1⟩,
    ⟨"uint16", 0x0006, 2⟩, ⟨"uint32", 0x0007, 4⟩]

inductive Command where
  | empty
  | help
  | slaves
  | status
  | rescan
  | states (slave : UInt16) (target : UInt8)
  | upload (slave index : UInt16) (subindex : UInt8) (ty : Option SdoType)
  | download (slave index : UInt16) (subindex : UInt8) (ty : SdoType) (data : List UInt8) (len : UInt8)
  | start (slave : UInt16) (rateHz : Option UInt32)
  | stop
  | stats
  | monitor (mode : MonitorMode)
  | pdos
  | pd (pin : Option Text) (value : Option Int64)
  | host
  | crashlog
  | crashclear
  | error (msg : String)
  deriving DecidableEq

def findType (name : Text) : Option SdoType := types.find? fun t => t.name.toList = name

def err (msg : String) : Command := .error msg

def toDigit (radix : ℕ) (c : Char) : Option ℕ :=
  let d := if c.isDigit then c.toNat - '0'.toNat
    else if c.isLower then c.toNat - 'a'.toNat + 10
    else if c.isUpper then c.toNat - 'A'.toNat + 10
    else radix
  if d < radix then some d else none

def digitsFrom (radix v : ℕ) : Text → Option ℕ
  | [] => some v
  | c :: s =>
    match toDigit radix c with
    | none => none
    | some d => if v * radix + d < 2 ^ 64 then digitsFrom radix (v * radix + d) s else none

/-- `u64::from_str_radix`: one sign `+` may lead the digits. -/
def fromStrRadix (radix : ℕ) (s : Text) : Option ℕ :=
  match s with
  | [] => none
  | ['+'] => none
  | '+' :: s => digitsFrom radix 0 s
  | s => digitsFrom radix 0 s

def parseUint (s : Text) : Option ℕ :=
  let s := trim s
  match (stripPrefix "0x".toList s).or (stripPrefix "0X".toList s) with
  | some h => fromStrRadix 16 h
  | none =>
    match (stripPrefix "0b".toList s).or (stripPrefix "0B".toList s) with
    | some b => fromStrRadix 2 b
    | none => fromStrRadix 10 s

def parseInt (s : Text) : Option Int64 :=
  let s := trim s
  match stripPrefix "-".toList s with
  | some rest => (parseUint rest).map fun v => -Int64.ofNat v
  | none => (parseUint s).map Int64.ofNat

def encodeValue (ty : SdoType) (s : Text) : Option (List UInt8 × UInt8) :=
  (parseInt s).map fun v =>
    ((List.range 4).map fun i => if i < ty.size.toNat then UInt8.ofNat (v.toUInt64.toNat / 2 ^ (8 * i)) else 0, ty.size)

def signExtend (raw : UInt32) (size : UInt8) : Int32 :=
  match size with
  | 1 => raw.toUInt8.toInt8.toInt32
  | 2 => raw.toUInt16.toInt16.toInt32
  | _ => raw.toInt32

/-- `write!` to a string of at most `cap` bytes: piece by piece, up to the first that does not fit. -/
def writePieces (cap : ℕ) (s : Text) : List Text → Text
  | [] => s
  | p :: ps => if utf8Len (s ++ p) ≤ cap then writePieces cap (s ++ p) ps else s

def hexPieces (width n : ℕ) : List Text :=
  List.replicate (width - (Nat.toDigits 16 n).length) ['0'] ++ [Nat.toDigits 16 n]

def decimalPieces (n : ℤ) : List Text := (if n < 0 then [['-']] else []) ++ [Nat.toDigits 10 n.natAbs]

def formatCap : ℕ := 80

def rawValue (data : List UInt8) (size : ℕ) : UInt32 :=
  (List.range size).foldl (fun raw i => raw ||| ((data.getD i 0).toUInt32 <<< UInt32.ofNat (8 * i))) 0

def formatValue (ty : Option SdoType) (data : List UInt8) : Text :=
  match ty with
  | none => data.zipIdx.foldl (fun s (b, i) =>
      writePieces formatCap (if i > 0 then writePieces formatCap s [[' ']] else s) ("0x".toList :: hexPieces 2 b.toNat)) []
  | some t =>
    let raw := rawValue data (min t.size.toNat data.length)
    let shown : ℤ := if t.code = 0x0002 ∨ t.code = 0x0003 ∨ t.code = 0x0004 then (signExtend raw t.size).toInt else raw.toNat
    writePieces formatCap [] ("0x".toList :: hexPieces (t.size.toNat * 2) raw.toNat ++ [' '] :: decimalPieces shown)

def alStateFromName (name : Text) : Option UInt8 :=
  if eqIgnoreAsciiCase name "init".toList then some alStateInit
  else if eqIgnoreAsciiCase name "preop".toList then some alStatePreop
  else if eqIgnoreAsciiCase name "safeop".toList then some alStateSafeop
  else if eqIgnoreAsciiCase name "op".toList then some alStateOp
  else none

structure Opts where
  position : Option UInt16
  ty : Option Text
  rate : Option UInt32
  args : List Text

def optsFrom (o : Opts) : List Text → Except Command Opts
  | [] => .ok o
  | t :: toks =>
    if t = "-p".toList ∨ t = "--position".toList then
      match toks with
      | [] => .error (err "missing value for -p")
      | v :: toks =>
        match parseUint v with
        | none => .error (err "invalid position")
        | some n => optsFrom { o with position := some (UInt16.ofNat n) } toks
    else if let some rest := stripPrefix "-p".toList t then
      match parseUint rest with
      | none => .error (err "invalid position")
      | some n => optsFrom { o with position := some (UInt16.ofNat n) } toks
    else if t = "-r".toList ∨ t = "--rate".toList then
      match toks with
      | [] => .error (err "missing value for -r")
      | v :: toks =>
        match parseUint v with
        | none => .error (err "invalid rate")
        | some n => optsFrom { o with rate := some (UInt32.ofNat n) } toks
    else if let some rest := stripPrefix "-r".toList t then
      match parseUint rest with
      | none => .error (err "invalid rate")
      | some n => optsFrom { o with rate := some (UInt32.ofNat n) } toks
    else if t = "-t".toList ∨ t = "--type".toList then
      match toks with
      | [] => .error (err "missing value for -t")
      | v :: toks => optsFrom { o with ty := some v } toks
    else if let some rest := stripPrefix "--type=".toList t then optsFrom { o with ty := some rest } toks
    else if let some rest := stripPrefix "-t".toList t then optsFrom { o with ty := some rest } toks
    else if "-".toList.isPrefixOf t then .error (err "unknown option")
    else if o.args.length < 8 then optsFrom { o with args := o.args ++ [t] } toks
    else .error (err "too many arguments")

def parseOpts (toks : List Text) : Except Command Opts := optsFrom ⟨none, none, none, []⟩ toks

def parseStart (toks : List Text) : Command :=
  match parseOpts toks with
  | .error e => e
  | .ok o =>
    match o.rate with
    | some hz =>
      if rateMinHz ≤ hz ∧ hz ≤ rateMaxHz then .start (o.position.getD 0) (some hz)
      else err "rate out of range (50..8000 Hz)"
    | none => .start (o.position.getD 0) none

def parseMonitor (toks : List Text) : Command :=
  match toks.head? with
  | none => .monitor .toggle
  | some t =>
    if eqIgnoreAsciiCase t "on".toList then .monitor .on
    else if eqIgnoreAsciiCase t "off".toList then .monitor .off
    else err "usage: monitor [on|off]"

def pinName (s : Text) : Text := if utf8Len s ≤ 48 then s else []

def parsePd (toks : List Text) : Command :=
  match toks with
  | [] => .pd none none
  | [pin] => .pd (some (pinName pin)) none
  | [pin, value] =>
    match parseInt value with
    | some v => .pd (some (pinName pin)) (some v)
    | none => err "invalid value"
  | _ => err "usage: pd [<pin> [<value>]]"

def parseStates (toks : List Text) : Command :=
  match parseOpts toks with
  | .error e => e
  | .ok o =>
    match o.position, o.args with
    | none, _ => err "states requires -p<pos>"
    | some slave, [name] =>
      match alStateFromName name with
      | some target => .states slave target
      | none => err "unknown state (INIT|PREOP|SAFEOP|OP)"
    | some _, _ => err "usage: states -p<pos> <INIT|PREOP|SAFEOP|OP>"

def parseField (bound : ℕ) (s : Text) : Option ℕ :=
  match parseUint s with
  | some v => if v ≤ bound then some v else none
  | none => none

def parseDownload (slave index : UInt16) (subindex : UInt8) (ty : Option SdoType) (value : Text) : Command :=
  match ty with
  | none => err "download requires -t<type>"
  | some ty =>
    match encodeValue ty value with
    | some (data, len) => .download slave index subindex ty data len
    | none => err "invalid value for type"

def parseObject (o : Opts) (slave : UInt16) (download : Bool) : Command :=
  match parseField 0xFFFF (o.args.getD 0 []) with
  | none => err "invalid index"
  | some index =>
    match parseField 0xFF (o.args.getD 1 []) with
    | none => err "invalid subindex"
    | some subindex =>
      match o.ty.map findType with
      | some none => err "unknown type; see 'help'"
      | ty =>
        if download then
          parseDownload slave (UInt16.ofNat index) (UInt8.ofNat subindex) ty.join (o.args.getD 2 [])
        else .upload slave (UInt16.ofNat index) (UInt8.ofNat subindex) ty.join

def parseSdo (toks : List Text) (download : Bool) : Command :=
  match parseOpts toks with
  | .error e => e
  | .ok o =>
    match o.position with
    | none => err "requires -p<pos>"
    | some slave =>
      if o.args.length ≠ (if download then 3 else 2) then
        if download then err "usage: download -p<pos> -t<type> <idx> <sub> <value>"
        else err "usage: upload -p<pos> [-t<type>] <idx> <sub>"
      else parseObject o slave download

def parse (line : Text) : Command :=
  match splitWhitespace (trim line) with
  | [] => .empty
  | word :: toks =>
    let is := fun name : String => word = name.toList
    if 16 < (word :: toks).length then err "too many arguments"
    else if is "help" ∨ is "?" then .help
    else if is "slaves" then .slaves
    else if is "status" ∨ is "info" then .status
    else if is "rescan" then .rescan
    else if is "states" ∨ is "state" then parseStates toks
    else if is "upload" ∨ is "up" then parseSdo toks false
    else if is "download" ∨ is "down" then parseSdo toks true
    else if is "start" then parseStart toks
    else if is "stop" then .stop
    else if is "stats" then .stats
    else if is "monitor" ∨ is "mon" then parseMonitor toks
    else if is "pdos" then .pdos
    else if is "pd" then parsePd toks
    else if is "host" then .host
    else if is "crashlog" then .crashlog
    else if is "crashclear" then .crashclear
    else err "unknown command; type 'help'"

example : formatValue (some ⟨"int16", 0x0003, 2⟩) [0x39, 0x82] = "0x8239 -32199".toList := by decide +kernel

example : parse "download -p0 -tuint16 0x1C32 1 300".toList =
    .download 0 0x1C32 1 ⟨"uint16", 0x0006, 2⟩ [0x2C, 0x01, 0, 0] 2 := by decide +kernel

end EcMaster.Cli
