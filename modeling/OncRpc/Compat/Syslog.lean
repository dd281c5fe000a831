import Mathlib.Algebra.Ring.Int.Defs
import Mathlib.Algebra.Ring.Nat
import OncRpc.Base.Buffer
import OncRpc.Base.Format

/-! `syslog.c`: a message is put together in a buffer, from a header, a format that is expanded,
and a suffix. -/
namespace OncRpc.Compat

open CString Format

/-- `%x`. -/
def hex (n : Nat) : CString := (Nat.toDigits 16 n).map fun c => UInt8.ofNat c.toNat

/-- The formatted output of the C library. A conversion prints some of the arguments, and leaves
others. -/
structure Printf where
  Arg : Type
  /-- The string that a pointer leads to. -/
  pointee : Arg → Option CString
  ofInt : BitVec 32 → Arg
  convert : CString → List Arg → Option (CString × List Arg)
  convert_s : ∀ args, convert (ascii "s") args =
    args.head?.bind fun arg => (pointee arg).map fun s => (s, args.tail)
  convert_x : ∀ n args, convert (ascii "x") (ofInt n :: args) = some (hex n.toNat, args)

/-- A call of a library function that ends the process, or a read or write outside of a buffer. -/
inductive Fault
  | invalidParameter
  | outside
  deriving DecidableEq

def store {α : Type} (mem : List α) (off : Nat) (bs : List α) : Except Fault (List α) :=
  if off + bs.length ≤ mem.length then .ok (Buffer.writeAt mem off bs) else .error .outside

/-- What is in front of the NUL. -/
def untilNul {α : Type} (byte : α → UInt8) (mem : List α) : Except Fault (List α) :=
  if mem.any (byte · == 0) then .ok (mem.takeWhile (byte · != 0)) else .error .outside

/-- A character of a format, or of an error text in it. `behind` is how much of the format is
behind it, or behind the `%` that stood for the text. -/
structure Cell where
  c : UInt8
  error : Bool
  behind : Nat
  deriving DecidableEq

def Cell.nul : Cell := ⟨0, false, 0⟩

/-- The characters of a format. -/
def own : CString → List Cell
  | [] => []
  | c :: cs => ⟨c, false, cs.length⟩ :: own cs

/-- An error text that is put in for a `%`. -/
def errorCells (at_ : Cell) (text : CString) : List Cell := text.map fun c => ⟨c, true, at_.behind⟩

structure SystemTime where
  month : Fin 12
  day : Nat
  hour : Nat
  minute : Nat
  second : Nat
  milliseconds : Nat

/-- What a call of `syslog` finds. The two texts are those of `errno` and of `GetLastError`. -/
structure Syslog where
  hostname : CString
  ident : CString
  pid : CString
  tid : Nat
  facility : BitVec 32
  mask : BitVec 32
  option : BitVec 32
  time : SystemTime
  strerror : CString
  systemMessage : Option CString
  strerror_nul : 0 ∉ strerror
  systemMessage_nul : ∀ text ∈ systemMessage, 0 ∉ text
  /-- What the proxy returns. -/
  proxy : Bool

/-- `FormatMessageA`. A text that does not fit is not stored. -/
def formatMessageA (message : Option CString) (size : Nat) : Option CString :=
  message.filter fun text => text.length < size

namespace Syslog

def messageLen : Nat := 2 * 1024
def fmtLen : Nat := 1024
def nlcr : Nat := 3

def logCons : BitVec 32 := 0x002
def logPerror : BitVec 32 := 0x020
def logTid : BitVec 32 := 0x100
def logMstime : BitVec 32 := 0x200
def logNoheader : BitVec 32 := 0x800
def logPrimask : BitVec 32 := 0x07
def logFacmask : BitVec 32 := 0x03f8
def logErr : BitVec 32 := 3

variable (lib : Printf) (sys : Syslog)

def has (option : BitVec 32) : Bool := sys.option &&& option != 0

/-! ### The format -/

/-- `m`, and `M`. -/
def isError (c : UInt8) : Bool := c == 'm'.toUInt8 || c == 'M'.toUInt8

/-- The search for a `%` that an `m` follows or an `M`. -/
def hasError : List Cell → Bool
  | ch :: next :: fmt => (ch.c == percent && isError next.c) || hasError (next :: fmt)
  | _ => false

/-- The loop over a format, of which `left` characters fit. -/
def copyFormat : List Cell → List Cell → Nat → Nat → Except Fault (List Cell × Nat)
  | [], buf, f, _ => .ok (buf, f)
  | [ch], buf, f, left =>
      if left = 0 then .ok (buf, f)
      else do
        let buf ← store buf f [ch]
        .ok (buf, f + 1)
  | ch :: next :: fmt, buf, f, left =>
      if left = 0 then .ok (buf, f)
      else if ch.c = percent ∧ 4 < left ∧ next.c = 'm'.toUInt8 then do
        let text := errorCells ch sys.strerror
        let buf ← store buf f (text.take (left - 1) ++ [Cell.nul])
        let len := if text.length < left then text.length else left
        copyFormat fmt buf (f + len) (left - len)
      else if ch.c = percent ∧ 4 < left ∧ next.c = 'M'.toUInt8 then
        match formatMessageA sys.systemMessage left with
        | some text => do
            let buf ← store buf f (errorCells ch text ++ [Cell.nul])
            copyFormat fmt buf (f + text.length) (left - text.length)
        | none => copyFormat fmt buf f left
      else do
        let buf ← store buf f [ch]
        copyFormat (next :: fmt) buf (f + 1) (left - 1)

/-- The format that is used, which may be the one in `fmt_copy`. -/
def expandFormat (fmt buf : List Cell) : Except Fault (List Cell) :=
  if hasError fmt then do
    let (buf, f) ← copyFormat sys fmt buf 0 (fmtLen - 1)
    let buf ← store buf f [Cell.nul]
    untilNul Cell.c buf
  else .ok fmt

/-! ### The message -/

/-- `prioritynames[LOG_PRI(pri)].c_name`. -/
def label (pri : BitVec 32) : CString :=
  ascii (["emerg", "alert", "crit", "err", "warn", "notice", "info", "debug"].getD
    (pri &&& logPrimask).toNat "")

def monthName (month : Fin 12) : CString :=
  ascii (["Jan", "Feb", "Mar", "Apr", "May", "Jun", "Jul", "Aug", "Sep", "Oct", "Nov", "Dec"].getD
    month.val "")

/-- `%0*u`. -/
def zeros (width n : Nat) : CString := List.leftpad width '0'.toUInt8 (decimal n)

/-- `[%-7.7s] : %s %2d %02u:%02u:%02u`. -/
def stamp (pri : BitVec 32) : CString :=
  ascii "[" ++ List.rightpad 7 ' '.toUInt8 ((label pri).take 7) ++ ascii "] : " ++
    monthName sys.time.month ++ ascii " " ++ List.leftpad 2 ' '.toUInt8 (decimal sys.time.day) ++
    ascii " " ++ zeros 2 sys.time.hour ++ ascii ":" ++ zeros 2 sys.time.minute ++ ascii ":" ++
    zeros 2 sys.time.second

/-- The header, by the options. -/
def header (pri : BitVec 32) : CString :=
  if sys.has logNoheader then []
  else if sys.has logTid then
    if sys.has logMstime then
      sys.stamp pri ++ ascii "." ++ zeros 3 sys.time.milliseconds ++ sys.hostname ++ ascii " " ++
        sys.ident ++ sys.pid ++ ascii "." ++ decimal sys.tid ++ ascii ": "
    else
      sys.stamp pri ++ sys.hostname ++ ascii " " ++ sys.ident ++ sys.pid ++ ascii "." ++
        decimal sys.tid ++ ascii ": "
  else
    if sys.has logMstime then
      sys.stamp pri ++ ascii "." ++ zeros 3 sys.time.milliseconds ++ sys.hostname ++ ascii " " ++
        sys.ident ++ sys.pid ++ ascii ": "
    else sys.stamp pri ++ sys.hostname ++ sys.ident ++ sys.pid ++ ascii ": "

/-- `sprintf_s` and `vsprintf_s`, of a text of which there may be none. -/
def printS (message : List UInt8) (off size : Nat) (text : Option CString) :
    Except Fault (List UInt8 × Nat) :=
  match text with
  | none => .error .invalidParameter
  | some text =>
      if text.length < size then do
        let message ← store message off (text ++ [0])
        .ok (message, text.length)
      else .error .invalidParameter

def putHeader (pri : BitVec 32) (message : List UInt8) : Except Fault (List UInt8 × Nat) :=
  if sys.has logNoheader then .ok (message, 0)
  else printS message 0 (messageLen - nlcr) (some (sys.header pri))

/-- `if ((n = strlen(s)) > space) n = space`, with `n` an `int`. -/
def clip (n space : Nat) : Int :=
  let n := Int.bmod n (2 ^ 32)
  if n > space then space else n

/-- `memcpy` of the front of a string. A length below zero is one above all others. -/
def putClipped (message : List UInt8) (off space : Nat) (s : CString) :
    Except Fault (List UInt8 × Nat) :=
  let n := clip s.length space
  if n < 0 then .error .outside
  else do
    let message ← store message off (s.take n.toNat)
    .ok (message, n.toNat)

def putText (fmt : List Cell) (ap : List lib.Arg) (message : List UInt8) (hdrlen space : Nat) :
    Except Fault (List UInt8 × Nat) :=
  if fmt.map Cell.c = ascii "%s" then
    match ap.head?.bind lib.pointee with
    | none => .ok (message, 0)
    | some buffer =>
        if buffer = [] then .ok (message, 0) else putClipped message hdrlen space buffer
  else printS message hdrlen space (sprintf Cell.c lib.convert fmt ap)

/-- The suffix is a pointer, and what is in memory from there on. -/
def putSuffix (suffix : Option (List UInt8)) (message : List UInt8) (len : Nat) :
    Except Fault (List UInt8 × Nat) :=
  match suffix with
  | none => .ok (message, len)
  | some mem => do
      let s ← untilNul id mem
      if s = [] then .ok (message, len)
      else do
        let (message, suflen) ← putClipped message len (messageLen - nlcr - len) s
        .ok (message, len + suflen)

/-- What is on the stack before a call. -/
structure Frame where
  message : List UInt8
  fmtCopy : List Cell
  length_message : message.length = messageLen
  length_fmtCopy : fmtCopy.length = fmtLen

/-- A call of the proxy, and what was formatted for it. -/
structure Handed where
  pri : BitVec 32
  message : List UInt8
  len : Nat
  format : List Cell
  msglen : Nat

/-- `LOG_MASK(LOG_PRI(pri)) & syslog_mask`. -/
def enabled (pri : BitVec 32) : Bool := ((1 : BitVec 32) <<< (pri &&& logPrimask)) &&& sys.mask != 0

def withFacility (pri : BitVec 32) : BitVec 32 :=
  if pri &&& logFacmask = 0 then pri ||| sys.facility else pri

/-- `vxsyslog` of a priority that is known. A line is ended for `stderr` and for `stdout`. -/
def logMessage (pri : BitVec 32) (fmt : CString) (ap : List lib.Arg)
    (suffix : Option (List UInt8)) (frame : Frame) : Except Fault (List Handed) :=
  if ! sys.enabled pri then .ok []
  else do
    let format ← sys.expandFormat (own fmt) frame.fmtCopy
    let (message, hdrlen) ← sys.putHeader pri frame.message
    let space := messageLen - nlcr - hdrlen
    let (message, msglen) ← putText lib format ap message hdrlen space
    let (message, len) ← putSuffix suffix message (hdrlen + msglen)
    let message ← if sys.has logPerror then do
        let message ← store message len ['\n'.toUInt8, 0]
        store message len [0]
      else .ok message
    let handed : Handed := ⟨sys.withFacility pri, message.take len, len, format, msglen⟩
    if ! sys.proxy ∧ sys.option &&& (logCons ||| logPerror) = logCons then do
      let _ ← store message len ['\n'.toUInt8, 0]
      .ok [handed]
    else .ok [handed]

/-- What the call of `syslog` within `vxsyslog` says. -/
def complaint : CString := ascii "syslog: unknown facility/priority: %x"

/-- `vxsyslog`. The call within it is for `LOG_ERR`, which is known. -/
def vxsyslog (pri : BitVec 32) (fmt : CString) (ap : List lib.Arg) (suffix : Option (List UInt8))
    (within frame : Frame) : Except Fault (List Handed) :=
  if pri &&& ~~~ (logPrimask ||| logFacmask) ≠ 0 then do
    let first ← logMessage lib sys logErr complaint [lib.ofInt pri] none within
    let rest ← logMessage lib sys (pri &&& (logPrimask ||| logFacmask)) fmt ap suffix frame
    .ok (first ++ rest)
  else logMessage lib sys pri fmt ap suffix frame

/-! ### The suffix of `WSASyslogx` -/

def isTrailing (ch : UInt8) : Bool := (ascii " .\n\r").elem ch

/-- `while (--len)`. -/
def trimLoop (cursor : CString) : Nat → Nat
  | 0 => 0
  | len + 1 =>
      if len = 0 then 0 else if isTrailing (cursor.getD len 0) then trimLoop cursor len else len

/-- What `WSASyslogx` makes of its buffer. -/
def errorSuffix (message : Option CString) (buf : List UInt8) : Except Fault (List UInt8) :=
  let text := (formatMessageA message (256 - 3)).getD []
  if text = [] then
    store buf 0 ((ascii ": Unknown error").take ((ascii "Unknown error").length + 1))
  else do
    let buf ← store buf 2 (text ++ [0])
    let buf ← store buf 0 (ascii ": ")
    store buf (2 + (trimLoop text text.length + 1)) [0]

/-- A call of `syslog` or `vsyslog`, or one of `WSASyslogx`, which finds a message for the last
error or none. -/
inductive Entry
  | syslog
  | socket (message : Option CString) (hNul : ∀ text ∈ message, 0 ∉ text)

/-- What is on the stack before a call of one of them. -/
structure Stack where
  within : Frame
  frame : Frame
  buf : List UInt8
  length_buf : buf.length = 256

def call (entry : Entry) (pri : BitVec 32) (fmt : CString) (ap : List lib.Arg) (stack : Stack) :
    Except Fault (List Handed) :=
  match entry with
  | .syslog => vxsyslog lib sys pri fmt ap none stack.within stack.frame
  | .socket message _ => do
      let buf ← errorSuffix message stack.buf
      vxsyslog lib sys pri fmt ap (some buf) stack.within stack.frame

end Syslog
end OncRpc.Compat
