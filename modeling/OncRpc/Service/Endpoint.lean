import OncRpc.Base.Buffer

/-! `Service.cpp`: the pipe of `stdout` and `stderr`, from the connection of a client on. -/
namespace OncRpc.Service

/-- `pipe_state`, without the states before the connection. -/
inductive PipeState where
  | ready
  | reading
  | eof
  deriving DecidableEq, Repr

/-- `PIPESIZE`. -/
def pipesize : Nat := 8 * 1024

/-- `Service::PipeEndpoint`. The buffer is as long as what was allocated for it, and what is behind
`size` in it is not for data. -/
structure PipeEndpoint where
  size : Nat
  state : PipeState
  iopending : Bool
  result : Nat
  avail : Nat
  cursor : Nat
  buffer : List UInt8

/-- What `ReadFile` answers. -/
inductive ReadFile where
  | data (bs : List UInt8)
  /-- `ERROR_IO_PENDING`. -/
  | pending
  /-- `ERROR_BROKEN_PIPE`. -/
  | brokenPipe

/-- What `GetOverlappedResult` answers, when the read is over. -/
inductive OverlappedResult where
  | data (bs : List UInt8)
  | brokenPipe

def newline : UInt8 := 10

def carriageReturn : UInt8 := 13

namespace PipeEndpoint

/-- What a new endpoint of the size is, when a client has connected. -/
def create (size : Nat) : PipeEndpoint where
  size := size
  state := .ready
  iopending := false
  result := 0
  avail := size
  cursor := 0
  buffer := List.replicate (1 + size + 8) 0

/-- A store to the buffer, which has to be in it. -/
def store (ep : PipeEndpoint) (i : Nat) (c : UInt8) : Option PipeEndpoint :=
  if i < ep.buffer.length then some { ep with buffer := ep.buffer.set i c } else none

/-- The bytes of a read, where the system has put them. -/
def received (bs : List UInt8) (ep : PipeEndpoint) : PipeEndpoint :=
  { ep with buffer := Buffer.writeAt ep.buffer ep.cursor bs, result := bs.length }

def reset (ep : PipeEndpoint) : PipeEndpoint := { ep with cursor := 0, avail := ep.size }

/-- `pushed`: the place to scan from, if there is something to scan, `eof`, and the endpoint. -/
def pushed (ep : PipeEndpoint) : Option (Option (Nat × Bool) × PipeEndpoint) :=
  if ep.result ≠ 0 then
    let new := { ep with
      avail := ep.avail - ep.result
      cursor := ep.cursor + ep.result
      result := 0 }
    (new.store new.cursor 0).map fun new => (some (ep.cursor, false), new)
  else if ep.cursor ≠ 0 then (ep.store ep.cursor 0).map fun new => (some (ep.cursor, true), new)
  else some (none, ep)

def length (ep : PipeEndpoint) : Nat := ep.size - ep.avail

/-- `pop`. -/
def pop (bytes : Nat) (ep : PipeEndpoint) : Option PipeEndpoint :=
  if bytes = ep.length then some ep.reset
  else if bytes ≤ ep.length ∧ ep.length ≤ ep.buffer.length then
    some { ep with
      buffer := Buffer.writeAt ep.buffer 0 (Buffer.readAt ep.buffer bytes (ep.length - bytes))
      avail := ep.avail + bytes
      cursor := ep.cursor - bytes }
  else none

/-- `CompletionSetup`. -/
def completionSetup (answer : ReadFile) (ep : PipeEndpoint) : Bool × PipeEndpoint :=
  match ep.state with
  | .ready =>
      match answer with
      | .data bs => (true, { ep.received bs with state := .reading })
      | .pending => (true, { ep with state := .reading, iopending := true })
      | .brokenPipe => (false, { ep with state := .eof })
  | .eof => (false, ep)
  | .reading => (true, ep)

/-- `CompletionResults`. -/
def completionResults (answer : OverlappedResult) (ep : PipeEndpoint) : Int × PipeEndpoint :=
  if ep.iopending then
    match answer with
    | .data bs => (0, { ep.received bs with iopending := false })
    | .brokenPipe => (-1, { ep with state := .eof, iopending := false })
  else (0, ep)

end PipeEndpoint

/-- `strchr (s + i, c)`, behind `i`. There is no answer without a NUL. -/
def strchrFrom (c : UInt8) (i : Nat) : List UInt8 → Option (Option Nat)
  | [] => none
  | d :: t => if d = c then some (some i) else if d = 0 then some none else strchrFrom c (i + 1) t

def strchr (s : List UInt8) (i : Nat) (c : UInt8) : Option (Option Nat) := strchrFrom c i (s.drop i)

/-- A line, without the carriage return at its end, when it is not empty. -/
def pushLine (buffer : List UInt8) (line sz : Nat) : Option (List (List UInt8)) :=
  if sz = 0 then some []
  else do
    let last ← buffer[line + (sz - 1)]?
    let tSz := if last = carriageReturn then sz - 1 else sz
    some (if tSz = 0 then [] else [Buffer.readAt buffer line tSz])

/-- The loop over the lines: what is pushed, and `dwPopped`. -/
def scanLines (buffer : List UInt8) : Nat → Nat → Nat → Nat → Option (List (List UInt8) × Nat)
  | 0, _, _, _ => none
  | n + 1, scan, line, dwPopped => do
      match ← strchr buffer scan newline with
      | none => some ([], dwPopped)
      | some nl =>
          let sz := nl - line
          let texts ← pushLine buffer line sz
          -- The newline is consumed, and a carriage return behind it.
          let next ← buffer[nl + 1]?
          let more := if next = carriageReturn then 1 else 0
          let r ← scanLines buffer n (nl + 1 + more) (nl + 1 + more) (dwPopped + (sz + 1 + more))
          some (texts ++ r.1, r.2)

namespace PipeEndpoint

/-- What `logger_body` does when a read has completed. -/
def consume (ep : PipeEndpoint) : Option (List (List UInt8) × PipeEndpoint) := do
  match ← ep.pushed with
  | (none, ep) => some ([], { ep with state := .ready })
  | (some (scan, eof), ep) =>
      let r ← scanLines ep.buffer (ep.buffer.length + 1) scan 0 0
      if r.2 ≠ 0 then
        let ep ← ep.pop r.2
        some (r.1, { ep with state := .ready })
      else if ep.avail = 0 ∨ eof ∧ ep.length ≠ 0 then
        some (r.1 ++ [Buffer.readAt ep.buffer 0 ep.length], { ep.reset with state := .ready })
      else some (r.1, { ep with state := .ready })

/-- A round of `logger_body` for an endpoint: it is rearmed, and served when its event is set. It is
deleted when it cannot be rearmed. -/
def round (read : ReadFile) (completion : OverlappedResult) (ep : PipeEndpoint) :
    Option (List (List UInt8) × Option PipeEndpoint) :=
  match ep.completionSetup read with
  | (false, _) => some ([], none)
  | (true, ep) =>
      match ep.completionResults completion with
      | (0, ep) => ep.consume.map fun r => (r.1, some r.2)
      | (_, ep) => some ([], some ep)

/-- What is pushed until the endpoint is deleted, or the rounds are over. -/
def loggerBody : List (ReadFile × OverlappedResult) → PipeEndpoint →
    Option (List (List UInt8))
  | [], _ => some []
  | (read, completion) :: rest, ep => do
      let (texts, left) ← ep.round read completion
      match left with
      | none => some texts
      | some ep =>
          let later ← loggerBody rest ep
          some (texts ++ later)

end PipeEndpoint

/-- A read of a client's data, and whether it completes at once. -/
structure PipeRead where
  bytes : List UInt8
  atOnce : Bool

/-- The calls of a read. -/
def PipeRead.calls (r : PipeRead) : ReadFile × OverlappedResult :=
  if r.atOnce then (.data r.bytes, .data []) else (.pending, .data r.bytes)

/-- Where the end of a client's data is noticed. -/
inductive Closing where
  /-- In `CompletionSetup`. -/
  | setup
  /-- In `CompletionResults`. -/
  | results
  /-- In `pushed`, when a read has got nothing. -/
  | emptyRead (atOnce : Bool)

/-- The calls at the end. The pipe is broken from then on. -/
def Closing.calls : Closing → List (ReadFile × OverlappedResult)
  | .setup => [(.brokenPipe, .brokenPipe)]
  | .results => [(.pending, .brokenPipe), (.brokenPipe, .brokenPipe)]
  | .emptyRead atOnce => [(⟨[], atOnce⟩ : PipeRead).calls, (.brokenPipe, .brokenPipe)]

/-- A connection: the reads of the data, and the end. -/
structure Connection where
  reads : List PipeRead
  closing : Closing

namespace Connection

/-- What the client has written. -/
def stream (c : Connection) : List UInt8 := c.reads.flatMap PipeRead.bytes

def calls (c : Connection) : List (ReadFile × OverlappedResult) :=
  c.reads.map PipeRead.calls ++ c.closing.calls

end Connection
end OncRpc.Service
