import OncRpc.Base.Buffer
import OncRpc.Base.Runs
import OncRpc.Service.FileStream
import OncRpc.Service.Limits

/-! The logger: threads that push messages, and a consumer that writes them to the volumes. -/
namespace OncRpc.Service

open Journal

namespace Logger

/-! ### Messages and their cursors -/

/-- `BufferCursor`, with the bytes behind it. Its numbers are of 32 bits. -/
structure BufferCursor where
  reserved : Nat
  size : Nat
  data : List UInt8

namespace BufferCursor

/-- `allocate`, where there is memory. -/
def allocate (buflen : Nat) : BufferCursor :=
  { reserved := buflen % 2 ^ 32, size := 0, data := List.replicate buflen 0 }

variable (cursor : BufferCursor)

def append (buffer : List UInt8) : BufferCursor :=
  { cursor with
    data := Buffer.writeAt cursor.data cursor.size buffer
    size := (cursor.size + buffer.length) % 2 ^ 32 }

def appendNl : BufferCursor :=
  { cursor with
    data := Buffer.writeAt cursor.data cursor.size ['\n'.toUInt8]
    size := (cursor.size + 1) % 2 ^ 32 }

def assign (buffer : List UInt8) : BufferCursor :=
  { cursor with
    data := Buffer.writeAt cursor.data 0 buffer
    size := buffer.length % 2 ^ 32 }

def assignNl (buffer : List UInt8) : BufferCursor :=
  { cursor with
    data := Buffer.writeAt (Buffer.writeAt cursor.data 0 buffer) buffer.length ['\n'.toUInt8]
    size := (buffer.length + 1) % 2 ^ 32 }

/-- What the consumer is given of it. -/
def text : List UInt8 := cursor.data.take cursor.size

end BufferCursor

/-- Whether a line end is still to come. -/
def needNl (buffer : List UInt8) : Bool :=
  decide (buffer ≠ [] ∧ buffer.getLast? ≠ some '\n'.toUInt8)

/-- A message with its line end. -/
def terminated (message : List UInt8) : List UInt8 :=
  if needNl message then message ++ ['\n'.toUInt8] else message

/-- A call of `push` or of `pushv`. -/
inductive Call
  | push (buffer : List UInt8)
  | pushv (iov : List (List UInt8))

def Call.message : Call → List UInt8
  | .push buffer => buffer
  | .pushv iov => iov.flatten

/-- The storage needs of `pushv`: the length, and whether it ends without a line end. -/
def storageNeeds : List (List UInt8) → Nat → Bool → Nat × Bool
  | [], buflen, nl => (buflen, nl)
  | v :: iov, buflen, nl =>
      if v.length ≠ 0 then storageNeeds iov (buflen + v.length) (needNl v)
      else storageNeeds iov buflen nl

/-- The vectors one behind the other. -/
def appendAll : List (List UInt8) → BufferCursor → BufferCursor
  | [], cursor => cursor
  | v :: iov, cursor => appendAll iov (if v.length ≠ 0 then cursor.append v else cursor)

/-- The cursor that a call hands over, where it has something to hand over. -/
def Call.cursor : Call → Option BufferCursor
  | .push buffer =>
      if needNl buffer then
        some ((BufferCursor.allocate (buffer.length + 1)).assignNl buffer)
      else some ((BufferCursor.allocate buffer.length).assign buffer)
  | .pushv iov =>
      let (buflen, nl) := storageNeeds iov 0 false
      if buflen = 0 then none
      else
        let cursor := appendAll iov (BufferCursor.allocate (buflen + nl.toNat))
        some (if nl then cursor.appendNl else cursor)

end Logger

open Logger

/-! ### The parties -/

/-- A cursor that is under way, and what it is to say. -/
structure Node where
  id : Nat
  cursor : BufferCursor
  message : List UInt8

/-- Where a thread is: outside of the logger, before the queue, or behind it, where it may have
found the queue empty. -/
inductive Producer
  | outside
  | pushing (node : Node)
  | pushed (id : Nat) (message : List UInt8) (wasFirst : Bool)

/-- The drain that the consumer is in: one of its loop, after which it may come to its end, or the
last. -/
inductive Round
  | loop (term : Bool)
  | last
  deriving DecidableEq

/-- Where the consumer is. -/
inductive Phase
  | waiting
  | stealing (round : Round)
  | draining (round : Round)
  | written (round : Round)
  | finishing (round : Round)
  | purging (now : Int) (term : Bool)
  | done
  deriving DecidableEq

/-- Where the thread is that calls `stop`. -/
inductive Stopper
  | before
  | waits
  | returned
  deriving DecidableEq

/-- `LoggerImpl`, the threads that use it, and what has become of the messages: the cursors that
were allocated and freed, the messages that entered the queue, and those that were accepted before
`stop` was called. -/
structure LoggerImpl (τ : Type) where
  profile : Profile
  sizeT : Nat
  stream : FileStream
  rollTime : Int
  purgeTime : Int
  wakeEvent : Bool
  stopEvent : Bool
  queue : List Node
  phase : Phase
  slice : List Node
  block : Nat
  producers : τ → Producer
  stopper : Stopper
  allocated : Nat
  freed : List Nat
  entered : List (Nat × List UInt8)
  accepted : List (Nat × List UInt8)

namespace LoggerImpl

/-! ### Rolling -/

/-- The loop of `roll_time`. -/
def rollLoop (now : Int) (period : Nat) : Nat → Int → Int
  | 0, cursor => cursor
  | rounds + 1, cursor =>
      if cursor + period ≤ now then rollLoop now period rounds (cursor + period)
      else cursor + period

/-- `roll_time`. A round of its loop is a second at least. -/
def rollTimeOf (now : Int) (period : Nat) : Int :=
  let cursor := now - now.tmod 86400
  let tomorrow := cursor + 86400
  if period ≠ 0 then
    let cursor := rollLoop now period ((now - cursor).toNat + 1) cursor
    if cursor < tomorrow then cursor else tomorrow
  else tomorrow

variable {τ : Type} (s : LoggerImpl τ)

/-- `consumer_check`. -/
def consumerCheck (now : Int) : Bool :=
  if now ≥ s.rollTime then true
  else if s.profile.sizeLimit ≠ 0 ∧ s.profile.sizeLimit ≤ s.stream.size % 2 ^ 32 then true
  else if s.profile.lineLimit ≠ 0 ∧ s.profile.lineLimit ≤ s.stream.blocks % 2 ^ 32 then true
  else false

/-- The time a volume is named after. -/
def timestamp (now : Int) : Int := if now > s.rollTime then s.rollTime else now

/-- `consumer_roll`. -/
def consumerRoll (now : Int) (opens : Bool) : Option (LoggerImpl τ) := do
  let timestamp := s.timestamp now
  let path ← FileStream.generateLogName s.profile.basePath timestamp
  return { s with
    stream := s.stream.openFile path opens
    rollTime := rollTimeOf timestamp s.profile.timePeriod }

/-- `consumer_check`, and `consumer_roll` if it is time. -/
def checkRoll (now : Int) (opens : Bool) : Option (LoggerImpl τ) :=
  if s.consumerCheck now then s.consumerRoll now opens else some s

/-- `remove` of the files that `purge_logs` finds, of which one that is open stays. -/
def purgeFiles : List CString → FileStream → FileStream
  | [], stream => stream
  | path :: victims, stream =>
      purgeFiles victims
        (if stream.filename = some path then stream
        else { stream with files := Function.update stream.files path none }.note (.purged path))

/-- `consumer_purge`. -/
def consumerPurge (now : Int) (victims : List CString) : LoggerImpl τ :=
  if s.purgeTime = 0 ∨ now < s.purgeTime then s
  else
    let timestamp := if now > s.purgeTime then s.purgeTime else now
    { s with
      stream := purgeFiles victims s.stream
      purgeTime := rollTimeOf timestamp (s.profile.purgePeriod / 2) }

/-- `start`, which opens the first volume: `resolved` is what `resolve_path` makes of the base
path. -/
def start (profile : Profile) (resolved : CString) (toconsole : Bool) (sizeT : Nat)
    (files : Files CString UInt8) (now : Int) : Option (LoggerImpl τ) := do
  let least := profile.timePeriod * 2 % 2 ^ 32
  let purgePeriod :=
    if profile.purgePeriod ≠ 0 ∧ profile.purgePeriod < least then least else profile.purgePeriod
  let path ← FileStream.generateLogName resolved now
  let stream : FileStream := ⟨files, none, 0, 0, []⟩
  return {
    profile := { profile with
      basePath := resolved
      toconsole := profile.toconsole || toconsole
      purgePeriod := purgePeriod }
    sizeT := sizeT
    stream := stream.openFile path true
    rollTime := rollTimeOf now profile.timePeriod
    purgeTime := if profile.purgePeriod ≠ 0 then rollTimeOf now (profile.purgePeriod / 2) else 0
    wakeEvent := false
    stopEvent := false
    queue := []
    phase := .waiting
    slice := []
    block := 0
    producers := fun _ => .outside
    stopper := .before
    allocated := 0
    freed := []
    entered := []
    accepted := [] }

/-! ### What can happen next -/

/-- One step of a thread that pushes or stops, or of the consumer, with what the system answers. -/
inductive Event (τ : Type)
  | call (tid : τ) (call : Call) (memory : Bool)
  | enter (tid : τ)
  | leave (tid : τ)
  | stop
  | stopReturns
  | wait
  | steal
  | write (fwrite : Nat → Nat)
  | pass (now : Int) (opens : Bool)
  | finish (now : Int) (opens : Bool)
  | purge (victims : List CString)

section Producers

variable [DecidableEq τ]

def goes (tid : τ) (producer : Producer) : LoggerImpl τ :=
  { s with producers := Function.update s.producers tid producer }

/-- A call gets its cursor and fills it. Once `stop` has returned there is no logger. -/
def stepCall (tid : τ) (call : Call) (memory : Bool) : Option (LoggerImpl τ) :=
  match s.producers tid, call.cursor with
  | .outside, none => some s
  | .outside, some cursor =>
      if s.stopper = .returned ∨ memory = false then some s
      else
        some ({ s with allocated := s.allocated + 1 }.goes tid
          (.pushing ⟨s.allocated, cursor, call.message⟩))
  | _, _ => none

/-- `LoggerImpl::push`. The logger must not have gone. -/
def stepEnter (tid : τ) : Option (LoggerImpl τ) :=
  match s.producers tid with
  | .pushing node =>
      if s.stopper = .returned then none
      else if node.cursor.size ≠ 0 then
        some ({ s with
          queue := s.queue ++ [node]
          entered := s.entered ++ [(node.id, node.message)] }.goes tid
            (.pushed node.id node.message s.queue.isEmpty))
      else some ({ s with freed := s.freed ++ [node.id] }.goes tid
        (.pushed node.id node.message false))
  | _ => none

/-- The consumer is woken if the queue was empty, and the call returns. -/
def stepLeave (tid : τ) : Option (LoggerImpl τ) :=
  match s.producers tid with
  | .pushed id message wasFirst =>
      if wasFirst = true ∧ s.stopper = .returned then none
      else
        some ({ s with
          wakeEvent := wasFirst || s.wakeEvent
          accepted := if s.stopper = Stopper.before ∧ message ≠ [] then
              s.accepted ++ [(id, message)]
            else s.accepted }.goes tid .outside)
  | _ => none

end Producers

def stepStop : Option (LoggerImpl τ) :=
  if s.stopper = .before then some { s with stopEvent := true, stopper := .waits } else none

/-- The consumer has come to its end, and the logger goes, and its stream with it. -/
def stepStopReturns : Option (LoggerImpl τ) :=
  if s.stopper = .waits ∧ s.phase = .done then
    some { s with stream := s.stream.close, stopper := .returned }
  else none

/-- `WaitForMultipleObjects`, which prefers the stop event, and comes back without an event after a
minute. -/
def stepWait : Option (LoggerImpl τ) :=
  if s.phase = .waiting then
    some { s with phase := .stealing (.loop s.stopEvent), wakeEvent := s.stopEvent && s.wakeEvent }
  else none

/-- Where a drain is with what is left of its slice. -/
def drainPhase (round : Round) (slice : List Node) : Phase :=
  if slice.isEmpty then .finishing round else .draining round

/-- `steal`. -/
def stepSteal : Option (LoggerImpl τ) :=
  match s.phase with
  | .stealing round =>
      some { s with
        queue := [], slice := s.queue, block := 0, phase := drainPhase round s.queue }
  | _ => none

/-- A message is written. -/
def stepWrite (fwrite : Nat → Nat) : Option (LoggerImpl τ) :=
  match s.phase, s.slice with
  | .draining round, node :: _ =>
      let stream := s.stream.push s.sizeT fwrite node.cursor.text
      some { s with
        stream := match s.stream.filename with
          | none => stream
          | some path => stream.note (.wrote path (terminated node.message))
        block := s.block + 1
        phase := .written round }
  | _, _ => none

/-- After every thirty-second message it may be time to roll, and the message is released. -/
def stepPass (now : Int) (opens : Bool) : Option (LoggerImpl τ) :=
  match s.phase, s.slice with
  | .written round, node :: slice =>
      (if s.block % 32 = 0 then s.checkRoll now opens else some s).map fun s =>
        { s with slice := slice, freed := s.freed ++ [node.id], phase := drainPhase round slice }
  | _, _ => none

/-- At the end of a drain it may be time to roll. -/
def stepFinish (now : Int) (opens : Bool) : Option (LoggerImpl τ) :=
  match s.phase with
  | .finishing round =>
      (s.checkRoll now opens).map fun s =>
        { s with phase := match round with
          | .loop term => .purging now term
          | .last => .done }
  | _ => none

def stepPurge (victims : List CString) : Option (LoggerImpl τ) :=
  match s.phase with
  | .purging now term =>
      some { s.consumerPurge now victims with
        phase := if term then .stealing .last else .waiting }
  | _ => none

def next [DecidableEq τ] (s : LoggerImpl τ) : Event τ → Option (LoggerImpl τ)
  | .call tid call memory => s.stepCall tid call memory
  | .enter tid => s.stepEnter tid
  | .leave tid => s.stepLeave tid
  | .stop => s.stepStop
  | .stopReturns => s.stepStopReturns
  | .wait => s.stepWait
  | .steal => s.stepSteal
  | .write fwrite => s.stepWrite fwrite
  | .pass now opens => s.stepPass now opens
  | .finish now opens => s.stepFinish now opens
  | .purge victims => s.stepPurge victims

end LoggerImpl
end OncRpc.Service
