import OncRpc.Base.Timeval
import OncRpc.Clnt.VcCall

/-! `clnt_dg_call`: a call by datagrams. The message is sent again and again until there is a reply
to it or the time is over. -/
namespace OncRpc

open Buffer Timeval

/-- `RPC_MAX_BACKOFF`, in seconds. -/
def rpcMaxBackoff : Int := 30

/-- `struct cu_data`. -/
structure CuData where
  cuFd : Int
  cuCloseit : Bool
  /-- The storage of `cu_raddr`. -/
  cuRaddr : List UInt8
  cuRlen : Nat
  cuWait : Timeval
  cuTotal : Timeval
  /-- What `cu_outbuf` begins with, up to `cu_xdrpos`. -/
  header : ClntHandle
  cuSendsz : Nat
  /-- The `cu_recvsz` bytes in front of `cu_outbuf`. -/
  cuInbuf : List UInt8

/-- The arguments of `clnt_dg_call`, with the bytes that `xargs` puts. -/
structure DgCallRequest where
  proc : BitVec 32
  args : Option (List UInt8)
  results : Fallible XdrMem Unit
  utimeout : Timeval

/-- What `recvfrom` comes to, once it is not interrupted any more. -/
inductive DgReceived where
  | datagram (bytes : List UInt8)
  | wouldBlock
  | failed

/-- What `pollts` returns: 0, 1 or -1. -/
inductive DgPolled where
  | nothing
  | readable (received : DgReceived)
  | failed

/-- What a round of the wait meets: the time behind it, and whether the message is sent whole should
it be sent then. -/
structure DgRound where
  polled : DgPolled
  now : Timeval
  sent : Bool

/-- What a pass through `call_again` meets: what `cl_auth` does, what `reply_msg` holds before, and
the rounds that there are so far. -/
structure DgPass where
  marshal : Option (List UInt8)
  validate : OpaqueAuth → Bool
  refresh : Bool
  stale : ReplyMsg
  sent : Bool
  rounds : List DgRound

/-- The calls that are made of the system. -/
inductive DgEvent where
  | sendto (addr message : List UInt8)
  /-- With `ts` in microseconds. -/
  | pollts (ts : Timeval)
  | recvfrom (datagram : List UInt8)
  | gettimeofday (now : Timeval)
  deriving DecidableEq, Repr

/-- How a pass ends. -/
inductive DgEnd where
  | returns (stat : ClntStat)
  /-- The credentials are not accepted. -/
  | refused (why : BitVec 32)
  deriving DecidableEq, Repr

/-- What changes while a call waits: the memory from `cu_inbuf` on, and the schedule. -/
structure DgWait where
  mem : List UInt8
  timeWaited : Timeval
  retransmitTime : Timeval
  nextSendtime : Timeval
  deriving DecidableEq, Repr

namespace DgWait

/-- How long to wait. -/
def pollTime (timeout : Timeval) (w : DgWait) : Timeval :=
  let tv := if timerless w.nextSendtime timeout then timersub w.nextSendtime w.timeWaited
    else timersub timeout w.timeWaited
  if tv.tvSec < 0 ∨ tv.tvUsec < 0 then zero else tv

/-- The schedule behind a retransmission. -/
def backOff (w : DgWait) : DgWait :=
  let retransmitTime := if w.retransmitTime.tvSec < rpcMaxBackoff then
      timeradd w.retransmitTime w.retransmitTime
    else w.retransmitTime
  { w with
    retransmitTime := retransmitTime
    nextSendtime := timeradd w.nextSendtime retransmitTime }

end DgWait

section Pass

variable (cu : CuData) (req : DgCallRequest) (timeout starttime : Timeval) (outlen : Nat)

/-- What is made of the datagram that ends the wait. -/
def dgReply (pass : DgPass) (datagram : List UInt8) : DgEnd :=
  let xdrs := XdrMem.xdrmemCreate datagram datagram.length true
  match ((xdrReplymsg (fun _ => req.results) .decode (skeleton pass.stale)).run xdrs).1 with
  | none => .returns .cantDecodeRes
  | some msg =>
      match seterrReply msg with
      | .success => .returns (if pass.validate msg.acptedRply.arVerf then .replied .success
          else .invalidResp)
      | .authError why => .refused why
      | err => .returns (.replied err)

/-- The body of the loop up to the clock: the calls, whether the pass ends, and the memory. -/
def dgReceive (pass : DgPass) (polled : DgPolled) (mem : List UInt8) :
    List DgEvent × Option DgEnd × List UInt8 :=
  match polled with
  | .nothing | .readable .wouldBlock => ([], none, mem)
  | .failed | .readable .failed => ([], some (.returns .cantRecv), mem)
  | .readable (.datagram bytes) =>
      let recvd := bytes.take cu.cuInbuf.length
      let mem := writeAt mem 0 recvd
      -- Assume we have the proper reply.
      let ended := if 4 ≤ recvd.length ∧ readAt mem 0 4 = readAt mem cu.cuInbuf.length 4 then
          some (dgReply req pass (readAt mem 0 recvd.length))
        else none
      ([.recvfrom recvd], ended, mem)

/-- `send_again`, up to the loop. -/
def dgSendAgain (sent : Bool) (w : DgWait) : List DgEvent × Option DgEnd :=
  ([.sendto (readAt cu.cuRaddr 0 cu.cuRlen) (readAt w.mem cu.cuInbuf.length outlen)],
    if sent = false then some (.returns .cantSend)
    else if timeout.tvSec = 0 ∧ timeout.tvUsec = 0 then some (.returns .timedOut)
    else none)

/-- The rest of the body of the loop, and `send_again` if it goes there. -/
def dgTick (r : DgRound) (w : DgWait) : List DgEvent × Option DgEnd × DgWait :=
  let w := { w with timeWaited := timersub r.now starttime }
  -- Check for timeout.
  if timerless timeout w.timeWaited then
    ([.gettimeofday r.now], some (.returns .timedOut), w)
  -- Retransmit if necessary.
  else if timerless w.nextSendtime w.timeWaited then
    let w := w.backOff
    let again := dgSendAgain cu timeout outlen r.sent w
    (.gettimeofday r.now :: again.1, again.2, w)
  else ([.gettimeofday r.now], none, w)

def dgRound (pass : DgPass) (r : DgRound) (w : DgWait) :
    List DgEvent × Option DgEnd × DgWait :=
  let received := dgReceive cu req pass r.polled w.mem
  let events : List DgEvent := .pollts (w.pollTime timeout) :: received.1
  let w := { w with mem := received.2.2 }
  match received.2.1 with
  | some ended => (events, some ended, w)
  | none =>
      let tick := dgTick cu timeout starttime outlen r w
      (events ++ tick.1, tick.2)

/-- The loop. Without an end the call still waits. -/
def dgRounds (pass : DgPass) : List DgRound → DgWait → List DgEvent × Option DgEnd × DgWait
  | [], w => ([], none, w)
  | r :: rounds, w =>
      let first := dgRound cu req timeout starttime outlen pass r w
      match first.2.1 with
      | some _ => first
      | none =>
          let rest := dgRounds pass rounds first.2.2
          (first.1 ++ rest.1, rest.2)

/-- `send_again` with all that follows up to the end of the pass. -/
def dgPass (pass : DgPass) (w : DgWait) : List DgEvent × Option DgEnd × DgWait :=
  let first := dgSendAgain cu timeout outlen pass.sent w
  match first.2 with
  | some ended => (first.1, some ended, w)
  | none =>
      let rest := dgRounds cu req timeout starttime outlen pass pass.rounds w
      (first.1 ++ rest.1, rest.2)

end Pass

/-- What is put behind the header: the procedure, the credentials and the arguments. -/
def dgEncode (cu : CuData) (req : DgCallRequest) (pass : DgPass) : Option (List UInt8) := do
  let body := Word.toBytes req.proc ++ (← pass.marshal) ++ (← req.args)
  guard (cu.header.mcallc.length + body.length ≤ cu.cuSendsz)
  pure body

/-- The passes of a call that may still refresh the credentials so many times. -/
def dgCallAgain (order : Word.ByteOrder) (req : DgCallRequest) (timeout starttime : Timeval) :
    Nat → (Nat → DgPass) → CuData → DgWait → List DgEvent × Option ClntStat × CuData
  | refreshes, passes, cu, w =>
      let cu := { cu with header := cu.header.callPass order }
      match dgEncode cu req (passes 0) with
      | none => ([], some .cantEncodeArgs, cu)
      | some body =>
          let message := cu.header.mcallc ++ body
          let w := { w with mem := cu.cuInbuf ++ message }
          let r := dgPass cu req timeout starttime message.length (passes 0) w
          let cu := { cu with cuInbuf := r.2.2.mem.take cu.cuInbuf.length }
          match r.2.1, refreshes with
          | none, _ => (r.1, none, cu)
          | some (.returns stat), _ => (r.1, some stat, cu)
          | some (.refused why), 0 => (r.1, some (.replied (.authError why)), cu)
          | some (.refused why), refreshes + 1 =>
              if (passes 0).refresh then
                let rest := dgCallAgain order req timeout starttime refreshes
                  (fun i => passes (i + 1)) cu r.2.2
                (r.1 ++ rest.1, rest.2)
              else (r.1, some (.replied (.authError why)), cu)

/-- The time that a call has. -/
def CuData.timeout (cu : CuData) (req : DgCallRequest) : Timeval :=
  if cu.cuTotal.tvUsec = -1 then req.utimeout else cu.cuTotal

def clntDgCall (order : Word.ByteOrder) (req : DgCallRequest) (passes : Nat → DgPass)
    (starttime : Timeval) (cu : CuData) : List DgEvent × Option ClntStat × CuData :=
  dgCallAgain order req (cu.timeout req) starttime 2 passes cu
    { mem := [], timeWaited := zero, retransmitTime := cu.cuWait, nextSendtime := cu.cuWait }

end OncRpc
