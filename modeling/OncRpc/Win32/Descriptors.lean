import Mathlib.Logic.Function.Basic
import OncRpc.Rpc.Address
import OncRpc.Win32.Pipe

/-! `win32_socket.c`: the table of the descriptors that stand for the sockets and the pipes of
Windows, and the calls that go through it. What the system answers is a parameter. -/
namespace OncRpc.Win32

/-- `INVALID_SOCKET`, and `INVALID_HANDLE_VALUE`. -/
def invalidSocket : Nat := 2 ^ 64 - 1

/-- A socket that the system has made. Its handle has no more than 31 bits, so it is the same
as an `int`. -/
structure SystemSocket where
  handle : Nat
  pos : 0 < handle
  small : handle < 2 ^ 31

/-- `struct FileDescriptor`; `pipe` is a pointer. -/
structure Slot where
  handle : Nat
  wsaevt : Nat
  revents : BitVec 16
  pipe : Option Nat
  deriving DecidableEq, Repr

/-- A slot that is not in use. -/
def Slot.zero : Slot := { handle := 0, wsaevt := 0, revents := 0, pipe := none }

/-- `fds_win32`, `fds_next`, and the pipes that have been allocated, where a pointer is a
place. -/
structure Descriptors where
  fds : List Slot
  fdsNext : Nat
  pipes : List PIPE

namespace Descriptors

/-- The table before the first call. -/
def initial : Descriptors :=
  { fds := List.replicate sockfdMax.toNat .zero, fdsNext := 0, pipes := [] }

/-- `issockfd`: the slot. -/
def issockfd (s : Descriptors) (sockfd : Int) : Option Slot :=
  if sockfd < sockfdBase ∨ sockfd ≥ sockfdBase + sockfdMax then none
  else s.fds[(sockfd - sockfdBase).toNat]?.filter fun x =>
    x.handle ≠ 0 ∧ x.handle ≠ invalidSocket

/-- `ispipefd`: the pointer. -/
def ispipefd (s : Descriptors) (pipefd : Int) : Option Nat :=
  if pipefd < sockfdBase ∨ pipefd ≥ sockfdBase + sockfdMax then none
  else s.fds[(pipefd - sockfdBase).toNat]?.bind fun x =>
    if x.handle ≠ invalidSocket then none else x.pipe

/-- What a pointer points to. -/
def pipeAt (s : Descriptors) (pipe : Nat) : PIPE := s.pipes.getD pipe .calloc

/-- A pipe after a change. -/
def setPipe (s : Descriptors) (pipe : Nat) (p : PIPE) : Descriptors :=
  { s with pipes := s.pipes.set pipe p }

/-- A slot after a change. -/
def setSlot (s : Descriptors) (fd : Nat) (x : Slot) : Descriptors :=
  { s with fds := s.fds.set fd x }

/-- `sock->revents = 0`. -/
def clearRevents (s : Descriptors) (sockfd : Int) (x : Slot) : Descriptors :=
  s.setSlot (sockfd - sockfdBase).toNat { x with revents := 0 }

/-- The first slot from `start` on that is not in use. -/
def findFree (fds : List Slot) (start : Nat) : Option Nat :=
  ((fds.drop start).findIdx? fun x => x.handle = 0).map (start + ·)

/-- The loop of `fd_assign`. `event` is what `WSACreateEvent` answers, for a socket. -/
def fdAssignFrom (sock : Nat) (pipe event : Option Nat) : Nat → Descriptors → Int × Descriptors
  | 0, s => (-1, s)
  | loops + 1, s =>
      match findFree s.fds s.fdsNext with
      | some fd =>
          let old := s.fds.getD fd .zero
          if sock ≠ invalidSocket then
            match event with
            | none => (-1, s)
            | some wsaevt =>
                (fd + sockfdBase, { s.setSlot fd { old with
                  handle := sock, wsaevt := wsaevt, pipe := pipe } with fdsNext := fd + 1 })
          else
            (fd + sockfdBase, { s.setSlot fd { old with
              handle := sock, pipe := pipe } with fdsNext := fd + 1 })
      | none => fdAssignFrom sock pipe event loops { s with fdsNext := 0 }

/-- `fd_assign`, past its assertions. -/
def fdAssign (s : Descriptors) (sock : Nat) (pipe event : Option Nat) : Int × Descriptors :=
  fdAssignFrom sock pipe event (if s.fdsNext ≠ 0 then 2 else 1) s

/-- `fd_release`, past its assertions. -/
def fdRelease (s : Descriptors) (sockfd : Int) (sock : Nat) : Bool × Descriptors :=
  if sockfd < sockfdBase ∨ sockfd ≥ sockfdBase + sockfdMax then (false, s)
  else
    let fd := (sockfd - sockfdBase).toNat
    let old := s.fds.getD fd .zero
    if sock = old.handle then
      (true, s.setSlot fd { old with handle := 0, wsaevt := 0, pipe := none })
    else (false, s)

/-- `updatepipefd`, past its assertions. -/
def updatepipefd (s : Descriptors) (pipefd : Int) (newpipe oldpipe : Nat) :
    Bool × Descriptors :=
  let fd := (pipefd - sockfdBase).toNat
  let old := s.fds.getD fd .zero
  if some oldpipe = old.pipe then (true, s.setSlot fd { old with pipe := some newpipe })
  else (false, s)

/-- `rpc_register_socket`. -/
def rpcRegisterSocket (s : Descriptors) (sock : Nat) (event : Option Nat) : Int × Descriptors :=
  s.fdAssign sock none event

/-! ### Pipes -/

/-- `calloc` of a pipe: the pointer. -/
def callocPipe (s : Descriptors) : Nat × Descriptors :=
  (s.pipes.length, { s with pipes := s.pipes ++ [.calloc] })

/-- `pipe_create`. -/
def pipeCreate (s : Descriptors) (type : Int) (allocated : Bool) : Int × Descriptors :=
  if allocated = false then (-1, s)
  else
    let (pipe, s) := s.callocPipe
    (s.setPipe pipe { s.pipeAt pipe with type := type, blocking := true }).fdAssign
      invalidSocket (some pipe) none

end Descriptors

/-- What the system answers to `pipe_listen`. -/
inductive ConnectNamedPipe where
  | pending
  | connected
  | failed
  deriving DecidableEq, Repr

structure ListenAnswers where
  createNamedPipe : Option Nat
  createEvent : Option Nat
  connectNamedPipe : ConnectNamedPipe

/-- What the system answers to `pipe_connect`: how the waits for a busy pipe end, before the pipe
is opened or not, and what comes then. -/
structure ConnectAnswers where
  waits : List Bool
  createFile : Option Nat
  setState : Bool
  createEvent : Option Nat
  read : OverlappedAnswer × List UInt8

/-- What the system answers to `pipe_accept`. -/
structure AcceptAnswers where
  overlapped : Bool
  allocated : Bool
  listen : ListenAnswers
  read : OverlappedAnswer × List UInt8

namespace PIPE

/-- The checks that `pipe_bind` and `pipe_connect` start with. -/
def takesAddr (p : PIPE) (addr : Option SockaddrUn) (addrlen : Nat) : Option SockaddrUn :=
  if p.handle ≠ 0 then none
  else if p.addr.sunFamily ≠ 0 then none
  else if addrlen < 3 then none
  else addr.filter fun a => a.sunFamily = afLocal ∧ a.sunLen ≠ 0 ∧ a.sunLen ≤ 108

/-- `pipe_bind`. -/
def bind (p : PIPE) (addr : Option SockaddrUn) (addrlen : Nat) : Int × PIPE :=
  match p.takesAddr addr addrlen with
  | none => (-1, p)
  | some a => (1, { p with addr := a })

/-- `pipe_listen`. -/
def startListen (p : PIPE) (ans : ListenAnswers) : Int × PIPE :=
  if p.handle ≠ 0 then (-1, p)
  else if p.addr.sunFamily ≠ afLocal then (-1, p)
  else
    match ans.createNamedPipe with
    | none => (-1, { p with handle := invalidSocket })
    | some handle =>
        match ans.createEvent, ans.connectNamedPipe with
        | some hEvent, .pending =>
            (0, { p with handle := handle, hEvent := hEvent, listen := true, rdpending := true })
        | some hEvent, .connected =>
            (0, { p with
              handle := handle, hEvent := hEvent, listen := true, rdevents := pollin
              rdpending := false })
        | hEvent, _ => (-1, { p with handle := 0, hEvent := hEvent.getD 0, listen := false })

/-- `pipe_connect`. -/
def connect (p : PIPE) (addr : Option SockaddrUn) (addrlen : Nat) (ans : ConnectAnswers) :
    Int × PIPE :=
  match p.takesAddr addr addrlen with
  | none => (-1, p)
  | some a =>
      if false ∈ ans.waits then (-1, { p with handle := 0 })
      else
        match ans.createFile with
        | none => (-1, { p with handle := invalidSocket })
        | some handle =>
            match ans.setState, ans.createEvent with
            | true, some hEvent =>
                (1, ({ p with handle := handle, hEvent := hEvent, addr := a }.ioRead
                  ans.read.1 ans.read.2).2)
            | true, none => (-1, { p with handle := 0, hEvent := 0 })
            | false, _ => (-1, { p with handle := 0, hEvent := 0 })

end PIPE

namespace Descriptors

/-- The end of `pipe_accept` where the new descriptor cannot be had: the pipe listens again. -/
def rearm (s : Descriptors) (pipe : Nat) (ans : ListenAnswers) : Descriptors :=
  s.setPipe pipe ({ s.pipeAt pipe with handle := 0 }.startListen ans).2

/-- `pipe_accept`: the descriptor that is made takes the pipe over, and the one that listens
goes on with a new one. -/
def pipeAccept (s : Descriptors) (pipefd : Int) (pipe : Nat) (ans : AcceptAnswers) :
    Int × Descriptors :=
  let p := s.pipeAt pipe
  if p.handle = 0 then (-1, s)
  else if p.listen = false then (-1, s)
  else if p.rdpending = false ∨ ans.overlapped = true then
    if ans.allocated = false then (-1, s.rearm pipe ans.listen)
    else
      let (newpipe, s) := s.callocPipe
      match s.fdAssign invalidSocket (some pipe) none with
      | (rtn, s) =>
          if rtn < 0 then (rtn, s.rearm pipe ans.listen)
          else
            match s.updatepipefd pipefd newpipe pipe with
            | (false, s) => (rtn, s.rearm pipe ans.listen)
            | (true, s) =>
                let s := s.setPipe newpipe
                  ({ s.pipeAt newpipe with addr := p.addr }.startListen ans.listen).2
                (rtn, s.setPipe pipe ({ p with listen := false }.ioRead
                  ans.read.1 ans.read.2).2)
  else (-1, s)

/-- `pipe_close`. -/
def pipeClose (s : Descriptors) (pipefd : Int) : Int × Descriptors :=
  match s.fdRelease pipefd invalidSocket with
  | (true, s) => (0, s)
  | (false, s) => (-1, s)

/-! ### The calls -/

/-- What `socket` answers. -/
inductive SocketAnswer where
  | made (s : SystemSocket)
  | notInitialised
  | failed

end Descriptors

/-- What a call of `socket` gets, which is tried again when the library has not been initialised. -/
def Descriptors.SocketAnswer.twice : SocketAnswer → SocketAnswer → Option SystemSocket
  | .made s, _ => some s
  | .notInitialised, .made s => some s
  | _, _ => none

namespace Descriptors

/-- `rpc_socket`. -/
def rpcSocket (s : Descriptors) (domain : Nat) (type : Int) (allocated : Bool)
    (first again : SocketAnswer) (event : Option Nat) : Int × Descriptors :=
  if domain = afLocal then s.pipeCreate type allocated
  else
    match first.twice again with
    | none => (-1, s)
    | some sock => s.rpcRegisterSocket sock.handle event

/-- What `rpc_connect` and `rpc_accept` do with the socket that the system has returned. -/
def registerNew (s : Descriptors) (sockfd : Int) (sock : Nat) (event : Option Nat) :
    Int × Descriptors :=
  match s.rpcRegisterSocket sock event with
  | (ret, s) =>
      if ret = -1 then (ret, s)
      else (ret, s.clearRevents sockfd (s.fds.getD (sockfd - sockfdBase).toNat .zero))

/-- `rpc_connect`, where `connected` is what `connect` answers: zero, or `SOCKET_ERROR`. -/
def rpcConnect (s : Descriptors) (sockfd : Int) (addr : Option SockaddrUn) (addrlen : Nat)
    (connected : Bool) (event : Option Nat) (ans : ConnectAnswers) : Int × Descriptors :=
  if sockfd < 0 then (-1, s)
  else
    match s.issockfd sockfd with
    | some _ =>
        if connected = false then (-1, s)
        else
          -- The zero that `connect` has returned is taken for a socket.
          s.registerNew sockfd 0 event
    | none =>
        match s.ispipefd sockfd with
        | some pipe =>
            let (ret, p) := (s.pipeAt pipe).connect addr addrlen ans
            (ret, s.setPipe pipe p)
        | none => (-1, s)

/-- `rpc_bind`. -/
def rpcBind (s : Descriptors) (sockfd : Int) (addr : Option SockaddrUn) (addrlen : Nat)
    (bound : Bool) : Int × Descriptors :=
  match s.issockfd sockfd with
  | some x => if bound = false then (-1, s) else (0, s.clearRevents sockfd x)
  | none =>
      match s.ispipefd sockfd with
      | some pipe =>
          let (ret, p) := (s.pipeAt pipe).bind addr addrlen
          (ret, s.setPipe pipe p)
      | none => (-1, s)

/-- `rpc_listen`. -/
def rpcListen (s : Descriptors) (sockfd : Int) (listening : Bool) (ans : ListenAnswers) :
    Int × Descriptors :=
  match s.issockfd sockfd with
  | some x => if listening = false then (-1, s) else (0, s.clearRevents sockfd x)
  | none =>
      match s.ispipefd sockfd with
      | some pipe =>
          let (ret, p) := (s.pipeAt pipe).startListen ans
          (ret, s.setPipe pipe p)
      | none => (-1, s)

/-- `rpc_accept`. -/
def rpcAccept (s : Descriptors) (sockfd : Int) (accepted : Option SystemSocket)
    (event : Option Nat) (ans : AcceptAnswers) : Int × Descriptors :=
  match s.issockfd sockfd with
  | some _ =>
      match accepted with
      | none => (-1, s)
      | some sock => s.registerNew sockfd sock.handle event
  | none =>
      match s.ispipefd sockfd with
      | some pipe => s.pipeAccept sockfd pipe ans
      | none => (-1, s)

/-- `rpc_close`, where `closed` is what `closesocket` or `_close` answers. -/
def rpcClose (s : Descriptors) (fd : Int) (closed : Bool) : Int × Descriptors :=
  match s.issockfd fd with
  | some x =>
      match s.fdRelease fd x.handle with
      | (true, s) => (if closed then 0 else -1, s)
      | (false, s) => (-1, s)
  | none =>
      match s.ispipefd fd with
      | some _ => s.pipeClose fd
      | none => if fd < 0 then (-1, s) else (if closed then 0 else -1, s)

end Descriptors

end OncRpc.Win32
