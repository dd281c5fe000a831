import OncRpc.Base.Heap
import OncRpc.Base.Runs

/-! `thread.c` of libsthread: the descriptors of threads, and the steps in which the creator of a
thread, the thread itself and the one that joins or detaches it use its descriptor. -/
namespace OncRpc.Sthread

open Runs

/-- `struct pthread_instance`, of which the handle is there or 0. `magic` is there as long as the
descriptor is not freed. -/
structure PthreadInstance where
  handle : Bool
  joining : Bool
  ret : Nat
  deriving DecidableEq, Repr

/-- Where `pthread_create` is, behind `_beginthreadex`. -/
inductive CreatePc where
  /-- The handle is to be stored. -/
  | begun
  /-- For a detached thread it is to be cleared again. -/
  | stored
  | done
  deriving DecidableEq, Repr

/-- Where a thread is. -/
inductive ThreadPc where
  /-- `_beginthreadex` has failed. -/
  | unstarted
  | routine
  /-- In `windows_thread`, behind the routine: the handle is to be read, and then `joining`. -/
  | returned
  | unhandled
  /-- In `pthread_exit`: `joining` is to be read, then the handle, or else the value stored. -/
  | exiting (value : Nat)
  | notJoined (value : Nat)
  | storing (value : Nat)
  | cleanup
  /-- The thread frees its descriptor. -/
  | freeing
  | finished
  deriving DecidableEq, Repr

/-- What `pthread_join` and `pthread_detach` return: 0 with or without a value, `ESRCH` and
`EINVAL`. -/
inductive CallResult where
  | joined (value : Nat)
  | detached
  | noThread
  | invalid
  deriving DecidableEq, Repr

/-- Where the call for a thread is, if there is one. -/
inductive CallPc where
  | none
  /-- In `pthread_join`: the lock is to be taken. -/
  | joinBegun
  /-- The handle is to be compared, and then to be waited for. -/
  | joinLocked
  | joinWaiting
  | joinBlocked
  /-- There was nothing to wait for. -/
  | joinFailed
  /-- The thread has ended: the handle is to be read again, and then `ret`. -/
  | joinEnded
  | joinTaking
  | joinFreeing (value : Option Nat)
  /-- In `pthread_detach`: the handle is to be read, and then to be cleared. -/
  | detachBegun
  | detachClearing
  | done (result : CallResult)
  deriving DecidableEq, Repr

/-- A thread: its descriptor, the attribute, whether it was started, what its three parties are at,
and the value that it exits with. -/
structure PthreadRun where
  thread : Nat
  detached : Bool
  started : Bool
  creator : CreatePc
  self : ThreadPc
  caller : CallPc
  value : Option Nat
  deriving DecidableEq, Repr

/-- What the parties do. -/
inductive PthreadOp where
  /-- `pthread_create` goes on. -/
  | create
  /-- The routine, or a destructor, calls `pthread_self`. -/
  | pthreadSelf
  /-- The routine returns. -/
  | ret (value : Nat)
  | pthreadExit (value : Nat)
  /-- The thread goes on to its end. -/
  | exit
  | pthreadJoin
  | pthreadDetach
  /-- The call goes on. -/
  | call
  deriving DecidableEq, Repr

/-- A step that does without the descriptor, or one that uses it, and leaves it or frees it. -/
inductive PthreadStep where
  | own (r : PthreadRun)
  | uses (f : PthreadInstance → Option PthreadInstance × PthreadRun)

namespace PthreadRun

/-- `pthread_create`, step by step. Where `_beginthreadex` fails it returns 0, not the -1 that is
looked for. -/
def createStep (r : PthreadRun) : PthreadStep :=
  match r.creator with
  | .begun => .uses fun inst =>
      (some { inst with handle := r.started }, { r with creator := .stored })
  | .stored =>
      if r.detached then
        .uses fun inst => (some { inst with handle := false }, { r with creator := .done })
      else .own { r with creator := .done }
  | .done => .own r

/-- The end of `windows_thread` and `pthread_exit`, step by step. -/
def exitStep (r : PthreadRun) : PthreadStep :=
  match r.self with
  | .returned => .uses fun inst =>
      (some inst, { r with self := if inst.handle then .finished else .unhandled })
  | .unhandled => .uses fun inst =>
      (some inst, { r with self := if inst.joining then .finished else .freeing })
  | .exiting v => .uses fun inst =>
      (some inst, { r with self := if inst.joining then .storing v else .notJoined v })
  | .notJoined v => .uses fun inst =>
      (some inst, { r with self := if inst.handle then .storing v else .freeing })
  | .storing v => .uses fun inst => (some { inst with ret := v }, { r with self := .cleanup })
  | .cleanup => .own { r with self := .finished }
  | .freeing => .uses fun _ => (none, { r with self := .finished })
  | _ => .own r

/-- `pthread_join` and `pthread_detach`, step by step. -/
def callStep (r : PthreadRun) : PthreadStep :=
  match r.caller with
  | .joinBegun => .uses fun inst =>
      (some { inst with joining := true },
        { r with caller := if inst.joining then .done .invalid else .joinLocked })
  | .joinLocked => .uses fun inst => (some inst, { r with caller := .joinWaiting })
  | .joinWaiting => .uses fun inst =>
      (some inst, { r with caller := if inst.handle then .joinBlocked else .joinFailed })
  | .joinBlocked => .own (if r.self = .finished then { r with caller := .joinEnded } else r)
  | .joinFailed => .uses fun inst =>
      (some { inst with joining := false }, { r with caller := .done .noThread })
  | .joinEnded => .uses fun inst =>
      (some inst, { r with caller := if inst.handle then .joinTaking else .joinFreeing none })
  | .joinTaking => .uses fun inst => (some inst, { r with caller := .joinFreeing (some inst.ret) })
  | .joinFreeing value => .uses fun _ =>
      (none, { r with caller := .done (value.elim .noThread .joined) })
  | .detachBegun => .uses fun inst =>
      (some inst, { r with caller := if inst.handle then .detachClearing else .done .invalid })
  | .detachClearing => .uses fun inst =>
      (some { inst with handle := false }, { r with caller := .done .detached })
  | _ => .own r

/-- A call may come once somebody has the descriptor, and there is one for each thread. -/
def mayCall (r : PthreadRun) : Bool :=
  r.caller == .none && (r.creator == .done || r.started)

/-- A step of a party. What a party is not at changes nothing. -/
def step (r : PthreadRun) : PthreadOp → PthreadStep
  | .create => r.createStep
  | .pthreadSelf =>
      if r.self = .routine ∨ r.self = .returned ∨ r.self = .cleanup then
        .uses fun inst => (some inst, r)
      else .own r
  | .ret v =>
      if r.self = .routine then
        .uses fun inst =>
          (some { inst with ret := v }, { r with self := .returned, value := some v })
      else .own r
  | .pthreadExit v =>
      if r.self = .routine then
        .uses fun inst => (some inst, { r with self := .exiting v, value := some v })
      else .own r
  | .exit => r.exitStep
  | .pthreadJoin =>
      if r.mayCall then .uses fun inst => (some inst, { r with caller := .joinBegun }) else .own r
  | .pthreadDetach =>
      if r.mayCall then .uses fun inst => (some inst, { r with caller := .detachBegun }) else .own r
  | .call => r.callStep

end PthreadRun

/-- The descriptors, and the threads that were created. -/
structure Pthreads where
  heap : Heap PthreadInstance
  runs : List PthreadRun

inductive PthreadEvent where
  /-- `pthread_create` up to `_beginthreadex`, which may fail. -/
  | create (detached started : Bool)
  | op (i : Nat) (op : PthreadOp)
  deriving DecidableEq, Repr

namespace Pthreads

def init : Pthreads := ⟨.empty, []⟩

/-- An event. There is no outcome where a descriptor is used that is freed. -/
def step (s : Pthreads) : PthreadEvent → Option Pthreads
  | .create detached started =>
      let inst := s.heap.malloc ⟨false, false, 0⟩
      some
        { heap := inst.2
          runs := s.runs ++
            [⟨inst.1, detached, started, .begun, if started then .routine else .unstarted, .none,
              none⟩] }
  | .op i op =>
      match s.runs[i]? with
      | none => some s
      | some r =>
          match r.step op with
          | .own r => some { s with runs := s.runs.set i r }
          | .uses f => do
              let inst ← s.heap.read r.thread
              let heap ← s.heap.replace r.thread (f inst).1
              some { heap, runs := s.runs.set i (f inst).2 }

end Pthreads

end OncRpc.Sthread
