import Mathlib.Data.List.Basic
import Mathlib.Data.Int.Basic
import Mathlib.Tactic.Common

/-! `win32_socket.c`: `poll` over sockets and pipes of Windows, and `svc_getreq_poll`, which
goes through an array that has been polled. What the system answers is a parameter. -/
namespace OncRpc.Win32

/-- The events of `poll`. -/
def pollerr : BitVec 16 := 0x0001
def pollhup : BitVec 16 := 0x0002
def pollnval : BitVec 16 := 0x0004
def pollwrnorm : BitVec 16 := 0x0010
def pollrdnorm : BitVec 16 := 0x0100
def pollrdband : BitVec 16 := 0x0200
def pollpri : BitVec 16 := 0x0400
def pollin : BitVec 16 := pollrdnorm ||| pollrdband

/-- The events that are reported whether they were asked for or not. -/
def unasked : BitVec 16 := pollhup ||| pollerr ||| pollnval

/-- `struct pollfd`. -/
structure Pollfd where
  fd : Int
  events : BitVec 16
  revents : BitVec 16
  deriving DecidableEq, Repr

/-- `struct Socket`. -/
structure Socket where
  handle : Nat
  revents : BitVec 16
  deriving DecidableEq, Repr

/-- `struct Pipe`. -/
structure Pipe where
  handle : Nat
  rdpending : Bool
  rdevents : BitVec 16
  deriving DecidableEq, Repr

/-- `struct FileDescriptor`, where it is in use. -/
inductive FileDescriptor where
  | sock (s : Socket)
  | pipe (p : Pipe)
  deriving DecidableEq, Repr

/-- `SOCKFD_BASE`, `SOCKFD_MAX` and `FD_SETSIZE`. -/
def sockfdBase : Int := 32
def sockfdMax : Int := 512
def fdSetsize : Nat := 64

/-- `fds_win32`. -/
abbrev FdsWin32 : Type := Nat → Option FileDescriptor

/-- What `issockfd` and `ispipefd` look at. -/
def descriptor (table : FdsWin32) (fd : Int) : Option FileDescriptor :=
  if fd < sockfdBase ∨ fd ≥ sockfdBase + sockfdMax then none else table (fd - sockfdBase).toNat

def ispipefd (table : FdsWin32) (pipefd : Int) : Option Pipe :=
  match descriptor table pipefd with
  | some (.pipe p) => some p
  | _ => none

/-- The table after a change behind a descriptor. -/
def storeFd (table : FdsWin32) (fd : Int) (d : FileDescriptor) : FdsWin32 := fun n =>
  if n = (fd - sockfdBase).toNat then some d else table n

/-- `lNetworkEvents`: `FD_ACCEPT`, `FD_READ`, `FD_OOB`, `FD_WRITE` and `FD_CLOSE`. -/
structure NetworkEvents where
  accept : Bool
  read : Bool
  oob : Bool
  write : Bool
  close : Bool
  deriving DecidableEq, Repr

/-- What `WSAEnumNetworkEvents` answers. -/
inductive EnumAnswer where
  | events (ne : NetworkEvents)
  | netdown
  | failed
  deriving DecidableEq, Repr

/-- What `GetOverlappedResult` answers. -/
inductive OverlappedAnswer where
  | done
  | incomplete
  | moreData
  | ended
  | failed
  deriving DecidableEq, Repr

/-- What `WSAWaitForMultipleEvents` answers. -/
inductive WaitAnswer where
  | object (n : Nat)
  | timeout
  | ioCompletion
  | failed
  | other
  deriving DecidableEq, Repr

/-- The system under the library, at the time of one call. -/
structure System where
  enumNetworkEvents : Nat → EnumAnswer
  getOverlappedResult : Nat → OverlappedAnswer
  wsaWait : WaitAnswer
  wsaPollFails : Bool

/-- The events of `poll` that `rpc_poll` makes of the answer for a socket. -/
def EnumAnswer.pollEvents : EnumAnswer → BitVec 16
  | .events ne =>
      (if ne.accept || ne.read then pollrdnorm else 0) ||| (if ne.oob then pollrdband else 0) |||
        (if ne.write then pollwrnorm else 0) ||| (if ne.oob then pollpri else 0) |||
        (if ne.close then pollhup else 0)
  | .netdown => pollhup
  | .failed => pollerr

/-- `pipe_io_complete`, past its assertion. -/
def pipeIoComplete (ans : OverlappedAnswer) (p : Pipe) : Bool × Pipe :=
  match ans with
  | .done => (true, { p with rdevents := pollin, rdpending := false })
  | .incomplete => (false, { p with rdevents := 0 })
  | .moreData => (true, { p with rdevents := pollin, rdpending := false })
  | .ended => (true, { p with rdevents := pollhup, rdpending := false })
  | .failed => (true, { p with rdevents := pollerr, rdpending := false })

/-- What a descriptor is ready for: what was seen on it and is still there, and what the
system has to report. -/
def System.ready (sys : System) : FileDescriptor → BitVec 16
  | .sock s => s.revents ||| (sys.enumNetworkEvents s.handle).pollEvents
  | .pipe p =>
      if p.rdpending then (pipeIoComplete (sys.getOverlappedResult p.handle) p).2.rdevents
      else p.rdevents

/-- `WSAPoll`, which marks exactly the sockets that are ready: the answer and the marks. -/
def System.wsaPoll (sys : System) (tFds : List (FileDescriptor × BitVec 16)) :
    Option (Nat × List (BitVec 16)) :=
  if sys.wsaPollFails then none
  else
    let marks := tFds.map fun t => sys.ready t.1 &&& (t.2 ||| unasked)
    some (marks.countP (· ≠ 0), marks)

/-- `errno` after a call. -/
inductive PollErrno where
  | einval
  | ebadf
  | eintr
  | eagain
  | eio
  | wsaerrno
  deriving DecidableEq, Repr

structure PollResult where
  ret : Int
  errno : Option PollErrno
  fds : List Pollfd
  table : FdsWin32

/-- The events that were seen on a descriptor. -/
def FileDescriptor.seen : FileDescriptor → BitVec 16
  | .sock s => s.revents
  | .pipe p => p.rdevents

def FileDescriptor.isPipe : FileDescriptor → Bool
  | .sock _ => false
  | .pipe _ => true

/-- The first loop of `rpc_poll`: the resources, unless a descriptor is bad, and the array. -/
def pollScan (table : FdsWin32) : List Pollfd → Option (List FileDescriptor) × List Pollfd
  | [] => (some [], [])
  | p :: fds =>
      match descriptor table p.fd with
      | none => (none, { p with revents := 0 } :: fds)
      | some d =>
          let (resources, fds) := pollScan table fds
          (resources.map (d :: ·), { p with revents := d.seen &&& p.events } :: fds)

/-- How many entries have events. -/
def found (fds : List Pollfd) : Nat := fds.countP fun p => decide (p.revents ≠ 0)

/-- The end of `rpc_poll` for the entry whose object was signalled. -/
def pollReport (fds : List Pollfd) (evt : Nat) (p : Pollfd) (revents : BitVec 16)
    (table : FdsWin32) : PollResult :=
  if revents ≠ 0 then
    { ret := 1, errno := none, fds := fds.set evt { p with revents := revents }, table := table }
  else { ret := -1, errno := some .eintr, fds := fds, table := table }

/-- `rpc_poll` where there are pipes and no event is pending. There is no result where an
assertion fails. -/
def pollWait (ndebug : Bool) (sys : System) (table : FdsWin32) (resources : List FileDescriptor)
    (fds : List Pollfd) : Option PollResult :=
  match sys.wsaWait with
  | .object evt =>
      match resources[evt]?, fds[evt]? with
      | some (.sock s), some p =>
          let revents := (sys.enumNetworkEvents s.handle).pollEvents
          let table := storeFd table p.fd (.sock { s with revents := s.revents ||| revents })
          some (pollReport fds evt p (revents &&& (p.events ||| unasked)) table)
      | some (.pipe q), some p =>
          -- The assertion of `pipe_io_complete`.
          if ndebug = false ∧ q.rdpending = false then none
          else
            let (done, q) := pipeIoComplete (sys.getOverlappedResult q.handle) q
            let revents := if done then q.rdevents &&& (p.events ||| unasked) else 0
            some (pollReport fds evt p revents (storeFd table p.fd (.pipe q)))
      | _, _ => some { ret := -1, errno := some .wsaerrno, fds := fds, table := table }
  | .timeout => some { ret := 0, errno := some .eagain, fds := fds, table := table }
  | .ioCompletion => some { ret := -1, errno := some .eintr, fds := fds, table := table }
  | .failed => some { ret := -1, errno := some .eio, fds := fds, table := table }
  | .other => some { ret := -1, errno := some .wsaerrno, fds := fds, table := table }

/-- `rpc_poll`. There is no result where an assertion fails, unless they are left out, or
where the arrays of the function are overrun. -/
def rpcPoll (ndebug : Bool) (sys : System) (table : FdsWin32) (fds : List Pollfd) :
    Option PollResult :=
  if fds.length ≥ fdSetsize ∧ (ndebug = false ∨ fds.length > fdSetsize) then none
  else if fds.length = 0 then
    some { ret := -1, errno := some .einval, fds := fds, table := table }
  else
    match pollScan table fds with
    | (none, fds) =>
        if ndebug then some { ret := -1, errno := some .ebadf, fds := fds, table := table } else none
    | (some resources, fds) =>
        let pipes := resources.countP FileDescriptor.isPipe
        if pipes ≠ 0 ∧ found fds > 0 then
          some { ret := found fds, errno := none, fds := fds, table := table }
        else if pipes ≠ 0 then pollWait ndebug sys table resources fds
        else
          let tFds := resources.zip (fds.map Pollfd.events)
          -- The marks of `WSAPoll` are cleared with the entries they should go to.
          let fds := fds.map fun p => { p with revents := 0 }
          match sys.wsaPoll tFds with
          | none => some { ret := -1, errno := some .wsaerrno, fds := fds, table := table }
          | some (ret, _) => some { ret := ret, errno := none, fds := fds, table := table }

/-- What `svc_getreq_poll` does for an entry with events. -/
inductive GetreqCall where
  | svcFdsetClr (fd : Int)
  | svcGetreqCommon (fd : Int)
  deriving DecidableEq, Repr

/-- The loop of `svc_getreq_poll` on what is left of the array, when `n` entries with events
are still to be found. There is no result where it reads behind the array. -/
def svcGetreqPoll : List Pollfd → Int → Option (List GetreqCall)
  | [], n => if 0 < n then none else some []
  | p :: fds, n =>
      if 0 < n then
        if p.revents ≠ 0 then
          (svcGetreqPoll fds (n - 1)).map
            ((if p.revents &&& pollnval ≠ 0 then .svcFdsetClr p.fd else .svcGetreqCommon p.fd) :: ·)
        else svcGetreqPoll fds n
      else some []

/-- The loop stops inside the array as long as it is not told to find more than there is. -/
theorem isSome_svcGetreqPoll (fds : List Pollfd) (n : Int) :
    (svcGetreqPoll fds n).isSome ↔ n ≤ found fds := by
  induction fds generalizing n with
  | nil =>
      simp only [svcGetreqPoll, found, List.countP_nil]
      split <;> simp <;> omega
  | cons p fds ih =>
      have hCount : found (p :: fds) = found fds + if p.revents ≠ 0 then 1 else 0 := by
        simp [found, List.countP_cons]
      rw [hCount, svcGetreqPoll]
      by_cases hMore : 0 < n
      · rw [if_pos hMore]
        by_cases hEvents : p.revents ≠ 0
        · rw [if_pos hEvents, if_pos hEvents, Option.isSome_map, ih]
          push_cast
          omega
        · rw [if_neg hEvents, if_neg hEvents, ih]
          rfl
      · rw [if_neg hMore]
        simp only [Option.isSome_some, true_iff]
        omega

/-! ### What a poll should report -/

section Conditions

variable (sys : System) (table : FdsWin32)

/-- The events that an entry asks for and its descriptor is ready for. -/
def wanted (p : Pollfd) : BitVec 16 := ((descriptor table p.fd).elim 0 sys.ready) &&& p.events

/-- The events that are to be reported for an entry. -/
def reportable (p : Pollfd) : BitVec 16 :=
  ((descriptor table p.fd).elim 0 sys.ready) &&& (p.events ||| unasked)

/-- The events that an entry asks for and that were seen on its descriptor before the call. -/
def pending (p : Pollfd) : BitVec 16 :=
  ((descriptor table p.fd).elim 0 FileDescriptor.seen) &&& p.events

/-- The events that the system has to report for an entry. -/
def signalled (p : Pollfd) : BitVec 16 :=
  match descriptor table p.fd with
  | some (.sock s) => (sys.enumNetworkEvents s.handle).pollEvents &&& (p.events ||| unasked)
  | some (.pipe q) =>
      let r := pipeIoComplete (sys.getOverlappedResult q.handle) q
      if r.1 then r.2.rdevents &&& (p.events ||| unasked) else 0
  | none => 0

/-- Every entry has a descriptor. -/
def Mapped (fds : List Pollfd) : Prop := ∀ p ∈ fds, (descriptor table p.fd).isSome

/-- Some entry has a pipe. -/
def HasPipe (fds : List Pollfd) : Prop := ∃ p ∈ fds, (ispipefd table p.fd).isSome

/-- Some event was seen before the call that is asked for. -/
def AnyPending (fds : List Pollfd) : Prop := ∃ p ∈ fds, pending table p ≠ 0

/-- The system answers the wait with an error, or with an object that was not waited for. -/
def WaitAnswer.Fails (ans : WaitAnswer) (nfds : Nat) : Prop :=
  match ans with
  | .object n => nfds ≤ n
  | .timeout => False
  | _ => True

/-- The wait is made, and the system answers it with an error. -/
def WaitFails (fds : List Pollfd) : Prop :=
  fds ≠ [] ∧ Mapped table fds ∧
    (¬ HasPipe table fds ∧ sys.wsaPollFails = true ∨
      HasPipe table fds ∧ ¬ AnyPending table fds ∧ sys.wsaWait.Fails fds.length)

/-- What is asked of a call: it returns how many entries have events, every entry has the
events that it asks for and its descriptor is ready for, entries of the descriptor -1 have
none, and the loop of `svc_getreq_poll` stops in the array. Only where the wait fails it
returns -1. -/
def PollRight (fds : List Pollfd) : Option PollResult → Prop
  | none => False
  | some r =>
      WaitFails sys table fds ∧ r.ret = -1 ∨
        r.ret = found r.fds ∧ (∀ p ∈ r.fds, wanted sys table p &&& ~~~p.revents = 0) ∧
          (∀ p ∈ r.fds, p.fd = -1 → p.revents = 0) ∧ (svcGetreqPoll r.fds r.ret).isSome

/-- The wait on the objects yields one entry, and no other one is ready. -/
def WaitTells (ndebug : Bool) (fds : List Pollfd) : Prop :=
  match sys.wsaWait with
  | .object n => ∀ p, fds[n]? = some p →
      (ndebug = true ∨ ∀ q, ispipefd table p.fd = some q → q.rdpending = true) ∧
        signalled sys table p ≠ 0 ∧ ∀ m p', m ≠ n → fds[m]? = some p' → wanted sys table p' = 0
  | .timeout => ∀ p ∈ fds, wanted sys table p = 0
  | _ => True

/-- The calls that report what is ready: on an array that is not empty nor too long and
whose descriptors are all in use, and
- where all of them are sockets, with none of them ready, or with a failure of `WSAPoll`;
- where events of them are pending, with no other one ready;
- where none is pending, with no more than the entry ready that the wait tells. -/
def PollMeets (ndebug : Bool) (fds : List Pollfd) : Prop :=
  (0 < fds.length ∧ (fds.length < fdSetsize ∨ ndebug = true ∧ fds.length = fdSetsize)) ∧
    Mapped table fds ∧
      (¬ HasPipe table fds ∧ (sys.wsaPollFails = true ∨ ∀ p ∈ fds, reportable sys table p = 0) ∨
        HasPipe table fds ∧ AnyPending table fds ∧
          (∀ p ∈ fds, wanted sys table p &&& ~~~(pending table p) = 0) ∨
        HasPipe table fds ∧ ¬ AnyPending table fds ∧ WaitTells sys table ndebug fds)

end Conditions

/-! ### The branches of a call -/

section Calls

variable {sys : System} {table : FdsWin32} {ndebug : Bool} {fds : List Pollfd}

theorem pollScan_mapped (h : Mapped table fds) :
    ∃ resources, pollScan table fds =
        (some resources, fds.map fun p => { p with revents := pending table p }) ∧
      fds.map (fun p => descriptor table p.fd) = resources.map some := by
  induction fds with
  | nil => exact ⟨[], rfl, rfl⟩
  | cons p fds ih =>
      obtain ⟨d, hd⟩ := Option.isSome_iff_exists.mp (h p List.mem_cons_self)
      obtain ⟨resources, hScan, hMap⟩ := ih fun q hq => h q (List.mem_cons_of_mem p hq)
      refine ⟨d :: resources, ?_, ?_⟩
      · simp [pollScan, hd, hScan, pending]
      · rw [List.map_cons, hMap, hd, List.map_cons]

theorem pollScan_not_mapped (h : ¬ Mapped table fds) :
    ∃ fds', pollScan table fds = (none, fds') := by
  induction fds with
  | nil => exact absurd (fun p hp => absurd hp List.not_mem_nil) h
  | cons p fds ih =>
      cases hd : descriptor table p.fd with
      | none => exact ⟨{ p with revents := 0 } :: fds, by simp [pollScan, hd]⟩
      | some d =>
          have hRest : ¬ Mapped table fds := by
            intro hRest
            apply h
            intro q hq
            rcases List.mem_cons.mp hq with rfl | hMem
            · rw [hd]
              rfl
            · exact hRest q hMem
          obtain ⟨fds', hScan⟩ := ih hRest
          exact ⟨{ p with revents := d.seen &&& p.events } :: fds', by
            simp [pollScan, hd, hScan]⟩

theorem countP_isPipe_ne_zero {resources : List FileDescriptor}
    (h : fds.map (fun p => descriptor table p.fd) = resources.map some) :
    resources.countP FileDescriptor.isPipe ≠ 0 ↔ HasPipe table fds := by
  induction fds generalizing resources with
  | nil =>
      obtain rfl : resources = [] := List.map_eq_nil_iff.mp h.symm
      simp [HasPipe]
  | cons p fds ih =>
      cases resources with
      | nil => cases h
      | cons d resources =>
          rw [List.map_cons, List.map_cons, List.cons.injEq] at h
          have hRest := ih h.2
          have hFirst : (ispipefd table p.fd).isSome = d.isPipe := by
            rw [ispipefd, h.1]
            cases d <;> rfl
          unfold HasPipe at hRest ⊢
          simp only [List.exists_mem_cons_iff, hFirst, List.countP_cons, ← hRest]
          cases d.isPipe <;> simp

theorem found_pos_iff :
    0 < found (fds.map fun p => { p with revents := pending table p }) ↔
      AnyPending table fds := by
  simp [found, AnyPending, List.countP_pos_iff]

theorem getElem?_of_map {resources : List FileDescriptor}
    (h : fds.map (fun p => descriptor table p.fd) = resources.map some) (n : Nat) :
    resources[n]? = fds[n]?.bind fun p => descriptor table p.fd := by
  have hAt := congrArg (fun l => l[n]?) h
  simp only [List.getElem?_map] at hAt
  cases hr : resources[n]? <;> cases hf : fds[n]? <;> rw [hr, hf] at hAt <;> simp_all

/-- The array behind the first loop. -/
def scanned (table : FdsWin32) (fds : List Pollfd) : List Pollfd :=
  fds.map fun p => { p with revents := pending table p }

theorem fd_ne_of_mapped (h : Mapped table fds) {p : Pollfd} (hp : p ∈ fds) : p.fd ≠ -1 := by
  intro hFd
  have hBad : descriptor table (-1) = none := if_pos (Or.inl (by decide))
  have hSome := h p hp
  rw [hFd, hBad] at hSome
  cases hSome

/-- Where no wait fails, entries are counted right and no entry is in disuse, a call is
right if the entries have what they want. -/
theorem pollRight_iff_covered {r : PollResult} (hMade : ¬ WaitFails sys table fds)
    (hUsed : ∀ p ∈ r.fds, p.fd ≠ -1) :
    PollRight sys table fds (some r) ↔
      r.ret = found r.fds ∧ ∀ p ∈ r.fds, wanted sys table p &&& ~~~p.revents = 0 := by
  constructor
  · rintro (⟨hFails, -⟩ | ⟨hCount, hCovered, -⟩)
    · exact absurd hFails hMade
    · exact ⟨hCount, hCovered⟩
  · rintro ⟨hCount, hCovered⟩
    refine Or.inr ⟨hCount, hCovered, fun p hp hFd => absurd hFd (hUsed p hp), ?_⟩
    exact (isSome_svcGetreqPoll _ _).mpr (Int.le_of_eq hCount)

/-- One set of events is in another one. -/
theorem and_not_eq_zero_iff {w : Nat} {a b : BitVec w} :
    a &&& ~~~b = 0 ↔ ∀ i, i < w → a.getLsbD i = true → b.getLsbD i = true := by
  constructor
  · intro hZero i hi ha
    have hBit := congrArg (fun v => v.getLsbD i) hZero
    simpa [hi, ha] using hBit
  · intro hAll
    apply BitVec.eq_of_getLsbD_eq
    intro i hi
    have hBit := hAll i hi
    simp only [BitVec.getLsbD_and, BitVec.getLsbD_not, hi, decide_true, Bool.true_and]
    cases ha : a.getLsbD i
    · simp
    · simp [hBit ha]

theorem and_not_zero {w : Nat} (a : BitVec w) : a &&& ~~~0 = a := by
  show a &&& ~~~(0#w) = a
  rw [BitVec.not_zero, BitVec.and_allOnes]

theorem eq_zero_of_and_not_zero {w : Nat} {a b : BitVec w} (h : a &&& ~~~b = 0) (hb : b = 0) :
    a = 0 := by
  rwa [hb, and_not_zero] at h

theorem and_subset_and_or {w : Nat} (a b c : BitVec w) : (a &&& b) &&& ~~~(a &&& (b ||| c)) = 0 := by
  apply and_not_eq_zero_iff.mpr
  intro i _ hBit
  simp only [BitVec.getLsbD_and, BitVec.getLsbD_or, Bool.and_eq_true] at hBit ⊢
  simp [hBit]

/-- What is wanted is reportable. -/
theorem wanted_eq_zero {p : Pollfd} (h : reportable sys table p = 0) : wanted sys table p = 0 :=
  eq_zero_of_and_not_zero (and_subset_and_or _ _ _) h

/-- What is wanted and was not seen before is what the system signals. -/
theorem wanted_covered {p : Pollfd} (h : pending table p = 0) :
    wanted sys table p &&& ~~~(signalled sys table p) = 0 := by
  unfold pending at h
  unfold wanted signalled
  cases hd : descriptor table p.fd with
  | none => simp
  | some d =>
      rw [hd, Option.elim_some] at h
      rw [Option.elim_some]
      cases d with
      | sock s =>
          have hSplit : sys.ready (.sock s) &&& p.events =
              (sys.enumNetworkEvents s.handle).pollEvents &&& p.events := by
            show (s.revents ||| _) &&& p.events = _
            rw [BitVec.and_or_distrib_right, show s.revents &&& p.events = 0 from h]
            exact BitVec.zero_or
          rw [hSplit]
          exact and_subset_and_or _ _ _
      | pipe q =>
          by_cases hWaits : q.rdpending = true
          · have hReady : sys.ready (.pipe q) =
                (pipeIoComplete (sys.getOverlappedResult q.handle) q).2.rdevents := if_pos hWaits
            rw [hReady]
            simp only
            split
            · exact and_subset_and_or _ _ _
            · rename_i hNot
              cases hAns : sys.getOverlappedResult q.handle <;> rw [hAns] at hNot <;>
                simp_all [pipeIoComplete]
          · have hReady : sys.ready (.pipe q) &&& p.events = 0 := by
              rw [show sys.ready (.pipe q) = q.rdevents from if_neg hWaits]
              exact h
            rw [hReady]
            exact BitVec.zero_and

/-- A report on one entry is right if it has an event and no other entry is ready. -/
theorem pollRight_pollReport {n : Nat} {p : Pollfd} {table' : FdsWin32}
    (hMade : ¬ WaitFails sys table fds) (hMapped : Mapped table fds)
    (hNone : ¬ AnyPending table fds) (hp : fds[n]? = some p) :
    PollRight sys table fds (some (pollReport (scanned table fds) n
      { p with revents := pending table p } (signalled sys table p) table')) ↔
      signalled sys table p ≠ 0 ∧ ∀ m p', m ≠ n → fds[m]? = some p' → wanted sys table p' = 0 := by
  have hIn : n < fds.length := (List.getElem?_eq_some_iff.mp hp).1
  have hClear : ∀ q ∈ fds, pending table q = 0 := by
    intro q hq
    by_contra hSome
    exact hNone ⟨q, hq, hSome⟩
  unfold pollReport
  by_cases hEvents : signalled sys table p ≠ 0
  · rw [if_pos hEvents]
    have hEntries : ∀ m q, ((scanned table fds).set n { p with revents := signalled sys table p })[m]?
        = some q → ∃ p' : Pollfd, fds[m]? = some p' ∧
          q = { p' with revents := if m = n then signalled sys table p' else 0 } := by
      intro m q hq
      by_cases hm : m = n
      · subst hm
        rw [List.getElem?_set_self (by simpa [scanned] using hIn)] at hq
        exact ⟨p, hp, by rw [if_pos rfl]; exact (Option.some.inj hq).symm⟩
      · rw [List.getElem?_set_ne (Ne.symm hm), scanned, List.getElem?_map] at hq
        obtain ⟨p', hp', rfl⟩ := Option.map_eq_some_iff.mp hq
        exact ⟨p', hp', by rw [if_neg hm, hClear p' (List.mem_of_getElem? hp')]⟩
    have hUsed : ∀ q ∈ (scanned table fds).set n { p with revents := signalled sys table p },
        q.fd ≠ -1 := by
      intro q hq
      obtain ⟨m, hm⟩ := List.getElem?_of_mem hq
      obtain ⟨p', hp', rfl⟩ := hEntries m q hm
      exact fun hFd => fd_ne_of_mapped hMapped (List.mem_of_getElem? hp') hFd
    have hCount : found ((scanned table fds).set n { p with revents := signalled sys table p }) =
        1 := by
      have hLt : n < (scanned table fds).length := by simpa [scanned] using hIn
      have hNotYet : (scanned table fds).countP (fun q => decide (q.revents ≠ 0)) = 0 := by
        rw [List.countP_eq_zero]
        intro q hq
        obtain ⟨p', hp', rfl⟩ := List.mem_map.mp hq
        simp [hClear p' hp']
      have hOld : (scanned table fds)[n].revents = 0 := by
        simpa [scanned] using hClear _ (List.getElem_mem hIn)
      rw [found, List.countP_set hLt, hNotYet, hOld]
      simpa using hEvents
    rw [pollRight_iff_covered hMade hUsed, hCount]
    constructor
    · rintro ⟨-, hCovered⟩
      refine ⟨hEvents, fun m p' hm hp' => ?_⟩
      have hMem : { p' with revents := 0 } ∈
          (scanned table fds).set n { p with revents := signalled sys table p } := by
        apply List.mem_of_getElem? (i := m)
        rw [List.getElem?_set_ne (Ne.symm hm), scanned, List.getElem?_map, hp', Option.map_some,
          hClear p' (List.mem_of_getElem? hp')]
      have hNothing : wanted sys table { p' with revents := 0 } &&& ~~~(0 : BitVec 16) = 0 :=
        hCovered _ hMem
      exact eq_zero_of_and_not_zero hNothing rfl
    · rintro ⟨-, hOthers⟩
      refine ⟨rfl, fun q hq => ?_⟩
      obtain ⟨m, hm⟩ := List.getElem?_of_mem hq
      obtain ⟨p', hp', rfl⟩ := hEntries m q hm
      show wanted sys table p' &&& ~~~(if m = n then signalled sys table p' else 0) = 0
      by_cases hSame : m = n
      · rw [if_pos hSame]
        exact wanted_covered (hClear p' (List.mem_of_getElem? hp'))
      · rw [if_neg hSame, hOthers m p' hSame hp']
        exact BitVec.zero_and
  · rw [if_neg hEvents]
    refine ⟨fun hRight => ?_, fun hBoth => absurd hBoth.1 hEvents⟩
    rcases hRight with ⟨hFails, -⟩ | ⟨hCount, -⟩
    · exact absurd hFails hMade
    · have hRet : (-1 : Int) = found (scanned table fds) := hCount
      omega

/-- A call that finds pending events next to a pipe does not look any further. -/
theorem pollRight_pending {r : PollResult} (hMapped : Mapped table fds)
    (hPipe : HasPipe table fds) (hPending : AnyPending table fds) (hRet : r.ret = found (scanned table fds))
    (hFds : r.fds = scanned table fds) :
    PollRight sys table fds (some r) ↔
      ∀ p ∈ fds, wanted sys table p &&& ~~~(pending table p) = 0 := by
  have hMade : ¬ WaitFails sys table fds := by
    rintro ⟨-, -, ⟨hNoPipe, hFails⟩ | ⟨-, hNone, -⟩⟩
    · exact hNoPipe hPipe
    · exact hNone hPending
  have hUsed : ∀ q ∈ r.fds, q.fd ≠ -1 := by
    rw [hFds]
    intro q hq
    obtain ⟨p, hp, rfl⟩ := List.mem_map.mp hq
    exact fun hFd => fd_ne_of_mapped hMapped hp hFd
  rw [pollRight_iff_covered hMade hUsed, hRet, hFds]
  constructor
  · rintro ⟨-, hCovered⟩ p hp
    exact hCovered _ (List.mem_map_of_mem hp)
  · intro hCovered
    refine ⟨rfl, fun q hq => ?_⟩
    obtain ⟨p, hp, rfl⟩ := List.mem_map.mp hq
    exact hCovered p hp

theorem pending_eq_zero (h : ¬ AnyPending table fds) {p : Pollfd} (hp : p ∈ fds) :
    pending table p = 0 := by
  by_contra hSome
  exact h ⟨p, hp, hSome⟩

theorem found_scanned_eq_zero (h : ¬ AnyPending table fds) : found (scanned table fds) = 0 :=
  Nat.eq_zero_of_not_pos (mt found_pos_iff.mp h)

/-- A call that waits reports the entry that it is told of. -/
theorem pollRight_pollWait {resources : List FileDescriptor} (hNonempty : fds ≠ [])
    (hMapped : Mapped table fds) (hPipe : HasPipe table fds) (hNone : ¬ AnyPending table fds)
    (hMap : fds.map (fun p => descriptor table p.fd) = resources.map some) :
    PollRight sys table fds (pollWait ndebug sys table resources (scanned table fds)) ↔
      WaitTells sys table ndebug fds := by
  have hMade : WaitFails sys table fds ↔ sys.wsaWait.Fails fds.length := by
    constructor
    · rintro ⟨-, -, ⟨hNoPipe, -⟩ | ⟨-, -, hFails⟩⟩
      · exact absurd hPipe hNoPipe
      · exact hFails
    · exact fun hFails => ⟨hNonempty, hMapped, Or.inr ⟨hPipe, hNone, hFails⟩⟩
  unfold pollWait WaitTells
  cases hWait : sys.wsaWait with
  | ioCompletion => exact iff_of_true (Or.inl ⟨hMade.mpr (by rw [hWait]; trivial), rfl⟩) trivial
  | failed => exact iff_of_true (Or.inl ⟨hMade.mpr (by rw [hWait]; trivial), rfl⟩) trivial
  | other => exact iff_of_true (Or.inl ⟨hMade.mpr (by rw [hWait]; trivial), rfl⟩) trivial
  | timeout =>
      have hNot : ¬ WaitFails sys table fds := by
        rw [hMade, hWait]
        exact id
      have hUsed : ∀ q ∈ scanned table fds, q.fd ≠ -1 := by
        intro q hq
        obtain ⟨p, hp, rfl⟩ := List.mem_map.mp hq
        exact fun hFd => fd_ne_of_mapped hMapped hp hFd
      rw [pollRight_iff_covered hNot hUsed]
      constructor
      · rintro ⟨-, hCovered⟩ p hp
        have hHere : wanted sys table p &&& ~~~(pending table p) = 0 :=
          hCovered _ (List.mem_map_of_mem hp)
        exact eq_zero_of_and_not_zero hHere (pending_eq_zero hNone hp)
      · intro hNothing
        refine ⟨by rw [found_scanned_eq_zero hNone]; rfl, fun q hq => ?_⟩
        obtain ⟨p, hp, rfl⟩ := List.mem_map.mp hq
        show wanted sys table p &&& _ = 0
        rw [hNothing p hp]
        exact BitVec.zero_and
  | object n =>
      have hAt := getElem?_of_map hMap n
      cases hp : fds[n]? with
      | none =>
          have hFails : WaitFails sys table fds := by
            rw [hMade, hWait]
            exact List.getElem?_eq_none_iff.mp hp
          rw [hp] at hAt
          simp only [hAt, Option.bind_none]
          refine iff_of_true (Or.inl ⟨hFails, rfl⟩) fun p hSome => ?_
          rw [hp] at hSome
          cases hSome
      | some p =>
          have hNot : ¬ WaitFails sys table fds := by
            rw [hMade, hWait]
            exact Nat.not_le.mpr (List.getElem?_eq_some_iff.mp hp).1
          obtain ⟨d, hd⟩ := Option.isSome_iff_exists.mp (hMapped p (List.mem_of_getElem? hp))
          have hEntry : (scanned table fds)[n]? = some { p with revents := pending table p } := by
            rw [scanned, List.getElem?_map, hp]
            rfl
          have hThis : ∀ Q : Pollfd → Prop, (∀ p', fds[n]? = some p' → Q p') ↔ Q p := by
            intro Q
            rw [hp]
            exact ⟨fun hAll => hAll p rfl, fun hQ p' hSame => Option.some.inj hSame ▸ hQ⟩
          rw [hp, Option.bind_some, hd] at hAt
          simp only [hAt, hEntry]
          rw [hThis]
          cases d with
          | sock s =>
              have hSignal : signalled sys table p =
                  (sys.enumNetworkEvents s.handle).pollEvents &&& (p.events ||| unasked) := by
                unfold signalled
                rw [hd]
              have hAwake : ∀ q, ispipefd table p.fd = some q → q.rdpending = true := by
                intro q hq
                rw [ispipefd, hd] at hq
                cases hq
              rw [and_iff_right (Or.inr hAwake)]
              simp only
              rw [← hSignal]
              exact pollRight_pollReport hNot hMapped hNone hp
          | pipe q =>
              have hAwake : (∀ q', ispipefd table p.fd = some q' → q'.rdpending = true) ↔
                  q.rdpending = true := by
                rw [ispipefd, hd]
                exact ⟨fun hAll => hAll q rfl, fun hq q' hSame => by cases hSame; exact hq⟩
              rw [hAwake]
              by_cases hAbort : ndebug = false ∧ q.rdpending = false
              · simp only [if_pos hAbort]
                refine iff_of_false id fun hBoth => ?_
                rw [hAbort.1, hAbort.2] at hBoth
                rcases hBoth.1 with hFalse | hFalse <;> cases hFalse
              · have hGoes : ndebug = true ∨ q.rdpending = true := by
                  cases ndebug <;> cases hq : q.rdpending <;> simp_all
                have hSignal : signalled sys table p =
                    if (pipeIoComplete (sys.getOverlappedResult q.handle) q).1 then
                      (pipeIoComplete (sys.getOverlappedResult q.handle) q).2.rdevents &&&
                        (p.events ||| unasked)
                    else 0 := by
                  unfold signalled
                  rw [hd]
                simp only [if_neg hAbort]
                rw [and_iff_right hGoes, ← hSignal]
                exact pollRight_pollReport hNot hMapped hNone hp

/-- Over sockets alone nothing is reported, so that nothing may be ready. -/
theorem pollRight_wsaPoll {resources : List FileDescriptor} (hNonempty : fds ≠ [])
    (hMapped : Mapped table fds) (hPipe : ¬ HasPipe table fds)
    (hMap : fds.map (fun p => descriptor table p.fd) = resources.map some) {r : PollResult}
    (hFds : r.fds = fds.map fun p => { p with revents := 0 })
    (hRet : r.ret = match sys.wsaPoll (resources.zip (fds.map Pollfd.events)) with
      | none => -1
      | some (n, _) => n) :
    PollRight sys table fds (some r) ↔
      sys.wsaPollFails = true ∨ ∀ p ∈ fds, reportable sys table p = 0 := by
  cases hFails : sys.wsaPollFails with
  | true =>
      refine iff_of_true (Or.inl ⟨⟨hNonempty, hMapped, Or.inl ⟨hPipe, hFails⟩⟩, ?_⟩) (Or.inl rfl)
      rw [hRet, System.wsaPoll, if_pos hFails]
  | false =>
      have hNot : ¬ WaitFails sys table fds := by
        rintro ⟨-, -, ⟨-, hTrue⟩ | ⟨hSome, -⟩⟩
        · rw [hFails] at hTrue
          cases hTrue
        · exact hPipe hSome
      have hUsed : ∀ q ∈ r.fds, q.fd ≠ -1 := by
        rw [hFds]
        intro q hq
        obtain ⟨p, hp, rfl⟩ := List.mem_map.mp hq
        exact fun hFd => fd_ne_of_mapped hMapped hp hFd
      have hFound : found r.fds = 0 := by
        rw [hFds, found, List.countP_eq_zero]
        intro q hq
        obtain ⟨p, hp, rfl⟩ := List.mem_map.mp hq
        simp
      have hMarks : (resources.zip (fds.map Pollfd.events)).map
          (fun t => sys.ready t.1 &&& (t.2 ||| unasked)) = fds.map (reportable sys table) := by
        clear hRet hFds hNonempty hMapped hPipe hNot hUsed hFound
        induction fds generalizing resources with
        | nil =>
            obtain rfl : resources = [] := List.map_eq_nil_iff.mp hMap.symm
            rfl
        | cons p fds ih =>
            cases resources with
            | nil => cases hMap
            | cons d resources =>
                rw [List.map_cons, List.map_cons, List.cons.injEq] at hMap
                rw [List.map_cons, List.zip_cons_cons, List.map_cons, ih hMap.2, List.map_cons,
                  reportable, hMap.1]
                rfl
      rw [System.wsaPoll, if_neg (by rw [hFails]; exact Bool.false_ne_true)] at hRet
      simp only [hMarks] at hRet
      rw [pollRight_iff_covered hNot hUsed, hFound, hRet]
      constructor
      · rintro ⟨hCount, -⟩
        refine Or.inr fun p hp => ?_
        have hNone := List.countP_eq_zero.mp (Int.ofNat.inj hCount) _ (List.mem_map_of_mem hp)
        simpa using hNone
      · rintro (hTrue | hNothing)
        · cases hTrue
        · constructor
          · apply congrArg Int.ofNat
            rw [List.countP_eq_zero]
            intro v hv
            obtain ⟨p, hp, rfl⟩ := List.mem_map.mp hv
            simp [hNothing p hp]
          · rw [hFds]
            intro q hq
            obtain ⟨p, hp, rfl⟩ := List.mem_map.mp hq
            show wanted sys table p &&& _ = 0
            rw [wanted_eq_zero (hNothing p hp)]
            exact BitVec.zero_and

/-- A call of `rpc_poll` reports what is ready in exactly these cases. -/
theorem rpcPoll_right_iff (ndebug : Bool) (sys : System) (table : FdsWin32) (fds : List Pollfd) :
    PollRight sys table fds (rpcPoll ndebug sys table fds) ↔
      PollMeets sys table ndebug fds := by
  unfold rpcPoll
  by_cases hLong : fds.length ≥ fdSetsize ∧ (ndebug = false ∨ fds.length > fdSetsize)
  · rw [if_pos hLong]
    refine iff_of_false id ?_
    rintro ⟨⟨-, hLt | ⟨hDebug, hEq⟩⟩, -⟩
    · exact absurd hLong.1 (Nat.not_le.mpr hLt)
    · rcases hLong.2 with hFalse | hGt
      · rw [hDebug] at hFalse
        cases hFalse
      · exact absurd hEq (Nat.ne_of_gt hGt)
  · rw [if_neg hLong]
    by_cases hEmpty : fds.length = 0
    · rw [if_pos hEmpty]
      refine iff_of_false ?_ fun hMeets => absurd hEmpty (Nat.ne_of_gt hMeets.1.1)
      rintro (⟨⟨hNonempty, -⟩, -⟩ | ⟨hCount, -⟩)
      · exact hNonempty (List.length_eq_zero_iff.mp hEmpty)
      · have hRet : (-1 : Int) = found fds := hCount
        omega
    · have hNonempty : fds ≠ [] := fun hNil => hEmpty (by rw [hNil]; rfl)
      have hFits : 0 < fds.length ∧
          (fds.length < fdSetsize ∨ ndebug = true ∧ fds.length = fdSetsize) := by
        refine ⟨Nat.pos_of_ne_zero hEmpty, ?_⟩
        rcases Nat.lt_trichotomy fds.length fdSetsize with hLt | hEq | hGt
        · exact Or.inl hLt
        · refine Or.inr ⟨?_, hEq⟩
          cases ndebug with
          | true => rfl
          | false => exact absurd ⟨Nat.le_of_eq hEq.symm, Or.inl rfl⟩ hLong
        · exact absurd ⟨Nat.le_of_lt hGt, Or.inr hGt⟩ hLong
      rw [if_neg hEmpty]
      by_cases hMapped : Mapped table fds
      · obtain ⟨resources, hScan, hMap⟩ := pollScan_mapped hMapped
        have hPipes := countP_isPipe_ne_zero hMap
        unfold PollMeets
        rw [hScan, and_iff_right hFits, and_iff_right hMapped]
        simp only
        by_cases hPipe : HasPipe table fds
        · by_cases hPending : AnyPending table fds
          · rw [if_pos ⟨hPipes.mpr hPipe, found_pos_iff.mpr hPending⟩,
              pollRight_pending hMapped hPipe hPending rfl rfl]
            simp [hPipe, hPending]
          · rw [if_neg fun hBoth => hPending (found_pos_iff.mp hBoth.2),
              if_pos (hPipes.mpr hPipe)]
            have hWait := @pollRight_pollWait sys table ndebug fds _ hNonempty hMapped hPipe
              hPending hMap
            simp only [hPipe, hPending, not_true, not_false_iff, true_and, false_and, false_or]
            exact hWait
        · have hNone : ¬ (resources.countP FileDescriptor.isPipe ≠ 0) := mt hPipes.mp hPipe
          have hFds : (fds.map fun p => { p with revents := pending table p }).map
              (fun p => { p with revents := 0 }) = fds.map fun p => { p with revents := 0 } := by
            rw [List.map_map]
            rfl
          have hEvents : (fds.map fun p => { p with revents := pending table p }).map
              Pollfd.events = fds.map Pollfd.events := by
            rw [List.map_map]
            rfl
          rw [if_neg fun hBoth => hNone hBoth.1, if_neg hNone, hFds, hEvents]
          simp only [hPipe, not_false_iff, true_and, false_and, or_false]
          cases hPoll : sys.wsaPoll (resources.zip (fds.map Pollfd.events)) with
          | none => exact pollRight_wsaPoll hNonempty hMapped hPipe hMap rfl (by rw [hPoll])
          | some ans => exact pollRight_wsaPoll hNonempty hMapped hPipe hMap rfl (by rw [hPoll])
      · obtain ⟨fds', hScan⟩ := pollScan_not_mapped hMapped
        rw [hScan]
        refine iff_of_false ?_ fun hMeets => hMapped hMeets.2.1
        cases ndebug with
        | false => exact id
        | true =>
            rintro (⟨⟨-, hAll, -⟩, -⟩ | ⟨hCount, -⟩)
            · exact hMapped hAll
            · have hRet : (-1 : Int) = found fds' := hCount
              omega

end Calls

/-! ### A socket with something to read -/

/-- One socket, under the first descriptor. -/
def readyTable : FdsWin32 := fun n => if n = 0 then some (.sock ⟨1, 0⟩) else none

/-- There is something to read on every socket. -/
def readySystem : System where
  enumNetworkEvents _ := .events ⟨false, true, false, false, false⟩
  getOverlappedResult _ := .incomplete
  wsaWait := .timeout
  wsaPollFails := false

def readyFds : List Pollfd := [⟨sockfdBase, pollin, 0⟩]

/-- The call returns 1 and no entry has events. -/
theorem not_pollRight_readyFds :
    ¬ PollRight readySystem readyTable readyFds
      (rpcPoll false readySystem readyTable readyFds) := by
  have hRun : rpcPoll false readySystem readyTable readyFds =
      some { ret := 1, errno := none, fds := readyFds, table := readyTable } := rfl
  rw [hRun]
  rintro (⟨-, hRet⟩ | ⟨hCount, -⟩)
  · cases hRet
  · have hOne : (1 : Int) = 0 := hCount
    cases hOne

end OncRpc.Win32
