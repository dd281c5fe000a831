import OncRpc.Base.Runs
import OncRpc.Win32.Descriptors

/-! Any sequence of calls that go through the table of descriptors, against a table that says
what each descriptor was made for. -/
namespace OncRpc.Win32

/-- What a descriptor stands for. -/
inductive Resource where
  | socket (handle : Nat)
  | pipe (p : Nat)
  deriving DecidableEq, Repr

def Slot.resource (x : Slot) : Option Resource :=
  if x.handle = 0 then none
  else if x.handle = invalidSocket then x.pipe.map .pipe
  else some (.socket x.handle)

/-- A call, with what the system answers to it. -/
inductive FdCall where
  | socket (domain : Nat) (type : Int) (allocated : Bool)
      (first again : Descriptors.SocketAnswer) (event : Option Nat)
  | bind (sockfd : Int) (addr : Option SockaddrUn) (addrlen : Nat) (bound : Bool)
  | listen (sockfd : Int) (listening : Bool) (ans : ListenAnswers)
  | accept (sockfd : Int) (accepted : Option SystemSocket) (event : Option Nat)
      (ans : AcceptAnswers)
  | connect (sockfd : Int) (addr : Option SockaddrUn) (addrlen : Nat) (connected : Bool)
      (event : Option Nat) (ans : ConnectAnswers)
  | close (fd : Int) (closed : Bool)

/-- What the system has for a new descriptor, and what the one that listens has from then on. -/
structure Grant where
  resource : Resource
  instead : Option (Nat × Resource)

/-- A new descriptor in a table. -/
def Grant.placed (g : Grant) (m : Nat → Option Resource) (n : Nat) : Nat → Option Resource :=
  let m := match g.instead with
    | none => m
    | some (l, r) => Function.update m l (some r)
  Function.update m n (some g.resource)

/-- The checks and the answers that let a pipe be connected. -/
def PIPE.Connects (p : PIPE) (addr : Option SockaddrUn) (addrlen : Nat) (ans : ConnectAnswers) :
    Prop :=
  (p.takesAddr addr addrlen).isSome ∧ false ∉ ans.waits ∧ ans.createFile.isSome ∧
    ans.setState = true ∧ ans.createEvent.isSome

/-- The checks and the answers that let a pipe listen. -/
def PIPE.Listens (p : PIPE) (ans : ListenAnswers) : Prop :=
  p.handle = 0 ∧ p.addr.sunFamily = afLocal ∧ ans.createNamedPipe.isSome ∧
    ans.createEvent.isSome ∧ ans.connectNamedPipe ≠ .failed

/-- The checks and the answers that let a pipe accept. -/
def PIPE.Accepts (p : PIPE) (ans : AcceptAnswers) : Prop :=
  p.handle ≠ 0 ∧ p.listen = true ∧ (p.rdpending = false ∨ ans.overlapped = true) ∧
    ans.allocated = true

instance (p : PIPE) (addr : Option SockaddrUn) (addrlen : Nat) (ans : ConnectAnswers) :
    Decidable (p.Connects addr addrlen ans) := by
  unfold PIPE.Connects
  infer_instance

instance (p : PIPE) (ans : ListenAnswers) : Decidable (p.Listens ans) := by
  unfold PIPE.Listens
  infer_instance

instance (p : PIPE) (ans : AcceptAnswers) : Decidable (p.Accepts ans) := by
  unfold PIPE.Accepts
  infer_instance

namespace Descriptors

/-- A call and its return value. -/
def call (s : Descriptors) : FdCall → Int × Descriptors
  | .socket domain type allocated first again event =>
      s.rpcSocket domain type allocated first again event
  | .bind sockfd addr addrlen bound => s.rpcBind sockfd addr addrlen bound
  | .listen sockfd listening ans => s.rpcListen sockfd listening ans
  | .accept sockfd accepted event ans => s.rpcAccept sockfd accepted event ans
  | .connect sockfd addr addrlen connected event ans =>
      s.rpcConnect sockfd addr addrlen connected event ans
  | .close fd closed => s.rpcClose fd closed

/-- What the descriptors stand for, by their slots. -/
def maps (s : Descriptors) (n : Nat) : Option Resource := s.fds[n]?.bind Slot.resource

/-- Every slot is in use. -/
def Full (s : Descriptors) : Prop := ∀ n < sockfdMax.toNat, (s.maps n).isSome

/-- What the system has for the descriptor that a call makes. -/
def offered (s : Descriptors) : FdCall → Option Grant
  | .socket domain _ allocated first again _ =>
      if domain = afLocal then
        if allocated = true then some { resource := .pipe s.pipes.length, instead := none }
        else none
      else (first.twice again).map fun sock => { resource := .socket sock.handle, instead := none }
  | .accept sockfd accepted _ ans =>
      match s.issockfd sockfd, s.ispipefd sockfd with
      | some _, _ => accepted.map fun sock => { resource := .socket sock.handle, instead := none }
      | none, some pipe =>
          if (s.pipeAt pipe).Accepts ans then
            some { resource := .pipe pipe
                   instead := some ((sockfd - sockfdBase).toNat, .pipe s.pipes.length) }
          else none
      | none, none => none
  | _ => none

/-- The system does what it is asked for by a call that makes no descriptor. -/
def Succeeds (s : Descriptors) : FdCall → Prop
  | .bind sockfd addr addrlen bound =>
      match s.issockfd sockfd, s.ispipefd sockfd with
      | some _, _ => bound = true
      | none, some pipe => ((s.pipeAt pipe).takesAddr addr addrlen).isSome
      | none, none => False
  | .listen sockfd listening ans =>
      match s.issockfd sockfd, s.ispipefd sockfd with
      | some _, _ => listening = true
      | none, some pipe => (s.pipeAt pipe).Listens ans
      | none, none => False
  | .connect sockfd addr addrlen connected _ ans =>
      match s.issockfd sockfd, s.ispipefd sockfd with
      | some _, _ => connected = true
      | none, some pipe => (s.pipeAt pipe).Connects addr addrlen ans
      | none, none => False
  | _ => False

/-- A descriptor is made for what the system has, in a slot that was free, and fails to be made
exactly when every slot is in use. -/
def Creates (s : Descriptors) (g : Option Grant) (ret : Int) (s' : Descriptors) : Prop :=
  match g with
  | none => ret = -1 ∧ s'.maps = s.maps
  | some g =>
      s.Full ∧ ret = -1 ∧ s'.maps = s.maps ∨
        ∃ n < sockfdMax.toNat, ret = n + sockfdBase ∧ s.maps n = none ∧ s'.maps = g.placed s.maps n

/-- A table without a descriptor. -/
def without (m : Nat → Option Resource) (fd : Int) : Nat → Option Resource :=
  if fd < sockfdBase then m else Function.update m (fd - sockfdBase).toNat none

/-- What a call should do: make a descriptor, free one slot, or leave the table alone and
return zero or -1. -/
def Does (s : Descriptors) (c : FdCall) (ret : Int) (s' : Descriptors) : Prop :=
  match c with
  | .socket .. | .accept .. => s.Creates (s.offered c) ret s'
  | .close fd _ => (ret = 0 ∨ ret = -1) ∧ s'.maps = without s.maps fd
  | .bind .. | .listen .. | .connect .. =>
      s'.maps = s.maps ∧ (s.Succeeds c → ret = 0) ∧ (¬ s.Succeeds c → ret = -1)

/-- No event is missing for a socket that could have a slot, and the system neither connects a
socket or a pipe nor binds a pipe. -/
def Spared (s : Descriptors) : FdCall → Prop
  | .socket domain _ _ first again event =>
      domain ≠ afLocal → (first.twice again).isSome → ¬ s.Full → event.isSome
  | .accept sockfd accepted event _ =>
      (s.issockfd sockfd).isSome → accepted.isSome → ¬ s.Full → event.isSome
  | c@(.connect ..) => ¬ s.Succeeds c
  | c@(.bind sockfd ..) => (s.issockfd sockfd).isSome ∨ ¬ s.Succeeds c
  | .listen .. | .close .. => True

/-- The table has its length, and a slot of a pipe has one. -/
structure Sound (s : Descriptors) : Prop where
  length : s.fds.length = sockfdMax.toNat
  linked : ∀ x ∈ s.fds, x.handle = invalidSocket → x.pipe.isSome

end Descriptors

/-- The table, and what each descriptor was made for. -/
structure MadeDescriptors where
  table : Descriptors
  made : Nat → Option Resource

namespace MadeDescriptors

def start : MadeDescriptors := { table := .initial, made := fun _ => none }

/-- What the descriptors have been made for after a call. -/
def madeAfter (t : MadeDescriptors) (c : FdCall) (ret : Int) : Nat → Option Resource :=
  match c with
  | .close fd _ => Descriptors.without t.made fd
  | _ =>
      match t.table.offered c with
      | none => t.made
      | some g => if ret = -1 then t.made else g.placed t.made (ret - sockfdBase).toNat

def next (t : MadeDescriptors) (c : FdCall) : Option MadeDescriptors :=
  some { table := (t.table.call c).2, made := t.madeAfter c (t.table.call c).1 }

/-- The descriptors stand for what they were made for, before a call and after it, and the call
does what it should. -/
def RightAt (t : MadeDescriptors) (c : FdCall) : Prop :=
  t.table.maps = t.made ∧ t.table.Does c (t.table.call c).1 (t.table.call c).2 ∧
    ∀ t', t.next c = some t' → t'.table.maps = t'.made

def SparedAt (t : MadeDescriptors) (c : FdCall) : Prop := t.table.Spared c

end MadeDescriptors

namespace PIPE

theorem fst_bind (p : PIPE) (addr : Option SockaddrUn) (addrlen : Nat) :
    (p.bind addr addrlen).1 = if (p.takesAddr addr addrlen).isSome then 1 else -1 := by
  rw [bind]
  cases p.takesAddr addr addrlen <;> rfl

theorem fst_connect (p : PIPE) (addr : Option SockaddrUn) (addrlen : Nat) (ans : ConnectAnswers) :
    (p.connect addr addrlen ans).1 = if p.Connects addr addrlen ans then 1 else -1 := by
  by_cases h : p.Connects addr addrlen ans
  · obtain ⟨hAddr, hWaits, hFile, hState, hEvent⟩ := h
    obtain ⟨a, ha⟩ := Option.isSome_iff_exists.mp hAddr
    obtain ⟨handle, hHandle⟩ := Option.isSome_iff_exists.mp hFile
    obtain ⟨event, hMade⟩ := Option.isSome_iff_exists.mp hEvent
    rw [if_pos ⟨hAddr, hWaits, hFile, hState, hEvent⟩]
    simp [connect, ha, hWaits, hHandle, hState, hMade]
  · rw [if_neg h, connect]
    split
    case h_1 hAddr => rfl
    case h_2 a ha =>
      split
      case isTrue hWaits => rfl
      case isFalse hWaits =>
        split
        case h_1 hFile => rfl
        case h_2 handle hHandle =>
          split
          case h_1 event hState hMade =>
            exact absurd ⟨by simp [ha], hWaits, by simp [hHandle], hState, by simp [hMade]⟩ h
          case h_2 | h_3 => rfl

theorem fst_startListen (p : PIPE) (ans : ListenAnswers) :
    (p.startListen ans).1 = if p.Listens ans then 0 else -1 := by
  by_cases h : p.Listens ans
  · obtain ⟨hHandle, hBound, hPipe, hEvent, hConnect⟩ := h
    obtain ⟨handle, hMade⟩ := Option.isSome_iff_exists.mp hPipe
    obtain ⟨event, hGot⟩ := Option.isSome_iff_exists.mp hEvent
    rw [if_pos ⟨hHandle, hBound, hPipe, hEvent, hConnect⟩]
    cases hWait : ans.connectNamedPipe with
    | pending | connected => simp [startListen, hHandle, hBound, hMade, hGot, hWait]
    | failed => exact absurd hWait hConnect
  · rw [if_neg h, startListen]
    split
    case isTrue hHandle => rfl
    case isFalse hHandle =>
      split
      case isTrue hBound => rfl
      case isFalse hBound =>
        split
        case h_1 hPipe => rfl
        case h_2 handle hMade =>
          split
          case h_1 event hGot hWait | h_2 event hGot hWait =>
            exact absurd ⟨not_not.mp hHandle, not_not.mp hBound, by simp [hMade], by simp [hGot],
              by simp [hWait]⟩ h
          case h_3 => rfl

end PIPE

namespace SystemSocket

theorem handle_ne_invalid (sock : SystemSocket) : sock.handle ≠ invalidSocket := by
  have hSmall := sock.small
  rw [invalidSocket]
  omega

theorem resource_eq (sock : SystemSocket) (wsaevt : Nat) (revents : BitVec 16) :
    Slot.resource { handle := sock.handle, wsaevt, revents, pipe := none } =
      some (.socket sock.handle) := by
  rw [Slot.resource, if_neg sock.pos.ne', if_neg (sock.handle_ne_invalid)]

end SystemSocket

namespace Descriptors

variable {s : Descriptors} {fds : List Slot} {n fd start sock : Nat} {x : Slot}
  {pipe event : Option Nat}

/-! ### The table -/

theorem findFree_eq_none (h : findFree fds start = none) (hStart : start ≤ n)
    (hn : fds[n]? = some x) :
    x.handle ≠ 0 := by
  rw [findFree, Option.map_eq_none_iff, List.findIdx?_eq_none_iff] at h
  have hMem : x ∈ fds.drop start := by
    apply List.mem_of_getElem? (i := n - start)
    rw [List.getElem?_drop, Nat.add_sub_cancel' hStart, hn]
  simpa using h x hMem

theorem findFree_eq_some (h : findFree fds start = some n) :
    ∃ x, fds[n]? = some x ∧ x.handle = 0 := by
  rw [findFree, Option.map_eq_some_iff] at h
  obtain ⟨i, hi, rfl⟩ := h
  rw [List.findIdx?_eq_some_iff_getElem] at hi
  obtain ⟨hLt, hFree, -⟩ := hi
  refine ⟨_, ?_, of_decide_eq_true hFree⟩
  rw [List.getElem_drop, List.getElem?_eq_getElem]

theorem resource_eq_none_iff (hLinked : x.handle = invalidSocket → x.pipe.isSome) :
    x.resource = none ↔ x.handle = 0 := by
  rw [Slot.resource]
  split
  case isTrue hFree => simp [hFree]
  case isFalse hUsed =>
    split
    case isTrue hPipe =>
      obtain ⟨p, hp⟩ := Option.isSome_iff_exists.mp (hLinked hPipe)
      simp [hp, hUsed]
    case isFalse hSocket => simp [hUsed]

theorem maps_setSlot (x : Slot) (hLt : fd < s.fds.length) :
    (s.setSlot fd x).maps = Function.update s.maps fd x.resource := by
  funext n
  show (s.fds.set fd x)[n]?.bind Slot.resource = _
  rw [List.getElem?_set]
  by_cases hn : fd = n
  · subst hn
    simp [hLt]
  · rw [if_neg hn, Function.update_of_ne (Ne.symm hn)]
    rfl

theorem Sound.setSlot (h : s.Sound) (hx : x.handle = invalidSocket → x.pipe.isSome) :
    (s.setSlot fd x).Sound where
  length := List.length_set.trans h.length
  linked := by
    intro y hy
    obtain hMem | rfl := List.mem_or_eq_of_mem_set hy
    · exact h.linked y hMem
    · exact hx

/-- A slot is free exactly when it is not in use. -/
theorem Sound.maps_eq_none_iff (h : s.Sound) (hx : s.fds[n]? = some x) :
    s.maps n = none ↔ x.handle = 0 := by
  rw [maps, hx]
  exact resource_eq_none_iff (h.linked x (List.mem_of_getElem? hx))

/-- A call of `fd_assign` that finds a slot at `n`. -/
def AssignsAt (s : Descriptors) (n sock : Nat) (pipe event : Option Nat)
    (r : Int × Descriptors) : Prop :=
  ∃ x, s.fds[n]? = some x ∧ x.handle = 0 ∧
    if sock ≠ invalidSocket ∧ event = none then r.1 = -1 ∧ r.2.fds = s.fds ∧ r.2.pipes = s.pipes
    else ∃ wsaevt, r.1 = n + sockfdBase ∧ r.2.pipes = s.pipes ∧
      r.2.fds = s.fds.set n { x with handle := sock, wsaevt := wsaevt, pipe := pipe }

theorem assignsAt_fdAssignFrom (hFound : findFree s.fds s.fdsNext = some n) (loops sock : Nat)
    (pipe event : Option Nat) :
    s.AssignsAt n sock pipe event (fdAssignFrom sock pipe event (loops + 1) s) := by
  obtain ⟨x, hx, hFree⟩ := findFree_eq_some hFound
  have hOld : s.fds.getD n .zero = x := by rw [List.getD_eq_getElem?_getD, hx, Option.getD_some]
  refine ⟨x, hx, hFree, ?_⟩
  simp only [fdAssignFrom, hFound, hOld]
  by_cases hSocket : sock = invalidSocket
  · rw [if_neg (fun h => h.1 hSocket), if_neg (not_not_intro hSocket)]
    exact ⟨x.wsaevt, rfl, rfl, rfl⟩
  · rw [if_pos hSocket]
    cases event with
    | none =>
        rw [if_pos ⟨hSocket, rfl⟩]
        exact ⟨rfl, rfl, rfl⟩
    | some wsaevt =>
        rw [if_neg (by simp)]
        exact ⟨wsaevt, rfl, rfl, rfl⟩

/-- `fd_assign` finds a slot, or all of them are in use. -/
theorem fdAssign_cases (s : Descriptors) (sock : Nat) (pipe event : Option Nat) :
    (∃ n, s.AssignsAt n sock pipe event (s.fdAssign sock pipe event)) ∨
      (∀ (n : Nat) (x : Slot), s.fds[n]? = some x → x.handle ≠ 0) ∧
        (s.fdAssign sock pipe event).1 = -1 ∧
        (s.fdAssign sock pipe event).2.fds = s.fds ∧
        (s.fdAssign sock pipe event).2.pipes = s.pipes := by
  rw [fdAssign]
  cases hFirst : findFree s.fds s.fdsNext with
  | some n =>
      left
      refine ⟨n, ?_⟩
      split
      · exact assignsAt_fdAssignFrom hFirst 1 ..
      · exact assignsAt_fdAssignFrom hFirst 0 ..
  | none =>
      -- The slots before the hint are looked at in a second round.
      cases hAgain : findFree s.fds 0 with
      | some n =>
          left
          refine ⟨n, ?_⟩
          have hHint : s.fdsNext ≠ 0 := by
            intro hZero
            rw [hZero, hAgain] at hFirst
            cases hFirst
          have hSecond := assignsAt_fdAssignFrom (s := { s with fdsNext := 0 }) hAgain 0 sock pipe
            event
          rw [if_pos hHint, fdAssignFrom, hFirst]
          exact hSecond
      | none =>
          right
          refine ⟨fun n x hx => findFree_eq_none hAgain (Nat.zero_le n) hx, ?_⟩
          split
          · simp [fdAssignFrom, hFirst, hAgain]
          · simp [fdAssignFrom, hFirst]

theorem Sound.full_iff (h : s.Sound) :
    s.Full ↔ ∀ (n : Nat) (x : Slot), s.fds[n]? = some x → x.handle ≠ 0 := by
  constructor
  · intro hFull n x hx hFree
    have hLt : n < s.fds.length := (List.getElem?_eq_some_iff.mp hx).1
    have hNone := (h.maps_eq_none_iff hx).mpr hFree
    rw [h.length] at hLt
    exact absurd (hFull n hLt) (by rw [hNone]; exact Bool.false_ne_true)
  · intro hUsed n hLt
    rw [← h.length] at hLt
    have hx := List.getElem?_eq_getElem hLt
    rw [Option.isSome_iff_ne_none]
    exact mt (h.maps_eq_none_iff hx).mp (hUsed n _ hx)

theorem maps_of_fds {s' : Descriptors} (h : s'.fds = s.fds) : s'.maps = s.maps := by
  funext n
  rw [maps, maps, h]

/-- A descriptor is made exactly when an event can be had for it, or none is needed. -/
theorem Sound.creates_fdAssign (h : s.Sound) (event : Option Nat) {r : Resource}
    (hr : ∀ wsaevt revents, Slot.resource { handle := sock, wsaevt, revents, pipe } = some r) :
    s.Creates (some { resource := r, instead := none }) (s.fdAssign sock pipe event).1
      (s.fdAssign sock pipe event).2 ↔ (sock ≠ invalidSocket → ¬ s.Full → event.isSome) := by
  rcases s.fdAssign_cases sock pipe event with ⟨n, x, hx, hFree, hOut⟩ | ⟨hUsed, hRet, hFds, -⟩
  · have hLt := (List.getElem?_eq_some_iff.mp hx).1
    have hNone := (h.maps_eq_none_iff hx).mpr hFree
    have hNotFull : ¬ s.Full := fun hFull => h.full_iff.mp hFull n x hx hFree
    by_cases hRefused : sock ≠ invalidSocket ∧ event = none
    · rw [if_pos hRefused] at hOut
      obtain ⟨hRet, -, -⟩ := hOut
      apply iff_of_false
      · rintro (⟨hFull, -⟩ | ⟨m, -, hMade, -⟩)
        · exact hNotFull hFull
        · rw [hRet, sockfdBase] at hMade
          omega
      · intro hEvent
        have hSome := hEvent hRefused.1 hNotFull
        rw [hRefused.2] at hSome
        cases hSome
    · rw [if_neg hRefused] at hOut
      obtain ⟨wsaevt, hRet, -, hFds⟩ := hOut
      apply iff_of_true
      · right
        refine ⟨n, by rwa [← h.length], hRet, hNone, ?_⟩
        have hSet := maps_setSlot { x with handle := sock, wsaevt, pipe } hLt
        rw [hr] at hSet
        exact (maps_of_fds hFds).trans hSet
      · intro hSocket _
        rw [Option.isSome_iff_ne_none]
        exact fun hEvent => hRefused ⟨hSocket, hEvent⟩
  · apply iff_of_true
    · exact .inl ⟨h.full_iff.mpr hUsed, hRet, maps_of_fds hFds⟩
    · exact fun _ hNot => absurd (h.full_iff.mpr hUsed) hNot

theorem Sound.of_fds {s' : Descriptors} (h : s.Sound) (hFds : s'.fds = s.fds) : s'.Sound where
  length := by rw [hFds, h.length]
  linked := by
    rw [hFds]
    exact h.linked

theorem Sound.fdAssign (h : s.Sound) (hPipe : sock = invalidSocket → pipe.isSome) :
    (s.fdAssign sock pipe event).2.Sound := by
  rcases s.fdAssign_cases sock pipe event with ⟨n, x, -, -, hOut⟩ | ⟨-, -, hFds, -⟩
  · split at hOut
    case isTrue hRefused => exact h.of_fds hOut.2.1
    case isFalse hMade =>
      obtain ⟨wsaevt, -, -, hFds⟩ := hOut
      exact (h.setSlot (x := { x with handle := sock, wsaevt, pipe }) hPipe).of_fds hFds
  · exact h.of_fds hFds

/-- The slot of a descriptor of a socket. -/
theorem issockfd_eq_some {sockfd : Int} (h : s.issockfd sockfd = some x) :
    sockfdBase ≤ sockfd ∧ s.fds[(sockfd - sockfdBase).toNat]? = some x ∧ x.handle ≠ 0 ∧
      x.handle ≠ invalidSocket := by
  rw [issockfd] at h
  split at h
  case isTrue hOut => cases h
  case isFalse hIn =>
    rw [Option.filter_eq_some_iff, decide_eq_true_iff] at h
    exact ⟨not_lt.mp (not_or.mp hIn).1, h.1, h.2⟩

/-- The slot of a descriptor of a pipe. -/
theorem ispipefd_eq_some {pipefd : Int} {p : Nat} (h : s.ispipefd pipefd = some p) :
    sockfdBase ≤ pipefd ∧ ∃ x, s.fds[(pipefd - sockfdBase).toNat]? = some x ∧
      x.handle = invalidSocket ∧ x.pipe = some p := by
  rw [ispipefd] at h
  split at h
  case isTrue hOut => cases h
  case isFalse hIn =>
    obtain ⟨x, hx, hPipe⟩ := Option.bind_eq_some_iff.mp h
    split at hPipe
    case isTrue hOther => cases hPipe
    case isFalse hHandle => exact ⟨not_lt.mp (not_or.mp hIn).1, x, hx, not_not.mp hHandle, hPipe⟩

/-- Any other descriptor has a free slot or none. -/
theorem Sound.maps_of_neither (h : s.Sound) {fd : Int} (hFd : sockfdBase ≤ fd)
    (hSock : s.issockfd fd = none) (hPipe : s.ispipefd fd = none) :
    s.maps (fd - sockfdBase).toNat = none := by
  cases hx : s.fds[(fd - sockfdBase).toNat]? with
  | none => rw [maps, hx, Option.bind_none]
  | some x =>
      have hLt := (List.getElem?_eq_some_iff.mp hx).1
      have hIn : ¬ (fd < sockfdBase ∨ fd ≥ sockfdBase + sockfdMax) := by
        rw [h.length] at hLt
        simp only [sockfdBase, sockfdMax] at *
        omega
      rw [issockfd, if_neg hIn, hx, Option.filter_eq_none_iff] at hSock
      rw [ispipefd, if_neg hIn, hx, Option.bind_some] at hPipe
      rw [h.maps_eq_none_iff hx]
      by_contra hUsed
      by_cases hHandle : x.handle = invalidSocket
      · rw [if_neg (not_not_intro hHandle)] at hPipe
        have hLinked := h.linked x (List.mem_of_getElem? hx) hHandle
        rw [hPipe] at hLinked
        cases hLinked
      · simpa [hUsed, hHandle] using hSock x rfl

theorem getD_of_getElem? (hx : s.fds[n]? = some x) : s.fds.getD n .zero = x := by
  rw [List.getD_eq_getElem?_getD, hx, Option.getD_some]

/-- The events that have been seen are no part of what a descriptor stands for. -/
theorem maps_clearRevents (s : Descriptors) (sockfd : Int)
    (hx : s.fds.getD (sockfd - sockfdBase).toNat .zero = x) :
    (s.clearRevents sockfd x).maps = s.maps := by
  subst hx
  rw [clearRevents]
  by_cases hLt : (sockfd - sockfdBase).toNat < s.fds.length
  · rw [maps_setSlot _ hLt, ← Function.update_eq_self (sockfd - sockfdBase).toNat s.maps]
    have hGet := List.getElem?_eq_getElem hLt
    rw [getD_of_getElem? hGet, Function.update_idem, maps, hGet]
    rfl
  · funext n
    show (s.fds.set _ _)[n]?.bind _ = _
    rw [List.set_eq_of_length_le (not_lt.mp hLt)]
    rfl

theorem Sound.clearRevents (h : s.Sound) (sockfd : Int)
    (hx : s.fds.getD (sockfd - sockfdBase).toNat .zero = x) : (s.clearRevents sockfd x).Sound := by
  subst hx
  apply h.setSlot
  intro hHandle
  rw [List.getD_eq_getElem?_getD] at hHandle ⊢
  cases hGet : s.fds[(sockfd - sockfdBase).toNat]? with
  | none =>
      rw [hGet] at hHandle
      exact absurd hHandle (by decide)
  | some x =>
      rw [hGet] at hHandle
      exact h.linked x (List.mem_of_getElem? hGet) hHandle

/-! ### The calls -/

theorem creates_congr {s₁ s' : Descriptors} {g : Option Grant} {ret : Int}
    (hMaps : s₁.maps = s.maps) : s₁.Creates g ret s' ↔ s.Creates g ret s' := by
  cases g <;> simp only [Creates, Full, hMaps]

theorem creates_after {s₁ s₂ : Descriptors} {g : Option Grant} {ret : Int}
    (hMaps : s₁.maps = s₂.maps) : s.Creates g ret s₁ ↔ s.Creates g ret s₂ := by
  cases g <;> simp only [Creates, hMaps]

theorem Sound.does_socket (h : s.Sound) (domain : Nat) (type : Int) (allocated : Bool)
    (first again : SocketAnswer) (event : Option Nat) :
    s.Does (.socket domain type allocated first again event)
        (s.rpcSocket domain type allocated first again event).1
        (s.rpcSocket domain type allocated first again event).2 ↔
      s.Spared (.socket domain type allocated first again event) := by
  rw [Does, Spared, rpcSocket]
  by_cases hLocal : domain = afLocal
  · apply iff_of_true
    · rw [if_pos hLocal, pipeCreate, offered, if_pos hLocal]
      cases allocated with
      | false => exact ⟨rfl, rfl⟩
      | true =>
          have hFds : (s.callocPipe.2.setPipe s.callocPipe.1 { s.callocPipe.2.pipeAt s.callocPipe.1 with
              type := type, blocking := true }).Sound := h.of_fds rfl
          exact (creates_congr (maps_of_fds rfl)).mp
            ((hFds.creates_fdAssign none (fun _ _ => rfl)).mpr (absurd rfl))
    · exact fun hOther => absurd hLocal hOther
  · rw [if_neg hLocal, offered, if_neg hLocal]
    cases hTwice : first.twice again with
    | none => exact iff_of_true ⟨rfl, rfl⟩ nofun
    | some sock =>
        have hMade := h.creates_fdAssign event sock.resource_eq
        refine hMade.trans ⟨fun hEvent _ _ => ?_, fun hEvent _ => ?_⟩
        · exact hEvent sock.handle_ne_invalid
        · exact hEvent hLocal rfl

theorem fst_registerNew (s : Descriptors) (sockfd : Int) (sock : Nat) (event : Option Nat) :
    (s.registerNew sockfd sock event).1 = (s.fdAssign sock none event).1 := by
  simp only [registerNew]
  by_cases hFailed : (s.rpcRegisterSocket sock event).1 = -1
  · rw [if_pos hFailed]
    rfl
  · rw [if_neg hFailed]
    rfl

theorem maps_registerNew (s : Descriptors) (sockfd : Int) (sock : Nat) (event : Option Nat) :
    (s.registerNew sockfd sock event).2.maps = (s.fdAssign sock none event).2.maps := by
  simp only [registerNew]
  by_cases hFailed : (s.rpcRegisterSocket sock event).1 = -1
  · rw [if_pos hFailed]
    rfl
  · rw [if_neg hFailed]
    exact maps_clearRevents _ _ rfl

theorem Sound.registerNew (h : s.Sound) (sockfd : Int) (hSock : sock ≠ invalidSocket)
    (event : Option Nat) : (s.registerNew sockfd sock event).2.Sound := by
  have hAssigned : (s.fdAssign sock none event).2.Sound :=
    h.fdAssign fun hNot => absurd hNot hSock
  simp only [Descriptors.registerNew]
  by_cases hFailed : (s.rpcRegisterSocket sock event).1 = -1
  · rw [if_pos hFailed]
    exact hAssigned
  · rw [if_neg hFailed]
    exact hAssigned.clearRevents sockfd rfl

/-- A pipe that cannot accept makes no descriptor. -/
theorem pipeAccept_refused (sockfd : Int) {p : Nat} {ans : AcceptAnswers}
    (h : ¬ (s.pipeAt p).Accepts ans) :
    (s.pipeAccept sockfd p ans).1 = -1 ∧ (s.pipeAccept sockfd p ans).2.fds = s.fds := by
  rw [pipeAccept]
  split
  case isTrue hHandle => exact ⟨rfl, rfl⟩
  case isFalse hHandle =>
    split
    case isTrue hListen => exact ⟨rfl, rfl⟩
    case isFalse hListen =>
      split
      case isFalse hWait => exact ⟨rfl, rfl⟩
      case isTrue hDone =>
        split
        case isTrue hMemory => exact ⟨rfl, rfl⟩
        case isFalse hMemory =>
          exact absurd ⟨hHandle, by simpa using hListen, hDone, by simpa using hMemory⟩ h

/-- A pipe that accepts is handed over to the descriptor that is made. -/
theorem Sound.pipeAccept (h : s.Sound) {sockfd : Int} {p : Nat} (hFd : s.ispipefd sockfd = some p)
    {ans : AcceptAnswers} (hAccepts : (s.pipeAt p).Accepts ans) :
    s.Creates (some { resource := .pipe p
                      instead := some ((sockfd - sockfdBase).toNat, .pipe s.pipes.length) })
      (s.pipeAccept sockfd p ans).1 (s.pipeAccept sockfd p ans).2 ∧
      (s.pipeAccept sockfd p ans).2.Sound := by
  obtain ⟨-, y, hy, hHandle, hPipe⟩ := ispipefd_eq_some hFd
  obtain ⟨hOpen, hListen, hDone, hMemory⟩ := hAccepts
  have hAlloc : s.callocPipe.2.Sound := h.of_fds rfl
  rw [Descriptors.pipeAccept, if_neg hOpen, if_neg (by simp [hListen]), if_pos hDone,
    if_neg (by simp [hMemory])]
  simp only
  rcases s.callocPipe.2.fdAssign_cases invalidSocket (some p) none with
    ⟨n, x, hx, hFree, hOut⟩ | ⟨hUsed, hRet, hFds, -⟩
  · rw [if_neg (fun hNot => hNot.1 rfl)] at hOut
    obtain ⟨wsaevt, hRet, -, hFds⟩ := hOut
    have hNonneg : ¬ (s.callocPipe.2.fdAssign invalidSocket (some p) none).1 < 0 := by
      rw [hRet, sockfdBase]
      omega
    have hLt := (List.getElem?_eq_some_iff.mp hx).1
    have hListening := (List.getElem?_eq_some_iff.mp hy).1
    have hApart : (sockfd - sockfdBase).toNat ≠ n := by
      intro hSame
      rw [hSame] at hy
      rw [Option.some.inj (hx.symm.trans hy), hHandle] at hFree
      exact absurd hFree (by decide)
    -- The slot of the descriptor that listens is still there.
    have hOld : (s.callocPipe.2.fdAssign invalidSocket (some p) none).2.fds.getD
        (sockfd - sockfdBase).toNat .zero = y := by
      rw [hFds, List.getD_eq_getElem?_getD, List.getElem?_set_ne (Ne.symm hApart)]
      exact getD_of_getElem? hy
    rw [if_neg hNonneg, updatepipefd]
    simp only [hOld, hPipe, if_true]
    have hWithin : (sockfd - sockfdBase).toNat <
        (s.setSlot n { x with handle := invalidSocket, wsaevt, pipe := some p }).fds.length := by
      rw [Descriptors.setSlot, List.length_set]
      exact hListening
    have hPlaced := maps_setSlot { y with pipe := some s.callocPipe.1 } hWithin
    rw [maps_setSlot (s := s) _ hLt, Function.update_comm hApart.symm] at hPlaced
    have hSlots : ((s.setSlot n { x with handle := invalidSocket, wsaevt, pipe := some p }).setSlot
        (sockfd - sockfdBase).toNat { y with pipe := some s.callocPipe.1 }).Sound :=
      Sound.setSlot (h.setSlot fun _ => rfl) fun _ => rfl
    constructor
    · right
      refine ⟨n, by rwa [← h.length], hRet, (h.maps_eq_none_iff hx).mpr hFree, ?_⟩
      refine (maps_of_fds ?_).trans (hPlaced.trans ?_)
      · show List.set _ _ _ = List.set _ _ _
        rw [hFds]
        rfl
      · rw [Slot.resource, if_neg (by rw [hHandle]; decide), if_pos hHandle]
        rfl
    · refine hSlots.of_fds ?_
      show List.set _ _ _ = List.set _ _ _
      rw [hFds]
      rfl
  · have hNeg : (s.callocPipe.2.fdAssign invalidSocket (some p) none).1 < 0 := by
      rw [hRet]
      decide
    rw [if_pos hNeg]
    exact ⟨.inl ⟨h.full_iff.mpr hUsed, hRet, maps_of_fds hFds⟩, h.of_fds hFds⟩

theorem Sound.does_accept (h : s.Sound) (sockfd : Int) (accepted : Option SystemSocket)
    (event : Option Nat) (ans : AcceptAnswers) :
    s.Does (.accept sockfd accepted event ans) (s.rpcAccept sockfd accepted event ans).1
        (s.rpcAccept sockfd accepted event ans).2 ↔
      s.Spared (.accept sockfd accepted event ans) := by
  rw [Does, Spared, rpcAccept.eq_def, offered]
  cases hSock : s.issockfd sockfd with
  | some x =>
      cases accepted with
      | none => exact iff_of_true ⟨rfl, rfl⟩ nofun
      | some sock =>
          have hMade := h.creates_fdAssign event sock.resource_eq
          have hSpared : (sock.handle ≠ invalidSocket → ¬ s.Full → event.isSome) ↔
              ((some x).isSome → (some sock).isSome → ¬ s.Full → event.isSome) :=
            ⟨fun hEvent _ _ => hEvent sock.handle_ne_invalid,
              fun hEvent _ => hEvent rfl rfl⟩
          rw [← hSpared, ← hMade, ← creates_after (maps_registerNew s sockfd sock.handle event),
            ← fst_registerNew s sockfd]
          rfl
  | none =>
      cases hPipe : s.ispipefd sockfd with
      | none => exact iff_of_true ⟨rfl, rfl⟩ nofun
      | some p =>
          apply iff_of_true _ nofun
          by_cases hAccepts : (s.pipeAt p).Accepts ans
          · simp only [if_pos hAccepts]
            exact (h.pipeAccept hPipe hAccepts).1
          · obtain ⟨hRet, hFds⟩ := pipeAccept_refused sockfd hAccepts
            simp only [if_neg hAccepts]
            exact ⟨hRet, maps_of_fds hFds⟩

theorem Sound.does_bind (sockfd : Int) (addr : Option SockaddrUn) (addrlen : Nat) (bound : Bool) :
    s.Does (.bind sockfd addr addrlen bound) (s.rpcBind sockfd addr addrlen bound).1
        (s.rpcBind sockfd addr addrlen bound).2 ↔
      s.Spared (.bind sockfd addr addrlen bound) := by
  rw [Does, Spared, Succeeds, rpcBind]
  cases hSock : s.issockfd sockfd with
  | some x =>
      apply iff_of_true _ (.inl rfl)
      cases bound with
      | false => simp
      | true =>
          have hx := getD_of_getElem? (issockfd_eq_some hSock).2.1
          exact ⟨maps_clearRevents s sockfd hx, fun _ => rfl, fun hNot => absurd rfl hNot⟩
  | none =>
      cases hPipe : s.ispipefd sockfd with
      | none => exact iff_of_true ⟨rfl, nofun, fun _ => rfl⟩ (.inr not_false)
      | some p =>
          simp only [PIPE.fst_bind]
          by_cases hTakes : ((s.pipeAt p).takesAddr addr addrlen).isSome
          · simp [hTakes]
          · simp only [hTakes]
            exact iff_of_true ⟨rfl, nofun, fun _ => rfl⟩ (.inr Bool.false_ne_true)

theorem Sound.does_listen (sockfd : Int) (listening : Bool) (ans : ListenAnswers) :
    s.Does (.listen sockfd listening ans) (s.rpcListen sockfd listening ans).1
        (s.rpcListen sockfd listening ans).2 := by
  rw [Does, Succeeds, rpcListen]
  cases hSock : s.issockfd sockfd with
  | some x =>
      cases listening with
      | false => simp
      | true =>
          have hx := getD_of_getElem? (issockfd_eq_some hSock).2.1
          exact ⟨maps_clearRevents s sockfd hx, fun _ => rfl, fun hNot => absurd rfl hNot⟩
  | none =>
      cases hPipe : s.ispipefd sockfd with
      | none => exact ⟨rfl, nofun, fun _ => rfl⟩
      | some p =>
          simp only [PIPE.fst_startListen]
          exact ⟨rfl, fun hListens => if_pos hListens, fun hNot => if_neg hNot⟩

/-- What `fd_assign` returns is no zero. -/
theorem fdAssign_ne_zero (s : Descriptors) (sock : Nat) (pipe event : Option Nat) :
    (s.fdAssign sock pipe event).1 ≠ 0 := by
  rcases s.fdAssign_cases sock pipe event with ⟨n, x, -, -, hOut⟩ | ⟨-, hRet, -⟩
  · split at hOut
    case isTrue hRefused =>
      rw [hOut.1]
      decide
    case isFalse hMade =>
      obtain ⟨wsaevt, hRet, -⟩ := hOut
      rw [hRet, sockfdBase]
      omega
  · rw [hRet]
    decide

/-- A connection that succeeds is never answered with zero. -/
theorem Sound.does_connect (sockfd : Int) (addr : Option SockaddrUn) (addrlen : Nat)
    (connected : Bool) (event : Option Nat) (ans : ConnectAnswers) :
    s.Does (.connect sockfd addr addrlen connected event ans)
        (s.rpcConnect sockfd addr addrlen connected event ans).1
        (s.rpcConnect sockfd addr addrlen connected event ans).2 ↔
      s.Spared (.connect sockfd addr addrlen connected event ans) := by
  rw [Does, Spared, Succeeds, rpcConnect]
  cases hSock : s.issockfd sockfd with
  | some x =>
      have hFd : ¬ sockfd < 0 := by
        have hBase := (issockfd_eq_some hSock).1
        rw [sockfdBase] at hBase
        omega
      rw [if_neg hFd]
      cases connected with
      | false => simp
      | true =>
          apply iff_of_false _ (not_not_intro rfl)
          rintro ⟨-, hZero, -⟩
          exact fdAssign_ne_zero _ _ _ _ ((fst_registerNew s sockfd 0 event).symm.trans (hZero rfl))
  | none =>
      cases hPipe : s.ispipefd sockfd with
      | none =>
          refine iff_of_true ?_ not_false
          split <;> exact ⟨rfl, nofun, fun _ => rfl⟩
      | some p =>
          have hFd : ¬ sockfd < 0 := by
            have hBase := (ispipefd_eq_some hPipe).1
            rw [sockfdBase] at hBase
            omega
          rw [if_neg hFd]
          simp only [PIPE.fst_connect]
          by_cases hConnects : (s.pipeAt p).Connects addr addrlen ans
          · simp [hConnects]
          · rw [if_neg hConnects]
            exact iff_of_true ⟨rfl, fun hNot => absurd hNot hConnects, fun _ => rfl⟩ hConnects

theorem Sound.fdRelease_eq (h : s.Sound) {fd : Int} (hBase : sockfdBase ≤ fd)
    (hx : s.fds[(fd - sockfdBase).toNat]? = some x) :
    s.fdRelease fd x.handle = (true, s.setSlot (fd - sockfdBase).toNat
      { x with handle := 0, wsaevt := 0, pipe := none }) := by
  have hLt := (List.getElem?_eq_some_iff.mp hx).1
  have hIn : ¬ (fd < sockfdBase ∨ fd ≥ sockfdBase + sockfdMax) := by
    rw [h.length] at hLt
    simp only [sockfdBase, sockfdMax] at *
    omega
  rw [fdRelease, if_neg hIn]
  simp only [getD_of_getElem? hx, if_true]

/-- A slot is freed, and no other one. -/
theorem maps_released {fd : Int} (hBase : sockfdBase ≤ fd)
    (hx : s.fds[(fd - sockfdBase).toNat]? = some x) :
    (s.setSlot (fd - sockfdBase).toNat { x with handle := 0, wsaevt := 0, pipe := none }).maps =
      without s.maps fd := by
  rw [maps_setSlot _ (List.getElem?_eq_some_iff.mp hx).1, without, if_neg (not_lt.mpr hBase)]
  rfl

theorem Sound.does_close (h : s.Sound) (fd : Int) (closed : Bool) :
    s.Does (.close fd closed) (s.rpcClose fd closed).1 (s.rpcClose fd closed).2 ∧
      (s.rpcClose fd closed).2.Sound := by
  have hAnswer : (if closed then (0 : Int) else -1) = 0 ∨
      (if closed then (0 : Int) else -1) = -1 := by
    cases closed <;> simp
  rw [Does, rpcClose.eq_def]
  cases hSock : s.issockfd fd with
  | some x =>
      obtain ⟨hBase, hx, -⟩ := issockfd_eq_some hSock
      simp only [h.fdRelease_eq hBase hx]
      exact ⟨⟨hAnswer, maps_released hBase hx⟩, h.setSlot nofun⟩
  | none =>
      cases hPipe : s.ispipefd fd with
      | some p =>
          obtain ⟨hBase, x, hx, hHandle, -⟩ := ispipefd_eq_some hPipe
          simp only [pipeClose, ← hHandle, h.fdRelease_eq hBase hx]
          exact ⟨⟨.inl trivial, maps_released hBase hx⟩, h.setSlot nofun⟩
      | none =>
          have hSame : s.maps = without s.maps fd := by
            rw [without]
            by_cases hBase : fd < sockfdBase
            · rw [if_pos hBase]
            · rw [if_neg hBase, ← h.maps_of_neither (not_lt.mp hBase) hSock hPipe,
                Function.update_eq_self]
          simp only
          split
          · exact ⟨⟨.inr rfl, hSame⟩, h⟩
          · exact ⟨⟨hAnswer, hSame⟩, h⟩

/-- A call does what it should exactly when it is spared. -/
theorem Sound.does_iff (h : s.Sound) (c : FdCall) :
    s.Does c (s.call c).1 (s.call c).2 ↔ s.Spared c := by
  cases c with
  | socket domain type allocated first again event => exact h.does_socket ..
  | bind sockfd addr addrlen bound => exact Sound.does_bind ..
  | listen sockfd listening ans => exact iff_of_true (Sound.does_listen ..) trivial
  | accept sockfd accepted event ans => exact h.does_accept ..
  | connect sockfd addr addrlen connected event ans => exact Sound.does_connect ..
  | close fd closed => exact iff_of_true (h.does_close fd closed).1 trivial

theorem Sound.call (h : s.Sound) (c : FdCall) : (s.call c).2.Sound := by
  cases c with
  | socket domain type allocated first again event =>
      show (s.rpcSocket ..).2.Sound
      rw [rpcSocket]
      split
      case isTrue hLocal =>
        rw [pipeCreate]
        cases allocated with
        | false => exact h
        | true => exact Sound.fdAssign (s := s.callocPipe.2.setPipe _ _) (h.of_fds rfl) fun _ => rfl
      case isFalse hOther =>
        cases first.twice again with
        | none => exact h
        | some sock => exact h.fdAssign fun hNot => absurd hNot sock.handle_ne_invalid
  | bind sockfd addr addrlen bound =>
      show (s.rpcBind ..).2.Sound
      rw [rpcBind.eq_def]
      cases hSock : s.issockfd sockfd with
      | some x =>
          cases bound with
          | false => exact h
          | true => exact h.clearRevents sockfd (getD_of_getElem? (issockfd_eq_some hSock).2.1)
      | none => cases s.ispipefd sockfd <;> exact h.of_fds rfl
  | listen sockfd listening ans =>
      show (s.rpcListen ..).2.Sound
      rw [rpcListen.eq_def]
      cases hSock : s.issockfd sockfd with
      | some x =>
          cases listening with
          | false => exact h
          | true => exact h.clearRevents sockfd (getD_of_getElem? (issockfd_eq_some hSock).2.1)
      | none => cases s.ispipefd sockfd <;> exact h.of_fds rfl
  | accept sockfd accepted event ans =>
      show (s.rpcAccept ..).2.Sound
      rw [rpcAccept.eq_def]
      cases hSock : s.issockfd sockfd with
      | some x =>
          cases accepted with
          | none => exact h
          | some sock => exact h.registerNew sockfd sock.handle_ne_invalid event
      | none =>
          cases hPipe : s.ispipefd sockfd with
          | none => exact h
          | some p =>
              by_cases hAccepts : (s.pipeAt p).Accepts ans
              · exact (h.pipeAccept hPipe hAccepts).2
              · exact h.of_fds (pipeAccept_refused sockfd hAccepts).2
  | connect sockfd addr addrlen connected event ans =>
      show (s.rpcConnect ..).2.Sound
      rw [rpcConnect]
      split
      case isTrue hBad => exact h
      case isFalse hFd =>
        cases s.issockfd sockfd with
        | some x =>
            cases connected with
            | false => exact h
            | true => exact h.registerNew sockfd (by decide) event
        | none => cases s.ispipefd sockfd <;> exact h.of_fds rfl
  | close fd closed => exact (h.does_close fd closed).2

end Descriptors

namespace MadeDescriptors

open Descriptors

variable {t t' : MadeDescriptors} {c : FdCall}

/-- The table is sound, and the descriptors stand for what they were made for. -/
def Sound (t : MadeDescriptors) : Prop := t.table.Sound ∧ t.table.maps = t.made

theorem sound_start : start.Sound := by
  constructor
  · exact { length := List.length_replicate
            linked := fun x hx => by rw [List.eq_of_mem_replicate hx]; nofun }
  · funext n
    show (List.replicate _ _)[n]?.bind _ = none
    rw [List.getElem?_replicate]
    split <;> rfl

/-- A descriptor that is made is noted. -/
theorem maps_created {s s' : Descriptors} {ret : Int} (hCreates : s.Creates (s.offered c) ret s') :
    s'.maps = match s.offered c with
      | none => s.maps
      | some g => if ret = -1 then s.maps else g.placed s.maps (ret - sockfdBase).toNat := by
  cases hGrant : s.offered c with
  | none =>
      rw [hGrant] at hCreates
      exact hCreates.2
  | some g =>
      rw [hGrant] at hCreates
      obtain ⟨-, hRet, hMaps⟩ | ⟨n, -, hRet, -, hMaps⟩ := hCreates
      · exact hMaps.trans (if_pos hRet).symm
      · have hMade : ret ≠ -1 := by
          rw [hRet, sockfdBase]
          omega
        simp only [hRet, Int.add_sub_cancel, Int.toNat_natCast]
        rw [if_neg (by rwa [← hRet])]
        exact hMaps

/-- What a call should do is what is noted of it. -/
theorem maps_after {t : MadeDescriptors} {ret : Int} {s' : Descriptors}
    (hMade : t.table.maps = t.made) (hDoes : t.table.Does c ret s') :
    s'.maps = t.madeAfter c ret := by
  rw [madeAfter.eq_def, ← hMade]
  cases c with
  | socket | accept => exact maps_created hDoes
  | close fd closed => exact hDoes.2
  | bind | listen | connect => exact hDoes.1

theorem Sound.step (h : t.Sound) (hSpared : t.SparedAt c) (hNext : t.next c = some t') :
    t'.Sound := by
  obtain rfl := Option.some.inj hNext
  exact ⟨h.1.call c, maps_after h.2 ((h.1.does_iff c).mpr hSpared)⟩

theorem Sound.rightAt_iff (h : t.Sound) (c : FdCall) : t.RightAt c ↔ t.SparedAt c := by
  constructor
  · rintro ⟨-, hDoes, -⟩
    exact (h.1.does_iff c).mp hDoes
  · intro hSpared
    exact ⟨h.2, (h.1.does_iff c).mpr hSpared, fun _ hNext => (h.step hSpared hNext).2⟩

open Runs in
/-- The table of the descriptors is right throughout any sequence of calls exactly when the
system neither connects a socket or a pipe nor binds a pipe, and has an event for each socket
that could have a slot. -/
theorem table_throughout_iff (calls : List FdCall) :
    Throughout next RightAt start calls ↔ Throughout next SparedAt start calls :=
  throughout_iff Sound (fun _ c h => h.rightAt_iff c)
    (fun _ _ _ h hSpared hNext => h.step hSpared hNext) calls _ sound_start

/-- A socket that the system makes. -/
def socketCall : FdCall :=
  .socket 2 1 true (.made { handle := 4, pos := by decide, small := by decide }) .failed (some 1)

/-- A connection of it that the system makes. -/
def connectCall : FdCall :=
  .connect 32 (some { sunFamily := 2, sunLen := 0 }) 16 true (some 2)
    { waits := [], createFile := none, setState := false, createEvent := none
      read := (.failed, []) }

/-- The connection is made, and the call answers with a descriptor of nothing. -/
theorem not_table_throughout :
    ¬ Runs.Throughout next RightAt start [socketCall, connectCall] := by
  rintro ⟨-, hRest⟩
  obtain ⟨⟨-, hDoes, -⟩, -⟩ := hRest _ rfl
  have hZero := hDoes.2.1 rfl
  exact absurd hZero (by decide)

end MadeDescriptors

end OncRpc.Win32
