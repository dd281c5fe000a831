import Mathlib.Algebra.Ring.Int.Defs
import Mathlib.Algebra.Ring.Nat
import OncRpc.Base.Buffer
import OncRpc.Win32.Poll

/-! `win32_socket.c`: reading from a named pipe. The system keeps the messages of the peer until
they have been read; whether a read of them ends at once is up to the system. -/
namespace OncRpc.Win32

open Buffer

/-- `PIPE_RECVBUF`. -/
def pipeRecvbuf : Nat := 16 * 1044

/-- `struct sockaddr_un` of a pipe, less its path. -/
structure SockaddrUn where
  sunFamily : Nat
  sunLen : Nat
  deriving DecidableEq, Repr

/-- `PIPE`. -/
structure PIPE where
  addr : SockaddrUn
  handle : Nat
  /-- `ov.hEvent`. -/
  hEvent : Nat
  type : Int
  listen : Bool
  blocking : Bool
  rdpending : Bool
  rdcount : BitVec 32
  rdpos : BitVec 32
  rdevents : BitVec 16
  rdbuffer : List UInt8

/-- What `calloc` returns for a pipe. -/
def PIPE.calloc : PIPE where
  addr := { sunFamily := 0, sunLen := 0 }
  handle := 0
  hEvent := 0
  type := 0
  listen := false
  blocking := false
  rdpending := false
  rdcount := 0
  rdpos := 0
  rdevents := 0
  rdbuffer := List.replicate pipeRecvbuf 0

/-- What the system makes of a read of the pipe when it is asked for it. -/
inductive IoChoice where
  | ready
  | wait
  | hangup
  | fault
  deriving DecidableEq, Repr

/-- A read of the messages that have been written and not been read: at most one message, or as
much of it as the buffer holds. Without a message it has to wait. -/
def attempt : IoChoice → List (List UInt8) → OverlappedAnswer × List UInt8 × List (List UInt8)
  | .ready, [] => (.incomplete, [], [])
  | .ready, m :: rest =>
      if m.length ≤ pipeRecvbuf then (.done, m, rest)
      else (.moreData, m.take pipeRecvbuf, m.drop pipeRecvbuf :: rest)
  | .wait, queue => (.incomplete, [], queue)
  | .hangup, queue => (.ended, [], queue)
  | .fault, queue => (.failed, [], queue)

namespace PIPE

/-- The buffer once a read has ended that stored `data`. -/
def filled (p : PIPE) (data : List UInt8) (rdcount : Nat) : PIPE :=
  { p with
    rdbuffer := writeAt p.rdbuffer 0 data
    rdevents := pollin
    rdcount := BitVec.ofNat 32 rdcount
    rdpos := 0
    rdpending := false }

/-- `pipe_io_read`, past its assertions, for what `ReadFile` answers: `ERROR_IO_PENDING` is
`incomplete`. -/
def ioRead (ans : OverlappedAnswer) (data : List UInt8) (p : PIPE) : Bool × PIPE :=
  match ans with
  | .done => (true, p.filled data data.length)
  | .incomplete => (false, { p with rdpending := true, rdevents := 0 })
  | .moreData => (true, p.filled data pipeRecvbuf)
  | .ended => (true, { p with rdevents := pollhup, rdpending := false })
  | .failed => (true, { p with rdevents := pollerr, rdpending := false })

/-- `pipe_io_complete`, past its assertions, for what `GetOverlappedResult` answers. -/
def ioComplete (ans : OverlappedAnswer) (data : List UInt8) (p : PIPE) : Bool × PIPE :=
  match ans with
  | .done => (true, p.filled data data.length)
  | .incomplete => (false, { p with rdevents := 0 })
  | .moreData => (true, p.filled data data.length)
  | .ended => (true, { p with rdevents := pollhup, rdpending := false })
  | .failed => (true, { p with rdevents := pollerr, rdpending := false })

/-- The part of the buffer that has been filled and not been read. -/
def unread (p : PIPE) : List UInt8 :=
  readAt p.rdbuffer p.rdpos.toNat (p.rdcount.toNat - p.rdpos.toNat)

/-- The positions lie in the buffer, and everything has been read unless more may be. -/
structure Sound (p : PIPE) : Prop where
  length : p.rdbuffer.length = pipeRecvbuf
  pos : p.rdpos.toNat ≤ p.rdcount.toNat
  count : p.rdcount.toNat ≤ pipeRecvbuf
  spent : p.rdpending = true ∨ p.rdevents &&& pollin = 0 → p.rdpos = p.rdcount

end PIPE

/-- `errno` after a read. -/
inductive ReadErrno where
  | enotconn
  | efault
  | epipe
  | eio
  | eagain
  deriving DecidableEq, Repr

/-- What a read leads to: the return value, `errno`, the bytes that are stored, the pipe, and
the messages that have not been read. -/
structure ReadResult where
  rtn : BitVec 32
  errno : Option ReadErrno
  stored : List UInt8
  pipe : PIPE
  queue : List (List UInt8)

/-- `cnt` of `pipe_read`. -/
def PIPE.cnt (p : PIPE) (count : BitVec 32) : BitVec 32 :=
  if p.rdcount - p.rdpos > count then count else p.rdcount - p.rdpos

/-- What `memcpy` copies. -/
def PIPE.copied (p : PIPE) (cnt : BitVec 32) : List UInt8 :=
  readAt p.rdbuffer p.rdpos.toNat cnt.toNat

/-- The read position moves on. -/
def PIPE.advance (p : PIPE) (cnt : BitVec 32) : PIPE := { p with rdpos := p.rdpos + cnt }

/-- The loop of `pipe_read`, where `choices` has what becomes of the reads that it makes; any
behind them has to wait. -/
def pipeReadLoop : List IoChoice → PIPE → List (List UInt8) → BitVec 32 → BitVec 32 →
    List UInt8 → ReadResult
  | choices, p, queue, count, rtn, stored =>
      let cnt := p.cnt count
      let stored := stored ++ p.copied cnt
      let p := p.advance cnt
      let count := count - cnt
      let rtn := rtn + cnt
      if p.rdpos = p.rdcount then
        match choices with
        | [] =>
            { rtn := rtn, errno := none, stored := stored
              pipe := (p.ioRead .incomplete []).2, queue := queue }
        | c :: choices =>
            let (ans, data, queue) := attempt c queue
            let p := (p.ioRead ans data).2
            if count ≠ 0 ∧ p.rdevents &&& pollin ≠ 0 then
              pipeReadLoop choices p queue count rtn stored
            else { rtn := rtn, errno := none, stored := stored, pipe := p, queue := queue }
      else
        -- More is there than was asked for, so `count` is zero.
        { rtn := rtn, errno := none, stored := stored, pipe := p, queue := queue }

/-- A read that fails. -/
def ReadResult.fails (errno : ReadErrno) (p : PIPE) (queue : List (List UInt8)) : ReadResult :=
  { rtn := BitVec.allOnes 32, errno := some errno, stored := [], pipe := p, queue := queue }

/-- `pipe_read` where a read is no longer pending. -/
def pipeReadReady (choices : List IoChoice) (p : PIPE) (queue : List (List UInt8))
    (count : BitVec 32) : ReadResult :=
  if p.rdevents &&& pollin ≠ 0 then pipeReadLoop choices p queue count 0 []
  else if p.rdevents &&& pollhup ≠ 0 then .fails .epipe p queue
  else .fails .eio p queue

/-- `pipe_read`. -/
def pipeRead (choices : List IoChoice) (p : PIPE) (queue : List (List UInt8)) (null : Bool)
    (count : BitVec 32) : ReadResult :=
  if p.handle = 0 ∨ p.listen = true then .fails .enotconn p queue
  else if null = true then .fails .efault p queue
  else if count = 0 then
    { rtn := 0, errno := none, stored := [], pipe := p, queue := queue }
  else if p.rdpending = false then pipeReadReady choices p queue count
  else
    let (ans, data, queue) := attempt (choices.headD .wait) queue
    let (done, p) := p.ioComplete ans data
    if done then pipeReadReady choices.tail p queue count
    else .fails .eagain p queue

/-- The bytes that the reads of the messages would hand over one after another, until one of
them has to wait or fails. -/
def arriving : List IoChoice → List (List UInt8) → Nat
  | [], _ => 0
  | c :: choices, queue =>
      let (ans, data, queue) := attempt c queue
      if ans = .done ∨ ans = .moreData then data.length + arriving choices queue else 0

/-! ### What a read leaves -/

section Reading

variable {p : PIPE} {c : IoChoice} {queue rest : List (List UInt8)} {ans : OverlappedAnswer}
  {data : List UInt8}

/-- The system hands over the bytes that come next, and a message that did not fit fills the
buffer. -/
theorem attempt_spec (h : attempt c queue = (ans, data, rest)) :
    data ++ rest.flatten = queue.flatten ∧ data.length ≤ pipeRecvbuf ∧
      (ans = .moreData → data.length = pipeRecvbuf) ∧
      (ans ≠ .done → ans ≠ .moreData → data = []) := by
  cases c with
  | ready =>
      cases queue with
      | nil =>
          cases h
          simp
      | cons m messages =>
          rw [attempt] at h
          split at h
          case isTrue hFits =>
            cases h
            simp [hFits]
          case isFalse hLong =>
            cases h
            have hFull : (m.take pipeRecvbuf).length = pipeRecvbuf := by
              rw [List.length_take]
              omega
            simp [← List.append_assoc, hFull, -List.length_take]
  | wait | hangup | fault =>
      cases h
      simp

namespace PIPE

theorem length_unread (h : p.Sound) : p.unread.length = p.rdcount.toNat - p.rdpos.toNat := by
  have hCount := h.count
  have hPos := h.pos
  apply length_readAt_of_le
  rw [h.length]
  omega

theorem unread_of_spent (h : p.rdpos = p.rdcount) : p.unread = [] := by
  rw [unread, h, Nat.sub_self, readAt_zero]

theorem pollin_and_pollin : pollin &&& pollin ≠ 0 := by decide

theorem unread_filled (hFits : data.length ≤ pipeRecvbuf) :
    (p.filled data data.length).unread = data := by
  have hSmall : data.length < 2 ^ 32 := Nat.lt_of_le_of_lt hFits (by decide)
  have hCount : (BitVec.ofNat 32 data.length).toNat = data.length := by
    rw [BitVec.toNat_ofNat, Nat.mod_eq_of_lt hSmall]
  show readAt (writeAt p.rdbuffer 0 data) 0 ((BitVec.ofNat 32 data.length).toNat - 0) = data
  rw [hCount]
  exact readAt_writeAt (Nat.zero_le _)

theorem sound_filled (h : p.rdbuffer.length = pipeRecvbuf) (hFits : data.length ≤ pipeRecvbuf) :
    (p.filled data data.length).Sound where
  length := (length_writeAt (by omega)).trans h
  pos := Nat.zero_le _
  count := by
    show (BitVec.ofNat 32 data.length).toNat ≤ pipeRecvbuf
    rw [BitVec.toNat_ofNat]
    exact Nat.le_trans (Nat.mod_le _ _) hFits
  spent := by
    rintro (hPending | hEvents)
    · cases hPending
    · exact absurd hEvents pollin_and_pollin

/-- A pipe that has been read to its end stays so whatever else is noted about it. -/
theorem Sound.noted (h : p.Sound) (hSpent : p.rdpos = p.rdcount) (pending : Bool)
    (events : BitVec 16) : { p with rdpending := pending, rdevents := events }.Sound where
  length := h.length
  pos := h.pos
  count := h.count
  spent := fun _ => hSpent

/-- A read of the messages leaves in the buffer what the system has handed over. -/
theorem Sound.ioRead (h : p.Sound) (hSpent : p.rdpos = p.rdcount)
    (hAttempt : attempt c queue = (ans, data, rest)) :
    (p.ioRead ans data).2.Sound ∧ (p.ioRead ans data).2.unread = data := by
  obtain ⟨-, hFits, hMore, hNone⟩ := attempt_spec hAttempt
  cases ans with
  | done => exact ⟨sound_filled h.length hFits, unread_filled hFits⟩
  | moreData =>
      rw [PIPE.ioRead, ← hMore rfl]
      exact ⟨sound_filled h.length hFits, unread_filled hFits⟩
  | incomplete | ended | failed =>
      rw [hNone nofun nofun]
      exact ⟨h.noted hSpent _ _, unread_of_spent hSpent⟩

theorem Sound.ioComplete (h : p.Sound) (hPending : p.rdpending = true)
    (hAttempt : attempt c queue = (ans, data, rest)) :
    (p.ioComplete ans data).2.Sound ∧ (p.ioComplete ans data).2.unread = data := by
  have hSpent := h.spent (.inl hPending)
  obtain ⟨-, hFits, -, hNone⟩ := attempt_spec hAttempt
  cases ans with
  | done | moreData => exact ⟨sound_filled h.length hFits, unread_filled hFits⟩
  | incomplete | ended | failed =>
      rw [hNone nofun nofun]
      exact ⟨h.noted hSpent _ _, unread_of_spent hSpent⟩

section Taking

theorem toNat_cnt (h : p.Sound) (count : BitVec 32) :
    (p.cnt count).toNat = min count.toNat p.unread.length := by
  have hAvail : (p.rdcount - p.rdpos).toNat = p.unread.length := by
    rw [length_unread h, BitVec.toNat_sub_of_le h.pos]
  rw [cnt, ← hAvail]
  split
  case isTrue hMore => exact (Nat.min_eq_left (Nat.le_of_lt hMore)).symm
  case isFalse hLess => exact (Nat.min_eq_right (Nat.le_of_not_lt hLess)).symm

/-- What is copied comes next, and the rest of it stays. -/
theorem copied_append_unread (h : p.Sound) (count : BitVec 32) :
    p.copied (p.cnt count) ++ (p.advance (p.cnt count)).unread = p.unread ∧
      (p.copied (p.cnt count)).length = min count.toNat p.unread.length ∧
      (p.advance (p.cnt count)).rdpos.toNat = p.rdpos.toNat + (p.cnt count).toNat := by
  have hCnt := toNat_cnt h count
  have hLen := length_unread h
  have hPos := h.pos
  have hCount := h.count
  have hMoved : (p.rdpos + p.cnt count).toNat = p.rdpos.toNat + (p.cnt count).toNat := by
    rw [BitVec.toNat_add, Nat.mod_eq_of_lt]
    have hSmall : pipeRecvbuf < 2 ^ 32 := by decide
    omega
  constructor
  · show readAt p.rdbuffer p.rdpos.toNat (p.cnt count).toNat ++
      readAt p.rdbuffer (p.rdpos + p.cnt count).toNat
        (p.rdcount.toNat - (p.rdpos + p.cnt count).toNat) = _
    rw [hMoved, ← readAt_add, unread]
    congr 1
    omega
  · constructor
    · rw [copied, length_readAt_of_le, hCnt]
      rw [h.length]
      omega
    · exact hMoved

end Taking

/-- Data is there exactly when the read has ended with some. -/
theorem pollin_ioRead (p : PIPE) (ans : OverlappedAnswer) (data : List UInt8) :
    (p.ioRead ans data).2.rdevents &&& pollin ≠ 0 ↔ ans = .done ∨ ans = .moreData := by
  cases ans with
  | done | moreData => exact iff_of_true pollin_and_pollin (by simp)
  | incomplete => exact iff_of_false (by simp [PIPE.ioRead]) (by simp)
  | ended | failed =>
      exact iff_of_false (by simp [PIPE.ioRead, pollhup, pollerr, pollin, pollrdnorm, pollrdband])
        (by simp)

theorem pollin_ioComplete (p : PIPE) (ans : OverlappedAnswer) (data : List UInt8) :
    (p.ioComplete ans data).2.rdevents &&& pollin ≠ 0 ↔ ans = .done ∨ ans = .moreData := by
  cases ans with
  | done | moreData => exact iff_of_true pollin_and_pollin (by simp)
  | incomplete => exact iff_of_false (by simp [PIPE.ioComplete]) (by simp)
  | ended | failed =>
      exact iff_of_false (by simp [PIPE.ioComplete, pollhup, pollerr, pollin, pollrdnorm,
        pollrdband]) (by simp)

/-- A read of the messages is completed unless it still has to wait. -/
theorem fst_ioComplete (p : PIPE) (ans : OverlappedAnswer) (data : List UInt8) :
    (p.ioComplete ans data).1 = true ↔ ans ≠ .incomplete := by
  cases ans <;> simp [PIPE.ioComplete]

theorem rdpending_ioComplete (hDone : ans ≠ .incomplete) :
    (p.ioComplete ans data).2.rdpending = false := by
  cases ans with
  | incomplete => exact absurd rfl hDone
  | done | moreData | ended | failed => rfl

theorem rdpending_ioRead (hData : (p.ioRead ans data).2.rdevents &&& pollin ≠ 0) :
    (p.ioRead ans data).2.rdpending = false := by
  cases ans with
  | incomplete => exact absurd (BitVec.zero_and) hData
  | done | moreData | ended | failed => rfl

/-- A pipe with data stays one when some of it is taken. -/
theorem Sound.advance (h : p.Sound) (hReady : p.rdpending = false)
    (hData : p.rdevents &&& pollin ≠ 0) (count : BitVec 32) :
    (p.advance (p.cnt count)).Sound where
  length := h.length
  pos := by
    obtain ⟨-, -, hMoved⟩ := copied_append_unread h count
    have hCnt := toNat_cnt h count
    have hLen := length_unread h
    have hPos := h.pos
    show (p.advance (p.cnt count)).rdpos.toNat ≤ p.rdcount.toNat
    omega
  count := h.count
  spent := by
    rintro (hPending | hEvents)
    · exact absurd (hReady.symm.trans hPending) Bool.false_ne_true
    · exact absurd hEvents hData

end PIPE

namespace ReadResult

/-- A read that had stored `stored` and counted `rtn` stores `new` behind it, where `ahead` was
still to be read. -/
structure Adds (r : ReadResult) (stored : List UInt8) (rtn : BitVec 32)
    (new ahead : List UInt8) : Prop where
  stored : r.stored = stored ++ new
  rtn : r.rtn = rtn + BitVec.ofNat 32 new.length
  ahead : new ++ (r.pipe.unread ++ r.queue.flatten) = ahead
  sound : r.pipe.Sound

theorem Adds.cons {r : ReadResult} {stored first new ahead : List UInt8} {rtn cnt : BitVec 32}
    (h : r.Adds (stored ++ first) (rtn + cnt) new ahead) (hCnt : cnt.toNat = first.length) :
    r.Adds stored rtn (first ++ new) (first ++ ahead) where
  stored := by rw [h.stored, List.append_assoc]
  rtn := by
    have hFirst : cnt = BitVec.ofNat 32 first.length := by rw [← hCnt, BitVec.ofNat_toNat]; simp
    rw [h.rtn, List.length_append, BitVec.ofNat_add, ← hFirst, BitVec.add_assoc]
  ahead := by rw [List.append_assoc, h.ahead]
  sound := h.sound

/-- A read that stops. -/
theorem Adds.stop {r : ReadResult} (hSound : r.pipe.Sound) :
    r.Adds r.stored r.rtn [] (r.pipe.unread ++ r.queue.flatten) where
  stored := by rw [List.append_nil]
  rtn := by simp
  ahead := rfl
  sound := hSound

end ReadResult

section Loop

variable {r : ReadResult} {stored new : List UInt8} {rtn count : BitVec 32}

/-- One pass of the loop and what comes behind it. -/
theorem ReadResult.Adds.pass (h : p.Sound)
    (hRest : r.Adds (stored ++ p.copied (p.cnt count)) (rtn + p.cnt count) new
      ((p.advance (p.cnt count)).unread ++ queue.flatten)) :
    r.Adds stored rtn (p.copied (p.cnt count) ++ new) (p.unread ++ queue.flatten) := by
  obtain ⟨hCopied, hLen, -⟩ := PIPE.copied_append_unread h count
  rw [← hCopied, List.append_assoc]
  exact hRest.cons (by rw [PIPE.toNat_cnt h _, hLen])

/-- A read that stops when the buffer has been read and the next read of the messages has been
made. -/
theorem ReadResult.Adds.rearmed (h : p.Sound) (hSpent : p.rdpos = p.rdcount)
    (hAttempt : attempt c queue = (ans, data, rest)) :
    ReadResult.Adds
      { rtn := rtn, errno := none, stored := stored, pipe := (p.ioRead ans data).2, queue := rest }
      stored rtn [] (p.unread ++ queue.flatten) := by
  rw [PIPE.unread_of_spent hSpent]
  obtain ⟨hSound, hUnread⟩ := h.ioRead hSpent hAttempt
  obtain ⟨hFlatten, -⟩ := attempt_spec hAttempt
  have hStop := ReadResult.Adds.stop (r := { rtn := rtn, errno := none, stored := stored
                                             pipe := (p.ioRead ans data).2, queue := rest }) hSound
  rwa [hUnread, hFlatten, ← List.nil_append queue.flatten] at hStop

/-- The loop of `pipe_read` stores what comes next, as much as was asked for and can be had
without waiting, and counts it. -/
theorem pipeReadLoop_spec (choices : List IoChoice) : ∀ (stored : List UInt8) (rtn : BitVec 32)
    (p : PIPE) (queue : List (List UInt8)) (count : BitVec 32), p.Sound →
      p.rdpending = false → p.rdevents &&& pollin ≠ 0 →
      ∃ new, (pipeReadLoop choices p queue count rtn stored).Adds stored rtn new
          (p.unread ++ queue.flatten) ∧
        new.length = min count.toNat (p.unread.length + arriving choices queue) := by
  induction choices with
  | nil =>
      intro stored rtn p queue count hSound hReady hData
      obtain ⟨-, hLen, -⟩ := PIPE.copied_append_unread hSound count
      have hAdvance := hSound.advance hReady hData count
      refine ⟨p.copied (p.cnt count) ++ [], .pass hSound ?_, by rw [List.append_nil, hLen]; rfl⟩
      rw [pipeReadLoop]
      split
      case isTrue hSpent => exact .rearmed hAdvance hSpent (c := .wait) rfl
      case isFalse hMore => exact .stop hAdvance
  | cons c choices ih =>
      intro stored rtn p queue count hSound hReady hData
      obtain ⟨-, hLen, hMoved⟩ := PIPE.copied_append_unread hSound count
      have hAdvance := hSound.advance hReady hData count
      have hUnread := PIPE.length_unread hSound
      have hCnt := PIPE.toNat_cnt hSound count
      rw [pipeReadLoop]
      split
      case isFalse hMore =>
        refine ⟨p.copied (p.cnt count) ++ [], .pass hSound (.stop hAdvance), ?_⟩
        have hBehind : p.rdpos.toNat + (p.cnt count).toNat ≠ p.rdcount.toNat := by
          intro hEq
          exact hMore (BitVec.eq_of_toNat_eq (hMoved.trans hEq))
        have hPos := hSound.pos
        rw [List.append_nil, hLen]
        omega
      case isTrue hSpent =>
        have hAll : (p.cnt count).toNat = p.unread.length := by
          have hEnd := congrArg BitVec.toNat hSpent
          rw [hMoved] at hEnd
          change _ = p.rdcount.toNat at hEnd
          omega
        rcases hAttempt : attempt c queue with ⟨ans, data, rest⟩
        have hData' := PIPE.pollin_ioRead (p.advance (p.cnt count)) ans data
        obtain ⟨hSound', hUnread'⟩ := hAdvance.ioRead hSpent hAttempt
        have hLess : (count - p.cnt count).toNat = count.toNat - (p.cnt count).toNat := by
          apply BitVec.toNat_sub_of_le
          rw [BitVec.le_def]
          omega
        simp only [arriving, hAttempt, ← hData']
        split
        case isTrue hGo =>
          obtain ⟨hCount, hMore⟩ := hGo
          obtain ⟨new, hAdds, hNew⟩ := ih (stored ++ p.copied (p.cnt count)) (rtn + p.cnt count) _
            rest (count - p.cnt count) hSound' (PIPE.rdpending_ioRead hMore) hMore
          refine ⟨p.copied (p.cnt count) ++ new, .pass hSound ?_, ?_⟩
          · rw [PIPE.unread_of_spent hSpent, List.nil_append, ← (attempt_spec hAttempt).1]
            rwa [hUnread'] at hAdds
          · rw [List.length_append, hLen, hNew, hUnread', if_pos hMore]
            omega
        case isFalse hStop =>
          refine ⟨p.copied (p.cnt count) ++ [], .pass hSound (.rearmed hAdvance hSpent hAttempt),
            ?_⟩
          rw [List.append_nil, hLen]
          split
          case isTrue hMore =>
            have hCount : count - p.cnt count = 0 := by
              by_contra hCount
              exact hStop ⟨hCount, hMore⟩
            rw [hCount] at hLess
            change 0 = _ at hLess
            omega
          case isFalse hNone => rw [Nat.add_zero]

end Loop

end Reading

end OncRpc.Win32
