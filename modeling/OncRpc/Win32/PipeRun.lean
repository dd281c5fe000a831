import OncRpc.Base.Runs
import OncRpc.Win32.Pipe

/-! A pipe that is read from while its peer writes to it: what the callers of `pipe_read` get. -/
namespace OncRpc.Win32

/-- The bytes that the caller finds in its buffer: none when the return value is negative. -/
def ReadResult.returned (r : ReadResult) : List UInt8 :=
  if r.rtn.toInt < 0 then [] else r.stored.take r.rtn.toNat

/-- A pipe, the messages in it, all that the peer has written, and all that reads have
returned. -/
structure PipeStream where
  pipe : PIPE
  queue : List (List UInt8)
  written : List UInt8
  returned : List UInt8

/-- What happens at a pipe. A poll asks the system about a read that is pending. -/
inductive PipeEvent where
  | write (message : List UInt8)
  | read (null : Bool) (count : BitVec 32) (choices : List IoChoice)
  | poll (c : IoChoice)

namespace PipeStream

/-- A pipe that has been opened, by `pipe_connect` or `pipe_accept`, and whose first read of the
messages has been made. The peer may have written before. -/
def start (addr : SockaddrUn) (handle hEvent : Nat) (type : Int) (blocking : Bool)
    (queue : List (List UInt8)) (c : IoChoice) : PipeStream :=
  let p := { PIPE.calloc with
    addr := addr, handle := handle, hEvent := hEvent, type := type, blocking := blocking }
  let (ans, data, rest) := attempt c queue
  { pipe := (p.ioRead ans data).2, queue := rest, written := queue.flatten, returned := [] }

/-- A read has been made. -/
def after (s : PipeStream) (r : ReadResult) : PipeStream :=
  { s with pipe := r.pipe, queue := r.queue, returned := s.returned ++ r.returned }

/-- One event. -/
def next (s : PipeStream) : PipeEvent → Option PipeStream
  | .write m => some { s with queue := s.queue ++ [m], written := s.written ++ m }
  | .read null count choices => some (s.after (pipeRead choices s.pipe s.queue null count))
  | .poll c =>
      if s.pipe.rdpending = true then
        let (ans, data, rest) := attempt c s.queue
        some { s with pipe := (s.pipe.ioComplete ans data).2, queue := rest }
      else some s

/-- What the peer has written has been returned, in order, or is in the buffer or the system;
the positions lie in the buffer. -/
structure Fifo (s : PipeStream) : Prop where
  order : s.returned ++ (s.pipe.unread ++ s.queue.flatten) = s.written
  pos : s.pipe.rdpos.toNat ≤ s.pipe.rdcount.toNat
  count : s.pipe.rdcount.toNat ≤ s.pipe.rdbuffer.length

/-- It is so before an event and after it. -/
def FifoAt (s : PipeStream) (e : PipeEvent) : Prop :=
  s.Fifo ∧ ∀ s', s.next e = some s' → s'.Fifo

/-- How many bytes a read can have without waiting. -/
def readable (s : PipeStream) (null : Bool) (choices : List IoChoice) : Nat :=
  if s.pipe.handle = 0 ∨ s.pipe.listen = true ∨ null = true ∨
      s.pipe.rdpending = false ∧ s.pipe.rdevents &&& pollin = 0 then 0
  else s.pipe.unread.length + arriving choices s.queue

/-- A read can be answered with the number of its bytes, which is an `int`. -/
def Countable (s : PipeStream) : PipeEvent → Prop
  | .read null count choices => min count.toNat (s.readable null choices) < 2 ^ 31
  | _ => True

end PipeStream

section Read

variable {p : PIPE} {queue : List (List UInt8)} {choices : List IoChoice} {count : BitVec 32}
  {null : Bool}

/-- What a read has stored was ahead, and is returned when it can be counted. -/
structure ReadResult.Right (r : ReadResult) (ahead : List UInt8) (n : Nat) : Prop where
  ahead : r.stored ++ (r.pipe.unread ++ r.queue.flatten) = ahead
  sound : r.pipe.Sound
  length : r.stored.length = n
  returned : r.returned = if n < 2 ^ 31 then r.stored else []

theorem ReadResult.Right.fails (h : p.Sound) (errno : ReadErrno) :
    (ReadResult.fails errno p queue).Right (p.unread ++ queue.flatten) 0 where
  ahead := rfl
  sound := h
  length := rfl
  returned := rfl

theorem ReadResult.Adds.right {r : ReadResult} {new ahead : List UInt8}
    (h : r.Adds [] 0 new ahead) (hCount : new.length < 2 ^ 32) : r.Right ahead new.length where
  ahead := by rw [h.stored, List.nil_append, h.ahead]
  sound := h.sound
  length := by rw [h.stored, List.nil_append]
  returned := by
    have hRtn : r.rtn = BitVec.ofNat 32 new.length := h.rtn.trans (BitVec.zero_add _)
    have hNat : r.rtn.toNat = new.length := by
      rw [hRtn, BitVec.toNat_ofNat, Nat.mod_eq_of_lt hCount]
    rw [ReadResult.returned, BitVec.toInt_eq_toNat_cond, hNat, h.stored, List.nil_append,
      List.take_length]
    by_cases hShort : new.length < 2 ^ 31
    · rw [if_pos hShort, if_neg]
      rw [if_pos (by omega)]
      omega
    · rw [if_neg hShort, if_pos]
      rw [if_neg (by omega)]
      omega

theorem pipeReadReady_spec (choices : List IoChoice) (queue : List (List UInt8))
    (count : BitVec 32) (h : p.Sound) (hReady : p.rdpending = false) :
    (pipeReadReady choices p queue count).Right (p.unread ++ queue.flatten)
      (if p.rdevents &&& pollin = 0 then 0
        else min count.toNat (p.unread.length + arriving choices queue)) := by
  rw [pipeReadReady]
  by_cases hData : p.rdevents &&& pollin = 0
  · rw [if_neg (not_not_intro hData), if_pos hData]
    split
    · exact .fails h _
    · exact .fails h _
  · obtain ⟨new, hAdds, hNew⟩ := pipeReadLoop_spec choices [] 0 p queue count h hReady hData
    rw [if_pos hData, if_neg hData, ← hNew]
    apply hAdds.right
    have hCount := count.isLt
    omega

/-- A read of the pipe that finds a read of the messages pending. -/
theorem pipeReadPending_spec {c : IoChoice} {ans : OverlappedAnswer} {data : List UInt8}
    {rest : List (List UInt8)} (h : p.Sound) (hPending : p.rdpending = true)
    (hAttempt : attempt c queue = (ans, data, rest)) :
    (if (p.ioComplete ans data).1 then pipeReadReady choices (p.ioComplete ans data).2 rest count
      else .fails .eagain (p.ioComplete ans data).2 rest).Right (p.unread ++ queue.flatten)
        (min count.toNat (p.unread.length +
          if ans = .done ∨ ans = .moreData then data.length + arriving choices rest else 0)) := by
  obtain ⟨hSound, hUnread⟩ := h.ioComplete hPending hAttempt
  obtain ⟨hFlatten, -⟩ := attempt_spec hAttempt
  have hNone : p.unread = [] := PIPE.unread_of_spent (h.spent (.inl hPending))
  have hAhead : p.unread ++ queue.flatten = (p.ioComplete ans data).2.unread ++ rest.flatten := by
    rw [hNone, hUnread, hFlatten, List.nil_append]
  rw [hAhead, hNone, List.length_nil, Nat.zero_add]
  by_cases hWait : ans = .incomplete
  · rw [if_neg (by rw [PIPE.fst_ioComplete]; exact not_not_intro hWait), if_neg (by simp [hWait]),
      Nat.min_zero]
    exact .fails hSound _
  · have hRead := pipeReadReady_spec choices rest count hSound
      (PIPE.rdpending_ioComplete hWait)
    rw [if_pos ((PIPE.fst_ioComplete ..).mpr hWait)]
    by_cases hData : ans = .done ∨ ans = .moreData
    · rw [if_pos hData]
      rwa [if_neg ((PIPE.pollin_ioComplete ..).mpr hData),
        show (p.ioComplete ans data).2.unread.length = data.length by rw [hUnread]] at hRead
    · rw [if_neg hData, Nat.min_zero]
      rwa [if_pos (not_not.mp (mt (PIPE.pollin_ioComplete ..).mp hData))] at hRead

/-- A read stores the bytes that come next, as many as were asked for and can be had. -/
theorem pipeRead_spec (s : PipeStream) (null : Bool) (count : BitVec 32)
    (choices : List IoChoice) (h : s.pipe.Sound) :
    (pipeRead choices s.pipe s.queue null count).Right (s.pipe.unread ++ s.queue.flatten)
      (min count.toNat (s.readable null choices)) := by
  have hNone : min count.toNat 0 = 0 := Nat.min_zero _
  rw [pipeRead, PipeStream.readable]
  split
  case isTrue hUnconnected =>
    rw [if_pos (by tauto), hNone]
    exact .fails h _
  case isFalse hConnected =>
    rw [not_or] at hConnected
    split
    case isTrue hNull =>
      rw [if_pos (by tauto), hNone]
      exact .fails h _
    case isFalse hBuffer =>
      split
      case isTrue hZero =>
        rw [hZero]
        change ReadResult.Right _ _ (min 0 _)
        rw [Nat.zero_min]
        exact { ahead := rfl, sound := h, length := rfl, returned := rfl }
      case isFalse hSome =>
        split
        case isTrue hReady =>
          have hRead := pipeReadReady_spec choices s.queue count h hReady
          by_cases hData : s.pipe.rdevents &&& pollin = 0
          · rw [if_pos hData] at hRead
            rwa [if_pos (by tauto), hNone]
          · rw [if_neg hData] at hRead
            rwa [if_neg (by tauto)]
        case isFalse hPending =>
          rw [Bool.not_eq_false] at hPending
          rw [if_neg (by simp [hConnected, hBuffer, hPending])]
          cases choices with
          | nil => exact pipeReadPending_spec (c := .wait) h hPending rfl
          | cons c rest => exact pipeReadPending_spec h hPending rfl

end Read

namespace PipeStream

/-- The pipe is sound, and no byte is lost. -/
def Sound (s : PipeStream) : Prop :=
  s.pipe.Sound ∧ s.returned ++ (s.pipe.unread ++ s.queue.flatten) = s.written

variable {s s' : PipeStream} {e : PipeEvent}

theorem Sound.fifo (h : s.Sound) : s.Fifo where
  order := h.2
  pos := h.1.pos
  count := Nat.le_trans h.1.count (Nat.le_of_eq h.1.length.symm)

theorem sound_start (addr : SockaddrUn) (handle hEvent : Nat) (type : Int) (blocking : Bool)
    (queue : List (List UInt8)) (c : IoChoice) :
    (start addr handle hEvent type blocking queue c).Sound := by
  have hCalloc : PIPE.Sound { PIPE.calloc with
      addr := addr, handle := handle, hEvent := hEvent, type := type, blocking := blocking } :=
    { length := List.length_replicate, pos := Nat.le_refl _, count := Nat.zero_le _
      spent := fun _ => rfl }
  rcases hAttempt : attempt c queue with ⟨ans, data, rest⟩
  obtain ⟨hSound, hUnread⟩ := hCalloc.ioRead rfl hAttempt
  obtain ⟨hFlatten, -⟩ := attempt_spec hAttempt
  rw [start, hAttempt]
  constructor
  · exact hSound
  · rw [hUnread, List.nil_append]
    exact hFlatten

/-- A read loses what it has stored exactly when it cannot count it. -/
theorem Sound.after_spec (h : s.Sound) (null : Bool) (count : BitVec 32)
    (choices : List IoChoice) :
    (s.Countable (.read null count choices) →
      (s.after (pipeRead choices s.pipe s.queue null count)).Sound) ∧
    ((s.after (pipeRead choices s.pipe s.queue null count)).Fifo →
      s.Countable (.read null count choices)) := by
  have hRight := pipeRead_spec s null count choices h.1
  have hAll : s.returned ++ (ReadResult.stored _ ++ (PIPE.unread _ ++ List.flatten _)) =
    s.written := (congrArg (s.returned ++ ·) hRight.ahead).trans h.2
  constructor
  · intro hCount
    refine ⟨hRight.sound, ?_⟩
    show (s.returned ++ ReadResult.returned _) ++ (PIPE.unread _ ++ List.flatten _) = s.written
    change min _ _ < _ at hCount
    rw [hRight.returned, if_pos hCount, List.append_assoc]
    exact hAll
  · intro hFifo
    by_contra hMany
    change ¬ min _ _ < _ at hMany
    have hOrder : (s.returned ++ ReadResult.returned _) ++ (PIPE.unread _ ++ List.flatten _) =
      s.written := hFifo.order
    rw [hRight.returned, if_neg hMany, List.append_nil] at hOrder
    -- What has been stored is not empty, and has been dropped.
    have hStored := List.self_eq_append_left.mp
      (List.append_cancel_left (hOrder.trans hAll.symm))
    have hLength := hRight.length
    rw [hStored, List.length_nil] at hLength
    omega

/-- An event that is counted keeps the pipe sound. -/
theorem Sound.step (h : s.Sound) (hCount : s.Countable e) (hNext : s.next e = some s') :
    s'.Sound := by
  cases e with
  | write m =>
      obtain rfl := Option.some.inj hNext
      refine ⟨h.1, ?_⟩
      show s.returned ++ (s.pipe.unread ++ (s.queue ++ [m]).flatten) = s.written ++ m
      rw [← h.2, List.flatten_concat]
      simp only [List.append_assoc]
  | read null count choices =>
      obtain rfl := Option.some.inj hNext
      exact (h.after_spec null count choices).1 hCount
  | poll c =>
      rw [next] at hNext
      split at hNext
      case isFalse hIdle =>
        obtain rfl := Option.some.inj hNext
        exact h
      case isTrue hPending =>
        rcases hAttempt : attempt c s.queue with ⟨ans, data, rest⟩
        rw [hAttempt] at hNext
        obtain rfl := Option.some.inj hNext
        obtain ⟨hSound, hUnread⟩ := h.1.ioComplete hPending hAttempt
        obtain ⟨hFlatten, -⟩ := attempt_spec hAttempt
        refine ⟨hSound, ?_⟩
        have hNone := PIPE.unread_of_spent (h.1.spent (.inl hPending))
        have hOrder := h.2
        rw [hNone, List.nil_append, ← hFlatten] at hOrder
        rw [hUnread]
        exact hOrder

/-- An event is right exactly when it is counted. -/
theorem Sound.fifoAt_iff (h : s.Sound) (e : PipeEvent) : s.FifoAt e ↔ s.Countable e := by
  constructor
  · rintro ⟨-, hAfter⟩
    cases e with
    | write m | poll c => trivial
    | read null count choices => exact (h.after_spec null count choices).2 (hAfter _ rfl)
  · intro hCount
    exact ⟨h.fifo, fun _ hNext => (h.step hCount hNext).fifo⟩

open Runs in
/-- Reads return what the peer has written, in order and each byte once, exactly as long as no
read has `2 ^ 31` bytes to return. -/
theorem fifo_throughout_iff (addr : SockaddrUn) (handle hEvent : Nat) (type : Int)
    (blocking : Bool) (queue : List (List UInt8)) (c : IoChoice) (events : List PipeEvent) :
    Throughout next FifoAt (start addr handle hEvent type blocking queue c) events ↔
      Throughout next Countable (start addr handle hEvent type blocking queue c) events :=
  throughout_iff Sound (fun _ e h => h.fifoAt_iff e)
    (fun _ _ _ h hCount hNext => h.step hCount hNext) events _ (sound_start ..)

theorem arriving_replicate (n : Nat) {m : List UInt8} (hFits : m.length ≤ pipeRecvbuf) :
    arriving (List.replicate n .ready) (List.replicate n m) = n * m.length := by
  induction n with
  | zero => rw [Nat.zero_mul]; rfl
  | succ n ih =>
      rw [List.replicate_succ, List.replicate_succ, arriving, attempt, if_pos hFits]
      simp only [true_or, if_true]
      rw [ih, Nat.succ_mul, Nat.add_comm]

/-- A read of a pipe whose first read of the messages is pending. -/
theorem readable_start_wait (addr : SockaddrUn) {handle : Nat} (hOpen : handle ≠ 0)
    (hEvent : Nat) (type : Int) (blocking : Bool) (queue : List (List UInt8))
    (choices : List IoChoice) :
    (start addr handle hEvent type blocking queue .wait).readable false choices =
      arriving choices queue := by
  have hNone : (start addr handle hEvent type blocking queue .wait).pipe.unread = [] := rfl
  rw [readable, hNone, if_neg]
  · exact Nat.zero_add _
  · simp [start, attempt, PIPE.ioRead, PIPE.calloc, hOpen]

/-- The peer has written `2 ^ 17` messages of `2 ^ 14` bytes, and a read asks for all of them: it
returns a negative number. -/
theorem not_fifo_throughout :
    ¬ Runs.Throughout next FifoAt
      (start { sunFamily := 1, sunLen := 8 } 1 1 1 true
        (List.replicate (2 ^ 17) (List.replicate (2 ^ 14) 7)) .wait)
      [.read false (BitVec.ofNat 32 (2 ^ 31)) (List.replicate (2 ^ 17) .ready)] := by
  rintro ⟨hRight, -⟩
  have hCount := ((sound_start ..).fifoAt_iff _).mp hRight
  have hMessage : (List.replicate (2 ^ 14) (7 : UInt8)).length = 2 ^ 14 := List.length_replicate
  change min (BitVec.toNat (BitVec.ofNat 32 (2 ^ 31))) (readable _ _ _) < _ at hCount
  rw [readable_start_wait _ Nat.one_ne_zero, arriving_replicate _ (by rw [hMessage]; decide),
    hMessage] at hCount
  exact absurd hCount (by decide)

end PipeStream

end OncRpc.Win32
