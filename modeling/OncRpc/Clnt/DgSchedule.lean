import Mathlib.Data.Set.Card
import Mathlib.Order.Interval.Finset.Nat
import OncRpc.Clnt.DgCall

/-! When a datagram call sends its message again, and when it gives up. -/
namespace OncRpc

open Buffer Timeval

/-! ### The schedule -/

/-- The retry intervals, in microseconds. -/
def retryInterval (w : Int) : Nat → Int
  | 0 => w
  | k + 1 =>
      if retryInterval w k < rpcMaxBackoff * 1000000 then 2 * retryInterval w k
      else retryInterval w k

/-- The sum of the first intervals. -/
def dueTime (w : Int) : Nat → Int
  | 0 => 0
  | k + 1 => dueTime w k + retryInterval w k

/-! ### What is seen of a call -/

namespace DgEvent

def isSend : DgEvent → Bool
  | sendto _ _ => true
  | _ => false

def reading : DgEvent → Option Timeval
  | gettimeofday now => some now
  | _ => none

end DgEvent

/-- How often the message has been sent. -/
def timesSent (events : List DgEvent) : Nat := events.countP DgEvent.isSend

/-- The last reading of the clock. -/
def lastReading (starttime : Timeval) (events : List DgEvent) : Timeval :=
  ((events.filterMap DgEvent.reading).getLast?).getD starttime

/-- The microseconds since the start. -/
def waited (starttime : Timeval) (events : List DgEvent) : Int :=
  (lastReading starttime events).micros - starttime.micros

/-- The message is sent to the address, and again when the time for it has come. -/
structure OnSchedule (w starttime : Timeval) (addr message : List UInt8)
    (events : List DgEvent) : Prop where
  same : ∀ a m, .sendto a m ∈ events → a = addr ∧ m = message
  paced : ∀ before a m after, events = before ++ .sendto a m :: after → 0 < timesSent before →
    Over w (dueTime w.micros (timesSent before)) (waited starttime before)
  /-- Every interval but those that are over has its retransmission still to come. -/
  elapsed : ∀ before, before <+: events → ∀ k, 0 < k → k < timesSent before →
    Over w (dueTime w.micros k) (waited starttime before)

section Events

variable {w starttime now : Timeval} {addr message : List UInt8} {events : List DgEvent}
  {e : DgEvent}

theorem timesSent_append (events events' : List DgEvent) :
    timesSent (events ++ events') = timesSent events + timesSent events' :=
  List.countP_append

theorem lastReading_append_of_none (h : e.reading = none) :
    lastReading starttime (events ++ [e]) = lastReading starttime events := by
  simp [lastReading, h]

@[simp] theorem lastReading_append_gettimeofday :
    lastReading starttime (events ++ [.gettimeofday now]) = now := by
  simp [lastReading, DgEvent.reading]

theorem waited_append_of_none (h : e.reading = none) :
    waited starttime (events ++ [e]) = waited starttime events := by
  rw [waited, lastReading_append_of_none h, waited]

@[simp] theorem waited_append_gettimeofday :
    waited starttime (events ++ [.gettimeofday now]) = now.micros - starttime.micros := by
  rw [waited, lastReading_append_gettimeofday]

theorem OnSchedule.nil : OnSchedule w starttime addr message [] where
  same a m h := absurd h List.not_mem_nil
  paced before a m after h := by simp at h
  elapsed before h k _ hk := by
    rw [List.prefix_nil.mp h] at hk
    exact absurd hk (Nat.not_lt_zero k)

/-- One more call, if it is not made too early and the clock does not go back. -/
theorem OnSchedule.snoc (h : OnSchedule w starttime addr message events)
    (hSend : ∀ a m, e = .sendto a m → (a = addr ∧ m = message) ∧
      (0 < timesSent events →
        Over w (dueTime w.micros (timesSent events)) (waited starttime events)))
    (hLater : waited starttime events ≤ waited starttime (events ++ [e])) :
    OnSchedule w starttime addr message (events ++ [e]) where
  same a m hMem := by
    rcases List.mem_append.mp hMem with hOld | hNew
    · exact h.same a m hOld
    · exact (hSend a m (List.mem_singleton.mp hNew).symm).1
  paced before a m after hEq hPos := by
    rcases List.eq_nil_or_concat after with rfl | ⟨after, last, rfl⟩
    · obtain ⟨rfl, hLast⟩ := List.append_inj' hEq rfl
      exact (hSend a m (List.singleton_inj.mp hLast)).2 hPos
    · rw [List.concat_eq_append, ← List.cons_append, ← List.append_assoc] at hEq
      exact h.paced before a m after (List.append_inj' hEq rfl).1 hPos
  elapsed before hPrefix k hPos hLt := by
    rcases List.prefix_concat_iff.mp hPrefix with rfl | hOld
    · by_cases hEarlier : k < timesSent events
      · exact (h.elapsed events List.prefix_rfl k hPos hEarlier).mono hLater
      · rw [timesSent_append] at hLt
        rcases e with ⟨a, m⟩ | ts | datagram | now
        · have hLast : k = timesSent events := by
            have hOne : timesSent [DgEvent.sendto a m] = 1 := rfl
            omega
          rw [hLast] at hPos ⊢
          exact ((hSend a m rfl).2 hPos).mono hLater
        all_goals exact absurd hLt hEarlier
    · exact h.elapsed before hOld k hPos hLt

/-- There is no more than one transmission for each interval that is over, and the first. -/
theorem OnSchedule.timesSent_le (h : OnSchedule w starttime addr message events)
    {before : List DgEvent} (hPrefix : before <+: events) :
    (timesSent before : ℕ∞) ≤
      1 + Set.encard {k | 0 < k ∧ Over w (dueTime w.micros k) (waited starttime before)} := by
  set n := timesSent before with hN
  have hSubset : (Finset.Ioo 0 n : Set ℕ) ⊆
      {k | 0 < k ∧ Over w (dueTime w.micros k) (waited starttime before)} := by
    intro k hk
    obtain ⟨hPos, hLt⟩ := Finset.mem_Ioo.mp (Finset.mem_coe.mp hk)
    exact ⟨hPos, h.elapsed before hPrefix k hPos hLt⟩
  have hCard := Set.encard_le_encard hSubset
  rw [Set.encard_coe_eq_coe_finsetCard, Nat.card_Ioo] at hCard
  calc (n : ℕ∞) ≤ ((1 + (n - 0 - 1) : ℕ) : ℕ∞) := by exact_mod_cast (by omega)
    _ = 1 + ((n - 0 - 1 : ℕ) : ℕ∞) := by push_cast; rfl
    _ ≤ _ := by gcongr

end Events

/-! ### The schedule of the code -/

/-- The schedule of a call that has sent its message again `k` times. -/
structure DgWait.Tracks (w : Timeval) (k : Nat) (st : DgWait) : Prop where
  retransmitTime : Within w st.retransmitTime
  nextSendtime : Within w st.nextSendtime
  /-- An interval of a million microseconds more may still be doubled at the limit. -/
  interval : retryInterval w.micros k = st.retransmitTime.micros ∨
    rpcMaxBackoff * 1000000 ≤ retryInterval w.micros k ∧
      retryInterval w.micros k ≤ st.retransmitTime.micros
  due : dueTime w.micros (k + 1) ≤ st.nextSendtime.micros

section Tracks

variable {w : Timeval} {k : Nat} {st : DgWait}

/-- The interval of the code behind a retransmission. -/
theorem DgWait.Tracks.interval_backOff (h : st.Tracks w k) :
    retryInterval w.micros (k + 1) = st.backOff.retransmitTime.micros ∨
      rpcMaxBackoff * 1000000 ≤ retryInterval w.micros (k + 1) ∧
        retryInterval w.micros (k + 1) ≤ st.backOff.retransmitTime.micros := by
  have hLow := h.retransmitTime.nonneg
  have hHigh := h.retransmitTime.le
  have hMicros : st.retransmitTime.micros =
      st.retransmitTime.tvSec * 1000000 + st.retransmitTime.tvUsec := rfl
  have hInterval := h.interval
  unfold DgWait.backOff
  unfold rpcMaxBackoff at hInterval ⊢
  dsimp only
  rw [retryInterval, rpcMaxBackoff]
  split <;> split
  · rw [micros_timeradd]
    omega
  · omega
  · rw [micros_timeradd]
    omega
  · omega

theorem DgWait.Tracks.backOff (h : st.Tracks w k) : st.backOff.Tracks w (k + 1) where
  retransmitTime := by
    unfold DgWait.backOff
    dsimp only
    split
    · exact h.retransmitTime.timeradd h.retransmitTime
    · exact h.retransmitTime
  nextSendtime := by
    unfold DgWait.backOff
    dsimp only
    split
    · exact h.nextSendtime.timeradd (h.retransmitTime.timeradd h.retransmitTime)
    · exact h.nextSendtime.timeradd h.retransmitTime
  interval := h.interval_backOff
  due := by
    have hNext : st.backOff.nextSendtime.micros =
        st.nextSendtime.micros + st.backOff.retransmitTime.micros := micros_timeradd _ _
    have hDue := h.due
    rw [dueTime, hNext]
    rcases h.interval_backOff with hEq | ⟨-, hLe⟩ <;> omega

end Tracks

/-! ### A round -/

/-- A datagram with the transaction id of the message. -/
def HasXid (message datagram : List UInt8) : Prop :=
  4 ≤ datagram.length ∧ datagram.take 4 = message.take 4

/-- The message stands behind the input buffer. -/
structure HoldsMessage (cu : CuData) (message mem : List UInt8) : Prop where
  outbuf : readAt mem cu.cuInbuf.length message.length = message
  inside : cu.cuInbuf.length ≤ mem.length
  xid : 4 ≤ message.length

/-- What a pass hears before it looks at the clock. -/
inductive DgHears (req : DgCallRequest) (pass : DgPass) (message : List UInt8) :
    List DgEvent → Option DgEnd → Prop where
  | nothing : DgHears req pass message [] none
  | failed : DgHears req pass message [] (some (.returns .cantRecv))
  | foreign {d : List UInt8} (h : ¬ HasXid message d) : DgHears req pass message [.recvfrom d] none
  | answer {d : List UInt8} (h : HasXid message d) :
      DgHears req pass message [.recvfrom d] (some (dgReply req pass d))

section Round

variable {cu : CuData} (req : DgCallRequest) (pass : DgPass) {message mem : List UInt8}

theorem HoldsMessage.start (cu : CuData) (hXid : 4 ≤ message.length) :
    HoldsMessage cu message (cu.cuInbuf ++ message) where
  outbuf := by simp [readAt]
  inside := by simp
  xid := hXid

/-- A datagram does not come to the message. -/
theorem HoldsMessage.writeAt (h : HoldsMessage cu message mem) {d : List UInt8}
    (hLen : d.length ≤ cu.cuInbuf.length) : HoldsMessage cu message (writeAt mem 0 d) where
  outbuf := by
    have hInside := h.inside
    rw [readAt_writeAt_after (by omega) (by omega), h.outbuf]
  inside := by
    have hInside := h.inside
    rw [length_writeAt (by omega)]
    exact hInside
  xid := h.xid

theorem dgReceive_hears (h : HoldsMessage cu message mem) (polled : DgPolled) :
    DgHears req pass message (dgReceive cu req pass polled mem).1
        (dgReceive cu req pass polled mem).2.1 ∧
      HoldsMessage cu message (dgReceive cu req pass polled mem).2.2 := by
  rcases polled with - | (bytes | - | -) | -
  · exact ⟨.nothing, h⟩
  · have hLen : (bytes.take cu.cuInbuf.length).length ≤ cu.cuInbuf.length := by simp
    have hHolds := h.writeAt hLen
    have hStored : ∀ n, n ≤ (bytes.take cu.cuInbuf.length).length →
        readAt (writeAt mem 0 (bytes.take cu.cuInbuf.length)) 0 n =
          (bytes.take cu.cuInbuf.length).take n := by
      intro n hn
      have hAll : readAt (writeAt mem 0 (bytes.take cu.cuInbuf.length)) 0
          (bytes.take cu.cuInbuf.length).length = bytes.take cu.cuInbuf.length :=
        readAt_writeAt (Nat.zero_le _)
      rw [← hAll, readAt_take _ _ _ _ hn, hAll]
    have hXid : readAt (writeAt mem 0 (bytes.take cu.cuInbuf.length)) cu.cuInbuf.length 4 =
        message.take 4 := by
      rw [← readAt_take _ _ _ _ hHolds.xid, hHolds.outbuf]
    refine ⟨?_, hHolds⟩
    unfold dgReceive
    dsimp only
    split
    · rename_i hAnswer
      rw [hStored _ hAnswer.1, hXid] at hAnswer
      rw [hStored _ le_rfl, List.take_length]
      exact .answer hAnswer
    · rename_i hForeign
      refine .foreign fun hAnswer => hForeign ⟨hAnswer.1, ?_⟩
      rw [hStored _ hAnswer.1, hXid, hAnswer.2]
  · exact ⟨.nothing, h⟩
  · exact ⟨.failed, h⟩
  · exact ⟨.failed, h⟩

/-- What is sent in a round is the message. -/
theorem HoldsMessage.dgRound {st : DgWait} (h : HoldsMessage cu message st.mem)
    (timeout starttime : Timeval) (r : DgRound) :
    let s := dgRound cu req timeout starttime message.length pass r st
    HoldsMessage cu message s.2.2.mem ∧ ∀ a m, .sendto a m ∈ s.1 →
      a = readAt cu.cuRaddr 0 cu.cuRlen ∧ m = message := by
  obtain ⟨hHears, hHolds⟩ := dgReceive_hears req pass h r.polled
  unfold OncRpc.dgRound
  dsimp only
  generalize dgReceive cu req pass r.polled st.mem = received at hHears hHolds ⊢
  obtain ⟨heard, ended, mem⟩ := received
  dsimp only at hHears hHolds ⊢
  have hHeard : ∀ a m, DgEvent.sendto a m ∉
      (DgEvent.pollts (st.pollTime timeout) :: heard) := by
    intro a m hMem
    cases hHears <;> simp at hMem
  rcases ended with - | ended
  · unfold dgTick
    dsimp only
    split
    · refine ⟨hHolds, fun a m hMem => ?_⟩
      rcases List.mem_append.mp hMem with hMem | hMem
      · exact absurd hMem (hHeard a m)
      · cases List.mem_singleton.mp hMem
    · split
      · refine ⟨hHolds, fun a m hMem => ?_⟩
        rcases List.mem_append.mp hMem with hMem | hMem
        · exact absurd hMem (hHeard a m)
        · rcases List.mem_cons.mp hMem with hMem | hMem
          · cases hMem
          · obtain ⟨rfl, rfl⟩ := DgEvent.sendto.inj (List.mem_singleton.mp hMem)
            exact ⟨rfl, hHolds.outbuf⟩
      · refine ⟨hHolds, fun a m hMem => ?_⟩
        rcases List.mem_append.mp hMem with hMem | hMem
        · exact absurd hMem (hHeard a m)
        · cases List.mem_singleton.mp hMem
  · exact ⟨hHolds, fun a m hMem => absurd hMem (hHeard a m)⟩

theorem HoldsMessage.dgRounds {st : DgWait} (h : HoldsMessage cu message st.mem)
    (timeout starttime : Timeval) (rounds : List DgRound) :
    let s := dgRounds cu req timeout starttime message.length pass rounds st
    HoldsMessage cu message s.2.2.mem ∧ ∀ a m, .sendto a m ∈ s.1 →
      a = readAt cu.cuRaddr 0 cu.cuRlen ∧ m = message := by
  induction rounds generalizing st with
  | nil => exact ⟨h, fun a m hMem => absurd hMem List.not_mem_nil⟩
  | cons r rounds ih =>
      obtain ⟨hFirst, hSent⟩ := h.dgRound req pass timeout starttime r
      unfold OncRpc.dgRounds
      dsimp only
      split
      · exact ⟨hFirst, hSent⟩
      · obtain ⟨hRest, hSentRest⟩ := ih hFirst
        refine ⟨hRest, fun a m hMem => ?_⟩
        rcases List.mem_append.mp hMem with hMem | hMem
        · exact hSent a m hMem
        · exact hSentRest a m hMem

/-- Every message of a pass is the same. -/
theorem HoldsMessage.dgPass {st : DgWait} (h : HoldsMessage cu message st.mem)
    (timeout starttime : Timeval) :
    let s := dgPass cu req timeout starttime message.length pass st
    HoldsMessage cu message s.2.2.mem ∧ ∀ a m, .sendto a m ∈ s.1 →
      a = readAt cu.cuRaddr 0 cu.cuRlen ∧ m = message := by
  have hFirst : ∀ a m, DgEvent.sendto a m ∈
      (dgSendAgain cu timeout message.length pass.sent st).1 →
      a = readAt cu.cuRaddr 0 cu.cuRlen ∧ m = message := by
    intro a m hMem
    obtain ⟨rfl, rfl⟩ := DgEvent.sendto.inj (List.mem_singleton.mp hMem)
    exact ⟨rfl, h.outbuf⟩
  obtain ⟨hHolds, hSent⟩ := h.dgRounds req pass timeout starttime pass.rounds
  unfold OncRpc.dgPass
  dsimp only
  split
  · exact ⟨h, hFirst⟩
  · refine ⟨hHolds, fun a m hMem => ?_⟩
    rcases List.mem_append.mp hMem with hMem | hMem
    · exact hFirst a m hMem
    · exact hSent a m hMem

end Round

/-! ### A pass -/

/-- A pass that still waits, having sent its message again `k` times. -/
structure Underway (cu : CuData) (w starttime : Timeval) (message : List UInt8) (k : Nat)
    (events : List DgEvent) (st : DgWait) : Prop where
  holds : HoldsMessage cu message st.mem
  tracks : st.Tracks w k
  timesSent : timesSent events = k + 1
  onSchedule : OnSchedule w starttime (readAt cu.cuRaddr 0 cu.cuRlen) message events
  unanswered : ∀ d, .recvfrom d ∈ events → ¬ HasXid message d

/-- What is true of a pass when it has ended, and before. -/
structure PassOutcome (cu : CuData) (req : DgCallRequest) (pass : DgPass)
    (w timeout starttime : Timeval) (message : List UInt8) (events : List DgEvent)
    (ended : Option DgEnd) : Prop where
  onSchedule : OnSchedule w starttime (readAt cu.cuRaddr 0 cu.cuRlen) message events
  timedOut : ended = some (.returns .timedOut) → timeout ≠ zero →
    Over timeout timeout.micros (waited starttime events)
  answered : ∀ before d after, events = before ++ .recvfrom d :: after → HasXid message d →
    after = [] ∧ ended = some (dgReply req pass d)

/-- What is true of it behind a round: it waits on, the clock read, or it has ended. -/
def RoundOutcome (cu : CuData) (req : DgCallRequest) (pass : DgPass)
    (w timeout starttime now : Timeval) (message : List UInt8) (events : List DgEvent)
    (ended : Option DgEnd) (st : DgWait) : Prop :=
  (ended = none ∧ waited starttime events = now.micros - starttime.micros ∧
      ∃ k, Underway cu w starttime message k events st) ∨
    ended ≠ none ∧ PassOutcome cu req pass w timeout starttime message events ended

section Pass

variable {cu : CuData} {req : DgCallRequest} {pass : DgPass} {w timeout starttime now : Timeval}
  {message mem : List UInt8} {events : List DgEvent} {st : DgWait} {k : Nat} {e : DgEvent}
  {ended : Option DgEnd}

/-- A call that sends nothing. -/
theorem Underway.snoc (h : Underway cu w starttime message k events st) (hSend : e.isSend = false)
    (hForeign : ∀ d, e = .recvfrom d → ¬ HasXid message d)
    (hLater : waited starttime events ≤ waited starttime (events ++ [e])) :
    Underway cu w starttime message k (events ++ [e]) st where
  holds := h.holds
  tracks := h.tracks
  timesSent := by
    rw [timesSent_append, h.timesSent]
    simp [OncRpc.timesSent, hSend]
  onSchedule := h.onSchedule.snoc (fun a m hEq => by rw [hEq] at hSend; cases hSend) hLater
  unanswered d hMem := by
    rcases List.mem_append.mp hMem with hOld | hNew
    · exact h.unanswered d hOld
    · exact hForeign d (List.mem_singleton.mp hNew).symm

theorem Underway.tick (h : Underway cu w starttime message k events st)
    (hLater : waited starttime events ≤ now.micros - starttime.micros) :
    Underway cu w starttime message k (events ++ [.gettimeofday now])
      { st with timeWaited := timersub now starttime } :=
  let h' := h.snoc (e := .gettimeofday now) rfl (fun _ hEq => by cases hEq)
    (by rw [waited_append_gettimeofday]; exact hLater)
  { h' with holds := h'.holds, tracks := { h'.tracks with } }

/-- The message is sent again. -/
theorem Underway.retransmit (h : Underway cu w starttime message k events st)
    (hOver : Over w (dueTime w.micros (k + 1)) (waited starttime events)) :
    Underway cu w starttime message (k + 1)
      (events ++ [.sendto (readAt cu.cuRaddr 0 cu.cuRlen) message]) st.backOff where
  holds := h.holds
  tracks := h.tracks.backOff
  timesSent := by
    rw [timesSent_append, h.timesSent]
    rfl
  onSchedule := by
    refine h.onSchedule.snoc (fun a m hEq => ?_) (waited_append_of_none rfl).ge
    cases hEq
    refine ⟨⟨rfl, rfl⟩, fun _ => ?_⟩
    rw [h.timesSent]
    exact hOver
  unanswered d hMem := by
    rcases List.mem_append.mp hMem with hOld | hNew
    · exact h.unanswered d hOld
    · cases List.mem_singleton.mp hNew

theorem Underway.outcome (h : Underway cu w starttime message k events st)
    (hTimed : ended = some (.returns .timedOut) → timeout ≠ zero →
      Over timeout timeout.micros (waited starttime events)) :
    PassOutcome cu req pass w timeout starttime message events ended where
  onSchedule := h.onSchedule
  timedOut := hTimed
  answered before d after hEq hAnswers :=
    absurd hAnswers (h.unanswered d (by rw [hEq]; simp))

theorem dgReply_ne_timedOut (req : DgCallRequest) (pass : DgPass) (d : List UInt8) :
    dgReply req pass d ≠ .returns .timedOut := by
  unfold dgReply
  dsimp only
  split
  · exact nofun
  · split
    · split <;> exact nofun
    · exact nofun
    · exact nofun

/-- The wait ends with a datagram that answers. -/
theorem Underway.answered (h : Underway cu w starttime message k events st) (d : List UInt8) :
    PassOutcome cu req pass w timeout starttime message (events ++ [.recvfrom d])
      (some (dgReply req pass d)) where
  onSchedule := h.onSchedule.snoc (fun _ _ hEq => by cases hEq) (waited_append_of_none rfl).ge
  timedOut hEnded := absurd (Option.some.inj hEnded) (dgReply_ne_timedOut req pass d)
  answered before d' after hEq hAnswers' := by
    rcases List.eq_nil_or_concat after with rfl | ⟨after, last, rfl⟩
    · obtain ⟨-, hLast⟩ := List.append_inj' hEq rfl
      cases List.singleton_inj.mp hLast
      exact ⟨rfl, rfl⟩
    · rw [List.concat_eq_append, ← List.cons_append, ← List.append_assoc] at hEq
      have hOld := (List.append_inj' hEq rfl).1
      exact absurd hAnswers' (h.unanswered d' (by rw [hOld]; simp))

variable (req pass) in
/-- What the rest of the body makes of a pass that waits. -/
theorem Underway.dgTick (h : Underway cu w starttime message k events st) (hWait : timeout ≠ zero)
    (hUsec : timeout.tvUsec ≤ 1000000) (hStart : starttime.Normal) {r : DgRound}
    (hNow : r.now.Normal) (hLater : waited starttime events ≤ r.now.micros - starttime.micros) :
    let s := dgTick cu timeout starttime message.length r st
    RoundOutcome cu req pass w timeout starttime r.now message (events ++ s.1) s.2.1 s.2.2 := by
  have hTicked := h.tick hLater
  have hElapsed : (timersub r.now starttime).micros =
      waited starttime (events ++ [.gettimeofday r.now]) := by
    rw [micros_timersub, waited_append_gettimeofday]
  have hNormal := hNow.timersub hStart
  have hMessage := h.holds.outbuf
  unfold OncRpc.dgTick
  dsimp only
  split
  · rename_i hLess
    refine Or.inr ⟨nofun, hTicked.outcome fun _ _ => ?_⟩
    rw [← hElapsed]
    exact over_of_timerless hUsec hNormal hLess
  · split
    · rename_i hLess
      have hOver : Over w (dueTime w.micros (k + 1))
          (waited starttime (events ++ [.gettimeofday r.now])) := by
        rw [← hElapsed]
        exact h.tracks.nextSendtime.over hNormal hLess h.tracks.due
      have hAgain := hTicked.retransmit hOver
      have hEvents : events ++ .gettimeofday r.now ::
          (dgSendAgain cu timeout message.length r.sent
            ({ st with timeWaited := timersub r.now starttime }.backOff)).1 =
          events ++ [.gettimeofday r.now] ++
            [.sendto (readAt cu.cuRaddr 0 cu.cuRlen) message] := by
        rw [List.append_assoc]
        unfold dgSendAgain DgWait.backOff
        dsimp only
        rw [hMessage]
        rfl
      rw [hEvents]
      by_cases hSent : r.sent = false
      · rw [dgSendAgain, if_pos hSent]
        exact Or.inr ⟨nofun, hAgain.outcome nofun⟩
      · have hZero : ¬ (timeout.tvSec = 0 ∧ timeout.tvUsec = 0) := by
          rintro ⟨hSec, hUsec⟩
          apply hWait
          cases timeout
          cases hSec
          cases hUsec
          rfl
        rw [dgSendAgain, if_neg hSent, if_neg hZero]
        refine Or.inl ⟨rfl, ?_, k + 1, hAgain⟩
        rw [waited_append_of_none rfl, waited_append_gettimeofday]
    · exact Or.inl ⟨rfl, waited_append_gettimeofday, k, hTicked⟩

variable (req pass) in
/-- What one round of the loop makes of it. -/
theorem Underway.dgRound (h : Underway cu w starttime message k events st) (hWait : timeout ≠ zero)
    (hUsec : timeout.tvUsec ≤ 1000000) (hStart : starttime.Normal) {r : DgRound}
    (hNow : r.now.Normal) (hLater : waited starttime events ≤ r.now.micros - starttime.micros) :
    let s := dgRound cu req timeout starttime message.length pass r st
    RoundOutcome cu req pass w timeout starttime r.now message (events ++ s.1) s.2.1 s.2.2 := by
  obtain ⟨hHears, hHolds⟩ := dgReceive_hears req pass h.holds r.polled
  have hPolls := h.snoc (e := .pollts (st.pollTime timeout)) rfl (fun _ hEq => by cases hEq)
    (waited_append_of_none rfl).ge
  have hPolled : waited starttime (events ++ [.pollts (st.pollTime timeout)]) =
      waited starttime events := waited_append_of_none rfl
  unfold OncRpc.dgRound
  dsimp only
  generalize dgReceive cu req pass r.polled st.mem = received at hHears hHolds ⊢
  obtain ⟨heard, ended, mem⟩ := received
  dsimp only at hHears hHolds ⊢
  have hStored : ∀ {events}, Underway cu w starttime message k events st →
      Underway cu w starttime message k events { st with mem := mem } := fun h =>
    { h with holds := hHolds, tracks := { h.tracks with } }
  cases hHears with
  | nothing =>
      have hTick := (hStored hPolls).dgTick req pass hWait hUsec hStart hNow
        (by rw [hPolled]; exact hLater)
      dsimp only at hTick
      rw [List.append_assoc] at hTick
      exact hTick
  | failed => exact Or.inr ⟨nofun, hPolls.outcome nofun⟩
  | @foreign d hForeign =>
      have hHeard := hPolls.snoc (e := .recvfrom d) rfl (fun _ hEq => by cases hEq; exact hForeign)
        (waited_append_of_none rfl).ge
      have hTick := (hStored hHeard).dgTick req pass hWait hUsec hStart hNow
        (by rw [waited_append_of_none rfl, hPolled]; exact hLater)
      dsimp only at hTick
      rw [List.append_assoc, List.append_assoc, ← List.append_assoc [_]] at hTick
      exact hTick
  | @answer d hAnswer =>
      have hEnd : PassOutcome cu req pass w timeout starttime message _ _ :=
        hPolls.answered d
      rw [List.append_assoc] at hEnd
      exact Or.inr ⟨nofun, hEnd⟩

/-- The clock does not go back, and its microseconds are those of a second. -/
structure GoodClock (starttime : Timeval) (rounds : List DgRound) : Prop where
  start : starttime.Normal
  readings : ∀ r ∈ rounds, r.now.Normal
  later : (starttime :: rounds.map DgRound.now).Pairwise fun a b => a.micros ≤ b.micros

variable (req pass) in
/-- The loop, up to its end or as far as it has come. -/
theorem Underway.dgRounds (h : Underway cu w starttime message k events st) (hWait : timeout ≠ zero)
    (hUsec : timeout.tvUsec ≤ 1000000) (hStart : starttime.Normal) {rounds : List DgRound}
    (hNow : ∀ r ∈ rounds, r.now.Normal)
    (hLater : ∀ r ∈ rounds, waited starttime events ≤ r.now.micros - starttime.micros)
    (hOrder : (rounds.map DgRound.now).Pairwise fun a b => a.micros ≤ b.micros) :
    let s := dgRounds cu req timeout starttime message.length pass rounds st
    PassOutcome cu req pass w timeout starttime message (events ++ s.1) s.2.1 := by
  induction rounds generalizing k events st with
  | nil =>
      unfold OncRpc.dgRounds
      dsimp only
      rw [List.append_nil]
      exact h.outcome nofun
  | cons r rounds ih =>
      have hRound := h.dgRound req pass hWait hUsec hStart
        (hNow r List.mem_cons_self) (hLater r List.mem_cons_self)
      rw [List.map_cons, List.pairwise_cons] at hOrder
      unfold OncRpc.dgRounds
      dsimp only at hRound ⊢
      rcases hRound with ⟨hNone, hReading, k', hNext⟩ | ⟨hSome, hOutcome⟩
      · rw [hNone]
        dsimp only
        rw [← List.append_assoc]
        refine ih hNext (fun r' hr' => hNow r' (List.mem_cons_of_mem _ hr')) (fun r' hr' => ?_)
          hOrder.2
        have hLe := hOrder.1 r'.now (List.mem_map_of_mem hr')
        rw [hReading]
        omega
      · obtain ⟨ended, hEnded⟩ := Option.ne_none_iff_exists'.mp hSome
        rw [hEnded] at hOutcome ⊢
        dsimp only
        rw [hEnded]
        exact hOutcome

/-- A pass that sends its message first. -/
theorem dgPass_outcome (cu : CuData) (req : DgCallRequest) (pass : DgPass)
    (hXid : 4 ≤ message.length) (hLow : 0 ≤ cu.cuWait.tvUsec) (hHigh : cu.cuWait.tvUsec ≤ 1000000)
    (hUsec : timeout.tvUsec ≤ 1000000) (hClock : GoodClock starttime pass.rounds) :
    let s := dgPass cu req timeout starttime message.length pass
      { mem := cu.cuInbuf ++ message, timeWaited := zero
        retransmitTime := cu.cuWait, nextSendtime := cu.cuWait }
    PassOutcome cu req pass cu.cuWait timeout starttime message s.1 s.2.1 ∧
      (timeout = zero → s.1 = [.sendto (readAt cu.cuRaddr 0 cu.cuRlen) message]) := by
  have hHolds := HoldsMessage.start cu hXid
  have hFirst : OnSchedule cu.cuWait starttime (readAt cu.cuRaddr 0 cu.cuRlen) message
      [.sendto (readAt cu.cuRaddr 0 cu.cuRlen) message] :=
    OnSchedule.nil.snoc (fun a m hEq => by cases hEq; exact ⟨⟨rfl, rfl⟩, fun h => by cases h⟩)
      (waited_append_of_none rfl).ge
  have hStart : Underway cu cu.cuWait starttime message 0
      [.sendto (readAt cu.cuRaddr 0 cu.cuRlen) message]
      { mem := cu.cuInbuf ++ message, timeWaited := zero
        retransmitTime := cu.cuWait, nextSendtime := cu.cuWait } :=
    { holds := hHolds
      tracks :=
        { retransmitTime := .self hLow hHigh
          nextSendtime := .self hLow hHigh
          interval := Or.inl rfl
          due := by simp [dueTime, retryInterval] }
      timesSent := rfl
      onSchedule := hFirst
      unanswered := fun d hMem => by cases List.mem_singleton.mp hMem }
  unfold dgPass dgSendAgain
  dsimp only
  rw [hHolds.outbuf]
  by_cases hSent : pass.sent = false
  · rw [if_pos hSent]
    exact ⟨hStart.outcome nofun, fun _ => rfl⟩
  · rw [if_neg hSent]
    by_cases hZero : timeout.tvSec = 0 ∧ timeout.tvUsec = 0
    · rw [if_pos hZero]
      refine ⟨hStart.outcome fun _ hWait => absurd ?_ hWait, fun _ => rfl⟩
      obtain ⟨hSec, hUsec⟩ := hZero
      cases timeout
      cases hSec
      cases hUsec
      rfl
    · have hWait : timeout ≠ zero := by
        rintro rfl
        exact hZero ⟨rfl, rfl⟩
      have hLater := List.pairwise_cons.mp hClock.later
      rw [if_neg hZero]
      refine ⟨hStart.dgRounds req pass hWait hUsec hClock.start hClock.readings (fun r hr => ?_)
        hLater.2, fun h => absurd h hWait⟩
      have hLe := hLater.1 r.now (List.mem_map_of_mem hr)
      have hNone : waited starttime
          [.sendto (readAt cu.cuRaddr 0 cu.cuRlen) message] = 0 := by
        simp [waited, lastReading, DgEvent.reading]
      rw [hNone]
      omega

end Pass

/-! ### A call -/

/-- What a call returns that ends so and does not refresh its credentials. -/
def DgEnd.stat : DgEnd → ClntStat
  | returns stat => stat
  | refused why => .replied (.authError why)

/-- A call that has not refreshed its credentials: when it sends its message, when it gives up, and
which datagram it takes. -/
structure KeepsSchedule (order : Word.ByteOrder) (req : DgCallRequest) (pass : DgPass)
    (starttime : Timeval) (cu : CuData) (message : List UInt8) (events : List DgEvent)
    (stat : Option ClntStat) : Prop where
  same : ∀ addr m, .sendto addr m ∈ events →
    addr = readAt cu.cuRaddr 0 cu.cuRlen ∧ m = message
  paced : ∀ before addr m after, events = before ++ .sendto addr m :: after →
    0 < timesSent before →
    Over cu.cuWait (dueTime cu.cuWait.micros (timesSent before)) (waited starttime before)
  spared : ∀ before, before <+: events → (timesSent before : ℕ∞) ≤
    1 + Set.encard {k | 0 < k ∧
      Over cu.cuWait (dueTime cu.cuWait.micros k) (waited starttime before)}
  timedOut : stat = some .timedOut → cu.timeout req ≠ zero →
    Over (cu.timeout req) (cu.timeout req).micros (waited starttime events)
  /-- Nothing is waited for. -/
  noTime : cu.timeout req = zero →
    events <+: [.sendto (readAt cu.cuRaddr 0 cu.cuRlen) message]
  answered : ∀ before d after, events = before ++ .recvfrom d :: after → 4 ≤ d.length →
    Word.ofBytes (d.take 4) = cu.header.sentXid order →
    after = [] ∧ stat = some (dgReply req pass d).stat

/-- The transaction id that was sent, in a datagram. -/
theorem hasXid_of_sentXid {order : Word.ByteOrder} (h : ClntHandle) {body d : List UInt8}
    (hLen : 4 ≤ d.length) (hXid : Word.ofBytes (d.take 4) = h.sentXid order) :
    HasXid ((h.callPass order).mcallc ++ body) d := by
  have hSize := (h.callPass order).size
  have hFront : ((h.callPass order).mcallc ++ body).take 4 =
      readAt (h.callPass order).mcallc 0 4 := by
    rw [List.take_append_of_le_length (by omega)]
    rfl
  refine ⟨hLen, ?_⟩
  calc d.take 4 = Word.toBytes (Word.ofBytes (d.take 4)) :=
        (Word.toBytes_ofBytes (by rw [List.length_take]; omega)).symm
    _ = Word.toBytes (Word.ofBytes (readAt (h.callPass order).mcallc 0 4)) := by rw [hXid]; rfl
    _ = readAt (h.callPass order).mcallc 0 4 :=
        Word.toBytes_ofBytes (length_readAt_of_le (by omega))
    _ = _ := hFront.symm

/-- Without a refresh a call is its first pass. -/
theorem dgCallAgain_of_once {order : Word.ByteOrder} {req : DgCallRequest} {passes : Nat → DgPass}
    (timeout starttime : Timeval) {cu : CuData} (w : DgWait) {body : List UInt8}
    (hOnce : (passes 0).refresh = false) (refreshes : Nat)
    (hBody : dgEncode { cu with header := cu.header.callPass order } req (passes 0) =
      some body) :
    let message := (cu.header.callPass order).mcallc ++ body
    let r := dgPass { cu with header := cu.header.callPass order } req timeout starttime
      message.length (passes 0) { w with mem := cu.cuInbuf ++ message }
    let c := dgCallAgain order req timeout starttime refreshes passes cu w
    c.1 = r.1 ∧ c.2.1 = r.2.1.map DgEnd.stat := by
  rw [dgCallAgain]
  dsimp only
  rw [hBody]
  dsimp only
  generalize dgPass { cu with header := cu.header.callPass order } req timeout starttime
    ((cu.header.callPass order).mcallc ++ body).length (passes 0)
    { w with mem := cu.cuInbuf ++ ((cu.header.callPass order).mcallc ++ body) } = r
  rcases r with ⟨events, - | (stat | why), st⟩
  · exact ⟨rfl, rfl⟩
  · exact ⟨rfl, rfl⟩
  · rcases refreshes with - | refreshes
    · exact ⟨rfl, rfl⟩
    · dsimp only
      rw [hOnce]
      exact ⟨rfl, rfl⟩

/-- A call sends its message again only when the time for that has come, and it gives up only when
its time is over. -/
theorem clntDgCall_keepsSchedule (order : Word.ByteOrder) (req : DgCallRequest)
    (passes : Nat → DgPass) (starttime : Timeval) (cu : CuData)
    (hLow : 0 ≤ cu.cuWait.tvUsec) (hHigh : cu.cuWait.tvUsec ≤ 1000000)
    (hUsec : (cu.timeout req).tvUsec ≤ 1000000)
    (hClock : GoodClock starttime (passes 0).rounds) (hOnce : (passes 0).refresh = false) :
    ∃ message, KeepsSchedule order req (passes 0) starttime cu message
      (clntDgCall order req passes starttime cu).1
      (clntDgCall order req passes starttime cu).2.1 := by
  unfold clntDgCall
  rcases hBody : dgEncode { cu with header := cu.header.callPass order } req (passes 0)
    with - | body
  · rw [dgCallAgain]
    dsimp only
    rw [hBody]
    refine ⟨[], fun addr m hMem => absurd hMem List.not_mem_nil, fun before addr m after hEq => ?_,
      fun before hPrefix => ?_, nofun, fun _ => List.nil_prefix, fun before d after hEq => ?_⟩
    · simp at hEq
    · rw [List.prefix_nil.mp hPrefix]
      simp [timesSent]
    · simp at hEq
  · have hSize := (cu.header.callPass order).size
    have hXid : 4 ≤ ((cu.header.callPass order).mcallc ++ body).length := by
      rw [List.length_append, hSize]
      omega
    obtain ⟨hPass, hZero⟩ :=
      dgPass_outcome { cu with header := cu.header.callPass order } req (passes 0) hXid hLow hHigh
        hUsec hClock
    obtain ⟨hEvents, hStat⟩ := dgCallAgain_of_once (cu.timeout req) starttime
      { mem := [], timeWaited := zero, retransmitTime := cu.cuWait, nextSendtime := cu.cuWait }
      hOnce 2 hBody
    refine ⟨(cu.header.callPass order).mcallc ++ body, ?_⟩
    rw [hEvents, hStat]
    exact
      { same := hPass.onSchedule.same
        paced := hPass.onSchedule.paced
        spared := fun before hPrefix => hPass.onSchedule.timesSent_le hPrefix
        timedOut := fun hTimed hWait => by
          obtain ⟨ended, hEnded, hTimed⟩ := Option.map_eq_some_iff.mp hTimed
          rcases ended with stat | why
          · cases hTimed
            exact hPass.timedOut hEnded hWait
          · cases hTimed
        noTime := fun hNone => by rw [hZero hNone]
        answered := fun before d after hEq hLen hSent => by
          obtain ⟨hLast, hEnded⟩ := hPass.answered before d after hEq
            (hasXid_of_sentXid cu.header hLen hSent)
          rw [hEnded]
          exact ⟨hLast, rfl⟩ }

/-- A client with a retry interval and the defaults. -/
def retryingCu (cuWait : Timeval) : CuData where
  cuFd := 3
  cuCloseit := false
  cuRaddr := []
  cuRlen := 0
  cuWait := cuWait
  cuTotal := ⟨-1, -1⟩
  header := clntCreate .dg 0 100000 2
  cuSendsz := 400
  cuInbuf := [0, 0, 0, 0]

/-- The null procedure. -/
def nullRequest (utimeout : Timeval) : DgCallRequest where
  proc := 0
  args := some []
  results := pure ()
  utimeout := utimeout

def plainPass (rounds : List DgRound) : DgPass where
  marshal := some []
  validate := fun _ => true
  refresh := false
  stale := { rmXid := 0, rmDirection := 0, rpStat := 0
             acptedRply := { arVerf := nullAuth, arStat := 0, arVers := ⟨0, 0⟩ }
             rjctedRply := { rjStat := 0, rjVers := ⟨0, 0⟩, rjWhy := 0 } }
  sent := true
  rounds := rounds

/-- Nothing comes for a fifth of a second, and the answer behind it. -/
theorem clntDgCall_keepsSchedule_retried :
    ∃ message, KeepsSchedule .big (nullRequest ⟨25, 0⟩)
      (plainPass [⟨.nothing, ⟨0, 200000⟩, true⟩,
        ⟨.readable (.datagram [0, 0, 0, 1]), ⟨0, 300000⟩, true⟩])
      zero (retryingCu ⟨0, 100000⟩) message
      (clntDgCall .big (nullRequest ⟨25, 0⟩) (fun _ => plainPass [⟨.nothing, ⟨0, 200000⟩, true⟩,
        ⟨.readable (.datagram [0, 0, 0, 1]), ⟨0, 300000⟩, true⟩])
        zero (retryingCu ⟨0, 100000⟩)).1
      (clntDgCall .big (nullRequest ⟨25, 0⟩) (fun _ => plainPass [⟨.nothing, ⟨0, 200000⟩, true⟩,
        ⟨.readable (.datagram [0, 0, 0, 1]), ⟨0, 300000⟩, true⟩])
        zero (retryingCu ⟨0, 100000⟩)).2.1 :=
  clntDgCall_keepsSchedule .big (nullRequest ⟨25, 0⟩) (fun _ => plainPass _) zero
    (retryingCu ⟨0, 100000⟩) (by decide) (by decide) (by decide)
    ⟨normal_zero, by
      intro r hr
      rcases List.mem_cons.mp hr with rfl | hr
      · exact ⟨by decide, by decide⟩
      · cases List.mem_singleton.mp hr
        exact ⟨by decide, by decide⟩, by decide⟩ rfl

/-- Without time a call gives up before any is over, and an interval of a million microseconds is
over when it is reached. -/
theorem not_clntDgCall_exceeds :
    (¬ ∀ (order : Word.ByteOrder) (req : DgCallRequest) (passes : Nat → DgPass)
        (starttime : Timeval) (cu : CuData), 0 < cu.cuWait.micros →
      GoodClock starttime (passes 0).rounds → (passes 0).refresh = false →
      (clntDgCall order req passes starttime cu).2.1 = some .timedOut →
      (cu.timeout req).micros < waited starttime (clntDgCall order req passes starttime cu).1) ∧
    ¬ ∀ (order : Word.ByteOrder) (req : DgCallRequest) (passes : Nat → DgPass)
        (starttime : Timeval) (cu : CuData), 0 < cu.cuWait.micros →
      GoodClock starttime (passes 0).rounds → (passes 0).refresh = false → ∀ before addr m after,
      (clntDgCall order req passes starttime cu).1 = before ++ .sendto addr m :: after →
      0 < timesSent before →
      dueTime cu.cuWait.micros (timesSent before) < waited starttime before := by
  constructor
  · intro h
    have hLess := h .big (nullRequest zero) (fun _ => plainPass []) zero (retryingCu ⟨0, 100000⟩)
      (by decide) ⟨normal_zero, nofun, by decide⟩ rfl (by decide +kernel)
    revert hLess
    decide +kernel
  · intro h
    have hLess := h .big (nullRequest ⟨25, 0⟩)
      (fun _ => plainPass [⟨.nothing, ⟨1, 0⟩, true⟩]) zero (retryingCu ⟨0, 1000000⟩)
      (by decide) ⟨normal_zero, by
        intro r hr
        cases List.mem_singleton.mp hr
        exact ⟨by decide, by decide⟩, by decide⟩ rfl
      [.sendto [] (((clntCreate .dg 0 100000 2).callPass .big).mcallc ++ [0, 0, 0, 0]),
        .pollts ⟨0, 1000000⟩, .gettimeofday ⟨1, 0⟩]
      [] (((clntCreate .dg 0 100000 2).callPass .big).mcallc ++ [0, 0, 0, 0]) [] (by decide +kernel)
      (by decide)
    revert hLess
    decide

end OncRpc
