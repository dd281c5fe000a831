import Mathlib.Algebra.BigOperators.Group.List.Basic
import Mathlib.Tactic.Positivity
import Mathlib.Tactic.Ring
import OncRpc.Clnt.Broadcast

/-! The rounds of `rpc_broadcast_exp`: the requests are sent again whenever a wait has ended, and
every wait is twice as long as the one before. -/
namespace OncRpc

/-- `struct timespec`. -/
structure Timespec where
  tvSec : Int
  tvNsec : Int
  deriving DecidableEq, Repr

/-- What `pollts` and `recvfrom` say about one of the transports. -/
inductive BcastFd where
  /-- `revents` is 0. -/
  | quiet
  /-- `POLLNVAL`: its `fd` becomes negative. -/
  | invalid
  /-- `recvfrom` fails. -/
  | unreceived
  /-- What is in `inbuf`, and what `done` is if it is decoded. -/
  | datagram (inbuf : List UInt8) (done : Bool)
  deriving DecidableEq, Repr

/-- What `pollts` returns. -/
inductive BcastPoll where
  | timedOut
  | error
  | ready (fdlist : List BcastFd)
  deriving DecidableEq, Repr

/-- Where `rpc_broadcast_exp` goes on. -/
inductive BcastNext where
  | nextRound
  | recvAgain
  | doneBroad
  deriving DecidableEq, Repr

/-- The loop over the transports. A datagram that answers neither request is dropped. -/
def recvFrom (xids : BcastXids) : List BcastFd → BcastNext
  | [] => .nextRound
  | .datagram inbuf done :: rest =>
      if 4 ≤ inbuf.length ∧ (inbuf.take 4 = xids.rpcb ∨ xids.pmap = some (inbuf.take 4)) then
        if done then .doneBroad else .recvAgain
      else recvFrom xids rest
  | _ :: rest => recvFrom xids rest

/-- What follows a call of `pollts`. -/
def afterPoll (xids : BcastXids) : BcastPoll → BcastNext
  | .timedOut => .nextRound
  | .error => .recvAgain
  | .ready fdlist => recvFrom xids fdlist

/-- The loop waits for replies, or has ended, or one of the replies was the last. -/
inductive BcastState where
  | waiting
  | ended
  | answered
  deriving DecidableEq, Repr

/-- The loop of `rpc_broadcast_exp`, with `msec` of each round that was begun. -/
structure BcastLoop where
  msec : BitVec 32
  rounds : List (BitVec 32)
  state : BcastState
  deriving DecidableEq, Repr

namespace BcastLoop

/-- `ts` in a round. -/
def waitFor (msec : BitVec 32) : Timespec where
  tvSec := msec.toInt.tdiv 1000
  tvNsec := msec.toInt.tmod 1000 * 1000000

/-- The condition of the loop, and the beginning of a round. -/
def begin (waittime msec : BitVec 32) (rounds : List (BitVec 32)) : BcastLoop :=
  if msec.toInt ≤ waittime.toInt then { msec, rounds := rounds ++ [msec], state := .waiting }
  else { msec, rounds, state := .ended }

/-- A call of `pollts`. -/
def poll (xids : BcastXids) (waittime : BitVec 32) (s : BcastLoop) (p : BcastPoll) : BcastLoop :=
  if s.state ≠ .waiting then s
  else
    match afterPoll xids p with
    | .nextRound => begin waittime (s.msec + s.msec) s.rounds
    | .recvAgain => s
    | .doneBroad => { s with state := .answered }

/-- The loop of `rpc_broadcast_exp` when `pollts` returns these one after another. -/
def run (xids : BcastXids) (inittime waittime : BitVec 32) (polls : List BcastPoll) : BcastLoop :=
  polls.foldl (poll xids waittime) (begin waittime inittime [])

/-- The sum of the waits. -/
def total (s : BcastLoop) : Int := (s.rounds.map BitVec.toInt).sum

/-- The numbers of a round are those that are meant. -/
structure InRange (msec : BitVec 32) : Prop where
  doubled : msec.saddOverflow msec = false
  sec : 0 ≤ (waitFor msec).tvSec
  nsec : 0 ≤ (waitFor msec).tvNsec
  scaled : (waitFor msec).tvNsec < 2 ^ 31

/-- Whatever comes, there is an end to the rounds, they take as long as they should, and their
numbers are right. -/
structure RoundsFinite (xids : BcastXids) (inittime waittime : BitVec 32) : Prop where
  finite : ∃ n, ∀ polls, (run xids inittime waittime polls).rounds.length ≤ n ∧
    (n ≤ polls.countP (afterPoll xids · = .nextRound) →
      (run xids inittime waittime polls).state ≠ .waiting)
  total : 0 < inittime.toInt → inittime.toInt ≤ waittime.toInt → ∀ polls,
    (∀ p ∈ polls, afterPoll xids p ≠ .doneBroad) →
      (run xids inittime waittime polls).total < 2 * waittime.toInt ∧
      ((run xids inittime waittime polls).state ≠ .waiting →
        waittime.toInt - inittime.toInt < (run xids inittime waittime polls).total)
  inRange : ∀ polls, ∀ msec ∈ (run xids inittime waittime polls).rounds, InRange msec

variable {xids : BcastXids} {inittime waittime msec : BitVec 32} {a w : Int} {s : BcastLoop}
  {rounds : List (BitVec 32)}

/-- The doublings that the loop comes to are small enough to be doubled. -/
def Small (a w : Int) : Prop := ∀ k : Nat, a * 2 ^ k ≤ w → a * 2 ^ k < 2 ^ 30

theorem toInt_double (hSmall : msec.toInt < 2 ^ 30) (hPos : 0 ≤ msec.toInt) :
    msec.saddOverflow msec = false ∧ (msec + msec).toInt = 2 * msec.toInt := by
  have hFits : msec.saddOverflow msec = false := by
    rw [BitVec.saddOverflow, Bool.or_eq_false_iff, decide_eq_false_iff_not, decide_eq_false_iff_not]
    omega
  refine ⟨hFits, ?_⟩
  rw [BitVec.toInt_add_of_not_saddOverflow (by rw [hFits]; exact Bool.false_ne_true)]
  omega

theorem inRange_of_small (hSmall : msec.toInt < 2 ^ 30) (hPos : 0 ≤ msec.toInt) : InRange msec where
  doubled := (toInt_double hSmall hPos).1
  sec := Int.tdiv_nonneg hPos (by decide)
  nsec := Int.mul_nonneg (Int.tmod_nonneg 1000 hPos) (by decide)
  scaled := by
    have hLt := Int.tmod_lt_of_pos msec.toInt (b := 1000) (by decide)
    show msec.toInt.tmod 1000 * 1000000 < 2 ^ 31
    omega

theorem not_inRange_of_neg (hNeg : msec.toInt < 0) : ¬ InRange msec := by
  rintro ⟨-, hSec, hNsec, -⟩
  have hSplit := Int.mul_tdiv_add_tmod msec.toInt 1000
  change 0 ≤ msec.toInt.tdiv 1000 at hSec
  change 0 ≤ msec.toInt.tmod 1000 * 1000000 at hNsec
  omega

theorem not_inRange_of_large (hLarge : 2 ^ 30 ≤ msec.toInt) : ¬ InRange msec := by
  rintro ⟨hFits, -, -, -⟩
  rw [BitVec.saddOverflow, Bool.or_eq_false_iff, decide_eq_false_iff_not] at hFits
  omega

/-! ### The waits of a loop that gets through -/

/-- Every round has waited twice as long as the one before. -/
structure Doubling (a w : Int) (s : BcastLoop) : Prop where
  total : s.total + a = a * 2 ^ s.rounds.length
  reached : ∀ k < s.rounds.length, a * 2 ^ k ≤ w
  inRange : ∀ msec ∈ s.rounds, InRange msec
  waiting : s.state = .waiting → s.rounds ≠ [] ∧ 2 * s.msec.toInt = a * 2 ^ s.rounds.length
  ended : s.state = .ended → w < a * 2 ^ s.rounds.length

/-- What is to be waited next is the double of the wait before. -/
theorem Doubling.begin (ha : 0 < a) (hSmall : Small a waittime.toInt)
    (hTotal : (rounds.map BitVec.toInt).sum + a = a * 2 ^ rounds.length)
    (hReached : ∀ k < rounds.length, a * 2 ^ k ≤ waittime.toInt)
    (hRange : ∀ msec ∈ rounds, InRange msec) (hNext : msec.toInt = a * 2 ^ rounds.length) :
    Doubling a waittime.toInt (begin waittime msec rounds) := by
  rw [BcastLoop.begin]
  split
  · next hLe =>
      rw [hNext] at hLe
      have hDouble : a * 2 ^ (rounds.length + 1) = 2 * (a * 2 ^ rounds.length) := by ring
      have hPos : 0 ≤ msec.toInt := by
        rw [hNext]
        positivity
      refine ⟨?_, ?_, ?_, fun _ => ⟨by simp, ?_⟩, nofun⟩
      · rw [BcastLoop.total, List.map_append, List.sum_append, List.length_append]
        simp only [List.map_cons, List.map_nil, List.sum_singleton, List.length_singleton]
        rw [hDouble]
        omega
      · intro k hk
        rw [List.length_append, List.length_singleton] at hk
        rcases Nat.lt_succ_iff_lt_or_eq.mp hk with hOld | rfl
        · exact hReached k hOld
        · exact hLe
      · intro m hm
        rcases List.mem_append.mp hm with hOld | hNew
        · exact hRange m hOld
        · obtain rfl := List.mem_singleton.mp hNew
          exact inRange_of_small (hNext ▸ hSmall _ hLe) hPos
      · rw [List.length_append, List.length_singleton, hDouble, hNext]
  · next hGt =>
      rw [hNext] at hGt
      exact ⟨hTotal, hReached, hRange, nofun, fun _ => Int.not_le.mp hGt⟩

theorem Doubling.poll (h : Doubling a waittime.toInt s) (ha : 0 < a)
    (hSmall : Small a waittime.toInt) (p : BcastPoll) :
    Doubling a waittime.toInt (s.poll xids waittime p) := by
  rw [BcastLoop.poll]
  split
  · exact h
  · next hWaiting =>
      obtain ⟨hSome, hMsec⟩ := h.waiting (Decidable.of_not_not hWaiting)
      split
      · -- `msec` is the wait of the round that ends.
        obtain ⟨n, hLen⟩ := Nat.exists_eq_succ_of_ne_zero
          (Nat.ne_of_gt (List.length_pos_iff.mpr hSome))
        have hDouble : a * 2 ^ (n + 1) = 2 * (a * 2 ^ n) := by ring
        have hOld : s.msec.toInt = a * 2 ^ n := by
          rw [hLen, hDouble] at hMsec
          omega
        have hReached : a * 2 ^ n ≤ waittime.toInt := h.reached n (by omega)
        have hPos : 0 ≤ s.msec.toInt := by
          rw [hOld]
          positivity
        have hNext := (toInt_double (hOld ▸ hSmall n hReached) hPos).2
        exact Doubling.begin ha hSmall h.total h.reached h.inRange (hNext.trans hMsec)
      · exact h
      · exact ⟨h.total, h.reached, h.inRange, nofun, nofun⟩

theorem Doubling.run (xids : BcastXids) (hPos : 0 < inittime.toInt)
    (hSmall : Small inittime.toInt waittime.toInt) (polls : List BcastPoll) :
    Doubling inittime.toInt waittime.toInt (run xids inittime waittime polls) := by
  have hFirst : Doubling inittime.toInt waittime.toInt (BcastLoop.begin waittime inittime []) :=
    Doubling.begin hPos hSmall (by simp) nofun nofun (by simp)
  rw [BcastLoop.run]
  exact List.foldlRecOn polls _ hFirst fun s h p _ => h.poll hPos hSmall p

/-- There are not more rounds than there are doublings below the limit. -/
theorem Doubling.length_le (h : Doubling a w s) (ha : 0 < a) (hSmall : Small a w) :
    s.rounds.length ≤ 30 := by
  by_contra hMany
  have hReached := h.reached 30 (by omega)
  have hLt := hSmall 30 hReached
  have hGe : (1 : Int) * 2 ^ 30 ≤ a * 2 ^ 30 := Int.mul_le_mul_of_nonneg_right ha (by decide)
  omega

/-- The waits add up to less than twice the last one. -/
theorem Doubling.total_lt (h : Doubling a w s) (ha : 0 < a) (hLe : a ≤ w) : s.total < 2 * w := by
  have hTotal := h.total
  cases hLen : s.rounds.length with
  | zero =>
      rw [hLen, pow_zero, mul_one] at hTotal
      omega
  | succ n =>
      have hReached := h.reached n (by omega)
      have hDouble : a * 2 ^ (n + 1) = 2 * (a * 2 ^ n) := by ring
      rw [hLen, hDouble] at hTotal
      omega

/-! ### Rounds and waits that ended -/

/-- Every round but the first begins when one has ended. -/
theorem length_rounds_poll (polls : List BcastPoll) (s : BcastLoop)
    (hWaiting : (polls.foldl (poll xids waittime) s).state = .waiting) :
    s.state = .waiting ∧ (polls.foldl (poll xids waittime) s).rounds.length =
      s.rounds.length + polls.countP (afterPoll xids · = .nextRound) := by
  induction polls generalizing s with
  | nil => exact ⟨hWaiting, rfl⟩
  | cons p polls ih =>
      obtain ⟨hNext, hLength⟩ := ih (s.poll xids waittime p) hWaiting
      rw [List.foldl_cons, hLength, List.countP_cons]
      rw [poll] at hNext ⊢
      split at hNext
      · next hOver => exact absurd hNext hOver
      · next hHere =>
          refine ⟨Decidable.of_not_not hHere, ?_⟩
          rw [if_neg hHere]
          split at hNext
          · next hEnds =>
              rw [BcastLoop.begin] at hNext ⊢
              split at hNext
              · next hLe =>
                  rw [if_pos hLe]
                  simp only [hEnds, List.length_append, List.length_singleton, decide_true,
                    if_true]
                  omega
              · cases hNext
          · next hSame =>
              simp only [hSame, reduceCtorEq, decide_false, Bool.false_eq_true, if_false,
                Nat.add_zero]
          · cases hNext

/-- The loop is not left for a reply that the caller declines. -/
theorem state_ne_answered {polls : List BcastPoll}
    (hDeclined : ∀ p ∈ polls, afterPoll xids p ≠ .doneBroad) :
    (run xids inittime waittime polls).state ≠ .answered := by
  have hBegin : ∀ msec rounds, (BcastLoop.begin waittime msec rounds).state ≠ .answered := by
    intro msec rounds
    rw [BcastLoop.begin]
    split <;> nofun
  rw [run]
  refine List.foldlRecOn (motive := fun s : BcastLoop => s.state ≠ .answered) polls _
    (hBegin inittime []) fun s h p hp => ?_
  rw [poll]
  split
  · exact h
  · split
    · exact hBegin _ _
    · exact h
    · next hDone => exact absurd hDone (hDeclined p hp)

variable (xids inittime waittime) in
/-- As long as a doubling is not above the limit, the loop comes to it. -/
theorem reaches (ha : 0 ≤ inittime.toInt) (k : Nat)
    (hLe : inittime.toInt * 2 ^ k ≤ waittime.toInt) :
    (run xids inittime waittime (List.replicate k .timedOut)).state = .waiting ∧
    (run xids inittime waittime (List.replicate k .timedOut)).msec.toInt =
      inittime.toInt * 2 ^ k ∧
    (run xids inittime waittime (List.replicate k .timedOut)).msec ∈
      (run xids inittime waittime (List.replicate k .timedOut)).rounds := by
  induction k with
  | zero =>
      rw [pow_zero, mul_one] at hLe
      rw [run, List.replicate_zero, List.foldl_nil, BcastLoop.begin, if_pos hLe, pow_zero, mul_one]
      exact ⟨rfl, rfl, List.mem_singleton_self _⟩
  | succ k ih =>
      have hDouble : inittime.toInt * 2 ^ (k + 1) = 2 * (inittime.toInt * 2 ^ k) := by ring
      have hPos : 0 ≤ inittime.toInt * 2 ^ k := by positivity
      have hBound := waittime.toInt_lt
      rw [hDouble] at hLe ⊢
      obtain ⟨hWaiting, hMsec, -⟩ := ih (by omega)
      generalize hs : run xids inittime waittime (List.replicate k .timedOut) = s at hWaiting hMsec
      have hNext : (s.msec + s.msec).toInt = 2 * s.msec.toInt :=
        (toInt_double (by omega) (by omega)).2
      have hBegin : run xids inittime waittime (List.replicate (k + 1) .timedOut) =
          { msec := s.msec + s.msec, rounds := s.rounds ++ [s.msec + s.msec]
            state := .waiting } := by
        rw [List.replicate_succ', run, List.foldl_append, ← run, hs]
        simp only [List.foldl_cons, List.foldl_nil, poll, hWaiting, ne_eq, not_true_eq_false,
          if_false, afterPoll, BcastLoop.begin]
        rw [if_pos (by rw [hNext, hMsec]; exact hLe)]
      rw [hBegin]
      exact ⟨rfl, by rw [hNext, hMsec], List.mem_append_right _ (List.mem_singleton_self _)⟩

theorem countP_replicate_timedOut (xids : BcastXids) (n : Nat) :
    (List.replicate n BcastPoll.timedOut).countP (afterPoll xids · = .nextRound) = n := by
  rw [List.countP_replicate, if_pos (by rfl)]

theorem roundsFinite_of_small (hPos : 0 < inittime.toInt)
    (hSmall : Small inittime.toInt waittime.toInt) : RoundsFinite xids inittime waittime where
  finite := by
    refine ⟨30, fun polls => ?_⟩
    have hDoubling := Doubling.run xids hPos hSmall polls
    refine ⟨hDoubling.length_le hPos hSmall, fun hEnded hWaiting => ?_⟩
    obtain ⟨hFirst, hLength⟩ := length_rounds_poll polls _ hWaiting
    have hBegun : (BcastLoop.begin waittime inittime []).rounds.length = 1 := by
      rw [BcastLoop.begin] at hFirst ⊢
      split at hFirst
      · next hLe => rw [if_pos hLe]; rfl
      · cases hFirst
    have hMany : (run xids inittime waittime polls).rounds.length ≤ 30 :=
      hDoubling.length_le hPos hSmall
    rw [run, hLength, hBegun] at hMany
    omega
  total := by
    intro _ hLe polls hDeclined
    have hDoubling := Doubling.run xids hPos hSmall polls
    refine ⟨hDoubling.total_lt hPos hLe, fun hOver => ?_⟩
    have hTotal := hDoubling.total
    cases hState : (run xids inittime waittime polls).state with
    | waiting => exact absurd hState hOver
    | ended =>
        have hAbove := hDoubling.ended hState
        omega
    | answered => exact absurd hState (state_ne_answered hDeclined)
  inRange := fun polls => (Doubling.run xids hPos hSmall polls).inRange

/-- Without a round there is nothing that could go wrong. -/
theorem roundsFinite_of_lt (hLt : waittime.toInt < inittime.toInt) :
    RoundsFinite xids inittime waittime := by
  have hRun : ∀ polls, run xids inittime waittime polls =
      { msec := inittime, rounds := [], state := .ended } := by
    intro polls
    have hBegin : BcastLoop.begin waittime inittime [] =
        { msec := inittime, rounds := [], state := .ended } := if_neg (Int.not_le.mpr hLt)
    rw [run, hBegin]
    exact List.foldlRecOn (motive := fun s => s = _) polls _ rfl fun s h p _ => by rw [h]; rfl
  refine ⟨⟨0, fun polls => ?_⟩, ?_, ?_⟩
  · rw [hRun]
    exact ⟨Nat.le_refl 0, nofun⟩
  · intro _ hLe
    omega
  · intro polls msec hMem
    rw [hRun] at hMem
    cases hMem

/-- The rounds come to an end, take between the wait that is given and twice as long, and compute
with numbers that are in range, exactly if there are none, or the first wait is not 0 or less and
no doubling from 2 ^ 30 on is within the limit. -/
theorem roundsFinite_iff (xids : BcastXids) (inittime waittime : BitVec 32) :
    RoundsFinite xids inittime waittime ↔ waittime.toInt < inittime.toInt ∨
      0 < inittime.toInt ∧ Small inittime.toInt waittime.toInt := by
  constructor
  · intro h
    by_cases hLt : waittime.toInt < inittime.toInt
    · exact Or.inl hLt
    refine Or.inr ?_
    have hLe : inittime.toInt ≤ waittime.toInt := Int.not_lt.mp hLt
    have hNonneg : 0 ≤ inittime.toInt := by
      by_contra hNeg
      refine not_inRange_of_neg (Int.not_le.mp hNeg) (h.inRange [] inittime ?_)
      rw [run, List.foldl_nil, BcastLoop.begin, if_pos hLe]
      exact List.mem_singleton_self _
    have hPos : 0 < inittime.toInt := by
      by_contra hZero
      have hSame : inittime.toInt = 0 := by omega
      obtain ⟨n, hFinite⟩ := h.finite
      have hWithin : inittime.toInt * 2 ^ n ≤ waittime.toInt := by
        rw [hSame, zero_mul]
        omega
      have hCount := countP_replicate_timedOut xids n
      have hWaiting := (reaches xids _ _ hNonneg n hWithin).1
      exact (hFinite (List.replicate n .timedOut)).2 hCount.ge hWaiting
    refine ⟨hPos, fun k hWithin => ?_⟩
    by_contra hLarge
    obtain ⟨-, hMsec, hMem⟩ := reaches xids _ _ hNonneg k hWithin
    exact not_inRange_of_large (hMsec ▸ Int.not_lt.mp hLarge) (h.inRange _ _ hMem)
  · rintro (hLt | ⟨hPos, hSmall⟩)
    · exact roundsFinite_of_lt hLt
    · exact roundsFinite_of_small hPos hSmall

/-- A first wait of 0 stays 0, a negative one is a negative time, and one that is doubled at the
limit overflows. -/
theorem not_roundsFinite :
    let xids : BcastXids := { rpcb := [0, 0, 0, 1], pmap := none }
    ¬ RoundsFinite xids 0 0 ∧ ¬ RoundsFinite xids (-1) 0 ∧
      ¬ RoundsFinite xids 1000 (BitVec.intMax 32) := by
  intro xids
  refine ⟨fun h => ?_, fun h => ?_, fun h => ?_⟩
  · obtain ⟨n, hFinite⟩ := h.finite
    have hCount := countP_replicate_timedOut xids n
    refine (hFinite (List.replicate n .timedOut)).2 hCount.ge (reaches xids _ _ (by decide) n ?_).1
    have hZero : (0 : BitVec 32).toInt = 0 := by decide
    rw [hZero, zero_mul]
  · exact not_inRange_of_neg (by decide) (h.inRange [] (-1) (by decide))
  · have hReached := reaches xids 1000 (BitVec.intMax 32) (by decide) 21 (by decide)
    exact not_inRange_of_large (by rw [hReached.2.1]; decide) (h.inRange _ _ hReached.2.2)

end BcastLoop

end OncRpc
