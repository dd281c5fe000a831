import OncRpc.Rpc.ReplyMsg
import OncRpc.Rpc.RpcbProt
import OncRpc.Rpcbind.ForwardTable

/-! `handle_reply`: the replies to forwarded calls, and which slots they release. -/
namespace OncRpc

open XdrMem

/-- What `handle_reply` sends to the caller of a slot: an error, or the results with the
address of the service. -/
inductive ForwardReply where
  | systemerr (callerAddr : Option (List UInt8)) (callerXid : BitVec 32)
  | results (callerAddr : Option (List UInt8)) (callerXid : BitVec 32) (uaddr : Option CString)
      (localvers : BitVec 32) (args : List UInt8)
  deriving DecidableEq, Repr

/-- To whom it is sent, and under which xid. -/
def ForwardReply.addressee : ForwardReply → Option (List UInt8) × BitVec 32
  | systemerr callerAddr callerXid => (callerAddr, callerXid)
  | results callerAddr callerXid _ _ _ => (callerAddr, callerXid)

namespace Forwarding

/-- A handle over a datagram. -/
def replyXdrs (buffer : List UInt8) : XdrMem := xdrmemCreate buffer buffer.length true

/-- What the stack holds where `reply_msg` stands, before a datagram is decoded into it. -/
def replyInit (stack : ReplyMsg) : ReplyMsg :=
  { stack with acptedRply := { stack.acptedRply with arVerf := nullAuth } }

/-- `reply_msg.rm_xid` at the end: `xdr_replymsg` sets it from the first word, if there is
one. -/
def rmXid (stack : ReplyMsg) (received : Option (List UInt8)) : BitVec 32 :=
  match received with
  | none => stack.rmXid
  | some buffer => (((xdrUInt32T .decode stack.rmXid).run (replyXdrs buffer)).1).getD stack.rmXid

/-- `free_slot_by_xid` unless the xid is 0. -/
def freeXid (xid : BitVec 32) (st : Forwarding) : Forwarding :=
  if xid = 0 then st else st.freeSlotByXid xid

/-- `handle_reply` before its label `done`. -/
def answerReply (stack : ReplyMsg) (buffer : List UInt8) (st : Forwarding) : Option ForwardReply :=
  match (xdrReplymsg (fun _ => pure ()) .decode (replyInit stack)).run (replyXdrs buffer) with
  | (none, _) => none
  | (some msg, xdrs) =>
      match st.forwardFind msg.rmXid with
      | none => none
      | some i =>
          let fi := st.finfo i
          match seterrReply msg with
          | .success =>
              some (.results fi.callerAddr fi.callerXid fi.uaddr fi.versnum
                (buffer.drop (xdrmemGetpos xdrs)))
          | _ =>
              if fi.replyType = rpcbprocIndirect then some (.systemerr fi.callerAddr fi.callerXid)
              else none

/-- `handle_reply`. Nothing is received when its buffer cannot be allocated or `recvfrom`
fails. -/
def handleReply (stack : ReplyMsg) (received : Option (List UInt8)) (st : Forwarding) :
    Option ForwardReply × Forwarding :=
  (received.bind fun buffer => answerReply stack buffer st, st.freeXid (rmXid stack received))

/-- The part of `rpcbproc_callit_com` that enters a call and sends it, or has it released
when it cannot be sent. -/
def forwardCallit (call : ForwardCall) (timeNow timeDup : Int) (dup sent : Bool)
    (st : Forwarding) : RegisterAnswer × Forwarding :=
  match st.forwardRegister call timeNow timeDup dup with
  | (.registered callxid, st) =>
      (.registered callxid, if sent then st else st.freeXid callxid)
  | (answer, st) => (answer, st)

/-- What happens to the table: a call is to be forwarded, or something arrives on a
descriptor for forwarding. -/
inductive ForwardEvent where
  | callit (call : ForwardCall) (timeNow timeDup : Int) (dup sent : Bool)
  | reply (stack : ReplyMsg) (received : Option (List UInt8))

/-- The table behind an event. -/
def happen (st : Forwarding) : ForwardEvent → Forwarding
  | .callit call timeNow timeDup dup sent => (st.forwardCallit call timeNow timeDup dup sent).2
  | .reply stack received => (st.handleReply stack received).2

/-- The xid at the front of a message. -/
def messageXid (buffer : List UInt8) : Option (BitVec 32) :=
  if 4 ≤ buffer.length then some (Word.ofBytes (buffer.take 4)) else none

/-- A slot still holds its call, which may have been given a new time. -/
def Holds (fi fi' : Finfo) : Prop := fi'.active ∧ fi' = { fi with time := fi'.time }

/-- What a slot may be released for: the reply to its call, that it has been waited for long
enough, or that it is the oldest of a full table. -/
inductive MayRelease (st : Forwarding) (i : Fin nforward) : ForwardEvent → Prop
  | replied {stack : ReplyMsg} {buffer : List UInt8}
      (hXid : messageXid buffer = some (st.finfo i).forwardXid) :
      MayRelease st i (.reply stack (some buffer))
  | expired {call : ForwardCall} {timeNow timeDup : Int} {dup sent : Bool}
      (hTime : timeNow - (st.finfo i).time > maxtimeOff) :
      MayRelease st i (.callit call timeNow timeDup dup sent)
  | evicted {call : ForwardCall} {timeNow timeDup : Int} {dup sent : Bool}
      (hFull : ∀ k, (st.finfo k).active) (hOldest : ∀ k, (st.finfo i).time ≤ (st.finfo k).time) :
      MayRelease st i (.callit call timeNow timeDup dup sent)

/-- An event releases no active slot but for one of these reasons, a call that is entered
stays in its slot unless it cannot be sent, and a reply is sent to the caller of the slot that
has its xid. -/
structure Lawful (st : Forwarding) (e : ForwardEvent) : Prop where
  released : ∀ i, (st.finfo i).active →
    Holds (st.finfo i) ((st.happen e).finfo i) ∨ MayRelease st i e
  entered : ∀ call timeNow timeDup dup callxid, e = .callit call timeNow timeDup dup true →
    (st.forwardCallit call timeNow timeDup dup true).1 = .registered callxid →
    (st.happen e).forwardFind callxid = some (slotOf callxid) ∧
      (st.happen e).finfo (slotOf callxid) = Forwarding.entered call timeNow callxid
  answered : ∀ stack received out, e = .reply stack received →
    (st.handleReply stack received).1 = some out →
    ∃ buffer i, received = some buffer ∧ (st.finfo i).active ∧
      messageXid buffer = some (st.finfo i).forwardXid ∧
      out.addressee = ((st.finfo i).callerAddr, (st.finfo i).callerXid)

/-- A reply leaves the xid 0, or one whose slot is not active, or the one of its message,
which is the one of the slot. -/
def Ok (st : Forwarding) : ForwardEvent → Prop
  | .callit .. => True
  | .reply stack received =>
      rmXid stack received = 0 ∨ (st.finfo (slotOf (rmXid stack received))).active = false ∨
      ∃ buffer, received = some buffer ∧
        messageXid buffer = some (st.finfo (slotOf (rmXid stack received))).forwardXid

/-- Every event is lawful where it comes. -/
def AllLawful (st : Forwarding) : List ForwardEvent → Prop
  | [] => True
  | e :: rest => st.Lawful e ∧ AllLawful (st.happen e) rest

/-- Every event is all right where it comes. -/
def AllOk (st : Forwarding) : List ForwardEvent → Prop
  | [] => True
  | e :: rest => st.Ok e ∧ AllOk (st.happen e) rest

variable {st : Forwarding} {call : ForwardCall} {timeNow timeDup : Int} {dup : Bool}
  {callxid : BitVec 32}

/-! ### Calls -/

/-- The slot of a call that has been entered. -/
theorem Sound.slotOf_callxid (h : st.Sound) (j : Fin nforward) : slotOf (st.callxid j) = j := by
  apply Fin.ext
  exact (callxid_spec h j).2

/-- A call that is registered stands in the slot of its xid, which it has taken. -/
theorem Sound.registered (h : st.Sound)
    (hAnswer : (st.forwardRegister call timeNow timeDup dup).1 = .registered callxid) :
    callxid ≠ 0 ∧ Takes timeNow st (slotOf callxid) ∧
    (st.forwardRegister call timeNow timeDup dup).2.finfo (slotOf callxid) =
      Forwarding.entered call timeNow callxid := by
  rcases forwardRegister_cases call timeNow timeDup dup st with
    ⟨pre, k, post, -, -, -, hRun⟩ | ⟨-, j, hTakes, hRun⟩
  · rw [hRun] at hAnswer
    cases hAnswer
  · cases dup with
    | false =>
        rw [hRun] at hAnswer
        cases hAnswer
    | true =>
        rw [hRun, enter_true] at hAnswer ⊢
        have hFreed := (((h.initXid timeNow).sweep timeNow (List.finRange nforward)).free j)
        rw [← RegisterAnswer.registered.inj hAnswer, hFreed.slotOf_callxid j]
        refine ⟨(callxid_spec hFreed j).1, hTakes, ?_⟩
        exact Function.update_self _ _ _

/-- A slot that is not swept is as it was. -/
theorem finfo_sweep_of_not_expired {slots : List (Fin nforward)} {i : Fin nforward}
    (hNot : ¬ (st.finfo i).Expired timeNow) : (st.sweep timeNow slots).finfo i = st.finfo i := by
  rw [finfo_sweep]
  simp [hNot]

theorem holds_refl {fi : Finfo} (hActive : fi.active = true) : Holds fi fi := ⟨hActive, rfl⟩

/-- A slot that is taken was free, or all are in use and it is the oldest. -/
theorem Takes.reason {j : Fin nforward} (h : Takes timeNow st j) (hActive : (st.finfo j).active = true)
    (hNot : ¬ (st.finfo j).Expired timeNow) : (∀ k, (st.finfo k).active) ∧
      ∀ k, (st.finfo j).time ≤ (st.finfo k).time := by
  rcases h with hFree | ⟨hFull, hLeast⟩
  · have hIs := List.find?_some hFree
    rw [decide_eq_true_eq] at hIs
    rcases hIs with hInactive | hExpired
    · rw [hInactive] at hActive
      cases hActive
    · exact absurd hExpired hNot
  · refine ⟨fun k => ?_, fun k => (hLeast k).1⟩
    by_contra hInactive
    exact hFull k (Or.inl (Bool.not_eq_true _ ▸ hInactive))

/-- `forward_register` releases what has expired, and the slot that the call takes. -/
theorem Sound.forwardRegister_released (h : st.Sound) {i : Fin nforward}
    (hActive : (st.finfo i).active = true) (hNot : ¬ (st.finfo i).Expired timeNow) :
    Holds (st.finfo i) ((st.forwardRegister call timeNow timeDup dup).2.finfo i) ∧
      (∀ callxid, (st.forwardRegister call timeNow timeDup dup).1 = .registered callxid →
        slotOf callxid ≠ i) ∨
    (∀ k, (st.finfo k).active) ∧ ∀ k, (st.finfo i).time ≤ (st.finfo k).time := by
  have hInit : ¬ ((st.initXid timeNow).finfo i).Expired timeNow := by rwa [finfo_initXid]
  rcases forwardRegister_cases call timeNow timeDup dup st with
    ⟨pre, k, post, -, -, -, hRun⟩ | ⟨-, j, hTakes, hRun⟩
  · left
    rw [hRun]
    refine ⟨?_, fun callxid hBad => (by cases hBad)⟩
    have hSwept := @finfo_sweep_of_not_expired _ _ pre i hInit
    rw [finfo_initXid] at hSwept
    rw [finfo_refresh]
    by_cases hSame : i = k
    · subst hSame
      rw [Function.update_self, hSwept]
      exact ⟨hActive, rfl⟩
    · rw [Function.update_of_ne hSame, hSwept]
      exact holds_refl hActive
  · by_cases hSame : i = j
    · subst hSame
      exact Or.inr (hTakes.reason hActive hNot)
    · left
      have hSwept := @finfo_sweep_of_not_expired _ _ (List.finRange nforward) i hInit
      rw [finfo_initXid] at hSwept
      have hFreed := (((h.initXid timeNow).sweep timeNow (List.finRange nforward)).free j)
      have hSlot := (finfo_freeSlotByIndex j
        ((st.initXid timeNow).sweep timeNow (List.finRange nforward)))
      have hOther : (((st.initXid timeNow).sweep timeNow
          (List.finRange nforward)).freeSlotByIndex j).finfo i = st.finfo i := by
        rw [hSlot, Function.update_of_ne hSame, hSwept]
      rw [hRun]
      cases dup with
      | true =>
          rw [enter_true]
          constructor
          · show Holds (st.finfo i) (Function.update (_ : Fin nforward → Finfo) j _ i)
            rw [Function.update_of_ne hSame, hOther]
            exact holds_refl hActive
          · intro callxid hAnswer
            rw [← RegisterAnswer.registered.inj hAnswer, hFreed.slotOf_callxid j]
            exact Ne.symm hSame
      | false =>
          constructor
          · show Holds (st.finfo i) (Function.update (_ : Fin nforward → Finfo) j _ i)
            rw [Function.update_of_ne hSame, hOther]
            exact holds_refl hActive
          · intro callxid hAnswer
            cases hAnswer

theorem finfo_freeXid_of_ne {xid : BitVec 32} {i : Fin nforward} (h : slotOf xid ≠ i) :
    (st.freeXid xid).finfo i = st.finfo i := by
  unfold freeXid
  split
  · rfl
  · rw [freeSlotByXid, finfo_freeSlotByIndex, Function.update_of_ne (Ne.symm h)]

theorem Sound.freeXid (h : st.Sound) (xid : BitVec 32) : (st.freeXid xid).Sound := by
  unfold Forwarding.freeXid
  split
  · exact h
  · exact h.free (slotOf xid)

theorem Sound.happen (h : st.Sound) (e : ForwardEvent) : (st.happen e).Sound := by
  cases e with
  | callit call timeNow timeDup dup sent =>
      have hStep := h.forwardRegister call timeNow timeDup dup
      show (st.forwardCallit call timeNow timeDup dup sent).2.Sound
      unfold forwardCallit
      split
      · next callxid st' hRun =>
          rw [hRun] at hStep
          cases sent with
          | true => exact hStep
          | false => exact hStep.freeXid callxid
      · next hRun =>
          rw [hRun] at hStep
          exact hStep
  | reply stack received => exact h.freeXid (rmXid stack received)

/-- An event for a call is always lawful. -/
theorem Sound.lawful_callit (h : st.Sound) (call : ForwardCall) (timeNow timeDup : Int)
    (dup sent : Bool) : st.Lawful (.callit call timeNow timeDup dup sent) := by
  constructor
  · intro i hActive
    by_cases hExpired : (st.finfo i).Expired timeNow
    · exact Or.inr (.expired hExpired.2)
    · rcases @Sound.forwardRegister_released st call timeNow timeDup dup h i hActive hExpired with
        ⟨hHolds, hApart⟩ | ⟨hFull, hOldest⟩
      · left
        show Holds _ ((st.forwardCallit call timeNow timeDup dup sent).2.finfo i)
        unfold forwardCallit
        split
        · next callxid st' hRun =>
            rw [hRun] at hHolds hApart
            cases sent with
            | true => exact hHolds
            | false =>
                show Holds _ ((st'.freeXid callxid).finfo i)
                rw [finfo_freeXid_of_ne (hApart callxid rfl)]
                exact hHolds
        · next hRun =>
            rw [hRun] at hHolds
            exact hHolds
      · exact Or.inr (.evicted hFull hOldest)
  · intro call' timeNow' timeDup' dup' callxid hSame hAnswer
    cases hSame
    have hSound := h.happen (.callit call timeNow timeDup dup true)
    have hEntered : (st.happen (.callit call timeNow timeDup dup true)).finfo (slotOf callxid) =
        Forwarding.entered call timeNow callxid := by
      show (st.forwardCallit call timeNow timeDup dup true).2.finfo _ = _
      unfold forwardCallit at hAnswer ⊢
      split at hAnswer
      · next callxid' st' hRun =>
          cases hAnswer
          have hIn := (h.registered (congrArg Prod.fst hRun)).2.2
          rw [hRun] at hIn
          exact hIn
      · next answer st' hNot hRun =>
          cases hAnswer
          exact (hNot callxid rfl).elim
    refine ⟨?_, hEntered⟩
    rw [hSound.forwardFind_iff, hEntered]
    exact ⟨rfl, rfl⟩
  · intro stack received out hSame
    cases hSame

/-! ### Replies -/

theorem fst_xdrUInt32T_replyXdrs (init : BitVec 32) (buffer : List UInt8) :
    ((xdrUInt32T .decode init).run (replyXdrs buffer)).1 = messageXid buffer := by
  show (((xdrmemGetlong >>= fun l => pure (id l)) : Fallible XdrMem (BitVec 32)).run
    (replyXdrs buffer)).1 = _
  unfold messageXid
  by_cases hShort : buffer.length < 4
  · have hFail : (xdrmemGetlong).run (replyXdrs buffer) = (none, replyXdrs buffer) := if_pos hShort
    rw [Fallible.run_bind_none hFail, if_neg (Nat.not_le.mpr hShort)]
  · have hRead : (xdrmemGetlong).run (replyXdrs buffer) =
        (some (Word.ofBytes (Buffer.readAt buffer 0 4)),
          { replyXdrs buffer with handy := buffer.length - 4, priv := 0 + 4 }) := if_neg hShort
    rw [Fallible.run_bind_some hRead, if_pos (Nat.not_lt.mp hShort)]
    rfl

/-- What is decoded has the xid of its message. -/
theorem messageXid_of_decoded {stack msg : ReplyMsg} {buffer : List UInt8} {xdrs : XdrMem}
    (h : (xdrReplymsg (fun _ => pure ()) .decode (replyInit stack)).run (replyXdrs buffer) =
      (some msg, xdrs)) : messageXid buffer = some msg.rmXid := by
  rw [← fst_xdrUInt32T_replyXdrs (replyInit stack).rmXid]
  exact rmXid_xdrReplymsg h

/-- A reply goes to the caller of the slot that has its xid. -/
theorem Sound.answerReply_addressee (h : st.Sound) {stack : ReplyMsg} {buffer : List UInt8}
    {out : ForwardReply} (hOut : st.answerReply stack buffer = some out) :
    ∃ i, (st.finfo i).active ∧ messageXid buffer = some (st.finfo i).forwardXid ∧
      out.addressee = ((st.finfo i).callerAddr, (st.finfo i).callerXid) := by
  unfold answerReply at hOut
  split at hOut
  · cases hOut
  · next msg xdrs hRun =>
      split at hOut
      · cases hOut
      · next i hFind =>
          obtain ⟨hActive, hXid⟩ := h.forwardFind_iff.mp hFind
          refine ⟨i, hActive, hXid ▸ messageXid_of_decoded hRun, ?_⟩
          dsimp only at hOut
          split at hOut
          · rw [← Option.some.inj hOut]
            rfl
          · split at hOut
            · rw [← Option.some.inj hOut]
              rfl
            · cases hOut

/-- A reply is handled lawfully exactly when what it leaves as an xid is all right. -/
theorem Sound.lawful_reply_iff (h : st.Sound) (stack : ReplyMsg) (received : Option (List UInt8)) :
    st.Lawful (.reply stack received) ↔ st.Ok (.reply stack received) := by
  constructor
  · intro hLawful
    by_contra hNot
    simp only [Ok, not_or, Bool.not_eq_false] at hNot
    obtain ⟨hXid, hActive, hMessage⟩ := hNot
    rcases hLawful.released _ hActive with ⟨hHolds, -⟩ | hReason
    · change ((st.freeXid (rmXid stack received)).finfo _).active = true at hHolds
      rw [Forwarding.freeXid, if_neg hXid, freeSlotByXid, finfo_freeSlotByIndex,
        Function.update_self] at hHolds
      cases hHolds
    · cases hReason with
      | replied hSame => exact hMessage ⟨_, rfl, hSame⟩
  · intro hOk
    constructor
    · intro i hActive
      by_cases hZero : rmXid stack received = 0
      · left
        show Holds _ ((st.freeXid (rmXid stack received)).finfo i)
        rw [Forwarding.freeXid, if_pos hZero]
        exact holds_refl hActive
      · by_cases hSlot : slotOf (rmXid stack received) = i
        · right
          rcases hOk with hBad | hInactive | ⟨buffer, rfl, hSame⟩
          · exact absurd hBad hZero
          · rw [hSlot, hActive] at hInactive
            cases hInactive
          · rw [hSlot] at hSame
            exact .replied hSame
        · left
          show Holds _ ((st.freeXid (rmXid stack received)).finfo i)
          rw [finfo_freeXid_of_ne hSlot]
          exact holds_refl hActive
    · intro call timeNow timeDup dup callxid hSame
      cases hSame
    · intro stack' received' out hSame hOut
      cases hSame
      obtain ⟨buffer, rfl, hAnswer⟩ := Option.bind_eq_some_iff.mp hOut
      obtain ⟨i, hActive, hXid, hTo⟩ := h.answerReply_addressee hAnswer
      exact ⟨buffer, i, rfl, hActive, hXid, hTo⟩

theorem Sound.lawful_iff (h : st.Sound) (e : ForwardEvent) : st.Lawful e ↔ st.Ok e := by
  cases e with
  | callit call timeNow timeDup dup sent =>
      exact ⟨fun _ => trivial, fun _ => h.lawful_callit call timeNow timeDup dup sent⟩
  | reply stack received => exact h.lawful_reply_iff stack received

/-- The induction is on the events, from a table in order. -/
theorem Sound.allLawful_iff (events : List ForwardEvent) {st : Forwarding} (h : st.Sound) :
    AllLawful st events ↔ AllOk st events := by
  induction events generalizing st with
  | nil => exact Iff.rfl
  | cons e rest ih => exact and_congr (h.lawful_iff e) (ih (h.happen e))

/-- In every run, calls are released only for their own replies, when they have expired, as
the oldest or when they cannot be sent, exactly when every reply leaves an xid that is all
right. -/
theorem forwarding_released_iff (fds : SvcFdset) (events : List ForwardEvent) :
    AllLawful (initial fds) events ↔ AllOk (initial fds) events :=
  (sound_initial fds).allLawful_iff events

/-- A call by a host on the loopback. -/
def loopbackCall : ForwardCall :=
  { callerXid := 7, callerAddr := [127, 0, 0, 1], forwardFd := 3, uaddr := none
    replyType := 5, versnum := 3 }

/-- A late reply to the xid 64128, which names the same slot. -/
def lateReply : List UInt8 :=
  [0, 0, 0xfa, 0x80, 0, 0, 0, 1, 0, 0, 0, 0, 0, 0, 0, 0, 0, 0, 0, 0, 0, 0, 0, 0]

/-- It releases the slot of a call that waits for the reply to the xid 64064. -/
theorem not_forwarding_released_late :
    ¬ ∀ (fds : SvcFdset) (events : List ForwardEvent), AllLawful (initial fds) events := by
  intro h
  have hLawful := h {} [.callit loopbackCall 1000 1000 true true,
    .reply { rmXid := 0, rmDirection := 0, rpStat := 0,
             acptedRply := { arVerf := nullAuth, arStat := 0, arVers := { low := 0, high := 0 } }
             rjctedRply := { rjStat := 0, rjVers := { low := 0, high := 0 }, rjWhy := 0 } }
      (some lateReply)]
  rcases hLawful.2.1.released 0 (by decide) with ⟨hActive, -⟩ | hReason
  · exact absurd hActive (by decide)
  · cases hReason with
    | replied hXid => exact absurd hXid (by decide)

end Forwarding
end OncRpc
