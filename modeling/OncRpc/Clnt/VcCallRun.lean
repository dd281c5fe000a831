import OncRpc.Base.Runs
import OncRpc.Clnt.VcCall

/-! Calls over a connection, one after the other, on which records arrive. What a call comes to
is said by the first reply that carries the transaction id of the call. -/
namespace OncRpc

open Fallible RecordMarking RecStrm

/-! ### What a call should come to -/

/-- Records on the wire. -/
def encodeRecords (rs : List Record) : List UInt8 := encodeAll (rs.flatMap Record.frags)

theorem encodeRecords_cons (r : Record) (rs : List Record) :
    encodeRecords (r :: rs) = encodeAll r.frags ++ encodeRecords rs := by
  rw [encodeRecords, List.flatMap_cons, encodeAll_append]
  rfl

theorem encodeRecords_append (rs rs' : List Record) :
    encodeRecords (rs ++ rs') = encodeRecords rs ++ encodeRecords rs' := by
  rw [encodeRecords, List.flatMap_append, encodeAll_append]
  rfl

theorem length_le_encodeRecords (rs : List Record) : rs.length ≤ (encodeRecords rs).length := by
  induction rs with
  | nil => exact Nat.zero_le _
  | cons r rs ih =>
      have hSome : 1 ≤ (encodeAll r.frags).length := by
        rw [Record.frags, encodeAll_append, List.length_append, encodeAll_cons, List.length_append,
          Fragment.length_encode]
        omega
      rw [encodeRecords_cons, List.length_append, List.length_cons]
      omega

/-- A message in which nothing is set yet. -/
def blankReply : ReplyMsg where
  rmXid := 0
  rmDirection := 0
  rpStat := 0
  acptedRply := { arVerf := nullAuth, arStat := 0, arVers := { low := 0, high := 0 } }
  rjctedRply := { rjStat := 0, rjVers := { low := 0, high := 0 }, rjWhy := 0 }

/-- The reply in a record, if it is one, and the bytes behind its header. -/
def replyIn (body : List UInt8) : Option ReplyMsg × ByteStream := (decodeReply blankReply).run body

/-- The first reply that carries the transaction id, what is behind its header, and the records
behind it. -/
def firstReply (xid : BitVec 32) : List Record → Option ((ReplyMsg × List UInt8) × List Record)
  | [] => none
  | r :: rs =>
      match replyIn r.body with
      | (none, _) => firstReply xid rs
      | (some msg, rest) => if msg.rmXid = xid then some ((msg, rest), rs) else firstReply xid rs

/-- Where a connection stands: in a record or at its end, or in front of one because a wait has
ended there, and the records behind that place. -/
structure Standing where
  inFront : Bool
  behind : List Record

/-- What is returned by a call that does not come to wait. -/
inductive Unwaited {ρ : Type} (req : VcRequest ρ) : ClntStat → Prop
  | cantEncodeArgs : Unwaited req .cantEncodeArgs
  | cantSend : Unwaited req .cantSend
  | batched (h : req.shipnow = false) : Unwaited req (.replied .success)
  | noWait (h : req.noWait = true) : Unwaited req .timedOut

/-- What a call may come to, and where it leaves the connection: it is not sent, or no record that
arrives holds a reply to it, or it comes to what the first such reply says. -/
inductive Answers {ρ : Type} (order : Word.ByteOrder) (req : VcRequest ρ) :
    Nat → (Nat → VcPass) → ClntHandle → Standing → ClntStat × ResultsArea ρ → Standing → Prop
  | unwaited {n passes header at_ stat} (h : Unwaited req stat) :
      Answers order req n passes header at_ (stat, .untouched) at_
  | unanswered {n passes header at_} (h : firstReply (header.sentXid order) at_.behind = none) :
      Answers order req n passes header at_ (.cantRecv, .untouched)
        { inFront := true, behind := [] }
  | refused {n passes header at_ msg rest later}
      (h : firstReply (header.sentXid order) at_.behind = some ((msg, rest), later))
      (hErr : seterrReply msg ≠ .success) (hEnd : n = 0 ∨ (passes 0).refresh = false) :
      Answers order req n passes header at_ (.replied (seterrReply msg), .untouched)
        { inFront := false, behind := later }
  | refreshed {n passes header at_ msg rest later out at'}
      (h : firstReply (header.sentXid order) at_.behind = some ((msg, rest), later))
      (hErr : seterrReply msg ≠ .success) (hRefresh : (passes 0).refresh = true)
      (hAgain : Answers order req n (fun i => passes (i + 1)) (header.callPass order)
        { inFront := false, behind := later } out at') :
      Answers order req (n + 1) passes header at_ out at'
  | invalid {n passes header at_ msg rest later}
      (h : firstReply (header.sentXid order) at_.behind = some ((msg, rest), later))
      (hErr : seterrReply msg = .success)
      (hInvalid : (passes 0).validate msg.acptedRply.arVerf = false) :
      Answers order req n passes header at_ (.invalidResp, .untouched)
        { inFront := false, behind := later }
  | undecodable {n passes header at_ msg rest later}
      (h : firstReply (header.sentXid order) at_.behind = some ((msg, rest), later))
      (hErr : seterrReply msg = .success)
      (hValid : (passes 0).validate msg.acptedRply.arVerf = true)
      (hResults : (req.results.onBytes.run rest).1 = none) :
      Answers order req n passes header at_ (.cantDecodeRes, .broken)
        { inFront := false, behind := later }
  | decoded {n passes header at_ msg rest later results}
      (h : firstReply (header.sentXid order) at_.behind = some ((msg, rest), later))
      (hErr : seterrReply msg = .success)
      (hValid : (passes 0).validate msg.acptedRply.arVerf = true)
      (hResults : (req.results.onBytes.run rest).1 = some results) :
      Answers order req n passes header at_ (.replied .success, .decoded results)
        { inFront := false, behind := later }

/-! ### Calls while records arrive -/

/-- Complete records, in the pieces that they arrive in. -/
structure Arriving where
  records : List Record
  pieces : List (List UInt8)
  pieces_ne : ∀ p ∈ pieces, p ≠ []
  flatten_eq : pieces.flatten = encodeRecords records

/-- A call, with what arrives before a read fails. -/
structure VcEvent (ρ : Type) where
  req : VcRequest ρ
  passes : Nat → VcPass
  arriving : Arriving

namespace VcHandle

variable {ρ : Type} (order : Word.ByteOrder)

/-- What still is to arrive. -/
def withArrivals (as : List Arrival) (h : VcHandle) : VcHandle :=
  { h with strm := { h.strm with tcp := { h.strm.tcp with arrivals := as } } }

/-- Behind what arrives there is a read that fails, for a call that waits so long. -/
def await (arriving : Arriving) (h : VcHandle) : VcHandle :=
  h.withArrivals (h.strm.tcp.arrivals ++ arriving.pieces.map .data ++ [.error])

def callDuring (h : VcHandle) (e : VcEvent ρ) : (ClntStat × ResultsArea ρ) × VcHandle :=
  clntVcCall e.req order e.passes (h.await e.arriving)

/-- The handle after the call. The read that would have failed is gone. -/
def after (h : VcHandle) (e : VcEvent ρ) : VcHandle :=
  (h.callDuring order e).2.withArrivals (h.callDuring order e).2.strm.tcp.arrivals.dropLast

end VcHandle

/-- The stream stands where it is said to. -/
structure Standing.Holds (at_ : Standing) (s : RecStrm) : Prop where
  front : at_.inFront = true → AtRecord (encodeRecords at_.behind) s
  inside : at_.inFront = false → ∃ t, Reading (encodeRecords at_.behind) s t

/-- The records behind a place, when some more arrive. -/
def Standing.add (rs : List Record) (at_ : Standing) : Standing :=
  { at_ with behind := at_.behind ++ rs }

/-- A call comes to what it should, and the next one starts from a boundary of records. -/
def VcHandle.CallRight {ρ : Type} (order : Word.ByteOrder) (at_ : Standing) (h : VcHandle)
    (e : VcEvent ρ) (at' : Standing) : Prop :=
  Answers order e.req 2 e.passes h.header (at_.add e.arriving.records)
      (h.callDuring order e).1 at' ∧
    at'.Holds (h.after order e).strm

/-- The records that arrive have no empty fragment but the last one, and if a wait has ended in
front of a record, the record is not the reply to this call. -/
def VcHandle.Plain {ρ : Type} (order : Word.ByteOrder) (at_ : Standing) (h : VcHandle)
    (e : VcEvent ρ) : Prop :=
  (∀ r ∈ e.arriving.records, ∀ f ∈ r.more, f.body ≠ []) ∧
    (at_.inFront = true → ∀ r, (at_.add e.arriving.records).behind.head? = some r →
      ∀ msg, (replyIn r.body).1 = some msg → msg.rmXid ≠ h.header.sentXid order)

/-! ### Waiting for a reply -/

section Wait

variable {tail body : List UInt8} {as : List Arrival} {s : RecStrm} {xid : BitVec 32}

/-- The header of a record is decoded as over its bytes alone, whatever `reply_msg` held before,
and decoding does not leave the record. -/
theorem decodeReply_spec (hRead : Reading tail s body)
    (hEnds : Transport.EndsBefore as s.tcp.arrivals) (stale : ReplyMsg) :
    ((decodeReply (skeleton stale)).run s).1.map ReplyMsg.says =
        (replyIn body).1.map ReplyMsg.says ∧
      InRecord as tail ((decodeReply (skeleton stale)).run s).2 ∧
      ((replyIn body).1.isSome →
        Reading tail ((decodeReply (skeleton stale)).run s).2 (replyIn body).2) := by
  have hAlike : Alike ReplyMsg.says (decodeReply (skeleton stale) : Fallible RecStrm _)
      (decodeReply blankReply) := alike_xdrReplymsg (pure ()) rfl
  obtain ⟨hSays, hState⟩ := hAlike s
  obtain ⟨hSame, hNext⟩ :=
    decodes_xdrReplymsg lawful_reading (Refines.pure ()) blankReply s body hRead
  have hStays := readsStay_inRecord.xdrReplymsg (Stays.pure ()) (skeleton stale) s
    ⟨⟨body, hRead⟩, hEnds⟩
  refine ⟨hSays.trans (congrArg _ hSame), hStays, fun hSome => ?_⟩
  rw [hState]
  exact hNext hSome

/-- What a wait comes to. -/
inductive Hears (as : List Arrival) (xid : BitVec 32) (rs : List Record) :
    Waited × RecStrm → Prop
  | reply {msg msg' rest later s'} (h : firstReply xid rs = some ((msg, rest), later))
      (hSays : msg'.says = msg.says) (hRead : Reading (encodeRecords later) s' rest)
      (hEnds : Transport.EndsBefore as s'.tcp.arrivals) : Hears as xid rs (.reply msg', s')
  | silence {s'} (h : firstReply xid rs = none)
      (hAt : AtRecord (Transport.ready s'.tcp.arrivals) s')
      (hGone : s'.tcp.arrivals = as) : Hears as xid rs (.returns .cantRecv, s')

theorem firstReply_cons (xid : BitVec 32) (r : Record) (rs : List Record) :
    firstReply xid (r :: rs) =
      match replyIn r.body with
      | (none, _) => firstReply xid rs
      | (some msg, rest) => if msg.rmXid = xid then some ((msg, rest), rs) else firstReply xid rs :=
  rfl

/-- A record that is not the reply is skipped. -/
theorem firstReply_skip {r : Record} {rs : List Record}
    (h : ∀ msg, (replyIn r.body).1 = some msg → msg.rmXid ≠ xid) :
    firstReply xid (r :: rs) = firstReply xid rs := by
  rw [firstReply_cons]
  rcases hReply : replyIn r.body with ⟨_ | msg, rest⟩
  · rfl
  · exact if_neg (h msg (by rw [hReply]))

theorem Hears.skip {r : Record} {rs : List Record} {end_ : Waited × RecStrm}
    (h : ∀ msg, (replyIn r.body).1 = some msg → msg.rmXid ≠ xid) (hRest : Hears as xid rs end_) :
    Hears as xid (r :: rs) end_ := by
  have hSame : firstReply xid (r :: rs) = firstReply xid rs := firstReply_skip h
  cases hRest with
  | reply hFirst hSays hRead hEnds => exact .reply (hSame.trans hFirst) hSays hRead hEnds
  | silence hFirst hAt hGone => exact .silence (hSame.trans hFirst) hAt hGone

theorem readFailed_of_gone {s' : RecStrm} (hEnds : Transport.EndsBefore as s.tcp.arrivals)
    (hGone : s'.tcp.arrivals = as) : readFailed s s' = true := by
  apply decide_eq_true
  rw [hGone, hEnds.failures_eq]
  omega

theorem readFailed_eq_false {s' : RecStrm} (hEnds : Transport.EndsBefore as s.tcp.arrivals)
    (hEnds' : Transport.EndsBefore as s'.tcp.arrivals) : readFailed s s' = false := by
  apply decide_eq_false
  rw [hEnds'.failures_eq, hEnds.failures_eq]
  omega

/-- The induction is on the records. Each round that goes on has skipped one. -/
theorem vcReceiveLoop_hears (stale : Nat → ReplyMsg) {rs : List Record}
    (hHeads : ∀ r ∈ rs, ∀ f ∈ r.frags, f.head ≠ 0) {fuel : Nat} (hFuel : rs.length < fuel)
    (h : InRecord as (encodeRecords rs) s) :
    Hears as xid rs (vcReceiveLoop stale xid fuel s) := by
  induction rs generalizing fuel s with
  | nil =>
      obtain ⟨fuel, rfl⟩ := Nat.exists_eq_add_one.mpr hFuel
      obtain ⟨s₁, hSkip, hAt, hEnds⟩ := h.xdrrecSkiprecord
      obtain ⟨s₂, hGet, hAt₂, hGone⟩ := hAt.xdrrecGetlong
      rw [hEnds.afterReady_eq] at hGone
      have hNone : (decodeReply (skeleton (stale fuel))).run s₁ = (none, s₂) := by
        refine run_bind_none (run_bind_none ?_)
        exact hGet
      rw [vcReceiveLoop]
      simp only [hSkip, hNone, readFailed_of_gone hEnds hGone, if_true]
      exact .silence rfl hAt₂ hGone
  | cons r rs ih =>
      obtain ⟨fuel, rfl⟩ := Nat.exists_eq_add_one.mpr (Nat.zero_lt_of_lt hFuel)
      obtain ⟨s₁, hSkip, hAt, hEnds⟩ := h.xdrrecSkiprecord
      rw [encodeRecords_cons] at hAt
      have hRead := hAt.reading (hHeads r List.mem_cons_self)
      obtain ⟨hSays, hIn, hNext⟩ := decodeReply_spec hRead hEnds (stale fuel)
      have hRest := ih (fun r' hr' => hHeads r' (List.mem_cons_of_mem r hr'))
        (Nat.lt_of_succ_lt_succ hFuel) hIn
      rw [vcReceiveLoop]
      simp only [hSkip]
      rcases hDecode : (decodeReply (skeleton (stale fuel))).run s₁ with ⟨_ | msg', s₂⟩
      · rw [hDecode] at hSays hIn hRest
        simp only [readFailed_eq_false hEnds hIn.ends, Bool.false_eq_true, if_false]
        refine hRest.skip fun msg hMsg => ?_
        rw [hMsg] at hSays
        cases hSays
      · rw [hDecode] at hSays hIn hNext hRest
        rcases hReply : replyIn r.body with ⟨_ | msg, rest⟩
        · rw [hReply] at hSays
          cases hSays
        · rw [hReply] at hSays hNext
          have hSame : msg'.says = msg.says := Option.some.inj hSays
          have hXid : msg'.rmXid = msg.rmXid := congrArg Prod.fst hSame
          simp only [hXid]
          by_cases hOwn : msg.rmXid = xid
          · rw [if_pos hOwn]
            refine .reply ?_ hSame (hNext rfl) hIn.ends
            rw [firstReply_cons, hReply]
            exact if_pos hOwn
          · rw [if_neg hOwn]
            refine hRest.skip fun msg₀ hMsg => ?_
            rw [hReply] at hMsg
            cases hMsg
            exact hOwn

/-- A wait from the end of a record on has rounds enough. -/
theorem vcReceive_hears (stale : Nat → ReplyMsg) {rs : List Record}
    (hHeads : ∀ r ∈ rs, ∀ f ∈ r.frags, f.head ≠ 0) (h : InRecord as (encodeRecords rs) s) :
    Hears as xid rs (vcReceive stale xid s) := by
  refine vcReceiveLoop_hears stale hHeads ?_ h
  obtain ⟨t, hRead⟩ := h.reading
  have hLen := length_le_encodeRecords rs
  have hReady : (encodeRecords rs).length ≤ s.ready.length := by
    obtain ⟨cur, -, ⟨-, hReady, -⟩ | ⟨-, r, -, hReady, -⟩⟩ := hRead.place
    · rw [hReady, List.length_append]
      omega
    · rw [hReady, List.length_append, List.length_append]
      omega
  rw [input_eq, List.length_append]
  omega

/-- A wait where another one has ended skips the first record, whatever it holds. -/
theorem vcReceive_hears_front (stale : Nat → ReplyMsg) {rs : List Record}
    (hHeads : ∀ r ∈ rs, ∀ f ∈ r.frags, f.head ≠ 0) (hAt : AtRecord (encodeRecords rs) s)
    (hEnds : Transport.EndsBefore as s.tcp.arrivals)
    (hFirst : ∀ r, rs.head? = some r →
      ∀ msg, (replyIn r.body).1 = some msg → msg.rmXid ≠ xid) :
    Hears as xid rs (vcReceive stale xid s) := by
  cases rs with
  | nil =>
      obtain ⟨s', hSkip, hAt', hGone⟩ := hAt.xdrrecSkiprecord
      rw [hEnds.afterReady_eq] at hGone
      rw [vcReceive, vcReceiveLoop]
      simp only [hSkip, readFailed_of_gone hEnds hGone, if_true]
      exact .silence rfl hAt' hGone
  | cons r rs =>
      rw [encodeRecords_cons] at hAt
      have hRead := hAt.reading (hHeads r List.mem_cons_self)
      have hRest : Hears as xid rs (vcReceive stale xid s) :=
        vcReceive_hears stale (fun r' hr' => hHeads r' (List.mem_cons_of_mem r hr'))
          ⟨⟨_, hRead⟩, hEnds⟩
      exact hRest.skip (hFirst r rfl)

end Wait

/-! ### A call -/

section Call

variable {ρ : Type} {req : VcRequest ρ} {P : RecStrm → Prop} {as : List Arrival}
  {at_ at' : Standing} {s : RecStrm}

/-- Sending does not come to the input side. -/
theorem sparedByOutput_holds (at_ : Standing) (as : List Arrival) :
    SparedByOutput fun s => at_.Holds s ∧ s.tcp.arrivals = as := by
  rintro s written outBase outFinger fragHeader fragSent ⟨⟨hFront, hInside⟩, hArrivals⟩
  refine ⟨⟨fun h => ?_, fun h => ?_⟩, hArrivals⟩
  · have hAt := hFront h
    exact ⟨{ hAt.blocking with }, hAt.fbtbc_eq, hAt.lastFrag_eq, hAt.ready_eq⟩
  · obtain ⟨t, hRead⟩ := hInside h
    exact ⟨t, { hRead.blocking with }, hRead.place⟩

theorem stays_vcEncode (req : VcRequest ρ) (hP : SparedByOutput P) (pass : VcPass)
    (header : ClntHandle) :
    Stays P (vcEncode req pass header) := by
  refine (stays_putbytesLoop hP _ _).bind fun _ => (stays_xdrrecPutlong hP _).bind fun _ => ?_
  exact (pass.marshal.spares hP).bind fun _ => req.args.spares hP

theorem vcSend_spec (req : VcRequest ρ) (hP : SparedByOutput P) (pass : VcPass)
    (header : ClntHandle) (hs : P s) :
    P (vcSend req pass header s).2 ∧
      ∀ stat, (vcSend req pass header s).1 = some stat → Unwaited req stat := by
  have hEncoded := stays_vcEncode req hP pass header s hs
  rw [vcSend]
  rcases hRun : (vcEncode req pass header).run s with ⟨_ | _, s₁⟩
  · rw [hRun] at hEncoded
    refine ⟨stays_xdrrecEndofrecord hP true s₁ hEncoded, fun stat h => ?_⟩
    cases h
    exact .cantEncodeArgs
  · rw [hRun] at hEncoded
    have hSent := stays_xdrrecEndofrecord hP req.shipnow s₁ hEncoded
    rcases hRun : (xdrrecEndofrecord req.shipnow).run s₁ with ⟨_ | _, s₂⟩
    · rw [hRun] at hSent
      simp only [hRun]
      refine ⟨hSent, fun stat h => ?_⟩
      cases h
      exact .cantSend
    · rw [hRun] at hSent
      simp only [hRun]
      by_cases hShip : req.shipnow = false
      · rw [if_pos hShip]
        refine ⟨hSent, fun stat h => ?_⟩
        cases h
        exact .batched hShip
      · rw [if_neg hShip]
        by_cases hWait : req.noWait = true
        · rw [if_pos hWait]
          refine ⟨hSent, fun stat h => ?_⟩
          cases h
          exact .noWait hWait
        · rw [if_neg hWait]
          exact ⟨hSent, nofun⟩

/-- The records behind the place can be read, and the first one may be skipped unread. -/
structure Standing.Plain (at_ : Standing) (xid : BitVec 32) : Prop where
  heads : ∀ r ∈ at_.behind, ∀ f ∈ r.frags, f.head ≠ 0
  first : at_.inFront = true → ∀ r, at_.behind.head? = some r →
    ∀ msg, (replyIn r.body).1 = some msg → msg.rmXid ≠ xid

/-- The wait of a call, wherever the connection stands. -/
theorem Standing.Holds.hears {xid : BitVec 32} (h : at_.Holds s) (hPlain : at_.Plain xid)
    (hEnds : Transport.EndsBefore as s.tcp.arrivals) (stale : Nat → ReplyMsg) :
    Hears as xid at_.behind (vcReceive stale xid s) := by
  cases hFront : at_.inFront with
  | false => exact vcReceive_hears stale hPlain.heads ⟨h.inside hFront, hEnds⟩
  | true =>
      exact vcReceive_hears_front stale hPlain.heads (h.front hFront) hEnds (hPlain.first hFront)

/-- Where a call leaves the connection: the read that fails is still to come, or is gone. -/
def Standing.Left (at_ : Standing) (s : RecStrm) : Prop :=
  at_.Holds s ∧ (s.tcp.arrivals = [] ∨ Transport.EndsBefore [] s.tcp.arrivals)

/-- What a successful reply comes to, with these bytes behind its header. -/
def processed (req : VcRequest ρ) (pass : VcPass) (verf : OpaqueAuth) (rest : List UInt8) :
    ClntStat × ResultsArea ρ :=
  if pass.validate verf then
    match (req.results.onBytes.run rest).1 with
    | some results => (.replied .success, .decoded results)
    | none => (.cantDecodeRes, .broken)
  else (.invalidResp, .untouched)

theorem vcResults_spec (req : VcRequest ρ) (pass : VcPass) (verf : OpaqueAuth)
    {tail rest : List UInt8} (hRead : Reading tail s rest)
    (hEnds : Transport.EndsBefore as s.tcp.arrivals) :
    InRecord as tail (vcResults req pass verf s).2 ∧
      (vcResults req pass verf s).1 = processed req pass verf rest := by
  rw [vcResults, processed]
  have hIn : InRecord as tail s := ⟨⟨rest, hRead⟩, hEnds⟩
  by_cases hValid : pass.validate verf = true
  · rw [if_pos hValid, if_pos hValid]
    have hSame := (req.results.decodes tail s rest hRead).1
    have hKept := req.results.stays as tail s hIn
    rcases hRun : req.results.run.run s with ⟨_ | results, s'⟩
    · rw [hRun] at hSame hKept
      rw [← hSame]
      simp only [readFailed_eq_false hEnds hKept.ends, Bool.false_eq_true, if_false]
      exact ⟨hKept, trivial⟩
    · rw [hRun] at hSame hKept
      rw [← hSame]
      exact ⟨hKept, rfl⟩
  · rw [if_neg hValid, if_neg hValid]
    exact ⟨hIn, rfl⟩

/-- How a pass may end. -/
inductive PassComes (req : VcRequest ρ) (pass : VcPass) (xid : BitVec 32) (at_ : Standing) :
    PassEnd ρ × RecStrm → Prop
  | unwaited {stat s'} (h : Unwaited req stat) (hLeft : at_.Left s') :
      PassComes req pass xid at_ (.returns (stat, .untouched), s')
  | unanswered {s'} (h : firstReply xid at_.behind = none)
      (hLeft : Standing.Left { inFront := true, behind := [] } s') :
      PassComes req pass xid at_ (.returns (.cantRecv, .untouched), s')
  | refused {msg rest later s'} (h : firstReply xid at_.behind = some ((msg, rest), later))
      (hErr : seterrReply msg ≠ .success)
      (hIn : InRecord [] (encodeRecords later) s') :
      PassComes req pass xid at_ (.refused (seterrReply msg), s')
  | answered {msg rest later s'} (h : firstReply xid at_.behind = some ((msg, rest), later))
      (hErr : seterrReply msg = .success)
      (hIn : InRecord [] (encodeRecords later) s') :
      PassComes req pass xid at_ (.returns (processed req pass msg.acptedRply.arVerf rest), s')

theorem vcPass_comes (req : VcRequest ρ) (pass : VcPass) {xid : BitVec 32} (header : ClntHandle)
    (hHolds : at_.Holds s)
    (hPlain : at_.Plain xid) (hEnds : Transport.EndsBefore [] s.tcp.arrivals) :
    PassComes req pass xid at_ (vcPass req pass xid header s) := by
  obtain ⟨⟨hHolds', hSame⟩, hStat⟩ :=
    vcSend_spec req (sparedByOutput_holds at_ s.tcp.arrivals) pass header ⟨hHolds, rfl⟩
  rw [vcPass]
  rcases hSend : vcSend req pass header s with ⟨_ | stat, s₁⟩
  · rw [hSend] at hHolds' hSame
    have hEnds' : Transport.EndsBefore [] s₁.tcp.arrivals := by rwa [hSame]
    have hHears := hHolds'.hears hPlain hEnds' pass.stale
    rcases hWait : vcReceive pass.stale xid s₁ with ⟨end_, s₂⟩
    rw [hWait] at hHears
    simp only [hWait]
    cases hHears with
    | silence hFirst hAt hGone =>
        rw [hGone] at hAt
        exact .unanswered hFirst ⟨⟨fun _ => hAt, nofun⟩, .inl hGone⟩
    | @reply msg msg' rest later _ hFirst hSays hRead hEnds₂ =>
        have hErr : seterrReply msg' = seterrReply msg :=
          congrArg (fun x => x.2.1) hSays
        have hVerf : msg'.acptedRply.arVerf = msg.acptedRply.arVerf :=
          congrArg (fun x => x.2.2) hSays
        simp only [hErr, hVerf]
        by_cases hSuccess : seterrReply msg = .success
        · rw [if_pos hSuccess]
          obtain ⟨hIn, hOut⟩ :=
            vcResults_spec req pass msg.acptedRply.arVerf hRead hEnds₂
          rw [hOut]
          exact .answered hFirst hSuccess hIn
        · rw [if_neg hSuccess]
          exact .refused hFirst hSuccess ⟨⟨rest, hRead⟩, hEnds₂⟩
  · rw [hSend] at hHolds' hSame
    refine .unwaited (hStat stat (by rw [hSend])) ⟨hHolds', .inr ?_⟩
    show Transport.EndsBefore [] s₁.tcp.arrivals
    rwa [hSame]

/-- The records that are left come behind all the others. -/
theorem suffix_of_firstReply {xid : BitVec 32} {rs later : List Record}
    {x : ReplyMsg × List UInt8} (h : firstReply xid rs = some (x, later)) : later <:+ rs := by
  induction rs with
  | nil => cases h
  | cons r rs ih =>
      rw [firstReply_cons] at h
      rcases hReply : replyIn r.body with ⟨_ | msg, rest⟩
      · rw [hReply] at h
        exact (ih h).trans (List.suffix_cons r rs)
      · rw [hReply] at h
        dsimp only at h
        split at h
        · cases h
          exact List.suffix_cons r _
        · exact (ih h).trans (List.suffix_cons r rs)

theorem left_of_inRecord {rs : List Record} (h : InRecord [] (encodeRecords rs) s) :
    Standing.Left { inFront := false, behind := rs } s :=
  ⟨⟨nofun, fun _ => h.reading⟩, .inr h.ends⟩

/-- What a successful reply comes to is an answer. -/
theorem answers_processed (order : Word.ByteOrder) {n : Nat} {passes : Nat → VcPass}
    {header : ClntHandle} {msg : ReplyMsg} {rest : List UInt8} {later : List Record}
    (h : firstReply (header.sentXid order) at_.behind = some ((msg, rest), later))
    (hErr : seterrReply msg = .success) :
    Answers order req n passes header at_ (processed req (passes 0) msg.acptedRply.arVerf rest)
      { inFront := false, behind := later } := by
  rw [processed]
  cases hValid : (passes 0).validate msg.acptedRply.arVerf with
  | false => exact .invalid h hErr hValid
  | true =>
      rw [if_pos rfl]
      cases hResults : (req.results.onBytes.run rest).1 with
      | none => exact .undecodable h hErr hValid hResults
      | some results => exact .decoded h hErr hValid hResults

section Again

variable {order : Word.ByteOrder} {n : Nat} {passes : Nat → VcPass} {h : VcHandle} {s' : RecStrm}

theorem vcCallAgain_returns {out : ClntStat × ResultsArea ρ}
    (hPass : vcPass req (passes 0) (h.header.sentXid order) (h.header.callPass order) h.strm =
      (.returns out, s')) :
    vcCallAgain req order n passes h =
      (out, { header := h.header.callPass order, strm := s' }) := by
  cases n <;> simp [vcCallAgain, hPass]

theorem vcCallAgain_refused {err : RpcErr}
    (hPass : vcPass req (passes 0) (h.header.sentXid order) (h.header.callPass order) h.strm =
      (.refused err, s')) (hEnd : n = 0 ∨ (passes 0).refresh = false) :
    vcCallAgain req order n passes h =
      ((.replied err, .untouched), { header := h.header.callPass order, strm := s' }) := by
  cases n with
  | zero => simp [vcCallAgain, hPass]
  | succ n => simp [vcCallAgain, hPass, hEnd.resolve_left (Nat.succ_ne_zero n)]

theorem vcCallAgain_refreshed {err : RpcErr}
    (hPass : vcPass req (passes 0) (h.header.sentXid order) (h.header.callPass order) h.strm =
      (.refused err, s')) (hRefresh : (passes 0).refresh = true) :
    vcCallAgain req order (n + 1) passes h =
      vcCallAgain req order n (fun i => passes (i + 1))
        { header := h.header.callPass order, strm := s' } := by
  rw [vcCallAgain.eq_def]
  simp [hPass, hRefresh]

end Again

/-- The induction is on the refreshes that are left. -/
theorem vcCallAgain_answers (order : Word.ByteOrder) (n : Nat) (passes : Nat → VcPass)
    (h : VcHandle) (at_ : Standing) (hHolds : at_.Holds h.strm)
    (hPlain : at_.Plain (h.header.sentXid order))
    (hEnds : Transport.EndsBefore [] h.strm.tcp.arrivals) :
    ∃ at', Answers order req n passes h.header at_ (vcCallAgain req order n passes h).1 at' ∧
      at'.Left (vcCallAgain req order n passes h).2.strm := by
  induction n using Nat.strong_induction_on generalizing passes h at_ with
  | _ n ih =>
      have hComes := vcPass_comes req (passes 0) (h.header.callPass order) hHolds hPlain hEnds
      rcases hPass : vcPass req (passes 0) (h.header.sentXid order) (h.header.callPass order) h.strm
        with ⟨end_, s'⟩
      rw [hPass] at hComes
      cases hComes with
      | unwaited hUnwaited hLeft =>
          rw [vcCallAgain_returns hPass]
          exact ⟨at_, .unwaited hUnwaited, hLeft⟩
      | unanswered hFirst hLeft =>
          rw [vcCallAgain_returns hPass]
          exact ⟨_, .unanswered hFirst, hLeft⟩
      | answered hFirst hErr hIn =>
          rw [vcCallAgain_returns hPass]
          exact ⟨_, answers_processed order hFirst hErr, left_of_inRecord hIn⟩
      | @refused msg rest later _ hFirst hErr hIn =>
          by_cases hEnd : n = 0 ∨ (passes 0).refresh = false
          · rw [vcCallAgain_refused hPass hEnd]
            exact ⟨_, .refused hFirst hErr hEnd, left_of_inRecord hIn⟩
          · obtain ⟨hMore, hRefresh⟩ := not_or.mp hEnd
            rw [Bool.not_eq_false] at hRefresh
            obtain ⟨n, rfl⟩ := Nat.exists_eq_succ_of_ne_zero hMore
            have hLater := suffix_of_firstReply hFirst
            obtain ⟨at', hAnswers, hLeft⟩ := ih n (Nat.lt_succ_self n) (fun i => passes (i + 1))
              { header := h.header.callPass order, strm := s' }
              { inFront := false, behind := later } (left_of_inRecord hIn).1
              ⟨fun r hr => hPlain.heads r (hLater.subset hr), nofun⟩ hIn.ends
            rw [vcCallAgain_refreshed hPass hRefresh]
            exact ⟨at', .refreshed hFirst hErr hRefresh hAnswers, hLeft⟩

/-- No other records are left than those that have been there. -/
theorem Answers.suffix {order : Word.ByteOrder} {n : Nat} {passes : Nat → VcPass}
    {header : ClntHandle} {out : ClntStat × ResultsArea ρ}
    (h : Answers order req n passes header at_ out at') : at'.behind <:+ at_.behind := by
  induction h with
  | unwaited => exact List.suffix_rfl
  | unanswered => exact List.nil_suffix
  | refused h | invalid h | undecodable h | decoded h => exact suffix_of_firstReply h
  | refreshed h hErr hRefresh hAgain ih => exact ih.trans (suffix_of_firstReply h)

/-- What arrives comes behind what is there. -/
theorem Standing.Holds.withArrivals {h : VcHandle} {rs : List Record} (hHolds : at_.Holds h.strm)
    (hReady : Transport.ready as = Transport.ready h.strm.tcp.arrivals ++ encodeRecords rs) :
    (at_.add rs).Holds (h.withArrivals as).strm := by
  have hAll : (h.withArrivals as).strm.ready = h.strm.ready ++ encodeRecords rs := by
    show buffered _ ++ Transport.ready as = _
    rw [hReady, ← List.append_assoc]
    rfl
  constructor
  · intro hFront
    have hAt := hHolds.front hFront
    refine ⟨{ hAt.blocking with }, hAt.fbtbc_eq, hAt.lastFrag_eq, ?_⟩
    rw [hAll, hAt.ready_eq]
    exact (encodeRecords_append _ _).symm
  · intro hInside
    obtain ⟨t, hBlock, cur, hLen, hPlace⟩ := hHolds.inside hInside
    refine ⟨t, { hBlock with }, cur, hLen, ?_⟩
    rw [hAll, show (at_.add rs).behind = at_.behind ++ rs from rfl, encodeRecords_append]
    rcases hPlace with ⟨hLast, hReady, hBody⟩ | ⟨hMore, r, hHeads, hReady, hBody⟩
    · exact .inl ⟨hLast, by rw [hReady, List.append_assoc], hBody⟩
    · refine .inr ⟨hMore, r, hHeads, ?_, hBody⟩
      rw [hReady]
      simp only [List.append_assoc]

end Call

namespace VcHandle

variable {ρ : Type} {order : Word.ByteOrder} {at_ at' : Standing} {h : VcHandle} {e : VcEvent ρ}

/-- The connection between two calls. -/
structure Sound (at_ : Standing) (h : VcHandle) : Prop where
  holds : at_.Holds h.strm
  failures_eq : Transport.failures h.strm.tcp.arrivals = 0
  heads : ∀ r ∈ at_.behind, ∀ f ∈ r.frags, f.head ≠ 0

theorem Sound.await (hSound : h.Sound at_) (arriving : Arriving) :
    (at_.add arriving.records).Holds (h.await arriving).strm ∧
      Transport.EndsBefore [] (h.await arriving).strm.tcp.arrivals := by
  obtain ⟨hZero, hReady⟩ :=
    Transport.ready_append_data hSound.failures_eq arriving.pieces_ne
  obtain ⟨hEnds, hSame⟩ := Transport.endsBefore_append_error hZero
  refine ⟨hSound.holds.withArrivals ?_, hEnds⟩
  rw [hSame, hReady, arriving.flatten_eq]

/-- What a call can read once the records have arrived. -/
theorem Sound.heads_add (hSound : h.Sound at_)
    (hMore : ∀ r ∈ e.arriving.records, ∀ f ∈ r.more, f.body ≠ []) :
    ∀ r ∈ (at_.add e.arriving.records).behind, ∀ f ∈ r.frags, f.head ≠ 0 := by
  intro r hr f hf hZero
  rcases List.mem_append.mp hr with hOld | hNew
  · exact hSound.heads r hOld f hf hZero
  · obtain ⟨r', hr', g, hg, hBody⟩ := (exists_head_eq_zero_iff e.arriving.records).mp
      ⟨f, List.mem_flatMap.mpr ⟨r, hNew, hf⟩, hZero⟩
    exact hMore r' hr' g hg hBody

theorem Sound.call (hSound : h.Sound at_) (hPlain : h.Plain order at_ e) :
    ∃ at', Answers order e.req 2 e.passes h.header (at_.add e.arriving.records)
      (h.callDuring order e).1 at' ∧ at'.Left (h.callDuring order e).2.strm := by
  obtain ⟨hHolds, hEnds⟩ := hSound.await e.arriving
  exact vcCallAgain_answers order 2 e.passes (h.await e.arriving) _ hHolds
    ⟨hSound.heads_add hPlain.1, hPlain.2⟩ hEnds

/-- The read that has not failed is taken away again. -/
theorem left_dropLast {s : RecStrm} (hLeft : at'.Left s) :
    Transport.failures s.tcp.arrivals.dropLast = 0 ∧
      Transport.ready s.tcp.arrivals.dropLast = Transport.ready s.tcp.arrivals := by
  rcases hLeft.2 with hGone | hEnds
  · rw [hGone]
    exact ⟨rfl, rfl⟩
  · exact hEnds.dropLast

theorem Sound.callRight (hSound : h.Sound at_) (hPlain : h.Plain order at_ e) :
    ∃ at', h.CallRight order at_ e at' := by
  obtain ⟨at', hAnswers, hLeft⟩ := hSound.call hPlain
  refine ⟨at', hAnswers, ?_⟩
  have hHolds : (at'.add []).Holds (h.after order e).strm :=
    hLeft.1.withArrivals ((left_dropLast hLeft).2.trans (List.append_nil _).symm)
  have hSame : at'.add [] = at' := by
    rw [Standing.add, List.append_nil]
  rwa [hSame] at hHolds

theorem Sound.after (hSound : h.Sound at_) (hPlain : h.Plain order at_ e)
    (hRight : h.CallRight order at_ e at') : (h.after order e).Sound at' := by
  obtain ⟨_, -, hLeft⟩ := hSound.call hPlain
  refine ⟨hRight.2, (left_dropLast hLeft).1, fun r hr => ?_⟩
  exact hSound.heads_add hPlain.1 r (hRight.1.suffix.subset hr)

theorem toNat_rpcGetTSizeTcp {size : BitVec 32} (h : size.toNat < 2 ^ 31) :
    (rpcGetTSizeTcp size).toNat ≤ 256 * 1024 := by
  rw [rpcGetTSizeTcp]
  split
  · decide
  · split
    · decide
    · next hSmall =>
        rw [BitVec.toInt_eq_toNat_of_lt (by omega)] at hSmall
        omega

theorem sound_clntVcCreate (xid prog vers sendsz : BitVec 32) {recvsz : BitVec 32}
    (hRecv : recvsz.toNat < 2 ^ 31) (host : Host) (writable : Bool) :
    (clntVcCreate xid prog vers sendsz recvsz host writable).Sound
      { inFront := false, behind := [] } where
  holds := by
    refine ⟨nofun, fun _ => ⟨[], ?_⟩⟩
    have hSize : (rpcGetTSizeTcp recvsz).toNat ≤ 2 ^ 31 - 4 :=
      (toNat_rpcGetTSizeTcp hRecv).trans (by decide)
    have hLine :
        (clntVcCreate xid prog vers sendsz recvsz host writable).strm.tcp.nonblock = false := rfl
    exact reading_xdrrecCreate (rpcGetTSizeTcp sendsz) host hSize hLine
  failures_eq := rfl
  heads := nofun

/-- On a new handle every call comes to what the first record with its transaction id says, as
long as no record has an empty fragment before the last one, and none that answers a call arrives
where a wait has ended in front of it. -/
theorem calls_follow (order : Word.ByteOrder) (xid prog vers sendsz recvsz : BitVec 32)
    (hRecv : recvsz.toNat < 2 ^ 31) (host : Host) (writable : Bool) (events : List (VcEvent ρ)) :
    Runs.FollowsWhile (after order) (fun at_ h e => h.Plain order at_ e)
      (fun at_ h e at' => h.CallRight order at_ e at') { inFront := false, behind := [] }
      (clntVcCreate xid prog vers sendsz recvsz host writable) events :=
  Runs.followsWhile_of_step (fun at_ h => h.Sound at_)
    (fun _ _ _ hSound hPlain => hSound.callRight hPlain)
    (fun _ _ _ _ hSound hPlain hRight => hSound.after hPlain hRight) events _ _
    (sound_clntVcCreate xid prog vers sendsz hRecv host writable)

/-! ### Where it fails -/

/-- A successful reply with one word of results. -/
def replyWith (xid result : BitVec 32) : List UInt8 :=
  [xid, reply, msgAccepted, 0, 0, success, result].flatMap Word.toBytes

theorem replyWith_fits (xid result : BitVec 32) : (replyWith xid result).length < 2 ^ 31 := by
  rw [replyWith, length_flatMap_toBytes, List.length_cons, List.length_cons]
  simp

/-- The reply in one fragment. -/
def wholeReply (xid result : BitVec 32) : Record where
  more := []
  final := { body := replyWith xid result, last := true, fits := replyWith_fits xid result }
  more_last := Record.none_last
  final_last := rfl

/-- The reply with two empty fragments behind it. -/
def trailingReply (xid result : BitVec 32) : Record where
  more := [{ body := replyWith xid result, last := false
             fits := replyWith_fits xid result },
    { body := [], last := false, fits := Fragment.fits_nil }]
  final := { body := [], last := true, fits := Fragment.fits_nil }
  more_last := by simp
  final_last := Fragment.last_nil

def putNothing : PutFilter where
  run := pure ()
  spares _ := Stays.pure ()

/-- One word is expected. -/
def wordResults : ResultsFilter (BitVec 32) where
  run := xdrUInt32T .decode 0
  onBytes := xdrUInt32T .decode 0
  decodes _ := decodes_xdrInteger lawful_reading id id 0
  stays _ _ := readsStay_inRecord.xdrInteger id id 0

/-- A call of a client without credentials. -/
def plainCall (arriving : Arriving) : VcEvent (BitVec 32) where
  req := { proc := 1, args := putNothing, results := wordResults, noResults := false
           noWait := false }
  passes _ := { marshal := putNothing, validate := fun _ => true, refresh := false
                stale := fun _ => blankReply }
  arriving := arriving

/-- Records that arrive in one piece. -/
def atOnce (r : Record) (rs : List Record) : Arriving where
  records := r :: rs
  pieces := [encodeRecords (r :: rs)]
  pieces_ne := by
    have hLen := length_le_encodeRecords (r :: rs)
    simp only [List.mem_singleton, forall_eq]
    intro hNil
    rw [hNil] at hLen
    exact absurd hLen (Nat.not_succ_le_zero _)
  flatten_eq := List.append_nil _

/-- Nothing arrives. -/
def silence : Arriving where
  records := []
  pieces := []
  pieces_ne := nofun
  flatten_eq := rfl

/-- A handle whose first call has the transaction id 8. -/
def newHandle : VcHandle := clntVcCreate 9 100 1 100 100 zeroHost true

/-- The reply to another call ends in empty fragments, and the reply to this one is behind it. -/
def behindTrailing : VcEvent (BitVec 32) :=
  plainCall (atOnce (trailingReply 5 7) [wholeReply 8 6])

/-- The reply to the second call. -/
def behindSilence : VcEvent (BitVec 32) := plainCall (atOnce (wholeReply 7 6) [])

theorem fst_callDuring_failing :
    (newHandle.callDuring .big behindTrailing).1 = (.replied .success, .untouched) ∧
      (newHandle.callDuring .big (plainCall silence)).1 = (.cantRecv, .untouched) ∧
      ((newHandle.after .big (plainCall silence)).callDuring .big behindSilence).1 =
        (.cantRecv, .untouched) := by
  decide +kernel

/-- A call without results comes from no reply. -/
theorem not_answers_untouched {n : Nat} {header : ClntHandle} {arriving : Arriving} :
    ¬ Answers order (plainCall arriving).req n (plainCall arriving).passes header at_
      (.replied .success, .untouched) at' := by
  generalize hOut : ((.replied .success, .untouched) : ClntStat × ResultsArea (BitVec 32)) = out
  intro hAnswers
  cases hAnswers with
  | unwaited h =>
      cases hOut
      cases h with
      | batched h => cases h
  | unanswered => cases hOut
  | refused h hErr =>
      rw [Prod.mk.injEq, ClntStat.replied.injEq] at hOut
      exact hErr hOut.1.symm
  | refreshed h hErr hRefresh => cases hRefresh
  | invalid => cases hOut
  | undecodable => cases hOut
  | decoded => cases hOut

theorem unanswered_of_cantRecv {n : Nat} {header : ClntHandle} {arriving : Arriving}
    (h : Answers order (plainCall arriving).req n (plainCall arriving).passes header at_
      (.cantRecv, .untouched) at') :
    firstReply (header.sentXid order) at_.behind = none ∧
      at' = { inFront := true, behind := [] } := by
  cases h with
  | unwaited h => cases h
  | unanswered h => exact ⟨h, rfl⟩
  | refreshed h hErr hRefresh => cases hRefresh

/-- An empty fragment makes the call return success with no results, and behind a wait that has
ended the reply to the next call is skipped. -/
theorem not_calls_follow :
    (¬ Runs.FollowsWhile (after .big) (fun _ _ _ => True)
      (fun at_ h e at' => h.CallRight .big at_ e at') { inFront := false, behind := [] } newHandle
      [behindTrailing]) ∧
    ¬ Runs.FollowsWhile (after .big) (fun _ _ _ => True)
      (fun at_ h e at' => h.CallRight .big at_ e at') { inFront := false, behind := [] } newHandle
      [plainCall silence, behindSilence] := by
  obtain ⟨hTrailing, hSilence, hBehind⟩ := fst_callDuring_failing
  constructor
  · intro h
    obtain ⟨⟨at', hAnswers, -⟩, -⟩ := h trivial
    rw [hTrailing] at hAnswers
    exact not_answers_untouched hAnswers
  · intro h
    obtain ⟨⟨at', hRight⟩, hRest⟩ := h trivial
    have hFirst := hRight.1
    rw [hSilence] at hFirst
    obtain ⟨-, rfl⟩ := unanswered_of_cantRecv hFirst
    obtain ⟨⟨at', hAnswers, -⟩, -⟩ := hRest _ hRight trivial
    rw [hBehind] at hAnswers
    obtain ⟨hNone, -⟩ := unanswered_of_cantRecv hAnswers
    have hSome : (firstReply ((newHandle.after .big (plainCall silence)).header.sentXid .big)
        (Standing.add behindSilence.arriving.records
          { inFront := true, behind := [] }).behind).isSome = true := by
      decide +kernel
    rw [hNone] at hSome
    cases hSome

/-- A reply to another call, with the reply to this one behind it, and a call that waits in vain. -/
theorem calls_follow_twoReplies :
    Runs.FollowsWhile (after .big) (fun at_ h e => h.Plain .big at_ e)
      (fun at_ h e at' => h.CallRight .big at_ e at') { inFront := false, behind := [] }
      (clntVcCreate 9 100 1 100 100 zeroHost true)
      [plainCall (atOnce (wholeReply 5 7) [wholeReply 8 6]), plainCall silence] :=
  calls_follow .big 9 100 1 100 100 (by decide) zeroHost true _

end VcHandle

end OncRpc
