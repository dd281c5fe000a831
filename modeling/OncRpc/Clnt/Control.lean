import OncRpc.Clnt.DgSchedule

/-! `clnt_dg_control` and `clnt_vc_control`: what can be set at a client handle, and what the calls
make of it. -/
namespace OncRpc

open Buffer Timeval

/-- `sizeof(struct sockaddr_storage)`. -/
def sockaddrStorage : Nat := 128

/-- `time_not_ok`. -/
def timeNotOk (t : Timeval) : Bool :=
  decide (t.tvSec < -1) || decide (t.tvSec > 100000000) || decide (t.tvUsec < -1) ||
    decide (t.tvUsec > 1000000)

/-- `request`, with what is at `info` where it is read. -/
inductive ControlRequest where
  | clsetFdClose
  | clsetFdNclose
  | clsetTimeout (t : Timeval)
  | clgetTimeout
  | clgetServerAddr
  | clsetRetryTimeout (t : Timeval)
  | clgetRetryTimeout
  | clgetFd
  | clgetSvcAddr
  | clsetSvcAddr (addr : List UInt8)
  | clgetXid
  | clsetXid (x : BitVec 32)
  | clgetVers
  | clsetVers (vers : BitVec 32)
  | clgetProg
  | clsetProg (prog : BitVec 32)
  | other

/-- What is stored at `info`. An address is given as the bytes that it has. -/
inductive ControlInfo where
  | word (w : BitVec 32)
  | time (t : Timeval)
  | addr (bytes : List UInt8)
  | fd (fd : Int)
  deriving DecidableEq, Repr

/-- How a control returns: what it returns, what is at `info` then, and the handle. -/
abbrev Controlled (σ : Type) := Bool × Option ControlInfo × σ

section Dg

variable (order : Word.ByteOrder) (cu : CuData)

/-- `clnt_dg_control` behind the test of `info`. Without a result memory behind `cu_raddr` is
written. -/
def clntDgInfo : ControlRequest → Option (Controlled CuData)
  | .clsetTimeout t =>
      if timeNotOk t then some (false, none, cu) else some (true, none, { cu with cuTotal := t })
  | .clgetTimeout => some (true, some (.time cu.cuTotal), cu)
  | .clgetServerAddr => some (true, some (.addr (readAt cu.cuRaddr 0 cu.cuRlen)), cu)
  | .clsetRetryTimeout t =>
      if timeNotOk t then some (false, none, cu) else some (true, none, { cu with cuWait := t })
  | .clgetRetryTimeout => some (true, some (.time cu.cuWait), cu)
  | .clgetFd => some (true, some (.fd cu.cuFd), cu)
  | .clgetSvcAddr => some (true, some (.addr (readAt cu.cuRaddr 0 cu.cuRlen)), cu)
  | .clsetSvcAddr addr =>
      if addr.length < sockaddrStorage then some (false, none, cu)
      else if sockaddrStorage < addr.length then none
      else some (true, none,
        { cu with cuRaddr := writeAt cu.cuRaddr 0 addr, cuRlen := addr.length })
  | .clgetXid => some (true, some (.word (Word.ntohl order (cu.header.word order 0))), cu)
  | .clsetXid x => some (true, none,
      { cu with header := cu.header.setWord order 0 ClntHandle.xid_inside (Word.htonl order (x - 1)) })
  | .clgetVers => some (true, some (.word (Word.ntohl order (cu.header.word order 16))), cu)
  | .clsetVers vers => some (true, none,
      { cu with header := cu.header.setWord order 16 ClntHandle.vers_inside (Word.htonl order vers) })
  | .clgetProg => some (true, some (.word (Word.ntohl order (cu.header.word order 12))), cu)
  | .clsetProg prog => some (true, none,
      { cu with header := cu.header.setWord order 12 ClntHandle.prog_inside (Word.htonl order prog) })
  | _ => some (false, none, cu)

/-- `clnt_dg_control`. `info` tells whether the argument of that name is not null. -/
def clntDgControl (request : ControlRequest) (info : Bool) : Option (Controlled CuData) :=
  match request with
  | .clsetFdClose => some (true, none, { cu with cuCloseit := true })
  | .clsetFdNclose => some (true, none, { cu with cuCloseit := false })
  | _ => if info = false then some (false, none, cu) else clntDgInfo order cu request

end Dg

/-- `struct ct_data`. -/
structure CtData extends VcHandle where
  ctFd : Int
  ctCloseit : Bool
  ctWait : Timeval
  ctWaitset : Bool
  ctAddr : List UInt8

section Vc

variable (order : Word.ByteOrder) (ct : CtData)

/-- `clnt_vc_control` behind the test of `info`. -/
def clntVcInfo : ControlRequest → Controlled CtData
  | .clsetTimeout t =>
      if timeNotOk t then (false, none, ct)
      else (true, none, { ct with ctWait := t, ctWaitset := true })
  | .clgetTimeout => (true, some (.time ct.ctWait), ct)
  | .clgetServerAddr => (true, some (.addr ct.ctAddr), ct)
  | .clgetFd => (true, some (.fd ct.ctFd), ct)
  | .clgetSvcAddr => (true, some (.addr ct.ctAddr), ct)
  | .clgetXid => (true, some (.word (Word.ntohl order (ct.header.word order 0))), ct)
  | .clsetXid x => (true, none,
      { ct with header := ct.header.setWord order 0 ClntHandle.xid_inside (Word.htonl order (x + 1)) })
  | .clgetVers => (true, some (.word (Word.ntohl order (ct.header.word order 16))), ct)
  | .clsetVers vers => (true, none,
      { ct with header := ct.header.setWord order 16 ClntHandle.vers_inside (Word.htonl order vers) })
  | .clgetProg => (true, some (.word (Word.ntohl order (ct.header.word order 12))), ct)
  | .clsetProg prog => (true, none,
      { ct with header := ct.header.setWord order 12 ClntHandle.prog_inside (Word.htonl order prog) })
  | _ => (false, none, ct)

/-- `clnt_vc_control`. -/
def clntVcControl (request : ControlRequest) (info : Bool) : Controlled CtData :=
  match request with
  | .clsetFdClose => (true, none, { ct with ctCloseit := true })
  | .clsetFdNclose => (true, none, { ct with ctCloseit := false })
  | _ => if info = false then (false, none, ct) else clntVcInfo order ct request

end Vc

/-! ### The calls in between -/

/-- What is seen of a message: where it is sent, and the header that it begins with. -/
structure SentCall where
  addr : List UInt8
  header : List UInt8

/-- The arguments of `clnt_dg_call`, and what it meets. -/
structure DgCallArgs where
  req : DgCallRequest
  passes : Nat → DgPass
  starttime : Timeval

/-- The arguments of `clnt_vc_call`, and what it meets. -/
structure VcCallArgs (ρ : Type) where
  req : VcRequest ρ
  passes : Nat → VcPass
  timeout : Timeval

/-- The message of a `sendto`. -/
def DgEvent.sent : DgEvent → Option SentCall
  | sendto addr message => some { addr := addr, header := message.take 20 }
  | _ => none

/-- The messages of `clnt_dg_call`, and the handle behind it. -/
def CuData.call (order : Word.ByteOrder) (args : DgCallArgs) (cu : CuData) :
    List SentCall × CuData :=
  let r := clntDgCall order args.req args.passes args.starttime cu
  (r.1.filterMap DgEvent.sent, r.2.2)

/-- The headers that are put in the passes of `vcCallAgain`. -/
def vcHeaders {ρ : Type} (req : VcRequest ρ) (order : Word.ByteOrder) :
    Nat → (Nat → VcPass) → VcHandle → List ClntHandle
  | refreshes, passes, h =>
      let header := h.header.callPass order
      let r := vcPass req (passes 0) (h.header.sentXid order) header h.strm
      let h' : VcHandle := { header := header, strm := r.2 }
      header ::
        match r.1, refreshes with
        | .refused _, refreshes + 1 =>
            if (passes 0).refresh then vcHeaders req order refreshes (fun i => passes (i + 1)) h'
            else []
        | _, _ => []

/-- The messages of `clnt_vc_call`, and the handle behind it. -/
def CtData.call {ρ : Type} (order : Word.ByteOrder) (args : VcCallArgs ρ) (ct : CtData) :
    List SentCall × CtData :=
  let ctWait := if ct.ctWaitset = false ∧ timeNotOk args.timeout = false then args.timeout
    else ct.ctWait
  let req := { args.req with
    noWait := decide (args.timeout.tvSec = 0 ∧ args.timeout.tvUsec = 0) }
  ((vcHeaders req order 2 args.passes ct.toVcHandle).map fun header =>
      { addr := ct.ctAddr, header := header.mcallc },
    { ct with
      toVcHandle := (clntVcCall req order args.passes ct.toVcHandle).2
      ctWait := ctWait })

/-! ### Independent settings -/

/-- What can be read from a handle. -/
inductive ClntAttr where
  | xid
  | vers
  | prog
  | timeout
  | retryTimeout
  | svcAddr
  | fd
  deriving DecidableEq, Repr

namespace ClntAttr

def getter : ClntAttr → ControlRequest
  | xid => .clgetXid
  | vers => .clgetVers
  | prog => .clgetProg
  | timeout => .clgetTimeout
  | retryTimeout => .clgetRetryTimeout
  | svcAddr => .clgetSvcAddr
  | fd => .clgetFd

/-- Where in the header the attribute is. -/
def offset : ClntAttr → Option Nat
  | xid => some 0
  | prog => some 12
  | vers => some 16
  | _ => none

end ClntAttr

/-- The attribute that a request sets, and to what. -/
def ControlRequest.sets : ControlRequest → Option (ClntAttr × ControlInfo)
  | clsetTimeout t => some (.timeout, .time t)
  | clsetRetryTimeout t => some (.retryTimeout, .time t)
  | clsetSvcAddr addr => some (.svcAddr, .addr addr)
  | clsetVers vers => some (.vers, .word vers)
  | clsetProg prog => some (.prog, .word prog)
  | _ => none

/-- What is done with a handle. -/
inductive ClientOp (κ : Type) where
  | control (request : ControlRequest) (info : Bool)
  | call (args : κ)

/-- What has been set last. -/
abbrev Settings := ClntAttr → Option ControlInfo

namespace Settings

/-- The settings behind a request that is accepted or refused. -/
def after (set : Settings) (request : ControlRequest) (accepted : Bool) : Settings :=
  match request.sets with
  | some (a, v) => if accepted then Function.update set a (some v) else set
  | none => set

/-- A message has the program and the version, and it is sent to the address. -/
structure Carries (set : Settings) (sent : SentCall) : Prop where
  prog : ∀ p, set .prog = some (.word p) → readAt sent.header 12 4 = Word.toBytes p
  vers : ∀ v, set .vers = some (.word v) → readAt sent.header 16 4 = Word.toBytes v
  svcAddr : ∀ addr, set .svcAddr = some (.addr addr) → sent.addr = addr

end Settings

/-- A kind of client, by its operations, the words of its header, and the storage that there is
for an address where one can be set. -/
structure ClntKindOps (σ κ : Type) where
  control : ControlRequest → Bool → σ → Option (Controlled σ)
  call : κ → σ → List SentCall × σ
  word : Nat → σ → BitVec 32
  storage : Option Nat

namespace ClntKindOps

variable {σ κ : Type} (ops : ClntKindOps σ κ)

/-- What an attribute reads as. -/
def get (a : ClntAttr) (h : σ) : Option (Bool × Option ControlInfo) :=
  (ops.control a.getter true h).map fun r => (r.1, r.2.1)

/-- Everything reads as it has been set. -/
def Kept (set : Settings) (h : σ) : Prop :=
  ∀ a v, set a = some v → ops.control a.getter true h = some (true, some v, h)

/-- A control changes what it is to change, or nothing. -/
structure ControlRight (request : ControlRequest) (info : Bool) (h : σ) (r : Controlled σ) :
    Prop where
  refused : r.1 = false → r.2.2 = h
  others : r.1 = true → ∀ a v, request.sets = some (a, v) → ∀ b, b ≠ a →
    ops.get b r.2.2 = ops.get b h
  words : r.1 = true → ∀ a v, request.sets = some (a, v) → ∀ off ∈ [0, 4, 8, 12, 16],
    a.offset ≠ some off → ops.word off r.2.2 = ops.word off h
  accepts : ∀ addr n, request = .clsetSvcAddr addr → info = true → ops.storage = some n →
    addr.length ≤ n → r.1 = true

/-- Along some controls and calls everything reads as it has been set, no memory is written behind
a field, and the messages carry what has been set. -/
def Independent : Settings → σ → List (ClientOp κ) → Prop
  | set, h, [] => ops.Kept set h
  | set, h, .control request info :: rest =>
      ops.Kept set h ∧ ∃ r, ops.control request info h = some r ∧
        ops.ControlRight request info h r ∧ Independent (set.after request r.1) r.2.2 rest
  | set, h, .call args :: rest =>
      ops.Kept set h ∧ (∀ sent ∈ (ops.call args h).1, set.Carries sent) ∧
        Independent set (ops.call args h).2 rest

end ClntKindOps

/-- The datagram client. -/
def dgClient (order : Word.ByteOrder) : ClntKindOps CuData DgCallArgs where
  control request info cu := clntDgControl order cu request info
  call args cu := cu.call order args
  word off cu := cu.header.word order off
  storage := some sockaddrStorage

/-- The connection-oriented client. -/
def vcClient (order : Word.ByteOrder) (ρ : Type) : ClntKindOps CtData (VcCallArgs ρ) where
  control request info ct := some (clntVcControl order ct request info)
  call args ct := ct.call order args
  word off ct := ct.header.word order off
  storage := none

/-! ### What calls leave of the header -/

namespace ClntHandle

variable {order : Word.ByteOrder}

/-- Everything behind the transaction id is the same. -/
def KeepsBehind (h h' : ClntHandle) : Prop :=
  ∀ off n, 4 ≤ off → readAt h'.mcallc off n = readAt h.mcallc off n

theorem KeepsBehind.refl (h : ClntHandle) : KeepsBehind h h := fun _ _ _ => rfl

theorem KeepsBehind.trans {h h' h'' : ClntHandle} (hFirst : KeepsBehind h h')
    (hNext : KeepsBehind h' h'') : KeepsBehind h h'' := fun off n hOff =>
  (hNext off n hOff).trans (hFirst off n hOff)

theorem keepsBehind_callPass (h : ClntHandle) : KeepsBehind h (h.callPass order) :=
  fun _ _ hOff => h.readAt_setWord_of_apart (by decide) (Or.inr hOff) _

theorem KeepsBehind.word_eq {h h' : ClntHandle} (hKeeps : KeepsBehind h h') {off : Nat}
    (hOff : 4 ≤ off) : h'.word order off = h.word order off := by
  rw [word, hKeeps off 4 hOff, word]

/-- A word of the header is on the wire as its value in network order. -/
theorem readAt_of_ntohl (h : ClntHandle) {off : Nat} (hOff : off + 4 ≤ 20) {w : BitVec 32}
    (hWord : Word.ntohl order (h.word order off) = w) :
    readAt h.mcallc off 4 = Word.toBytes w := by
  have hLen : (readAt h.mcallc off 4).length = 4 :=
    length_readAt_of_le (by rw [h.size]; exact hOff)
  unfold Word.ntohl word at hWord
  rw [Word.store_load order hLen] at hWord
  rw [← hWord, Word.toBytes_ofBytes hLen]

end ClntHandle

/-- A call leaves everything of a handle but its buffers and the transaction id. -/
structure CuData.Keeps (cu cu' : CuData) : Prop where
  header : cu.header.KeepsBehind cu'.header
  others : { cu' with header := cu.header, cuInbuf := cu.cuInbuf } = cu

/-- A message goes to the address of a handle with its header, but for the transaction id. -/
structure CuData.Sends (cu : CuData) (sent : SentCall) : Prop where
  addr : sent.addr = readAt cu.cuRaddr 0 cu.cuRlen
  header : ∃ h, cu.header.KeepsBehind h ∧ sent.header = h.mcallc

section Dg

variable {order : Word.ByteOrder} {req : DgCallRequest} {timeout starttime : Timeval}
  {passes : Nat → DgPass} {cu cu' cu'' : CuData}

theorem CuData.Keeps.trans (h : cu.Keeps cu') (h' : cu'.Keeps cu'') : cu.Keeps cu'' where
  header := h.header.trans h'.header
  others := by
    have hOthers := h.others
    rw [← h'.others] at hOthers
    exact hOthers

theorem CuData.Keeps.sends (h : cu.Keeps cu') {sent : SentCall} (hSent : cu'.Sends sent) :
    cu.Sends sent where
  addr := by
    rw [hSent.addr, ← h.others]
  header := by
    obtain ⟨h', hKeeps, hEq⟩ := hSent.header
    exact ⟨h', h.header.trans hKeeps, hEq⟩

/-- The messages of a pass begin with the header. -/
theorem sends_of_dgPass {pass : DgPass} {body : List UInt8} {w : DgWait} {sent : SentCall}
    (hSent : sent ∈ (dgPass cu req timeout starttime (cu.header.mcallc ++ body).length pass
      { w with mem := cu.cuInbuf ++ (cu.header.mcallc ++ body) }).1.filterMap DgEvent.sent) :
    cu.Sends sent := by
  have hSize := cu.header.size
  have hXid : 4 ≤ (cu.header.mcallc ++ body).length := by
    rw [List.length_append, hSize]
    omega
  have hHolds : HoldsMessage cu (cu.header.mcallc ++ body)
      { w with mem := cu.cuInbuf ++ (cu.header.mcallc ++ body) }.mem := .start cu hXid
  obtain ⟨-, hMessages⟩ := hHolds.dgPass req pass timeout starttime
  obtain ⟨e, hMem, hEvent⟩ := List.mem_filterMap.mp hSent
  rcases e with ⟨a, m⟩ | ts | d | now
  · obtain ⟨rfl, rfl⟩ := hMessages a m hMem
    cases hEvent
    refine ⟨rfl, cu.header, .refl _, ?_⟩
    rw [List.take_append_of_le_length hSize.ge, List.take_of_length_le hSize.le]
  all_goals cases hEvent

variable (order req timeout starttime passes cu)

/-- A call is a pass whose message is not sent, the last pass, or a pass with more behind it. -/
theorem dgCallAgain_cases (refreshes : Nat) (w : DgWait) :
    let cu₁ : CuData := { cu with header := cu.header.callPass order }
    let c := dgCallAgain order req timeout starttime refreshes passes cu w
    (c.1 = [] ∧ c.2.2 = cu₁) ∨ ∃ body inbuf,
      let r := dgPass cu₁ req timeout starttime (cu₁.header.mcallc ++ body).length (passes 0)
        { w with mem := cu₁.cuInbuf ++ (cu₁.header.mcallc ++ body) }
      (c.1 = r.1 ∧ c.2.2 = { cu₁ with cuInbuf := inbuf }) ∨ ∃ n, refreshes = n + 1 ∧
        let rest := dgCallAgain order req timeout starttime n (fun i => passes (i + 1))
          { cu₁ with cuInbuf := inbuf } r.2.2
        c.1 = r.1 ++ rest.1 ∧ c.2.2 = rest.2.2 := by
  rw [dgCallAgain]
  dsimp only
  split
  · exact Or.inl ⟨rfl, rfl⟩
  · rename_i body hBody
    refine Or.inr ⟨body, (dgPass { cu with header := cu.header.callPass order } req timeout
      starttime ((cu.header.callPass order).mcallc ++ body).length (passes 0)
      { w with mem := cu.cuInbuf ++ ((cu.header.callPass order).mcallc ++ body) }).2.2.mem.take
        cu.cuInbuf.length, ?_⟩
    split
    · exact Or.inl ⟨rfl, rfl⟩
    · exact Or.inl ⟨rfl, rfl⟩
    · exact Or.inl ⟨rfl, rfl⟩
    · split
      · exact Or.inr ⟨_, rfl, rfl, rfl⟩
      · exact Or.inl ⟨rfl, rfl⟩

/-- What the messages of a call are, and what is left of the handle. -/
theorem dgCallAgain_keeps (refreshes : Nat) (w : DgWait) :
    let r := dgCallAgain order req timeout starttime refreshes passes cu w
    cu.Keeps r.2.2 ∧ ∀ sent ∈ r.1.filterMap DgEvent.sent, cu.Sends sent := by
  induction refreshes using Nat.strong_induction_on generalizing passes cu w with
  | _ refreshes ih =>
      have hStep : cu.Keeps { cu with header := cu.header.callPass order } :=
        ⟨cu.header.keepsBehind_callPass, rfl⟩
      have hCases := dgCallAgain_cases order req timeout starttime passes cu refreshes w
      dsimp only at hCases ⊢
      rcases hCases with ⟨hEvents, hCu⟩ | ⟨body, inbuf, hPass⟩
      · rw [hEvents, hCu]
        exact ⟨hStep, fun sent hSent => absurd hSent List.not_mem_nil⟩
      · have hEnd : cu.Keeps
            { cu with header := cu.header.callPass order, cuInbuf := inbuf } :=
          ⟨hStep.header, rfl⟩
        rcases hPass with ⟨hEvents, hCu⟩ | ⟨n, rfl, hEvents, hCu⟩
        · rw [hEvents, hCu]
          exact ⟨hEnd, fun sent hSent => hStep.sends (sends_of_dgPass hSent)⟩
        · rw [hEvents, hCu]
          obtain ⟨hRest, hSends⟩ := ih n (Nat.lt_succ_self n) (fun i => passes (i + 1))
            { cu with header := cu.header.callPass order, cuInbuf := inbuf }
            (dgPass { cu with header := cu.header.callPass order } req timeout starttime
              ((cu.header.callPass order).mcallc ++ body).length (passes 0)
              { w with mem := cu.cuInbuf ++ ((cu.header.callPass order).mcallc ++ body) }).2.2
          refine ⟨hEnd.trans hRest, fun sent hSent => ?_⟩
          rw [List.filterMap_append] at hSent
          rcases List.mem_append.mp hSent with hSent | hSent
          · exact hStep.sends (sends_of_dgPass hSent)
          · exact hEnd.sends (hSends sent hSent)

end Dg

section Vc

variable {ρ : Type} {req : VcRequest ρ} {order : Word.ByteOrder} {passes : Nat → VcPass}

theorem vcHeaders_keeps (refreshes : Nat) (h : VcHandle) :
    ∀ header ∈ vcHeaders req order refreshes passes h, h.header.KeepsBehind header := by
  induction refreshes generalizing passes h with
  | zero =>
      intro header hMem
      unfold vcHeaders at hMem
      dsimp only at hMem
      rcases List.mem_cons.mp hMem with rfl | hMem
      · exact h.header.keepsBehind_callPass
      · split at hMem
        · contradiction
        · cases hMem
  | succ refreshes ih =>
      intro header hMem
      unfold vcHeaders at hMem
      dsimp only at hMem
      rcases List.mem_cons.mp hMem with rfl | hMem
      · exact h.header.keepsBehind_callPass
      · split at hMem
        · rename_i hRefreshes
          cases hRefreshes
          split at hMem
          · exact h.header.keepsBehind_callPass.trans (ih _ header hMem)
          · cases hMem
        · cases hMem

variable (req order passes) in
theorem vcCallAgain_keeps (refreshes : Nat) (h : VcHandle) :
    h.header.KeepsBehind (vcCallAgain req order refreshes passes h).2.header := by
  induction refreshes generalizing passes h with
  | zero =>
      unfold vcCallAgain
      dsimp only
      split
      · exact h.header.keepsBehind_callPass
      · exact h.header.keepsBehind_callPass
      · contradiction
  | succ refreshes ih =>
      unfold vcCallAgain
      dsimp only
      split
      · exact h.header.keepsBehind_callPass
      · contradiction
      · rename_i hRefreshes
        cases hRefreshes
        split
        · exact h.header.keepsBehind_callPass.trans (ih _ _)
        · exact h.header.keepsBehind_callPass

end Vc

/-! ### The controls one by one -/

namespace ClntKindOps

variable {σ κ : Type} {ops : ClntKindOps σ κ}

/-- What is to be shown of a kind of client: an invariant of the settings and the handle that every
call keeps, and every control that is good. -/
structure Keeps (ops : ClntKindOps σ κ) (inv : Settings → σ → Prop)
    (good : ControlRequest → Bool → Prop) : Prop where
  kept : ∀ {set h}, inv set h → ops.Kept set h
  control : ∀ {set h request info}, inv set h → good request info →
    ∃ r, ops.control request info h = some r ∧ ops.ControlRight request info h r ∧
      inv (set.after request r.1) r.2.2
  call : ∀ {set h} (args), inv set h →
    (∀ sent ∈ (ops.call args h).1, set.Carries sent) ∧ inv set (ops.call args h).2

theorem Keeps.independent {inv : Settings → σ → Prop} {good : ControlRequest → Bool → Prop}
    (hKeeps : ops.Keeps inv good) {set : Settings} {h : σ} (hInv : inv set h)
    {rest : List (ClientOp κ)} (hGood : ∀ request info, .control request info ∈ rest →
      good request info) : ops.Independent set h rest := by
  induction rest generalizing set h with
  | nil => exact hKeeps.kept hInv
  | cons op rest ih =>
      have hRest : ∀ request info, .control request info ∈ rest → good request info :=
        fun request info hMem => hGood request info (List.mem_cons_of_mem _ hMem)
      cases op with
      | control request info =>
          obtain ⟨r, hRun, hRight, hNext⟩ :=
            hKeeps.control hInv (hGood request info List.mem_cons_self)
          exact ⟨hKeeps.kept hInv, r, hRun, hRight, ih hNext hRest⟩
      | call args =>
          obtain ⟨hSent, hNext⟩ := hKeeps.call args hInv
          exact ⟨hKeeps.kept hInv, hSent, ih hNext hRest⟩

end ClntKindOps

section DgControl

variable {order : Word.ByteOrder} {cu : CuData} {request : ControlRequest} {info : Bool}
  {set : Settings} {a : ClntAttr} {v : ControlInfo}

/-- What an attribute of a datagram client reads as. -/
def CuData.attr (order : Word.ByteOrder) (cu : CuData) : ClntAttr → ControlInfo
  | .xid => .word (Word.ntohl order (cu.header.word order 0))
  | .vers => .word (Word.ntohl order (cu.header.word order 16))
  | .prog => .word (Word.ntohl order (cu.header.word order 12))
  | .timeout => .time cu.cuTotal
  | .retryTimeout => .time cu.cuWait
  | .svcAddr => .addr (readAt cu.cuRaddr 0 cu.cuRlen)
  | .fd => .fd cu.cuFd

theorem clntDgControl_getter (a : ClntAttr) :
    clntDgControl order cu a.getter true = some (true, some (cu.attr order a), cu) := by
  cases a <;> rfl

variable (order cu) in
/-- Setting one attribute sets that and no other. -/
theorem clntDgControl_sets (hSets : request.sets = some (a, v))
    (hSize : ∀ addr, request = .clsetSvcAddr addr → addr.length = sockaddrStorage) :
    clntDgControl order cu request true = some (false, none, cu) ∧
        (∀ addr, request ≠ .clsetSvcAddr addr) ∨
      ∃ cu', clntDgControl order cu request true = some (true, none, cu') ∧
        (∀ b, cu'.attr order b = if b = a then v else cu.attr order b) ∧
        ∀ off ∈ [0, 4, 8, 12, 16], a.offset ≠ some off →
          cu'.header.word order off = cu.header.word order off := by
  cases request with
  | clsetTimeout t =>
      cases hSets
      by_cases hTime : timeNotOk t = true
      · exact Or.inl ⟨by simp [clntDgControl, clntDgInfo, hTime], nofun⟩
      · refine Or.inr ⟨{ cu with cuTotal := t }, by simp [clntDgControl, clntDgInfo, hTime],
          fun b => by cases b <;> rfl, fun _ _ _ => rfl⟩
  | clsetRetryTimeout t =>
      cases hSets
      by_cases hTime : timeNotOk t = true
      · exact Or.inl ⟨by simp [clntDgControl, clntDgInfo, hTime], nofun⟩
      · refine Or.inr ⟨{ cu with cuWait := t }, by simp [clntDgControl, clntDgInfo, hTime],
          fun b => by cases b <;> rfl, fun _ _ _ => rfl⟩
  | clsetSvcAddr addr =>
      cases hSets
      have hLen := hSize addr rfl
      have hStored : readAt (writeAt cu.cuRaddr 0 addr) 0 addr.length = addr :=
        readAt_writeAt (Nat.zero_le _)
      refine Or.inr ⟨{ cu with cuRaddr := writeAt cu.cuRaddr 0 addr, cuRlen := addr.length },
        by simp [clntDgControl, clntDgInfo, hLen], fun b => ?_, fun _ _ _ => rfl⟩
      cases b <;> simp [CuData.attr, hStored]
  | clsetVers vers =>
      cases hSets
      refine Or.inr ⟨_, rfl, fun b => ?_, fun off hMem hOther => ?_⟩
      · cases b <;> simp [CuData.attr, ClntHandle.word_setWord, ClntHandle.word_setWord_of_apart]
      · have hApart : off + 4 ≤ 16 ∨ 16 + 4 ≤ off := by
          simp [ClntAttr.offset] at hMem hOther
          omega
        exact cu.header.word_setWord_of_apart (by decide) hApart _
  | clsetProg prog =>
      cases hSets
      refine Or.inr ⟨_, rfl, fun b => ?_, fun off hMem hOther => ?_⟩
      · cases b <;> simp [CuData.attr, ClntHandle.word_setWord, ClntHandle.word_setWord_of_apart]
      · have hApart : off + 4 ≤ 12 ∨ 12 + 4 ≤ off := by
          simp [ClntAttr.offset] at hMem hOther
          omega
        exact cu.header.word_setWord_of_apart (by decide) hApart _
  | _ => cases hSets

variable (order cu) in
/-- Every other control leaves all attributes but the transaction id alone. -/
theorem clntDgControl_of_sets_none (hSets : request.sets = none) (info : Bool) :
    ∃ r, clntDgControl order cu request info = some r ∧ (r.1 = false → r.2.2 = cu) ∧
      ∀ b, b ≠ .xid → r.2.2.attr order b = cu.attr order b := by
  cases request with
  | clsetXid x =>
      rcases info with - | -
      · exact ⟨_, rfl, fun _ => rfl, fun _ _ => rfl⟩
      · refine ⟨_, rfl, nofun, fun b hb => ?_⟩
        cases b <;> simp [CuData.attr, ClntHandle.word_setWord_of_apart] at hb ⊢
  | clsetFdClose => exact ⟨_, rfl, nofun, fun b _ => by cases b <;> rfl⟩
  | clsetFdNclose => exact ⟨_, rfl, nofun, fun b _ => by cases b <;> rfl⟩
  | clsetTimeout | clsetRetryTimeout | clsetSvcAddr | clsetVers | clsetProg => cases hSets
  | _ => cases info <;> exact ⟨_, rfl, fun _ => rfl, fun _ _ => rfl⟩

theorem clntDgControl_null (hSets : request.sets = some (a, v)) :
    clntDgControl order cu request false = some (false, none, cu) := by
  cases request <;> cases hSets <;> rfl

/-- What has been set is what the handle has, and the transaction id has not been set. -/
def CuData.Shows (order : Word.ByteOrder) (set : Settings) (cu : CuData) : Prop :=
  ∀ a v, set a = some v → a ≠ .xid ∧ cu.attr order a = v

/-- An address is set that fills the storage. -/
def FillsStorage (request : ControlRequest) (info : Bool) : Prop :=
  ∀ addr, request = .clsetSvcAddr addr → info = true → addr.length = sockaddrStorage

theorem ControlRequest.ne_xid_of_sets (hSets : request.sets = some (a, v)) : a ≠ .xid := by
  cases request <;> cases hSets <;> exact nofun

theorem Settings.after_of_sets (set : Settings) (hSets : request.sets = some (a, v)) :
    set.after request true = Function.update set a (some v) := by
  rw [Settings.after, hSets]
  rfl

theorem Settings.after_refused (set : Settings) (request : ControlRequest) :
    set.after request false = set := by
  unfold Settings.after
  split <;> rfl

theorem Settings.after_of_sets_none (set : Settings) (hSets : request.sets = none)
    (accepted : Bool) : set.after request accepted = set := by
  rw [Settings.after, hSets]

theorem dgClient_controlRight (hShows : cu.Shows order set) (hGood : FillsStorage request info) :
    ∃ r, clntDgControl order cu request info = some r ∧
      (dgClient order).ControlRight request info cu r ∧
      r.2.2.Shows order (set.after request r.1) := by
  rcases hSets : request.sets with - | ⟨a, v⟩
  · obtain ⟨r, hRun, hRefused, hSame⟩ := clntDgControl_of_sets_none order cu hSets info
    refine ⟨r, hRun, ⟨hRefused, ?_, ?_, ?_⟩, ?_⟩
    · intro _ a v hSome
      rw [hSets] at hSome
      cases hSome
    · intro _ a v hSome
      rw [hSets] at hSome
      cases hSome
    · rintro addr n rfl
      cases hSets
    · rw [set.after_of_sets_none hSets]
      intro a v hSet
      obtain ⟨hXid, hAttr⟩ := hShows a v hSet
      exact ⟨hXid, (hSame a hXid).trans hAttr⟩
  · rcases info with - | -
    · refine ⟨_, clntDgControl_null hSets, ⟨fun _ => rfl, nofun, nofun, nofun⟩, ?_⟩
      rw [set.after_refused]
      exact hShows
    · have hSize : ∀ addr, request = .clsetSvcAddr addr → addr.length = sockaddrStorage :=
        fun addr hRequest => hGood addr hRequest rfl
      rcases clntDgControl_sets order cu hSets hSize with
        ⟨hRun, hNoAddr⟩ | ⟨cu', hRun, hAttr, hWords⟩
      · refine ⟨_, hRun, ⟨fun _ => rfl, nofun, nofun, fun addr n hAddr => ?_⟩, ?_⟩
        · exact absurd hAddr (hNoAddr addr)
        · rw [set.after_refused]
          exact hShows
      · refine ⟨_, hRun, ⟨nofun, fun _ a' v' hSome b hb => ?_, fun _ a' v' hSome => ?_,
          fun _ _ _ _ _ _ => rfl⟩, ?_⟩
        · rw [hSets] at hSome
          cases hSome
          show ((clntDgControl order cu' b.getter true).map fun r => (r.1, r.2.1)) =
            (clntDgControl order cu b.getter true).map fun r => (r.1, r.2.1)
          rw [clntDgControl_getter, clntDgControl_getter, hAttr, if_neg hb]
          rfl
        · rw [hSets] at hSome
          cases hSome
          exact hWords
        · rw [set.after_of_sets hSets]
          intro b u hSet
          by_cases hb : b = a
          · subst hb
            rw [Function.update_self] at hSet
            cases hSet
            exact ⟨ControlRequest.ne_xid_of_sets hSets, by rw [hAttr, if_pos rfl]⟩
          · rw [Function.update_of_ne hb] at hSet
            obtain ⟨hXid, hOld⟩ := hShows b u hSet
            exact ⟨hXid, by rw [hAttr, if_neg hb, hOld]⟩

theorem CuData.Shows.keeps {cu' : CuData} (hShows : cu.Shows order set) (hKeeps : cu.Keeps cu') :
    cu'.Shows order set := by
  intro a v hSet
  obtain ⟨hXid, hAttr⟩ := hShows a v hSet
  refine ⟨hXid, ?_⟩
  rw [← hAttr, ← hKeeps.others]
  cases a with
  | xid => exact absurd rfl hXid
  | vers =>
      exact congrArg (fun w => ControlInfo.word (Word.ntohl order w))
        (hKeeps.header.word_eq (by decide))
  | prog =>
      exact congrArg (fun w => ControlInfo.word (Word.ntohl order w))
        (hKeeps.header.word_eq (by decide))
  | timeout => rfl
  | retryTimeout => rfl
  | svcAddr => rfl
  | fd => rfl

theorem CuData.Shows.carries (hShows : cu.Shows order set) {sent : SentCall}
    (hSent : cu.Sends sent) : set.Carries sent := by
  obtain ⟨header, hKeeps, hHeader⟩ := hSent.header
  refine ⟨fun p hSet => ?_, fun v hSet => ?_, fun addr hSet => ?_⟩
  · have hWord := ControlInfo.word.inj (hShows .prog _ hSet).2
    rw [hHeader, hKeeps 12 4 (by decide)]
    exact cu.header.readAt_of_ntohl (by decide) hWord
  · have hWord := ControlInfo.word.inj (hShows .vers _ hSet).2
    rw [hHeader, hKeeps 16 4 (by decide)]
    exact cu.header.readAt_of_ntohl (by decide) hWord
  · rw [hSent.addr]
    exact ControlInfo.addr.inj (hShows .svcAddr _ hSet).2

theorem dgClient_keeps (order : Word.ByteOrder) :
    (dgClient order).Keeps (fun set cu => cu.Shows order set) FillsStorage where
  kept := fun hShows a v hSet => by
    rw [← (hShows a v hSet).2]
    exact clntDgControl_getter a
  control := dgClient_controlRight
  call := fun {set cu} args hShows => by
    obtain ⟨hKeeps, hSends⟩ := dgCallAgain_keeps order args.req (cu.timeout args.req)
      args.starttime args.passes cu 2
      { mem := [], timeWaited := zero, retransmitTime := cu.cuWait, nextSendtime := cu.cuWait }
    exact ⟨fun sent hSent => hShows.carries (hSends sent hSent), hShows.keeps hKeeps⟩

/-- Without a result, or without an accepted address, the control is not right. -/
theorem fillsStorage_of_right {r : Controlled CuData}
    (hRun : clntDgControl order cu request info = some r)
    (hRight : (dgClient order).ControlRight request info cu r) : FillsStorage request info := by
  rintro addr rfl rfl
  by_cases hShort : addr.length < sockaddrStorage
  · have hRefused : clntDgControl order cu (.clsetSvcAddr addr) true = some (false, none, cu) := by
      simp [clntDgControl, clntDgInfo, hShort]
    rw [hRefused] at hRun
    cases hRun
    have hAccepted := hRight.accepts addr sockaddrStorage rfl rfl rfl hShort.le
    cases hAccepted
  · by_cases hLong : sockaddrStorage < addr.length
    · have hNone : clntDgControl order cu (.clsetSvcAddr addr) true = none := by
        simp [clntDgControl, clntDgInfo, hShort, hLong]
      rw [hNone] at hRun
      cases hRun
    · omega

theorem fillsStorage_of_independent {rest : List (ClientOp DgCallArgs)}
    (h : (dgClient order).Independent set cu rest) :
    ∀ request info, .control request info ∈ rest → FillsStorage request info := by
  induction rest generalizing set cu with
  | nil => exact fun request info hMem => absurd hMem List.not_mem_nil
  | cons op rest ih =>
      intro request info hMem
      cases op with
      | control request' info' =>
          obtain ⟨-, r, hRun, hRight, hRest⟩ := h
          rcases List.mem_cons.mp hMem with hHere | hThere
          · cases hHere
            exact fillsStorage_of_right hRun hRight
          · exact ih hRest request info hThere
      | call args =>
          obtain ⟨-, -, hRest⟩ := h
          rcases List.mem_cons.mp hMem with hHere | hThere
          · cases hHere
          · exact ih hRest request info hThere

end DgControl

section VcControl

variable {order : Word.ByteOrder} {ct : CtData} {request : ControlRequest} {info : Bool}
  {set : Settings} {a : ClntAttr} {v : ControlInfo}

/-- What an attribute of a connection-oriented client reads as. There is no retry timeout. -/
def CtData.attr (order : Word.ByteOrder) (ct : CtData) : ClntAttr → Option ControlInfo
  | .xid => some (.word (Word.ntohl order (ct.header.word order 0)))
  | .vers => some (.word (Word.ntohl order (ct.header.word order 16)))
  | .prog => some (.word (Word.ntohl order (ct.header.word order 12)))
  | .timeout => some (.time ct.ctWait)
  | .retryTimeout => none
  | .svcAddr => some (.addr ct.ctAddr)
  | .fd => some (.fd ct.ctFd)

theorem clntVcControl_getter (a : ClntAttr) :
    clntVcControl order ct a.getter true = ((ct.attr order a).isSome, ct.attr order a, ct) := by
  cases a <;> rfl

variable (order ct) in
theorem clntVcControl_sets (hSets : request.sets = some (a, v)) :
    clntVcControl order ct request true = (false, none, ct) ∨
      ∃ ct', clntVcControl order ct request true = (true, none, ct') ∧
        (∀ b, ct'.attr order b = if b = a then some v else ct.attr order b) ∧
        (ct'.ctWaitset = (ct.ctWaitset || decide (a = .timeout))) ∧ a ≠ .svcAddr ∧
        ∀ off ∈ [0, 4, 8, 12, 16], a.offset ≠ some off →
          ct'.header.word order off = ct.header.word order off := by
  cases request with
  | clsetTimeout t =>
      cases hSets
      by_cases hTime : timeNotOk t = true
      · exact Or.inl (by simp [clntVcControl, clntVcInfo, hTime])
      · refine Or.inr ⟨{ ct with ctWait := t, ctWaitset := true },
          by simp [clntVcControl, clntVcInfo, hTime], fun b => by cases b <;> rfl, by simp, nofun,
          fun _ _ _ => rfl⟩
  | clsetRetryTimeout t =>
      cases hSets
      exact Or.inl rfl
  | clsetSvcAddr addr =>
      cases hSets
      exact Or.inl rfl
  | clsetVers vers =>
      cases hSets
      refine Or.inr ⟨_, rfl, fun b => ?_, by simp, nofun, fun off hMem hOther => ?_⟩
      · cases b <;> simp [CtData.attr, ClntHandle.word_setWord, ClntHandle.word_setWord_of_apart]
      · have hApart : off + 4 ≤ 16 ∨ 16 + 4 ≤ off := by
          simp [ClntAttr.offset] at hMem hOther
          omega
        exact ct.header.word_setWord_of_apart (by decide) hApart _
  | clsetProg prog =>
      cases hSets
      refine Or.inr ⟨_, rfl, fun b => ?_, by simp, nofun, fun off hMem hOther => ?_⟩
      · cases b <;> simp [CtData.attr, ClntHandle.word_setWord, ClntHandle.word_setWord_of_apart]
      · have hApart : off + 4 ≤ 12 ∨ 12 + 4 ≤ off := by
          simp [ClntAttr.offset] at hMem hOther
          omega
        exact ct.header.word_setWord_of_apart (by decide) hApart _
  | _ => cases hSets

variable (order ct) in
theorem clntVcControl_of_sets_none (hSets : request.sets = none) (info : Bool) :
    let r := clntVcControl order ct request info
    (r.1 = false → r.2.2 = ct) ∧ r.2.2.ctWaitset = ct.ctWaitset ∧
      ∀ b, b ≠ .xid → r.2.2.attr order b = ct.attr order b := by
  cases request with
  | clsetXid x =>
      rcases info with - | -
      · exact ⟨fun _ => rfl, rfl, fun _ _ => rfl⟩
      · refine ⟨nofun, rfl, fun b hb => ?_⟩
        cases b <;> simp [clntVcControl, clntVcInfo, CtData.attr,
          ClntHandle.word_setWord_of_apart] at hb ⊢
  | clsetFdClose => exact ⟨nofun, rfl, fun b _ => by cases b <;> rfl⟩
  | clsetFdNclose => exact ⟨nofun, rfl, fun b _ => by cases b <;> rfl⟩
  | clsetTimeout | clsetRetryTimeout | clsetSvcAddr | clsetVers | clsetProg => cases hSets
  | _ => cases info <;> exact ⟨fun _ => rfl, rfl, fun _ _ => rfl⟩

theorem clntVcControl_null (hSets : request.sets = some (a, v)) :
    clntVcControl order ct request false = (false, none, ct) := by
  cases request <;> cases hSets <;> rfl

/-- What has been set is what the handle has. A timeout that has been set is not set by a call. -/
structure CtData.Shows (order : Word.ByteOrder) (set : Settings) (ct : CtData) : Prop where
  attr : ∀ a v, set a = some v → a ≠ .xid ∧ a ≠ .svcAddr ∧ ct.attr order a = some v
  waitset : ∀ v, set .timeout = some v → ct.ctWaitset = true

theorem vcClient_controlRight (ρ : Type) (hShows : ct.Shows order set) :
    ∃ r, (vcClient order ρ).control request info ct = some r ∧
      (vcClient order ρ).ControlRight request info ct r ∧
      r.2.2.Shows order (set.after request r.1) := by
  refine ⟨_, rfl, ?_⟩
  rcases hSets : request.sets with - | ⟨a, v⟩
  · obtain ⟨hRefused, hWaitset, hSame⟩ := clntVcControl_of_sets_none order ct hSets info
    refine ⟨⟨hRefused, ?_, ?_, nofun⟩, ?_⟩
    · intro _ a v hSome
      rw [hSets] at hSome
      cases hSome
    · intro _ a v hSome
      rw [hSets] at hSome
      cases hSome
    · rw [set.after_of_sets_none hSets]
      refine ⟨fun a v hSet => ?_, fun v hSet => hWaitset.trans (hShows.waitset v hSet)⟩
      obtain ⟨hXid, hAddr, hAttr⟩ := hShows.attr a v hSet
      exact ⟨hXid, hAddr, (hSame a hXid).trans hAttr⟩
  · rcases info with - | -
    · rw [clntVcControl_null hSets]
      refine ⟨⟨fun _ => rfl, nofun, nofun, nofun⟩, ?_⟩
      rw [set.after_refused]
      exact hShows
    · rcases clntVcControl_sets order ct hSets with
        hRun | ⟨ct', hRun, hAttr, hWaitset, hAddr, hWords⟩
      · rw [hRun]
        refine ⟨⟨fun _ => rfl, nofun, nofun, nofun⟩, ?_⟩
        rw [set.after_refused]
        exact hShows
      · rw [hRun]
        refine ⟨⟨nofun, fun _ a' v' hSome b hb => ?_, fun _ a' v' hSome => ?_, nofun⟩, ?_⟩
        · rw [hSets] at hSome
          cases hSome
          show some ((clntVcControl order ct' b.getter true).1,
              (clntVcControl order ct' b.getter true).2.1) =
            some ((clntVcControl order ct b.getter true).1,
              (clntVcControl order ct b.getter true).2.1)
          rw [clntVcControl_getter, clntVcControl_getter, hAttr, if_neg hb]
        · rw [hSets] at hSome
          cases hSome
          exact hWords
        · rw [set.after_of_sets hSets]
          refine ⟨fun b u hSet => ?_, fun u hSet => ?_⟩
          · by_cases hb : b = a
            · subst hb
              rw [Function.update_self] at hSet
              cases hSet
              exact ⟨ControlRequest.ne_xid_of_sets hSets, hAddr, by rw [hAttr, if_pos rfl]⟩
            · rw [Function.update_of_ne hb] at hSet
              obtain ⟨hXid, hNoAddr, hOld⟩ := hShows.attr b u hSet
              exact ⟨hXid, hNoAddr, by rw [hAttr, if_neg hb, hOld]⟩
          · show ct'.ctWaitset = true
            rw [hWaitset]
            by_cases hTimeout : a = .timeout
            · simp [hTimeout]
            · rw [Function.update_of_ne (Ne.symm hTimeout)] at hSet
              simp [hShows.waitset u hSet]

theorem vcClient_call {ρ : Type} (args : VcCallArgs ρ) (hShows : ct.Shows order set) :
    (∀ sent ∈ (ct.call order args).1, set.Carries sent) ∧
      (ct.call order args).2.Shows order set := by
  have hHeader := vcCallAgain_keeps
    { args.req with noWait := decide (args.timeout.tvSec = 0 ∧ args.timeout.tvUsec = 0) } order
    args.passes 2 ct.toVcHandle
  constructor
  · intro sent hSent
    obtain ⟨header, hMem, rfl⟩ := List.mem_map.mp hSent
    have hKeeps := vcHeaders_keeps 2 ct.toVcHandle header hMem
    refine ⟨fun p hSet => ?_, fun v hSet => ?_, fun addr hSet => ?_⟩
    · have hWord := ControlInfo.word.inj (Option.some.inj (hShows.attr .prog _ hSet).2.2)
      show readAt header.mcallc 12 4 = _
      rw [hKeeps 12 4 (by decide)]
      exact ct.header.readAt_of_ntohl (by decide) hWord
    · have hWord := ControlInfo.word.inj (Option.some.inj (hShows.attr .vers _ hSet).2.2)
      show readAt header.mcallc 16 4 = _
      rw [hKeeps 16 4 (by decide)]
      exact ct.header.readAt_of_ntohl (by decide) hWord
    · exact absurd rfl (hShows.attr .svcAddr _ hSet).2.1
  · refine ⟨fun a v hSet => ?_, fun v hSet => hShows.waitset v hSet⟩
    obtain ⟨hXid, hAddr, hAttr⟩ := hShows.attr a v hSet
    refine ⟨hXid, hAddr, ?_⟩
    rw [← hAttr]
    cases a with
    | xid => exact absurd rfl hXid
    | vers =>
        exact congrArg (fun w => some (ControlInfo.word (Word.ntohl order w)))
          (hHeader.word_eq (by decide))
    | prog =>
        exact congrArg (fun w => some (ControlInfo.word (Word.ntohl order w)))
          (hHeader.word_eq (by decide))
    | timeout =>
        have hWait : (ct.call order args).2.ctWait = ct.ctWait := by
          simp [CtData.call, hShows.waitset v hSet]
        exact congrArg (fun t => some (ControlInfo.time t)) hWait
    | retryTimeout => rfl
    | svcAddr => rfl
    | fd => rfl

theorem vcClient_keeps (order : Word.ByteOrder) (ρ : Type) :
    (vcClient order ρ).Keeps (fun set ct => ct.Shows order set) (fun _ _ => True) where
  kept := fun {set ct} hShows a v hSet => by
    show some (clntVcControl order ct a.getter true) = _
    rw [clntVcControl_getter, (hShows.attr a v hSet).2.2]
    rfl
  control := fun hShows _ => vcClient_controlRight ρ hShows
  call := fun args hShows => vcClient_call args hShows

end VcControl

end OncRpc
