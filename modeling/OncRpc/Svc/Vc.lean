import OncRpc.Rec.Reassembly
import OncRpc.Rpc.Placement

/-! `svc_vc.c`: a connection on which a client calls. In non-blocking mode two hands
drive the reassembly of its stream, `svc_vc_recv` itself and the `xdrrec_skiprecord`
in it, and the messages are the client's as long as the second one finds no header. -/
namespace OncRpc

open Fallible RecordMarking RecStrm

/-- `struct cf_conn`. -/
structure CfConn where
  strmStat : XprtStat
  xId : BitVec 32
  xdrs : RecStrm
  nonblock : Bool

/-- The part of `svc_vc_recv` that both modes share. -/
def svcVcDecode (msg : RpcMsg) (cd : CfConn) : Option RpcMsg × CfConn :=
  match (xdrCallmsg .decode msg).run (xdrrecSkiprecord.run cd.xdrs).2 with
  | (some msg, xdrs) => (some msg, { cd with xdrs := xdrs, xId := msg.rmXid })
  | (none, xdrs) => (none, { cd with xdrs := xdrs, strmStat := .died })

/-- `svc_vc_recv`. -/
def svcVcRecv (msg : RpcMsg) (cd : CfConn) : Option RpcMsg × CfConn :=
  if cd.nonblock then
    match getrec true cd.xdrs with
    | ((false, xstat), xdrs) => (none, { cd with strmStat := xstat, xdrs := xdrs })
    | ((true, xstat), xdrs) => svcVcDecode msg { cd with strmStat := xstat, xdrs := xdrs }
  else svcVcDecode msg cd

/-- `svc_vc_stat`. -/
def svcVcStat (cd : CfConn) : XprtStat × CfConn :=
  if cd.strmStat = .died then (.died, cd)
  else
    let eof := xdrrecEof cd.xdrs
    (if eof.1 then .idle else .moreReqs, { cd with xdrs := eof.2 })

/-- What happens on a connection: `SVC_RECV`, reads of arguments, `SVC_STAT`. -/
inductive SvcEvent where
  | recv (msg : RpcMsg)
  | getargs (op : ReadOp)
  | stat

def SvcEvent.run : SvcEvent → CfConn → CfConn
  | .recv msg, cd => (svcVcRecv msg cd).2
  | .getargs op, cd => { cd with xdrs := (op.run.run cd.xdrs).2 }
  | .stat, cd => (svcVcStat cd).2

/-- A condition on every event of a run and the connection before it. -/
def EventsMeet (P : SvcEvent → CfConn → Prop) : List SvcEvent → CfConn → Prop
  | [], _ => True
  | ev :: events, cd => P ev cd ∧ EventsMeet P events (ev.run cd)

/-- `SVC_RECV` is called when the poll has found something to read. -/
def Polled : SvcEvent → CfConn → Prop
  | .recv _, cd => Transport.ready cd.xdrs.tcp.arrivals ≠ []
  | _, _ => True

/-- If `SVC_RECV` completes a header, its body follows whole and nothing more than the
start of a header comes with the read behind it. -/
def Undisturbed : SvcEvent → CfConn → Prop
  | .recv _, cd => BodyFollows true cd.xdrs ∧ HeaderWaits cd.xdrs
  | _, _ => True

instance (ev : SvcEvent) (cd : CfConn) : Decidable (Polled ev cd) :=
  match ev with
  | .recv _ => inferInstanceAs (Decidable (_ ≠ _))
  | .getargs _ => inferInstanceAs (Decidable True)
  | .stat => inferInstanceAs (Decidable True)

instance (ev : SvcEvent) (cd : CfConn) : Decidable (Undisturbed ev cd) :=
  match ev with
  | .recv _ => inferInstanceAs (Decidable (_ ∧ _))
  | .getargs _ => inferInstanceAs (Decidable True)
  | .stat => inferInstanceAs (Decidable True)

instance decidableEventsMeet (P : SvcEvent → CfConn → Prop) [∀ ev cd, Decidable (P ev cd)] :
    ∀ events cd, Decidable (EventsMeet P events cd)
  | [], _ => inferInstanceAs (Decidable True)
  | ev :: events, cd =>
      have := decidableEventsMeet P events (ev.run cd)
      inferInstanceAs (Decidable (P ev cd ∧ EventsMeet P events (ev.run cd)))

/-- The message in a record, decoded from its bytes alone. -/
def decodeRecord (msg : RpcMsg) (r : Record) : Option RpcMsg :=
  ((xdrCallmsg .decode msg).run (r.body : ByteStream)).1

/-- The messages of a run are the records `todo`, each delivered by the call that
takes its last byte, and the connection does not die. -/
inductive Serves : List SvcEvent → List Record → CfConn → Prop
  | done (todo : List Record) (cd : CfConn) : Serves [] todo cd
  | delivers {msg : RpcMsg} {events : List SvcEvent} {r : Record} {rest : List Record}
      {cd : CfConn} {m : RpcMsg} (answers : (svcVcRecv msg cd).1 = some m)
      (ends : EndsRecord rest cd.xdrs (svcVcRecv msg cd).2.xdrs)
      (decoded : decodeRecord msg r = some m)
      (later : Serves events rest (svcVcRecv msg cd).2) :
      Serves (.recv msg :: events) (r :: rest) cd
  | waits {msg : RpcMsg} {events : List SvcEvent} {todo : List Record} {cd : CfConn}
      (answers : (svcVcRecv msg cd).1 = none) (alive : (svcVcRecv msg cd).2.strmStat ≠ .died)
      (goes_on : ∀ r rest, todo = r :: rest →
        ¬ EndsRecord rest cd.xdrs (svcVcRecv msg cd).2.xdrs)
      (later : Serves events todo (svcVcRecv msg cd).2) :
      Serves (.recv msg :: events) todo cd
  | getargs {op : ReadOp} {events : List SvcEvent} {todo : List Record} {cd : CfConn}
      (later : Serves events todo (SvcEvent.run (.getargs op) cd)) :
      Serves (.getargs op :: events) todo cd
  | stat {events : List SvcEvent} {todo : List Record} {cd : CfConn}
      (later : Serves events todo (SvcEvent.run .stat cd)) : Serves (.stat :: events) todo cd

/-- A call that delivers nothing leaves the connection alive. -/
theorem not_serves_of_died {msg : RpcMsg} {events : List SvcEvent} {todo : List Record}
    {cd : CfConn} (hNone : (svcVcRecv msg cd).1 = none)
    (hDied : (svcVcRecv msg cd).2.strmStat = .died) :
    ¬ Serves (.recv msg :: events) todo cd := by
  intro h
  cases h with
  | delivers answers =>
      rw [hNone] at answers
      cases answers
  | waits answers alive => exact alive hDied

variable {host : Host} {maxrec : Nat}

/-- The connection between two calls, holding what is left of the last record. -/
structure Serving (host : Host) (maxrec k : Nat) (todo : List Record) (cd : CfConn) : Prop where
  nonblock : cd.nonblock = true
  expecting : Expecting host maxrec k todo cd.xdrs
  holding : ∃ t, Holding cd.xdrs t

theorem RecStrm.Expecting.took {k : Nat} {todo : List Record} {s : RecStrm}
    (h : Expecting host maxrec k todo s) (n : Nat) : Expecting host maxrec k todo (s.took n) where
  header := { h.header with }
  filled := h.filled
  short := h.short
  quiet := h.quiet

/-- A read moves over the buffer, whether it finds enough there or not. -/
theorem run_readOp_holding (op : ReadOp) {s : RecStrm} {t : List UInt8} (h : Holding s t) :
    ∃ n t', (op.run.run s).2 = s.took n ∧ Holding (s.took n) t' := by
  have hShort : Holding (s.took t.length) (t.drop t.length) := h.took (le_refl _)
  cases op with
  | long =>
      obtain ⟨hEnough, hLess⟩ := xdrrecGetlong_holding h
      rcases Nat.lt_or_ge t.length 4 with hLt | hLe
      · rw [ReadOp.run, run_bind_none (hLess hLt)]
        exact ⟨_, _, rfl, hShort⟩
      · rw [ReadOp.run, run_bind_some (hEnough hLe), run_pure]
        exact ⟨4, _, rfl, h.took hLe⟩
  | bytes n =>
      obtain ⟨hEnough, hLess⟩ := xdrrecGetbytes_holding h n
      rcases Nat.lt_or_ge t.length n with hLt | hLe
      · rw [ReadOp.run, hLess hLt]
        exact ⟨_, _, rfl, hShort⟩
      · rw [ReadOp.run, hEnough hLe]
        exact ⟨n, _, rfl, h.took hLe⟩
  | inline n =>
      rcases xdrrecInline_holding h n with hRun | ⟨hRun, hLe, -⟩
      · rw [ReadOp.run, run_bind_some hRun, run_fail]
        exact ⟨0, t, rfl, h⟩
      · rw [ReadOp.run, run_bind_some hRun]
        exact ⟨n, _, rfl, h.took hLe⟩

/-- While the stream holds a record the skip only takes what there is of a header. -/
theorem RecStrm.Expecting.skiprecord {rest : List Record} {s : RecStrm} {body : List UInt8}
    (h : Expecting host maxrec 0 rest s) (hHost : ∀ n ≤ maxrec, host.reallocs n = true)
    (hHold : Holding s body) (hBody : body ≠ []) (hPart : ¬ ReadsWhole 4 s.tcp) :
    ∃ k s', (xdrrecSkiprecord.run s).2 = s' ∧ Expecting host maxrec k rest s' ∧
      Holding s' body := by
  have hNone := h.header.completesHeader_eq_none hPart
  have hFollows : BodyFollows false s := by
    unfold BodyFollows
    rw [hNone]
    trivial
  rcases h.call hHost false (fun hTrue => by cases hTrue) hFollows with
    ⟨-, hFalse, -, hSame, k, hNext⟩ | ⟨r, rest', s₁, -, hSome, -⟩
  · have hHold' := hHold.of_sameBuffer hSame hNext.header.nonblock hNext.header.lastFrag
    refine ⟨k, (getrec false s).2, ?_, hNext, hHold'⟩
    have hInside : ¬ (getrec false s).2.inFinger = (getrec false s).2.inBoundry := by
      rw [hHold'.boundry_eq]
      have hPos := List.length_pos_iff.mpr hBody
      omega
    rcases hGet : getrec false s with ⟨⟨ok, xstat⟩, s'⟩
    rw [hGet] at hFalse hInside
    obtain rfl : ok = false := hFalse
    simp only [Fallible.run, xdrrecSkiprecord, if_pos h.header.nonblock, hGet]
    rw [if_neg fun hBoth => hInside hBoth.1]
  · rw [hNone] at hSome
    cases hSome

/-- One `SVC_RECV` delivers the next record or waits for more of it. -/
theorem Serving.recv {k : Nat} {todo : List Record} {cd : CfConn} {msg : RpcMsg}
    (h : Serving host maxrec k todo cd) (hHost : ∀ n ≤ maxrec, host.reallocs n = true)
    (hPolled : Polled (.recv msg) cd) (hAlone : Undisturbed (.recv msg) cd)
    (hCalls : ∀ r ∈ todo, (decodeRecord msg r).isSome) :
    ((svcVcRecv msg cd).1 = none ∧ (svcVcRecv msg cd).2.strmStat ≠ .died ∧
      ∃ k', Serving host maxrec k' todo (svcVcRecv msg cd).2) ∨
    ∃ r rest m, todo = r :: rest ∧ (svcVcRecv msg cd).1 = some m ∧
      decodeRecord msg r = some m ∧ ∃ k', Serving host maxrec k' rest (svcVcRecv msg cd).2 := by
  obtain ⟨hFollows, hWaits⟩ := hAlone
  obtain ⟨t, hHold⟩ := h.holding
  unfold svcVcRecv
  rw [if_pos h.nonblock]
  rcases h.expecting.call hHost true (fun _ => hPolled) hFollows with
    ⟨-, hFalse, hAlive, hSame, k', hNext⟩ |
      ⟨r, rest, s₁, rfl, hHeader, hTcp, hTrue, hHold', -, hNext⟩
  · refine Or.inl ?_
    have hHold' := hHold.of_sameBuffer hSame hNext.header.nonblock hNext.header.lastFrag
    rcases hGet : getrec true cd.xdrs with ⟨⟨ok, xstat⟩, s'⟩
    rw [hGet] at hFalse hAlive hNext hHold'
    obtain rfl : ok = false := hFalse
    exact ⟨rfl, hAlive, k', h.nonblock, hNext, t, hHold'⟩
  · refine Or.inr ?_
    have hPart : ¬ ReadsWhole 4 (getrec true cd.xdrs).2.tcp := by
      unfold HeaderWaits at hWaits
      rw [hHeader] at hWaits
      rw [hTcp]
      exact hWaits
    have hBody : r.body ≠ [] := by
      intro hNil
      apply h.expecting.filled r List.mem_cons_self r.final (by simp [Record.frags])
      rw [Record.body_eq, List.append_eq_nil_iff] at hNil
      exact hNil.2
    obtain ⟨k', s₂, hSkip, hExpect, hHold₂⟩ := hNext.skiprecord hHost hHold' hBody hPart
    obtain ⟨m, hm⟩ := Option.isSome_iff_exists.mp (hCalls r List.mem_cons_self)
    obtain ⟨s₃, hRun, hHold₃, n, rfl⟩ :=
      (decodes_xdrCallmsg (lawful_holding_took s₂) msg).run_some (s := s₂) ⟨hHold₂, 0, rfl⟩
        (Prod.ext hm rfl)
    refine ⟨r, rest, m, rfl, ?_⟩
    rcases hGet : getrec true cd.xdrs with ⟨⟨ok, xstat⟩, s'⟩
    rw [hGet] at hTrue hSkip
    obtain rfl : ok = true := hTrue
    simp only [svcVcDecode]
    rw [show (xdrrecSkiprecord.run s').2 = s₂ from hSkip, hRun]
    exact ⟨rfl, hm, k', h.nonblock, hExpect.took n, _, hHold₃⟩

/-- The events between two calls keep the connection as it is. -/
theorem Serving.getargs {k : Nat} {todo : List Record} {cd : CfConn}
    (h : Serving host maxrec k todo cd) (op : ReadOp) :
    Serving host maxrec k todo (SvcEvent.run (.getargs op) cd) := by
  obtain ⟨t, hHold⟩ := h.holding
  obtain ⟨n, t', hRun, hHold'⟩ := run_readOp_holding op hHold
  rw [SvcEvent.run, hRun]
  exact ⟨h.nonblock, h.expecting.took n, t', hHold'⟩

theorem Serving.stat {k : Nat} {todo : List Record} {cd : CfConn}
    (h : Serving host maxrec k todo cd) : Serving host maxrec k todo (SvcEvent.run .stat cd) := by
  obtain ⟨t, hHold⟩ := h.holding
  rw [SvcEvent.run, svcVcStat]
  split
  · exact h
  · rw [xdrrecEof_holding hHold]
    exact ⟨h.nonblock, h.expecting.took _, _, hHold.took (le_refl _)⟩

/-- The induction is on the events, and carries the connection from each to the next. -/
theorem Serving.serves (events : List SvcEvent) {k : Nat} {todo : List Record} {cd : CfConn}
    (h : Serving host maxrec k todo cd) (hHost : ∀ n ≤ maxrec, host.reallocs n = true)
    (hCalls : ∀ msg, .recv msg ∈ events → ∀ r ∈ todo, (decodeRecord msg r).isSome)
    (hPolled : EventsMeet Polled events cd) (hAlone : EventsMeet Undisturbed events cd) :
    Serves events todo cd := by
  induction events generalizing k todo cd with
  | nil => exact .done todo cd
  | cons ev events ih =>
      obtain ⟨hHere, hPolled⟩ := hPolled
      obtain ⟨hAloneHere, hAlone⟩ := hAlone
      have hLater : ∀ msg, .recv msg ∈ events → ∀ r ∈ todo, (decodeRecord msg r).isSome :=
        fun msg hMem => hCalls msg (List.mem_cons_of_mem ev hMem)
      cases ev with
      | getargs op => exact .getargs (ih (h.getargs op) hLater hPolled hAlone)
      | stat => exact .stat (ih h.stat hLater hPolled hAlone)
      | recv msg =>
          rcases h.recv hHost hHere hAloneHere (hCalls msg List.mem_cons_self) with
            ⟨hNone, hAlive, k', hNext⟩ | ⟨r, rest, m, rfl, hSome, hm, k', hNext⟩
          · refine .waits hNone hAlive ?_ (ih hNext hLater hPolled hAlone)
            rintro r rest rfl ⟨hEnd, -⟩
            exact absurd hNext.expecting.wire_lt (Nat.not_lt.mpr hEnd)
          · have hWire := congrArg List.length hNext.expecting.header.input_eq
            rw [List.length_append] at hWire
            have hEnds : EndsRecord rest cd.xdrs (svcVcRecv msg cd).2.xdrs :=
              ⟨by unfold wire; omega, h.expecting.wire_lt⟩
            apply Serves.delivers hSome hEnds hm
            apply ih hNext _ hPolled hAlone
            exact fun msg hMem r' hr' => hLater msg hMem r' (List.mem_cons_of_mem r hr')

/-- A new connection in non-blocking mode. -/
def newConn (sendsize recvsize : BitVec 32) (host : Host) (maxrec : Nat) (line : Transport) :
    CfConn :=
  { strmStat := .idle
    xId := 0
    xdrs := listener sendsize recvsize host maxrec line
    nonblock := true }

/-- Whatever the schedule, a connection whose headers come with their bodies and with no
header behind them delivers every call of the client once, in order. -/
theorem svcVcRecv_serves (sendsize recvsize : BitVec 32) (host : Host) (maxrec : Nat)
    (line : Transport) (rs : List Record) (events : List SvcEvent) (hPos : 0 < maxrec)
    (hInt : maxrec < 2 ^ 31) (hHost : ∀ n ≤ maxrec, host.reallocs n = true)
    (hLine : line.nonblock = true) (hQuiet : Arrival.error ∉ line.arrivals)
    (hBytes : Transport.bytes line.arrivals = wire rs)
    (hFilled : ∀ r ∈ rs, ∀ f ∈ r.frags, f.body ≠ []) (hShort : ∀ r ∈ rs, r.body.length ≤ maxrec)
    (hCalls : ∀ msg, .recv msg ∈ events → ∀ r ∈ rs, (decodeRecord msg r).isSome)
    (hPolled : EventsMeet Polled events (newConn sendsize recvsize host maxrec line))
    (hAlone : EventsMeet Undisturbed events (newConn sendsize recvsize host maxrec line)) :
    Serves events rs (newConn sendsize recvsize host maxrec line) := by
  have hNew : Expecting host maxrec 0 rs (listener sendsize recvsize host maxrec line) :=
    ⟨atHeader_listener sendsize recvsize hPos hInt hLine hBytes, hFilled, hShort, hQuiet⟩
  have hEmpty : Holding (listener sendsize recvsize host maxrec line) [] :=
    { nonblock := rfl
      lastFrag := rfl
      fbtbc_eq := rfl
      boundry_eq := rfl
      within := (length_malloc host _).ge
      bytes_eq := rfl }
  have hServing : Serving host maxrec 0 rs (newConn sendsize recvsize host maxrec line) :=
    ⟨rfl, hNew, [], hEmpty⟩
  exact hServing.serves events hHost hCalls hPolled hAlone

/-- The null call as a record of one fragment. -/
def nullCallRecord : Record where
  more := []
  final := { body := nullCall, last := true, fits := nullCall_fits }
  more_last := Record.none_last
  final_last := nullCall_last

/-- Two calls, the second one sent when the first has been answered. -/
def politeClient : Transport where
  arrivals := [.data (encodeAll nullCallRecord.frags), .data [],
    .data (encodeAll nullCallRecord.frags)]
  written := []
  nonblock := true
  writable := true

theorem svcVcRecv_serves_politeClient :
    Serves [.recv blankMsg, .getargs .long, .stat, .recv blankMsg, .stat]
      [nullCallRecord, nullCallRecord] (newConn 100 100 zeroHost 40 politeClient) :=
  svcVcRecv_serves 100 100 zeroHost 40 politeClient [nullCallRecord, nullCallRecord]
    [.recv blankMsg, .getargs .long, .stat, .recv blankMsg, .stat] (by decide) (by decide)
    (fun _ _ => rfl) rfl (by decide) (by decide +kernel)
    (by simp [nullCallRecord, Record.frags, nullCall])
    (by simp [nullCallRecord, Record.frags, Record.body, nullCall])
    (fun msg hMem r hr => by
      obtain rfl : msg = blankMsg := by simpa using hMem
      obtain rfl : r = nullCallRecord := by simpa using hr
      decide +kernel)
    (by decide +kernel) (by decide +kernel)

/-- Two calls sent without waiting. -/
def pipeliningClient : Transport where
  arrivals := [.data (encodeAll nullCallRecord.frags ++ encodeAll nullCallRecord.frags)]
  written := []
  nonblock := true
  writable := true

/-- The skip takes the second call over the first one, and neither is decoded. -/
theorem not_svcVcRecv_serves_pipeliningClient :
    ¬ ∀ (sendsize recvsize : BitVec 32) (host : Host) (maxrec : Nat) (line : Transport)
        (rs : List Record) (events : List SvcEvent), 0 < maxrec → maxrec < 2 ^ 31 →
      (∀ n ≤ maxrec, host.reallocs n = true) → line.nonblock = true →
      Arrival.error ∉ line.arrivals → Transport.bytes line.arrivals = wire rs →
      (∀ r ∈ rs, ∀ f ∈ r.frags, f.body ≠ []) → (∀ r ∈ rs, r.body.length ≤ maxrec) →
      (∀ msg, .recv msg ∈ events → ∀ r ∈ rs, (decodeRecord msg r).isSome) →
      EventsMeet Polled events (newConn sendsize recvsize host maxrec line) →
      Serves events rs (newConn sendsize recvsize host maxrec line) := by
  intro h
  have hAns : (svcVcRecv blankMsg (newConn 100 100 zeroHost 40 pipeliningClient)).1 = none := by
    decide +kernel
  have hDied : (svcVcRecv blankMsg
      (newConn 100 100 zeroHost 40 pipeliningClient)).2.strmStat = .died := by decide +kernel
  apply not_serves_of_died hAns hDied
  exact h 100 100 zeroHost 40 pipeliningClient [nullCallRecord, nullCallRecord]
    [.recv blankMsg] (by decide) (by decide) (fun _ _ => rfl) rfl (by simp [pipeliningClient])
    (by decide +kernel) (by simp [nullCallRecord, Record.frags, nullCall])
    (by simp [nullCallRecord, Record.frags, Record.body, nullCall])
    (fun msg hMem r hr => by
      obtain rfl : msg = blankMsg := by simpa using hMem
      obtain rfl : r = nullCallRecord := by simpa using hr
      decide +kernel)
    (by decide +kernel)

end OncRpc
