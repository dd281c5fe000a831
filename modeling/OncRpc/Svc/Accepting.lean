import OncRpc.Svc.CleanIdle
import OncRpc.Svc.Rendezvous

/-! `svc_vc.c`: how a rendezvous accepts a connection, with all that can fail on the way. -/
namespace OncRpc

/-- What `accept` returns: a socket with the address of its peer, which may be one of `AF_INET`,
or an error. For the lack of descriptors there is the time, and whether the thread has its own. -/
inductive AcceptResult where
  | socket (sock : Nat) (addr : List UInt8) (inet : Bool)
  | interrupted
  | noFiles (mem : Bool) (tv : Timeval)
  | error

/-- What a socket comes with. -/
structure Peer where
  sock : Nat
  addr : List UInt8
  inet : Bool

/-- What `makefd_xprt` and `rendezvous_request` find: the memory that there is, and the netid of the
socket if it has one; whether it can be switched to non-blocking mode; what the memory for
`struct cf_conn` holds; and the time. -/
structure Circumstances where
  xprtMem : Bool
  connMem : Bool
  netid : Option CString
  netidMem : Bool
  spare : SpareMemory
  addrMem : Bool
  switches : Bool
  raw : CfService
  host : Host
  tcp : Transport
  tv : Timeval

/-- A transport gets the address of its peer. -/
def Svcxprt.withPeer (peer : Peer) (x : Svcxprt) : Svcxprt :=
  let x := { x with xpRtaddr := some peer.addr }
  if peer.inet then { x with xpRaddr := peer.addr.take 16, xpAddrlen := 16 } else x

namespace CfService

/-- A connection gets the sizes of its rendezvous. -/
def sized (r : CfRendezvous) (cd : CfService) : CfService :=
  { cd with recvsize := r.recvsize, sendsize := r.sendsize, maxrec := r.maxrec }

/-- A connection in blocking mode. -/
def blocking (tv : Timeval) (cd : CfService) : CfService :=
  { cd with nonblock := false, lastRecvTime := tv }

/-- A connection in non-blocking mode, with `FIONBIO` on its socket. -/
def nonblocking (tv : Timeval) (cd : CfService) : CfService :=
  let xdrs := { cd.xdrs with tcp := { cd.xdrs.tcp with nonblock := true } }
  { cd with
    recvsize := if cd.maxrec < cd.recvsize then cd.maxrec else cd.recvsize
    nonblock := true
    xdrs := RecStrm.setNonblock cd.maxrec.toInt xdrs
    lastRecvTime := tv }

end CfService

namespace SvcConns

/-- The loop around `accept`: the socket, if there is one, whether `svc_fd_lock` is held, and what
was cleaned out for its sake. -/
def acceptFrom : List AcceptResult → SvcConns → Option (Option Peer × Bool × SvcConns)
  | [], st => some (none, false, st)
  | .socket sock addr inet :: _, st =>
      some (some ⟨sock, addr, inet⟩, false, { st with sockets := sock :: st.sockets })
  | .interrupted :: rest, st => acceptFrom rest st
  | .noFiles mem tv :: rest, st => do
      let r ← st.svcCleanIdle mem tv 0 false
      if r.rv then acceptFrom rest r.conns else pure (none, r.held, r.conns)
  | .error :: _, st => some (none, false, st)

/-- How an attempt to make a transport ends: the transport, and whether `svc_fd_lock` is held. -/
structure Attempt where
  xprt : Option Nat
  held : Bool
  conns : SvcConns

/-- The exit of `makefd_xprt` that gives the transport back. -/
def outOfXprt (xprt : Nat) (held : Bool) (st : SvcConns) : Option Attempt := do
  let xprts ← st.xprts.free xprt
  pure { xprt := none, held := held, conns := { st with xprts := xprts } }

/-- `makefd_xprt`. -/
def makefdXprt (fd : Nat) (sendsize recvsize : BitVec 32) (env : Circumstances) (st : SvcConns) :
    Option Attempt :=
  if env.xprtMem = false then some { xprt := none, held := false, conns := st }
  else
    let (xprt, xprts) := st.xprts.malloc { xpFd := 0, xpOps := none }
    let st := { st with xprts := xprts }
    if env.connMem = false then st.outOfXprt xprt false
    else
      let cd := { env.raw with
        strmStat := .idle
        xdrs := RecStrm.xdrrecCreate sendsize recvsize env.host env.tcp }
      if env.netid.isSome ∧ env.netidMem = false then st.outOfXprt xprt false
      else do
        let xprts ← st.xprts.store xprt
          { xpFd := fd, xpOps := some (.svcVcRecv cd), xpNetid := env.netid }
        let r ← st.table.xprtRegister env.spare xprt fd
        let st := { st with table := r.table, xprts := xprts }
        if r.rv then pure { xprt := some xprt, held := r.held, conns := st }
        else st.outOfXprt xprt r.held

/-- The exit of `rendezvous_request` that closes the socket. -/
def outOfSock (sock : Nat) (a : Attempt) : Attempt :=
  { a with xprt := none, conns := a.conns.close sock }

/-- `rendezvous_request` behind `accept`. It returns FALSE in any case. -/
def setUp (r : CfRendezvous) (peer : Peer) (env : Circumstances) (st : SvcConns) :
    Option Attempt := do
  let a ← st.makefdXprt peer.sock r.sendsize r.recvsize env
  match a.xprt with
  | none => pure (outOfSock peer.sock a)
  | some newxprt =>
      if env.addrMem = false then pure (outOfSock peer.sock a)
      else do
        let x ← a.conns.xprts.read newxprt
        let x := x.withPeer peer
        match x.xpOps with
        | some (.svcVcRecv cd) =>
            let cd := cd.sized r
            if cd.maxrec ≠ 0 then
              if env.switches = false then do
                let xprts ← a.conns.xprts.store newxprt { x with xpOps := some (.svcVcRecv cd) }
                pure (outOfSock peer.sock { a with conns := { a.conns with xprts := xprts } })
              else do
                let xprts ← a.conns.xprts.store newxprt
                  { x with xpOps := some (.svcVcRecv (cd.nonblocking env.tv)) }
                pure { a with conns := { a.conns with xprts := xprts } }
            else do
              let xprts ← a.conns.xprts.store newxprt
                { x with xpOps := some (.svcVcRecv (cd.blocking env.tv)) }
              pure { a with conns := { a.conns with xprts := xprts } }
        | _ => none

/-- `rendezvous_request`. -/
def rendezvousRequest (r : CfRendezvous) (accepts : List AcceptResult) (env : Circumstances)
    (st : SvcConns) : Option Attempt := do
  let (peer, held, st) ← st.acceptFrom accepts
  match peer with
  | none => pure { xprt := none, held := held, conns := st }
  | some peer => st.setUp r peer env

/-! ### All or nothing -/

/-- The descriptor is not in the table, nor among those that are waited for. -/
structure Absent (sock : Nat) (st : SvcTable) : Prop where
  xports : ∀ p, st.xports[sock]? ≠ some (some p)
  fdset : sock ∉ st.fds.fdset
  fdp : some sock ∉ st.fds.fdp

/-- The transport has all that a connection needs. -/
structure SetUp (r : CfRendezvous) (peer : Peer) (env : Circumstances) (x : Svcxprt)
    (cd : CfService) : Prop where
  fd : x.xpFd = peer.sock
  ops : x.xpOps = some (.svcVcRecv cd)
  netid : x.xpNetid = env.netid
  rtaddr : x.xpRtaddr = some peer.addr
  raddr : peer.inet = true → x.xpRaddr = peer.addr.take 16 ∧ x.xpAddrlen = 16
  sendsize : cd.sendsize = r.sendsize
  recvsize : cd.recvsize = if r.maxrec ≠ 0 ∧ r.maxrec < r.recvsize then r.maxrec else r.recvsize
  maxrec : cd.maxrec = r.maxrec
  nonblock : cd.nonblock = decide (r.maxrec ≠ 0)
  lastRecvTime : cd.lastRecvTime = env.tv
  stream : cd.toCfConn = OncRpc.rendezvousRequest r env.raw.xId env.host env.tcp

/-- The transport is registered, its socket is open, and it is set up. -/
structure Ready (r : CfRendezvous) (peer : Peer) (env : Circumstances) (xprt : Nat)
    (st : SvcConns) : Prop where
  xports : st.table.xports[peer.sock]? = some (some xprt)
  fdset : peer.sock ∈ st.table.fds.fdset
  fdp : some peer.sock ∈ st.table.fds.fdp
  socket : (peer.sock : Int) ∈ st.sockets
  setUp : ∃ x cd, st.xprts.read xprt = some x ∧ SetUp r peer env x cd

/-- A connection is accepted with everything, or there is nothing left of it. -/
def AllOrNothing (r : CfRendezvous) (peer : Peer) (env : Circumstances) : Option Attempt → Prop
  | none => False
  | some a =>
      match a.xprt with
      | none => (peer.sock : Int) ∉ a.conns.sockets ∧ Absent peer.sock a.conns.table
      | some xprt => Ready r peer env xprt a.conns

/-- The transport comes to be stored in the table. -/
def Stores (env : Circumstances) (sock : Nat) (st : SvcTable) : Prop :=
  env.xprtMem = true ∧ env.connMem = true ∧ (env.netid = none ∨ env.netidMem = true) ∧
    st.Allocates env.spare.table sock

/-- Once the transport is stored nothing fails any more; and if it is not, nothing was there. -/
def AcceptsWhen (r : CfRendezvous) (env : Circumstances) (sock : Nat) (st : SvcTable) : Prop :=
  (Stores env sock st → st.HasEntry sock ∧ st.CanWait env.spare.pollfd ∧ env.addrMem = true ∧
      (r.maxrec ≠ 0 → env.switches = true)) ∧
    (¬ Stores env sock st → Absent sock st)

/-! ### What `xprt_register` does -/

section Register

variable {fds : SvcFdset} {st : SvcTable} {spare : SpareMemory} {xprt sock : Nat} {mem : Bool}

theorem mem_fdp_svcPollfdAdd (fd : Nat) (fds : SvcFdset) : some fd ∈ (fds.svcPollfdAdd fd).fdp := by
  unfold SvcFdset.svcPollfdAdd
  dsimp only
  cases hFree : fds.svcPollfdAlloc.fdp.findIdx? (· == none) with
  | none => exact List.mem_append_right _ List.mem_cons_self
  | some i =>
      obtain ⟨hLt, -⟩ := List.findIdx?_eq_some_iff_findIdx_eq.mp hFree
      exact List.mem_iff_getElem?.mpr ⟨i, List.getElem?_set_self hLt⟩

/-- A descriptor that has been set is in the array, too. -/
theorem mem_fdp_svcFdsetSetIf (h : (fds.svcFdsetSetIf mem sock).1 = true) :
    some sock ∈ (fds.svcFdsetSetIf mem sock).2.fdp := by
  obtain ⟨hRoom, hFree⟩ := SvcFdset.svcFdsetSetIf_fst.mp h
  have hNot : ¬ fdSetsize ≤ (fds.svcFdsetAlloc sock).fdset.length := Nat.not_le.mpr hRoom
  rw [SvcFdset.svcFdsetSetIf_of_free hFree, SvcFdset.svcFdsetSet, if_neg hNot]
  show some sock ∈ (SvcFdset.svcFdsetSanitize _).fdp
  rw [SvcFdset.fdp_svcFdsetSanitize]
  exact mem_fdp_svcPollfdAdd sock _

/-- Without a table that is large enough nothing is changed. -/
theorem xprtRegister_of_not_allocates (xprt : Nat)
    (h : ¬ st.Allocates spare.table sock) :
    ∃ st', st.xprtRegister spare xprt sock = some { rv := false, held := false, table := st' } ∧
      SvcTable.Same st st' := by
  have hFails : (st.xprtAlloc spare.table sock).1 = false := by
    rw [← Bool.not_eq_true, SvcTable.xprtAlloc_fst]
    exact h
  have hSame := SvcTable.same_xprtAlloc hFails
  refine ⟨_, ?_, hSame⟩
  unfold SvcTable.xprtRegister
  revert hFails
  generalize st.xprtAlloc spare.table sock = r
  obtain ⟨ok, st'⟩ := r
  rintro rfl
  rfl

/-- With an entry for it the transport is stored, whatever becomes of the descriptor. -/
theorem xprtRegister_of_allocates (xprt : Nat) (h : st.Allocates spare.table sock)
    (hEntry : st.HasEntry sock) :
    ∃ r, st.xprtRegister spare xprt sock = some r ∧
      r.table.xports[sock]? = some (some xprt) ∧ (r.rv = true ↔ st.CanWait spare.pollfd) ∧
      (r.rv = true → sock ∈ r.table.fds.fdset ∧ some sock ∈ r.table.fds.fdp) := by
  have hRaw : (sock : Int) ≠ -1 := by omega
  have hOk := SvcTable.xprtAlloc_fst.mpr h
  have hInside := (SvcTable.hasEntry_iff h hRaw).mpr hEntry
  have hGrown := SvcTable.grown_xprtAlloc spare.table sock st
  unfold SvcTable.xprtRegister
  revert hOk hInside hGrown
  generalize st.xprtAlloc spare.table sock = grown
  obtain ⟨ok, grown⟩ := grown
  rintro rfl hInside hGrown
  have hLt : sock < grown.xports.length := Int.ofNat_lt.mp hInside.2
  have hStore : grown.store sock (some xprt) =
      some { grown with xports := grown.xports.set sock (some xprt) } := by
    unfold SvcTable.store
    rw [if_neg fun h => hRaw h.1, if_pos hInside]
    rfl
  have hWaits : (grown.fds.svcFdsetSetIf spare.pollfd sock).1 = true ↔
      st.CanWait spare.pollfd := by
    rw [SvcFdset.svcFdsetSetIf_fst, SvcTable.CanWait, ← hGrown.fdset, ← hGrown.fdp]
  refine ⟨{ rv := (grown.fds.svcFdsetSetIf spare.pollfd sock).1
            held := !(grown.fds.svcFdsetSetIf spare.pollfd sock).1
            table := { grown with
              xports := grown.xports.set sock (some xprt)
              fds := (grown.fds.svcFdsetSetIf spare.pollfd sock).2 } }, ?_,
    List.getElem?_set_self hLt, hWaits, fun hSet =>
      ⟨SvcFdset.mem_svcFdsetSetIf hSet, mem_fdp_svcFdsetSetIf hSet⟩⟩
  simp only [hStore, Option.bind_eq_bind, Option.bind_some, if_neg hRaw]
  rfl

end Register

variable {r : CfRendezvous} {peer : Peer} {env : Circumstances} {st st' : SvcConns}
  {accepts : List AcceptResult} {held : Bool} {xprt : Nat}

theorem Absent.of_same {table table' : SvcTable} (h : SvcTable.Same table table') {sock : Nat} :
    Absent sock table' ↔ Absent sock table := by
  constructor
  · rintro ⟨hXports, hSet, hPoll⟩
    exact ⟨h.xports ▸ hXports, h.fdset ▸ hSet, h.fdp ▸ hPoll⟩
  · rintro ⟨hXports, hSet, hPoll⟩
    exact ⟨h.xports ▸ hXports, h.fdset ▸ hSet, h.fdp ▸ hPoll⟩

theorem not_mem_close (fd : Int) (st : SvcConns) : fd ∉ (st.close fd).sockets := by
  intro hMem
  have hNe := (List.mem_filter.mp hMem).2
  simp at hNe

/-- A transport that is given back leaves the rest as it is. -/
theorem outOfXprt_eq (held : Bool) (st : SvcConns) {x : Svcxprt} (h : st.xprts.read xprt = some x) :
    ∃ xprts, st.outOfXprt xprt held =
      some { xprt := none, held := held, conns := { st with xprts := xprts } } := by
  obtain ⟨xprts, hFree, -⟩ := Heap.free_of_read h
  exact ⟨xprts, by rw [outOfXprt, hFree]; rfl⟩

section Peer

variable (peer : Peer) (x : Svcxprt)

theorem withPeer_xpFd : (x.withPeer peer).xpFd = x.xpFd := by
  unfold Svcxprt.withPeer
  dsimp only
  split <;> rfl

theorem withPeer_xpOps : (x.withPeer peer).xpOps = x.xpOps := by
  unfold Svcxprt.withPeer
  dsimp only
  split <;> rfl

theorem withPeer_xpNetid : (x.withPeer peer).xpNetid = x.xpNetid := by
  unfold Svcxprt.withPeer
  dsimp only
  split <;> rfl

theorem withPeer_xpRtaddr : (x.withPeer peer).xpRtaddr = some peer.addr := by
  unfold Svcxprt.withPeer
  dsimp only
  split <;> rfl

theorem withPeer_xpRaddr (h : peer.inet = true) :
    (x.withPeer peer).xpRaddr = peer.addr.take 16 ∧ (x.withPeer peer).xpAddrlen = 16 := by
  unfold Svcxprt.withPeer
  rw [if_pos h]
  exact ⟨rfl, rfl⟩

end Peer

/-- What `makefd_xprt` makes when nothing fails. -/
def newConn (r : CfRendezvous) (env : Circumstances) : CfService :=
  { env.raw with
    strmStat := .idle
    xdrs := RecStrm.xdrrecCreate r.sendsize r.recvsize env.host env.tcp }

def newXprt (r : CfRendezvous) (peer : Peer) (env : Circumstances) : Svcxprt where
  xpFd := peer.sock
  xpOps := some (.svcVcRecv (newConn r env))
  xpNetid := env.netid

/-- `makefd_xprt` either gives up with the table as it was, or leaves the table, or stores a
transport there and may fail all the same. -/
theorem makefdXprt_cases (r : CfRendezvous) (peer : Peer) (env : Circumstances) (st : SvcConns) :
    (¬ Stores env peer.sock st.table ∧
      ∃ a, st.makefdXprt peer.sock r.sendsize r.recvsize env = some a ∧ a.xprt = none ∧
        SvcTable.Same st.table a.conns.table ∧ a.conns.sockets = st.sockets) ∨
    (Stores env peer.sock st.table ∧ ¬ st.table.HasEntry peer.sock ∧
      st.makefdXprt peer.sock r.sendsize r.recvsize env = none) ∨
    (Stores env peer.sock st.table ∧ st.table.HasEntry peer.sock ∧
      ∃ a p, st.makefdXprt peer.sock r.sendsize r.recvsize env = some a ∧
        a.conns.table.xports[peer.sock]? = some (some p) ∧ a.conns.sockets = st.sockets ∧
        (a.xprt = none ∧ ¬ st.table.CanWait env.spare.pollfd ∨
          a.xprt = some p ∧ st.table.CanWait env.spare.pollfd ∧
            a.conns.xprts.read p = some (newXprt r peer env) ∧
            peer.sock ∈ a.conns.table.fds.fdset ∧ some peer.sock ∈ a.conns.table.fds.fdp)) := by
  have hNew : (st.xprts.malloc { xpFd := 0, xpOps := none }).2.read st.xprts.brk =
      some { xpFd := 0, xpOps := none } := (Heap.read_malloc _ _ _).trans (if_pos rfl)
  have hSame : SvcTable.Same st.table st.table := ⟨rfl, rfl, rfl, rfl, rfl, rfl⟩
  unfold makefdXprt
  by_cases hXprt : env.xprtMem = true
  · rw [if_neg (by simp [hXprt])]
    by_cases hConn : env.connMem = true
    · simp only [hConn, Bool.true_eq_false, if_false]
      by_cases hNetid : env.netid = none ∨ env.netidMem = true
      · have hPasses : ¬ (env.netid.isSome = true ∧ env.netidMem = false) := by
          rintro ⟨hSome, hMem⟩
          rcases hNetid with hNone | hTrue
          · rw [hNone] at hSome
            cases hSome
          · rw [hMem] at hTrue
            cases hTrue
        obtain ⟨xprts, hStore, hStored⟩ := Heap.store_of_read hNew (newXprt r peer env)
        have hRead : xprts.read st.xprts.brk = some (newXprt r peer env) := by
          rw [hStored.read, if_pos rfl]
        have hStore' : (st.xprts.malloc { xpFd := 0, xpOps := none }).2.store st.xprts.brk
            { xpFd := peer.sock, xpOps := some (.svcVcRecv { env.raw with
                strmStat := .idle
                xdrs := RecStrm.xdrrecCreate r.sendsize r.recvsize env.host env.tcp })
              xpNetid := env.netid } = some xprts := hStore
        simp only [Heap.malloc_fst, if_neg hPasses, hStore', Option.bind_eq_bind, Option.bind_some]
        by_cases hAlloc : st.table.Allocates env.spare.table peer.sock
        · have hStores : Stores env peer.sock st.table := ⟨hXprt, hConn, hNetid, hAlloc⟩
          by_cases hEntry : st.table.HasEntry peer.sock
          · obtain ⟨reg, hReg, hListed, hRv, hWaited⟩ :=
              xprtRegister_of_allocates st.xprts.brk hAlloc hEntry
            refine Or.inr (Or.inr ⟨hStores, hEntry, ?_⟩)
            rw [hReg, Option.bind_some]
            cases hOk : reg.rv with
            | true =>
                rw [if_pos rfl]
                have hCan := hRv.mp hOk
                obtain ⟨hSet, hPoll⟩ := hWaited hOk
                exact ⟨_, st.xprts.brk, rfl, hListed, rfl, Or.inr ⟨rfl, hCan, hRead, hSet, hPoll⟩⟩
            | false =>
                rw [if_neg Bool.false_ne_true]
                have hCannot : ¬ st.table.CanWait env.spare.pollfd := fun hCan => by
                  rw [hRv.mpr hCan] at hOk
                  cases hOk
                obtain ⟨xprts', hOut⟩ := outOfXprt_eq reg.held
                  { st with table := reg.table, xprts := xprts } hRead
                exact ⟨_, st.xprts.brk, hOut, hListed, rfl, Or.inl ⟨rfl, hCannot⟩⟩
          · refine Or.inr (Or.inl ⟨hStores, hEntry, ?_⟩)
            rw [SvcTable.xprtRegister_eq_none.mpr ⟨hAlloc, hEntry⟩]
            rfl
        · obtain ⟨table, hReg, hLeft⟩ :=
            xprtRegister_of_not_allocates st.xprts.brk hAlloc
          obtain ⟨xprts', hOut⟩ := outOfXprt_eq false
            { st with table := table, xprts := xprts } hRead
          refine Or.inl ⟨fun hStores => hAlloc hStores.2.2.2, ?_⟩
          rw [hReg]
          exact ⟨_, hOut, rfl, hLeft, rfl⟩
      · have hFails : env.netid.isSome = true ∧ env.netidMem = false := by
          rw [not_or] at hNetid
          exact ⟨Option.isSome_iff_ne_none.mpr hNetid.1, by simpa using hNetid.2⟩
        obtain ⟨xprts, hOut⟩ := outOfXprt_eq false
          { st with xprts := (st.xprts.malloc { xpFd := 0, xpOps := none }).2 } hNew
        refine Or.inl ⟨fun hStores => hNetid hStores.2.2.1, ?_⟩
        rw [if_pos hFails]
        exact ⟨_, hOut, rfl, hSame, rfl⟩
    · obtain ⟨xprts, hOut⟩ := outOfXprt_eq false
        { st with xprts := (st.xprts.malloc { xpFd := 0, xpOps := none }).2 } hNew
      refine Or.inl ⟨fun hStores => hConn hStores.2.1, ?_⟩
      have hFails : env.connMem = false := by simpa using hConn
      simp only [hFails, if_true]
      exact ⟨_, hOut, rfl, hSame, rfl⟩
  · refine Or.inl ⟨fun hStores => hXprt hStores.1, ?_⟩
    rw [if_pos (by simpa using hXprt)]
    exact ⟨_, rfl, rfl, hSame, rfl⟩

/-- A socket that was accepted is open. -/
theorem mem_sockets_acceptFrom (h : st.acceptFrom accepts = some (some peer, held, st')) :
    (peer.sock : Int) ∈ st'.sockets := by
  induction accepts generalizing st with
  | nil =>
      obtain ⟨hNone, -⟩ := Prod.mk.inj (Option.some.inj h)
      cases hNone
  | cons a rest ih =>
      cases a with
      | socket sock addr inet =>
          obtain ⟨hPeer, hState⟩ := Prod.mk.inj (Option.some.inj h)
          obtain rfl := Option.some.inj hPeer
          obtain ⟨-, rfl⟩ := Prod.mk.inj hState
          exact List.mem_cons_self
      | interrupted => exact ih h
      | noFiles mem tv =>
          obtain ⟨cleaned, -, h⟩ := Option.bind_eq_some_iff.mp h
          split at h
          · exact ih h
          · obtain ⟨hNone, -⟩ := Prod.mk.inj (Option.some.inj h)
            cases hNone
      | error =>
          obtain ⟨hNone, -⟩ := Prod.mk.inj (Option.some.inj h)
          cases hNone

/-- When nothing fails behind the registration the transport is set up. -/
theorem setUp_of_registered {a : Attempt}
    (hMake : st.makefdXprt peer.sock r.sendsize r.recvsize env = some a)
    (hXprt : a.xprt = some xprt) (hRead : a.conns.xprts.read xprt = some (newXprt r peer env))
    (hAddr : env.addrMem = true) (hMode : r.maxrec ≠ 0 → env.switches = true) :
    ∃ a' x cd, st.setUp r peer env = some a' ∧ a'.xprt = some xprt ∧
      a'.conns.table = a.conns.table ∧ a'.conns.sockets = a.conns.sockets ∧
      a'.conns.xprts.read xprt = some x ∧ SetUp r peer env x cd := by
  have hOps : ((newXprt r peer env).withPeer peer).xpOps = some (.svcVcRecv (newConn r env)) :=
    withPeer_xpOps peer _
  have hMem : env.addrMem ≠ false := by rw [hAddr]; decide
  have hMaxrec : ((newConn r env).sized r).maxrec = r.maxrec := rfl
  by_cases hMax : r.maxrec = 0
  · obtain ⟨xprts, hStore, hStored⟩ := Heap.store_of_read hRead
      { (newXprt r peer env).withPeer peer with
        xpOps := some (.svcVcRecv (((newConn r env).sized r).blocking env.tv)) }
    have hRead' := hStored.read xprt
    rw [if_pos rfl] at hRead'
    refine ⟨{ a with conns := { a.conns with xprts := xprts } }, _, _, ?_, hXprt, rfl, rfl, hRead',
      ⟨withPeer_xpFd _ _, rfl, withPeer_xpNetid _ _, withPeer_xpRtaddr _ _, withPeer_xpRaddr _ _,
        rfl, ?_, rfl, ?_, rfl, ?_⟩⟩
    · simp only [SvcConns.setUp, hMake, hXprt, hRead, hOps, hMaxrec, hMax, hStore, if_neg hMem,
        Option.bind_eq_bind, Option.bind_some, ne_eq, not_true_eq_false, if_false]
      rfl
    · rw [if_neg fun h => h.1 hMax]
      rfl
    · exact (decide_eq_false (not_not.mpr hMax)).symm
    · rw [OncRpc.rendezvousRequest, if_neg (not_not.mpr hMax)]
      rfl
  · have hSwitch : env.switches ≠ false := by rw [hMode hMax]; decide
    obtain ⟨xprts, hStore, hStored⟩ := Heap.store_of_read hRead
      { (newXprt r peer env).withPeer peer with
        xpOps := some (.svcVcRecv (((newConn r env).sized r).nonblocking env.tv)) }
    have hRead' := hStored.read xprt
    rw [if_pos rfl] at hRead'
    refine ⟨{ a with conns := { a.conns with xprts := xprts } }, _, _, ?_, hXprt, rfl, rfl, hRead',
      ⟨withPeer_xpFd _ _, rfl, withPeer_xpNetid _ _, withPeer_xpRtaddr _ _, withPeer_xpRaddr _ _,
        rfl, ?_, rfl, ?_, rfl, ?_⟩⟩
    · simp only [SvcConns.setUp, hMake, hXprt, hRead, hOps, hMaxrec, hMax, hStore, if_neg hMem,
        if_neg hSwitch, Option.bind_eq_bind, Option.bind_some, ne_eq, not_false_eq_true, if_true]
      rfl
    · simp only [hMax, ne_eq, not_false_eq_true, true_and]
      rfl
    · exact (decide_eq_true hMax).symm
    · rw [OncRpc.rendezvousRequest, if_pos hMax]
      rfl

/-- What fails behind the registration leaves the transport in the table. -/
theorem setUp_of_fails {a : Attempt}
    (hMake : st.makefdXprt peer.sock r.sendsize r.recvsize env = some a)
    (hXprt : a.xprt = some xprt) (hRead : a.conns.xprts.read xprt = some (newXprt r peer env))
    (hFails : ¬ (env.addrMem = true ∧ (r.maxrec ≠ 0 → env.switches = true))) :
    ∃ a', st.setUp r peer env = some a' ∧ a'.xprt = none ∧ a'.conns.table = a.conns.table := by
  have hOps : ((newXprt r peer env).withPeer peer).xpOps = some (.svcVcRecv (newConn r env)) :=
    withPeer_xpOps peer _
  have hMaxrec : ((newConn r env).sized r).maxrec = r.maxrec := rfl
  by_cases hAddr : env.addrMem = true
  · have hMem : env.addrMem ≠ false := by rw [hAddr]; decide
    obtain ⟨hMax, hSwitch⟩ : ¬ r.maxrec = 0 ∧ env.switches = false := by simpa [hAddr] using hFails
    obtain ⟨xprts, hStore, -⟩ := Heap.store_of_read hRead
      { (newXprt r peer env).withPeer peer with
        xpOps := some (.svcVcRecv ((newConn r env).sized r)) }
    refine ⟨outOfSock peer.sock { a with conns := { a.conns with xprts := xprts } }, ?_, rfl, rfl⟩
    simp only [SvcConns.setUp, hMake, hXprt, hRead, hOps, hMaxrec, hMax, hStore, if_neg hMem,
      hSwitch, Option.bind_eq_bind, Option.bind_some, ne_eq, not_false_eq_true, if_true]
    rfl
  · refine ⟨outOfSock peer.sock a, ?_, rfl, rfl⟩
    have hNoMem : env.addrMem = false := by simpa using hAddr
    simp only [SvcConns.setUp, hMake, hXprt, hNoMem, Option.bind_eq_bind, Option.bind_some, if_true]
    rfl

/-- A connection is accepted with everything, or leaves nothing, exactly when no step fails behind
the one that stores its transport in the table, and its descriptor was not in the tables before. -/
theorem accepting_allOrNothing_iff (r : CfRendezvous) (env : Circumstances)
    (hAccept : st.acceptFrom accepts = some (some peer, held, st')) :
    AllOrNothing r peer env (st.rendezvousRequest r accepts env) ↔
      AcceptsWhen r env peer.sock st'.table := by
  have hOpen := mem_sockets_acceptFrom hAccept
  have hRun : st.rendezvousRequest r accepts env = st'.setUp r peer env := by
    rw [rendezvousRequest, hAccept]
    rfl
  rw [hRun]
  rcases makefdXprt_cases r peer env st' with ⟨hNot, a, hMake, hNone, hSame, hSockets⟩ |
    ⟨hStores, hEntry, hMake⟩ | ⟨hStores, hEntry, a, p, hMake, hListed, hSockets, hCases⟩
  · have hSetUp : st'.setUp r peer env = some (outOfSock peer.sock a) := by
      simp only [SvcConns.setUp, hMake, Option.bind_eq_bind, Option.bind_some, hNone]
      rfl
    rw [hSetUp]
    constructor
    · rintro ⟨-, hAbsent⟩
      exact ⟨fun h => absurd h hNot, fun _ => (Absent.of_same hSame).mp hAbsent⟩
    · rintro ⟨-, hAbsent⟩
      exact ⟨not_mem_close _ _, (Absent.of_same hSame).mpr (hAbsent hNot)⟩
  · have hSetUp : st'.setUp r peer env = none := by rw [SvcConns.setUp, hMake]; rfl
    rw [hSetUp]
    exact iff_of_false id fun h => hEntry (h.1 hStores).1
  · rw [AcceptsWhen, forall_prop_of_true hStores, and_iff_right hEntry]
    rcases hCases with ⟨hNone, hCannot⟩ | ⟨hXprt, hCan, hRead, hSet, hPoll⟩
    · have hSetUp : st'.setUp r peer env = some (outOfSock peer.sock a) := by
        simp only [SvcConns.setUp, hMake, Option.bind_eq_bind, Option.bind_some, hNone]
        rfl
      rw [hSetUp]
      refine iff_of_false ?_ fun h => hCannot h.1.1
      rintro ⟨-, hAbsent⟩
      exact hAbsent.xports p hListed
    · by_cases hRest : env.addrMem = true ∧ (r.maxrec ≠ 0 → env.switches = true)
      · obtain ⟨a', x, cd, hSetUp, hXprt', hTable, hSockets', hRead', hFields⟩ :=
          setUp_of_registered hMake hXprt hRead hRest.1 hRest.2
        rw [hSetUp]
        refine iff_of_true ?_ ⟨⟨hCan, hRest⟩, fun h => absurd hStores h⟩
        rw [AllOrNothing, hXprt']
        refine ⟨hTable ▸ hListed, hTable ▸ hSet, hTable ▸ hPoll, ?_, x, cd, hRead', hFields⟩
        rw [hSockets', hSockets]
        exact hOpen
      · obtain ⟨a', hSetUp, hNone, hTable⟩ := setUp_of_fails hMake hXprt hRead hRest
        rw [hSetUp]
        refine iff_of_false ?_ fun h => hRest h.1.2
        rw [AllOrNothing, hNone]
        rintro ⟨-, hAbsent⟩
        exact hAbsent.xports p (hTable ▸ hListed)

/-- There is memory for all but the address of the peer. -/
def shortOfMemory : Circumstances where
  xprtMem := true
  connMem := true
  netid := none
  netidMem := true
  spare := ⟨true, true⟩
  addrMem := false
  switches := true
  raw := quietConn
  host := exhaustedHost
  tcp := greedyClient
  tv := Timeval.zero

/-- A service without transports, and the descriptor 5 for its first connection. -/
def firstPeer : Peer := { sock := 5, addr := [0, 2, 3, 4], inet := false }

/-- With memory for the address the connection is accepted. -/
theorem accepting_firstPeer :
    AllOrNothing smallBuffers firstPeer { shortOfMemory with addrMem := true }
      (rendezvousRequest smallBuffers [.interrupted, .socket 5 [0, 2, 3, 4] false]
        { shortOfMemory with addrMem := true } ⟨{}, Heap.empty, []⟩) := by
  have hStores : Stores { shortOfMemory with addrMem := true } 5 {} :=
    ⟨rfl, rfl, Or.inl rfl, by decide, by decide, Or.inl rfl⟩
  have hAccept : acceptFrom [.interrupted, .socket 5 [0, 2, 3, 4] false] ⟨{}, Heap.empty, []⟩ =
      some (some firstPeer, false, ⟨{}, Heap.empty, [5]⟩) := rfl
  exact (accepting_allOrNothing_iff smallBuffers _ hAccept).mpr
    ⟨fun _ => ⟨Or.inr fun _ => by decide, ⟨by decide, Or.inr rfl⟩, rfl, fun _ => rfl⟩,
      fun hNot => absurd hStores hNot⟩

/-- Without, its socket is closed, and the transport is still in the table. -/
theorem not_accepting_allOrNothing : ¬ ∀ (r : CfRendezvous) (accepts : List AcceptResult)
    (env : Circumstances) (st : SvcConns) (peer : Peer) (held : Bool) (st' : SvcConns),
    st.acceptFrom accepts = some (some peer, held, st') → Absent peer.sock st'.table →
      AllOrNothing r peer env (st.rendezvousRequest r accepts env) := by
  intro h
  have hRight := h smallBuffers [.socket 5 [0, 2, 3, 4] false] shortOfMemory ⟨{}, Heap.empty, []⟩
    firstPeer false _ rfl ⟨fun p hp => (nomatch hp), List.not_mem_nil, List.not_mem_nil⟩
  have hRun : ((rendezvousRequest smallBuffers [.socket 5 [0, 2, 3, 4] false] shortOfMemory
      ⟨{}, Heap.empty, []⟩).map fun a => (a.xprt, a.conns.table.xports[5]?)) =
        some (none, some (some 0)) := by decide
  obtain ⟨a, hAttempt, hValues⟩ := Option.map_eq_some_iff.mp hRun
  obtain ⟨hXprt, hListed⟩ := Prod.mk.inj hValues
  rw [hAttempt, AllOrNothing, hXprt] at hRight
  exact hRight.2.xports 0 hListed

end SvcConns
end OncRpc
