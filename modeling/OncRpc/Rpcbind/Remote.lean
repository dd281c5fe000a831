import OncRpc.Rpcbind.Service

/-! What callers on other hosts can bring about: nothing in the registries, and no call of
rpcbind's own procedures but the null procedure. -/
namespace OncRpc

open Fallible

/-- The bytes are those of a call that is not for rpcbind, or that is for its null
procedure. -/
def Forwarded.Harmless (f : Forwarded) : Prop :=
  ∃ (xid : BitVec 32) (a : RmtcallArgs) (rest : List UInt8),
    f.dgram = forwardedHeader xid a ++ rest ∧ (a.rmtProg ≠ rpcbprog ∨ a.rmtProc = 0)

namespace Rpcbind

/-- The registries are as they were, and what has been forwarded since is harmless. -/
structure Untouched (st st' : Rpcbind) : Prop where
  registry_eq : st'.registry = st.registry
  forwarded : ∀ f ∈ st'.forwarded, f ∈ st.forwarded ∨ f.Harmless

variable {env : RpcbindEnv} {out : Outside} {rq : SvcReq} {st st' st'' : Rpcbind}
  {xprt xprt' : SvcXprt} {proc : BitVec 32}

theorem Untouched.refl (st : Rpcbind) : Untouched st st := ⟨rfl, fun _ hMem => Or.inl hMem⟩

theorem Untouched.trans (h : Untouched st st') (h' : Untouched st' st'') : Untouched st st'' where
  registry_eq := h'.registry_eq.trans h.registry_eq
  forwarded f hMem := (h'.forwarded f hMem).elim (h.forwarded f) Or.inr

/-- Only what is counted and what is in the table of forwarded calls differs. -/
theorem Untouched.of_eq (hRegistry : st'.registry = st.registry)
    (hForwarded : st'.forwarded = st.forwarded) : Untouched st st' :=
  ⟨hRegistry, fun _ hMem => Or.inl (hForwarded ▸ hMem)⟩

/-! ### Procedures that only look at the registries -/

theorem foundUaddr_registry {regp fnd : Rpcb} {registry registry' : Registry} {uaddr : CString}
    (h : foundUaddr env regp fnd xprt registry = some (uaddr, registry')) :
    registry' = registry := by
  obtain ⟨merged, -, h⟩ := Option.bind_eq_some_iff.mp h
  split at h
  · cases h
    rfl
  · rw [RpcbindEnv.deleteProg_eq] at h
    cases h
    rfl
  · cases h
    rfl

theorem rpcbprocGetaddrCom_untouched {rtype : Fin rpcbversStat} {allvers : Bool} {regp : Rpcb}
    {result : RpcbResult}
    (h : rpcbprocGetaddrCom env rtype allvers regp xprt st = some (result, st')) :
    Untouched st st' := by
  obtain ⟨⟨uaddr, registry⟩, hFound, h⟩ := Option.bind_eq_some_iff.mp h
  cases h
  refine Untouched.of_eq ?_ rfl
  unfold getaddrUaddr at hFound
  split at hFound
  · cases hFound
    rfl
  · exact foundUaddr_registry hFound

theorem addrlistStep_registry {regp rbl : Rpcb} {nconf : NetconfigEnt} {sc sc' : Addrlist}
    (h : addrlistStep env regp nconf xprt rbl sc = some (some sc')) :
    sc'.registry = sc.registry := by
  unfold addrlistStep at h
  split at h
  · cases h
  · split at h
    · cases h
      rfl
    · obtain ⟨merged, -, h⟩ := Option.bind_eq_some_iff.mp h
      split at h
      · cases h
        rfl
      · rw [RpcbindEnv.deleteProg_eq] at h
        cases h
        rfl
      · cases h
        rfl

/-- The induction is on the entries that are left. -/
theorem addrlistFrom_registry {regp : Rpcb} {nconf : NetconfigEnt} (list : List Rpcb)
    {sc sc' : Addrlist} (h : addrlistFrom env regp nconf xprt list sc = some (some sc')) :
    sc'.registry = sc.registry := by
  induction list generalizing sc with
  | nil =>
      cases h
      rfl
  | cons rbl rest ih =>
      rw [addrlistFrom] at h
      split at h
      · split at h
        · cases h
        · cases h
        · next hStep => exact (ih h).trans (addrlistStep_registry hStep)
      · exact ih h

theorem rpcbprocGetaddrlist4Local_untouched {rtype : Fin rpcbversStat} {regp : Rpcb}
    {result : Option RpcbResult}
    (h : rpcbprocGetaddrlist4Local env rtype regp xprt st = some (result, st')) :
    Untouched st st' := by
  unfold rpcbprocGetaddrlist4Local at h
  split at h
  · cases h
    exact Untouched.refl st
  · obtain ⟨scanned, hScan, h⟩ := Option.bind_eq_some_iff.mp h
    split at h
    · cases h
      exact Untouched.refl st
    · cases h
      exact Untouched.of_eq (addrlistFrom_registry _ hScan) rfl

theorem pmapGetport_untouched {reg : Pmap} {result : RpcbResult}
    (h : pmapGetport env reg st = some (result, st')) : Untouched st st' := by
  obtain ⟨⟨port, registry⟩, hPort, h⟩ := Option.bind_eq_some_iff.mp h
  cases h
  refine Untouched.of_eq ?_ rfl
  unfold pmapPort at hPort
  split at hPort
  · cases hPort
    rfl
  · dsimp only at hPort
    split at hPort
    · cases hPort
      rfl
    · split at hPort
      · rw [if_pos (RpcbindEnv.isBound_eq_true _ _)] at hPort
        cases hPort
        rfl
      · cases hPort
        rfl

/-! ### Calls that are forwarded -/

/-- Whatever is put into the buffer begins with the header of the call. -/
theorem emits_putForwarded {σ : Type} [XdrOps σ] [XdrSink σ] (xid : BitVec 32) (a : RmtcallArgs)
    (auth : List UInt8) :
    Emits (putForwarded xid a auth : Fallible σ _) ()
      (forwardedHeader xid a ++ (auth ++ padded a.args)) := by
  have hArgs := emits_xdrOpaque (σ := σ) (le_refl a.args.length)
  rw [List.take_length] at hArgs
  have hAll : Emits (putForwarded xid a auth : Fallible σ _) ()
      (callhdrBytes xid a.rmtProg a.rmtVers ++
        (Word.toBytes a.rmtProc ++ (auth ++ padded a.args))) :=
    (emits_xdrCallhdr xid a.rmtProg a.rmtVers).bind ((emits_xdrInteger id id _).bind
      ((Emits.putbytes auth).bind (hArgs.bind_pure rfl)))
  simpa [forwardedHeader, callhdrBytes] using hAll

/-- A datagram that is forwarded begins with its header. -/
theorem forwardedDgram_header {xid : BitVec 32} {a : RmtcallArgs} {dgram : List UInt8}
    (h : forwardedDgram rq xid a = .ok dgram) : ∃ rest, dgram = forwardedHeader xid a ++ rest := by
  unfold forwardedDgram at h
  split at h
  · cases h
  · next auth hAuth =>
      generalize hSendsz : rpcGetTSize udpmsgsize = sendsz at h
      have hWithin : (XdrMem.xdrmemCreate (List.replicate sendsz 0) sendsz true).Within := by
        show 0 + sendsz ≤ (List.replicate sendsz (0 : UInt8)).length
        rw [List.length_replicate, Nat.zero_add]
      rcases emits_putForwarded (σ := XdrMem) xid a auth _ hWithin with
        ⟨-, outxdr, hRun, hLe, -, rfl⟩ | ⟨-, cs, outxdr, hRun, -⟩
      · simp only [hRun] at h
        cases h
        refine ⟨auth ++ padded a.args, ?_⟩
        generalize forwardedHeader xid a ++ (auth ++ padded a.args) = bs
        show (Buffer.writeAt (List.replicate sendsz 0) 0 bs).take (0 + bs.length) = bs
        simp [Buffer.writeAt]
      · simp only [hRun] at h
        cases h

theorem complain_same {replyType : BitVec 32} {svcerr : SvcXprt → Option SvcXprt}
    (h : complain replyType svcerr xprt st = some (xprt', st')) : st' = st := by
  unfold complain at h
  split at h
  · obtain ⟨x, -, hSame⟩ := Option.map_eq_some_iff.mp h
    exact (Prod.mk.inj hSame).2.symm
  · exact (Prod.mk.inj (Option.some.inj h)).2.symm

theorem sendForwarded_untouched {nconf : NetconfigEnt} {replyType callxid : BitVec 32}
    {a : RmtcallArgs} {fd : Nat} {localUaddr : Option CString}
    (hCallit : a.rmtProg ≠ rpcbprog ∨ a.rmtProc = 0)
    (h : sendForwarded env out rq nconf replyType a fd callxid localUaddr xprt st =
      some (xprt', st')) : Untouched st st' := by
  unfold sendForwarded at h
  dsimp only at h
  split at h
  · rw [complain_same h]
    exact Untouched.of_eq rfl rfl
  · next dgram hDgram =>
      obtain ⟨taddr, -, h⟩ := Option.bind_eq_some_iff.mp h
      split at h
      · rw [complain_same h]
        exact Untouched.of_eq rfl rfl
      · split at h
        · cases h
          refine ⟨rfl, fun f hMem => ?_⟩
          rcases List.mem_append.mp hMem with hOld | hNew
          · exact Or.inl hOld
          · rw [List.mem_singleton.mp hNew]
            obtain ⟨rest, hBytes⟩ := forwardedDgram_header hDgram
            exact Or.inr ⟨callxid, a, rest, hBytes, hCallit⟩
        · rw [complain_same h]
          exact Untouched.of_eq rfl rfl

theorem forwardCall_untouched {replyType versnum : BitVec 32} {a : RmtcallArgs} {rbl : Rpcb}
    (hCallit : a.rmtProg ≠ rpcbprog ∨ a.rmtProc = 0)
    (h : forwardCall env out rq replyType versnum a rbl xprt st = some (xprt', st')) :
    Untouched st st' := by
  unfold forwardCall at h
  split at h
  · rw [complain_same h]
    exact Untouched.refl st
  · obtain ⟨family, -, h⟩ := Option.bind_eq_some_iff.mp h
    split at h
    · cases h
      exact Untouched.refl st
    · obtain ⟨localUaddr, -, h⟩ := Option.bind_eq_some_iff.mp h
      obtain ⟨mUaddr, -, h⟩ := Option.bind_eq_some_iff.mp h
      split at h
      · rw [complain_same h]
        exact Untouched.refl st
      · obtain ⟨xid, -, h⟩ := Option.bind_eq_some_iff.mp h
        dsimp only at h
        split at h
        · have hSent := sendForwarded_untouched hCallit h
          exact ⟨hSent.registry_eq, hSent.forwarded⟩
        · cases h
          exact Untouched.of_eq rfl rfl

/-- Whatever becomes of a call that rpcbind is asked to forward, the registries stay as they
are. -/
theorem rpcbprocCallitCom_untouched {replyType versnum : BitVec 32} {rtype : Fin rpcbversStat}
    (hSecure : env.insecure = false)
    (h : rpcbprocCallitCom env out rq replyType versnum rtype xprt st = some (xprt', st')) :
    Untouched st st' := by
  unfold rpcbprocCallitCom at h
  split at h
  · rw [complain_same h]
    exact Untouched.refl st
  · split at h
    · cases h
      exact Untouched.refl st
    · split at h
      · rw [complain_same h]
        exact Untouched.refl st
      · next a transp hArgs =>
          split at h
          · next hAllowed =>
              have hCallit := RpcbindEnv.checkCallit_rpcbprog hSecure hAllowed
              unfold callService at h
              dsimp only at h
              split at h
              · rw [complain_same h]
                exact Untouched.of_eq rfl rfl
              · split at h
                · rw [complain_same h]
                  exact Untouched.of_eq rfl rfl
                · obtain ⟨there, -, h⟩ := Option.bind_eq_some_iff.mp h
                  split at h
                  · have hSent := forwardCall_untouched hCallit h
                    exact ⟨hSent.registry_eq, hSent.forwarded⟩
                  · obtain ⟨x, -, hSame⟩ := Option.map_eq_some_iff.mp h
                    cases hSame
                    exact Untouched.of_eq rfl rfl
          · obtain ⟨x, -, hSame⟩ := Option.map_eq_some_iff.mp h
            cases hSame
            exact Untouched.refl st

/-! ### The dispatchers -/

/-- A map over the last step of a reply says nothing about the rest. -/
theorem eq_of_map_pair {reply : Option SvcXprt}
    (h : (reply.map fun xprt => (xprt, st)) = some (xprt', st')) : st' = st := by
  obtain ⟨x, -, hSame⟩ := Option.map_eq_some_iff.mp h
  exact (Prod.mk.inj hSame).2.symm

theorem pmapServe_untouched {α : Type} {xdrArgument : XdrFilter α}
    {routine : α → SvcXprt → Rpcbind → Option (RpcbResult × Rpcbind)}
    (hRoutine : env.checkAccess xprt.xpRtaddr proc = some true → ∀ argument transp result st',
      routine argument transp st = some (result, st') → Untouched st st')
    (h : pmapServe env proc xdrArgument routine xprt st = some (xprt', st')) :
    Untouched st st' := by
  have hAddr := SvcXprt.xpRtaddr_svcGetargs xdrArgument xprt
  unfold pmapServe at h
  split at h
  · rw [eq_of_map_pair h]
    exact Untouched.refl st
  · next argument transp hArgs =>
      rw [hArgs] at hAddr
      obtain ⟨allowed, hAccess, h⟩ := Option.bind_eq_some_iff.mp h
      rw [show transp.xpRtaddr = xprt.xpRtaddr from hAddr] at hAccess
      split at h
      · next hAllowed =>
          rw [hAllowed] at hAccess
          obtain ⟨⟨result, served⟩, hRun, h⟩ := Option.bind_eq_some_iff.mp h
          obtain ⟨sent, -, h⟩ := Option.bind_eq_some_iff.mp h
          cases h
          exact hRoutine hAccess _ _ _ _ hRun
      · rw [eq_of_map_pair h]
        exact Untouched.refl st

theorem rpcbServe_untouched {α : Type} {xdrArgument : XdrFilter α}
    {routine : α → SvcXprt → Rpcbind → Option (Option RpcbResult × Rpcbind)}
    (hRoutine : env.checkAccess xprt.xpRtaddr proc = some true → ∀ argument transp result st',
      routine argument transp st = some (result, st') → Untouched st st')
    (h : rpcbServe env proc xdrArgument routine xprt st = some (xprt', st')) :
    Untouched st st' := by
  have hAddr := SvcXprt.xpRtaddr_svcGetargs xdrArgument xprt
  unfold rpcbServe at h
  split at h
  · rw [eq_of_map_pair h]
    exact Untouched.refl st
  · next argument transp hArgs =>
      rw [hArgs] at hAddr
      obtain ⟨allowed, hAccess, h⟩ := Option.bind_eq_some_iff.mp h
      rw [show transp.xpRtaddr = xprt.xpRtaddr from hAddr] at hAccess
      split at h
      · next hAllowed =>
          rw [hAllowed] at hAccess
          obtain ⟨⟨result, served⟩, hRun, h⟩ := Option.bind_eq_some_iff.mp h
          have hServed := hRoutine hAccess _ _ _ _ hRun
          dsimp only at h
          split at h
          · cases h
            exact hServed
          · obtain ⟨⟨sent, replied⟩, -, h⟩ := Option.bind_eq_some_iff.mp h
            dsimp only at h
            split at h
            · cases h
              exact hServed
            · rw [eq_of_map_pair h]
              exact hServed
      · rw [eq_of_map_pair h]
        exact Untouched.refl st

/-- A routine that leaves the state as it is. -/
theorem untouched_of_same {α β : Type} {routine : α → SvcXprt → Rpcbind → Option (β × Rpcbind)}
    (hSame : ∀ argument transp result st', routine argument transp st = some (result, st') →
      st' = st) (argument : α) (transp : SvcXprt) (result : β) (st' : Rpcbind)
    (h : routine argument transp st = some (result, st')) : Untouched st st' := by
  rw [hSame argument transp result st' h]
  exact Untouched.refl st

theorem nullProc_untouched (h : nullProc xprt st = some (xprt', st')) : Untouched st st' := by
  obtain ⟨sent, -, h⟩ := Option.bind_eq_some_iff.mp h
  cases h
  exact Untouched.refl st

theorem noProc_untouched (h : noProc xprt st = some (xprt', st')) : Untouched st st' := by
  rw [eq_of_map_pair h]
  exact Untouched.refl st

/-- The procedures of the versions 3 and 4, for a caller that may not set or unset. -/
theorem rpcbServiceCom_untouched {rtype : Fin rpcbversStat}
    {serve : SvcXprt → Rpcbind → Option (SvcXprt × Rpcbind)}
    (hDenied : proc = rpcbprocSet ∨ proc = rpcbprocUnset →
      env.checkAccess xprt.xpRtaddr proc ≠ some true)
    (hServe : rpcbServiceCom env out rtype proc = some serve)
    (h : serve xprt st = some (xprt', st')) : Untouched st st' := by
  unfold rpcbServiceCom at hServe
  split_ifs at hServe with hSet hUnset hGetaddr hDump hGettime hUaddr2taddr hTaddr2uaddr
  · cases hServe
    exact rpcbServe_untouched (fun hAllowed => absurd hAllowed (hDenied (Or.inl hSet))) h
  · cases hServe
    exact rpcbServe_untouched (fun hAllowed => absurd hAllowed (hDenied (Or.inr hUnset))) h
  · cases hServe
    refine rpcbServe_untouched (fun _ regp transp result st' hRun => ?_) h
    obtain ⟨⟨answer, served⟩, hCom, hSame⟩ := Option.map_eq_some_iff.mp hRun
    cases hSame
    exact rpcbprocGetaddrCom_untouched hCom
  · cases hServe
    refine rpcbServe_untouched (fun _ => untouched_of_same fun _ _ _ _ hRun => ?_) h
    exact (Prod.mk.inj (Option.some.inj hRun)).2.symm
  · cases hServe
    refine rpcbServe_untouched (fun _ => untouched_of_same fun _ _ _ _ hRun => ?_) h
    exact (Prod.mk.inj (Option.some.inj hRun)).2.symm
  · cases hServe
    refine rpcbServe_untouched (fun _ => untouched_of_same fun _ _ _ _ hRun => ?_) h
    exact (Prod.mk.inj (Option.some.inj hRun)).2.symm
  · cases hServe
    refine rpcbServe_untouched (fun _ => untouched_of_same fun _ _ _ _ hRun => ?_) h
    obtain ⟨answer, -, hSame⟩ := Option.map_eq_some_iff.mp hRun
    exact (Prod.mk.inj hSame).2.symm

/-- A caller that may not set or unset anything, or that asks for neither. -/
def Denied (env : RpcbindEnv) (rq : SvcReq) (xprt : SvcXprt) : Prop :=
  rq.rqProc = rpcbprocSet ∨ rq.rqProc = rpcbprocUnset →
    env.checkAccess xprt.xpRtaddr rq.rqProc ≠ some true

theorem pmapService_untouched (hSecure : env.insecure = false) (hDenied : Denied env rq xprt)
    (h : pmapService env out rq xprt st = some (xprt', st')) : Untouched st st' := by
  have hCounted : Untouched st (st.procinfo 0 rq.rqProc) := Untouched.of_eq rfl rfl
  apply hCounted.trans
  unfold pmapService at h
  dsimp only at h
  split_ifs at h with hNull hChange hGetaddr hDump hCallit
  · exact nullProc_untouched h
  · exact pmapServe_untouched (fun hAllowed => absurd hAllowed (hDenied hChange)) h
  · exact pmapServe_untouched (fun _ _ _ _ _ hRun => pmapGetport_untouched hRun) h
  · refine pmapServe_untouched (fun _ => untouched_of_same fun _ _ _ _ hRun => ?_) h
    exact (Prod.mk.inj (Option.some.inj hRun)).2.symm
  · exact rpcbprocCallitCom_untouched hSecure h
  · exact noProc_untouched h

theorem rpcbService3_untouched (hSecure : env.insecure = false) (hDenied : Denied env rq xprt)
    (h : rpcbService3 env out rq xprt st = some (xprt', st')) : Untouched st st' := by
  have hCounted : Untouched st (st.procinfo 1 rq.rqProc) := Untouched.of_eq rfl rfl
  apply hCounted.trans
  unfold rpcbService3 at h
  dsimp only at h
  split_ifs at h with hNull hCallit
  · exact nullProc_untouched h
  · exact rpcbprocCallitCom_untouched hSecure h
  · split at h
    · next serve hServe => exact rpcbServiceCom_untouched hDenied hServe h
    · exact noProc_untouched h

theorem rpcbService4_untouched (hSecure : env.insecure = false) (hDenied : Denied env rq xprt)
    (h : rpcbService4 env out rq xprt st = some (xprt', st')) : Untouched st st' := by
  have hCounted : Untouched st (st.procinfo 2 rq.rqProc) := Untouched.of_eq rfl rfl
  apply hCounted.trans
  unfold rpcbService4 at h
  dsimp only at h
  split_ifs at h with hNull hForwarded hGetversaddr hGetaddrlist hGetstat
  · exact nullProc_untouched h
  · exact rpcbprocCallitCom_untouched hSecure h
  · refine rpcbServe_untouched (fun _ regp transp result st' hRun => ?_) h
    obtain ⟨⟨answer, served⟩, hCom, hSame⟩ := Option.map_eq_some_iff.mp hRun
    cases hSame
    exact rpcbprocGetaddrCom_untouched hCom
  · exact rpcbServe_untouched (fun _ _ _ _ _ hRun => rpcbprocGetaddrlist4Local_untouched hRun) h
  · refine rpcbServe_untouched (fun _ => untouched_of_same fun _ _ _ _ hRun => ?_) h
    exact (Prod.mk.inj (Option.some.inj hRun)).2.symm
  · split at h
    · next serve hServe => exact rpcbServiceCom_untouched hDenied hServe h
    · exact noProc_untouched h

/-- One request, to any of the dispatchers. -/
theorem Dispatcher.run_untouched {d : Dispatcher} (hSecure : env.insecure = false)
    (hDenied : Denied env rq xprt) (h : d.run env out rq xprt st = some (xprt', st')) :
    Untouched st st' := by
  cases d with
  | pmapService => exact pmapService_untouched hSecure hDenied h
  | rpcbService3 => exact rpcbService3_untouched hSecure hDenied h
  | rpcbService4 => exact rpcbService4_untouched hSecure hDenied h

theorem denied_of_remote (hSecure : env.insecure = false) (hRemote : Sockaddr.Remote xprt.xpRtaddr) :
    Denied env rq xprt :=
  fun hProc => RpcbindEnv.checkAccess_remote hRemote hSecure hProc

theorem denied_of_null (hNull : rq.rqProc = 0) : Denied env rq xprt := by
  intro hProc
  rw [hNull] at hProc
  exact absurd hProc (by decide)

/-! ### Runs -/

/-- What happens to rpcbind while all its callers are on other hosts. What it forwards may come
back to itself, from any address, and is then served like any other request. -/
inductive Serves (env : RpcbindEnv) : Rpcbind → Rpcbind → Prop
  | start (st : Rpcbind) : Serves env st st
  | request {st st' st'' : Rpcbind} {d : Dispatcher} {out : Outside} {rq : SvcReq}
      {xprt xprt' : SvcXprt} (before : Serves env st st')
      (remote : Sockaddr.Remote xprt.xpRtaddr)
      (run : d.run env out rq xprt st' = some (xprt', st'')) : Serves env st st''
  | returned {st st' st'' : Rpcbind} {f : Forwarded} {msg msg' : RpcMsg} {rest : List UInt8}
      {d : Dispatcher} {out : Outside} {rq : SvcReq} {xprt xprt' : SvcXprt}
      (before : Serves env st st') (sent : f ∈ st'.forwarded)
      (decoded : (xdrCallmsg .decode msg).run (f.dgram : ByteStream) = (some msg', rest))
      (prog : msg'.rmCall.cbProg = rpcbprog) (vers : msg'.rmCall.cbVers = d.vers)
      (proc : rq.rqProc = msg'.rmCall.cbProc)
      (run : d.run env out rq xprt st' = some (xprt', st'')) : Serves env st st''
  | reply {st st' : Rpcbind} (stack : ReplyMsg) (received : Option (List UInt8))
      (before : Serves env st st') :
      Serves env st { st' with forwarding := (st'.forwarding.handleReply stack received).2 }

/-- The header of a forwarded call is what it is decoded to. -/
theorem decode_forwardedHeader {xid : BitVec 32} {a : RmtcallArgs} {rest left : List UInt8}
    {msg msg' : RpcMsg}
    (h : (xdrCallmsg .decode msg).run (forwardedHeader xid a ++ rest : ByteStream) =
      (some msg', left)) :
    msg'.rmCall.cbProg = a.rmtProg ∧ msg'.rmCall.cbProc = a.rmtProc := by
  have hWord (w : BitVec 32) (t : List UInt8) :
      (XdrOps.getlong : Fallible ByteStream (BitVec 32)).run (Word.toBytes w ++ t) = (some w, t) :=
    ByteStream.Takes.getlong w t
  simp only [forwardedHeader, List.flatMap_cons, List.flatMap_nil, List.append_nil,
    List.append_assoc] at h
  have h : (callmsgPlain .decode msg).run _ = _ := h
  unfold callmsgPlain at h
  simp only [xdrUInt32T_decode, xdrEnum_decode] at h
  rw [run_bind_some (hWord xid _), run_bind_some (hWord call _), run_bind_require, if_pos rfl,
    run_bind_some (hWord rpcMsgVersion _), run_bind_require, if_pos rfl,
    run_bind_some (hWord a.rmtProg _), run_bind_some (hWord a.rmtVers _),
    run_bind_some (hWord a.rmtProc _)] at h
  obtain ⟨cred, t₁, -, h⟩ := exists_of_run_bind h
  obtain ⟨verf, t₂, -, h⟩ := exists_of_run_bind h
  cases h
  exact ⟨rfl, rfl⟩

/-- A harmless call is not decoded as one of rpcbind's other procedures. -/
theorem decoded_of_harmless {f : Forwarded} (h : f.Harmless) {msg msg' : RpcMsg}
    {left : List UInt8}
    (hDecode : (xdrCallmsg .decode msg).run (f.dgram : ByteStream) = (some msg', left)) :
    msg'.rmCall.cbProg ≠ rpcbprog ∨ msg'.rmCall.cbProc = 0 := by
  obtain ⟨xid, a, rest, hBytes, hCall⟩ := h
  rw [hBytes] at hDecode
  obtain ⟨hProg, hProc⟩ := decode_forwardedHeader hDecode
  rwa [hProg, hProc]

/-- The induction is on the run, and carries that all that has been forwarded is harmless. -/
theorem Serves.untouched (hSecure : env.insecure = false) (h : Serves env st st')
    (hStart : st.forwarded = []) : Untouched st st' ∧ ∀ f ∈ st'.forwarded, f.Harmless := by
  have hHarmless {st' : Rpcbind} (hUntouched : Untouched st st') :
      ∀ f ∈ st'.forwarded, f.Harmless := by
    intro f hMem
    rcases hUntouched.forwarded f hMem with hOld | hNew
    · rw [hStart] at hOld
      cases hOld
    · exact hNew
  suffices hAll : Untouched st st' from ⟨hAll, hHarmless hAll⟩
  induction h with
  | start => exact Untouched.refl st
  | request before remote run ih =>
      exact ih.trans (Dispatcher.run_untouched hSecure (denied_of_remote hSecure remote) run)
  | returned before sent decoded prog vers proc run ih =>
      have hNull := (decoded_of_harmless (hHarmless ih _ sent) decoded).resolve_left fun h => h prog
      exact ih.trans (Dispatcher.run_untouched hSecure (denied_of_null (proc.trans hNull)) run)
  | reply stack received before ih => exact ih.trans (Untouched.of_eq rfl rfl)

/-- Callers on other hosts change neither registry, and rpcbind calls none of its own procedures
for them but the null procedure. -/
theorem remote_callers_confined (env : RpcbindEnv) (st st' : Rpcbind)
    (hSecure : env.insecure = false) (hStart : st.forwarded = []) (hRun : Serves env st st') :
    st'.registry.listRbl = st.registry.listRbl ∧ st'.registry.listPml = st.registry.listPml ∧
    ∀ f ∈ st'.forwarded, ∀ (msg msg' : RpcMsg) (left : List UInt8),
      (xdrCallmsg .decode msg).run (f.dgram : ByteStream) = (some msg', left) →
      msg'.rmCall.cbProg ≠ rpcbprog ∨ msg'.rmCall.cbProc = 0 := by
  obtain ⟨hUntouched, hHarmless⟩ := hRun.untouched hSecure hStart
  refine ⟨congrArg Registry.listRbl hUntouched.registry_eq,
    congrArg Registry.listPml hUntouched.registry_eq, ?_⟩
  exact fun f hMem _ _ _ hDecode => decoded_of_harmless (hHarmless f hMem) hDecode

/-- One service is registered. -/
def bareRpcbind : Rpcbind where
  registry :=
    { listRbl := []
      listPml := [{ pmProg := 0, pmVers := 0, pmProt := ipprotoUdp, pmPort := 1000 }]
      udptrans := CString.ascii "udp"
      tcptrans := [] }
  inf := RpcbStatByvers.zero
  forwarding := Forwarding.initial {}
  forwarded := []

/-- A call from the privileged port 600 of 10.0.0.1. Its arguments are zeros. -/
def strangeCaller : SvcXprt where
  xpNetid := CString.ascii "udp"
  sockinfo := none
  data := .dg { DgSession.callTransport with xpRtaddr := Sockaddr.inet 600 [10, 0, 0, 1] }
    { sent := [], writable := true }

theorem strangeCaller_remote : Sockaddr.Remote strangeCaller.xpRtaddr :=
  ⟨by decide, fun _ => (by decide), fun h => absurd h (by decide)⟩

/-- It asks the port mapper for the service to be unset. -/
def strangeUnset : Option (SvcXprt × Rpcbind) :=
  Dispatcher.pmapService.run bareEnv { time := 0, timeDup := 0, dup := true, sent := true }
    { rqProc := rpcbprocUnset, rqFlavor := authNull, rqMarshalled := none } strangeCaller
    bareRpcbind

theorem remote_callers_confined_unset : strangeUnset.isSome ∧
    ∀ served ∈ strangeUnset, served.2.registry.listPml = bareRpcbind.registry.listPml := by
  refine ⟨by decide, fun served hRun => ?_⟩
  have hServes : Serves bareEnv bareRpcbind served.2 :=
    Serves.request (Serves.start bareRpcbind) strangeCaller_remote hRun
  exact (remote_callers_confined bareEnv bareRpcbind served.2 rfl rfl hServes).2.1

end Rpcbind
end OncRpc
