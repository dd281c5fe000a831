import OncRpc.Rpcbind.Remote
import OncRpc.Rpcbind.Results

/-! How often rpcbind answers a request that it serves itself. -/
namespace OncRpc

open XdrOps Fallible

/-! ### One reply -/

namespace SvcXprt

variable {xprt xprt' xprt'' : SvcXprt} {results : XdrFilter Unit} {msg : ReplyMsg}
  {rs : List UInt8}

/-- One reply with the xid of the request is sent, and nothing else. -/
def Answered (xprt xprt' : SvcXprt) : Prop := ∃ bs, IsReply xprt.xid bs ∧ xprt.Sends bs xprt'

theorem Still.answered (h : Still xprt xprt') (hAnswered : xprt'.Answered xprt'') :
    xprt.Answered xprt'' := by
  obtain ⟨bs, hReply, hSends⟩ := hAnswered
  exact ⟨bs, h.xid_eq ▸ hReply, h.sends hSends⟩

theorem Still.not_answered (h : Still xprt xprt') : ¬ xprt.Answered xprt' := by
  rintro ⟨bs, -, hSends⟩
  exact h.not_sends hSends

theorem nullAuth_fits : nullAuth.Fits := ⟨by decide, by decide⟩

theorem sendable_accepted (stat : BitVec 32) (vers : Versions) : (accepted stat vers).Sendable :=
  ⟨rfl, Or.inl ⟨rfl, nullAuth_fits⟩⟩

theorem sendable_denied (why : BitVec 32) : (denied why).Sendable :=
  ⟨rfl, Or.inr ⟨rfl, Or.inr rfl⟩⟩

/-- The results stand behind 24 bytes. -/
theorem length_bytes_success (rs : List UInt8) :
    ((accepted success { low := 0, high := 0 }).bytes rs).length = 24 + rs.length := by
  have hVerf : nullAuth.bytes.length = 8 := by decide
  simp only [ReplyMsg.bytes, AcceptedReply.bytes, accepted, if_true, List.length_append,
    Word.length_toBytes, hVerf]
  omega

theorem svcReply_answered (hReady : xprt.Ready) (hMsg : msg.Sendable)
    (hResults : EmitsAll results () rs) (hRoom : xprt.Room (msg.bytes rs).length) :
    ∃ xprt', svcReply results msg xprt = some (true, xprt') ∧ xprt.Answered xprt' := by
  obtain ⟨xprt', hRun, hSends, -⟩ := svcReply_sends hReady hMsg hResults hRoom
  exact ⟨xprt', hRun, _, isReply_bytes hMsg xprt.xid rs, hSends⟩

theorem svcSendreply_answered (hReady : xprt.Ready) (hResults : EmitsAll results () rs)
    (hRoom : xprt.Room (24 + rs.length)) :
    ∃ xprt', xprt.svcSendreply results = some (true, xprt') ∧ xprt.Answered xprt' :=
  svcReply_answered hReady (sendable_accepted _ _) hResults (length_bytes_success rs ▸ hRoom)

theorem svcSendreply_still (hReady : xprt.Ready) (hResults : EmitsAll results () rs)
    (hFull : ¬ xprt.Room (24 + rs.length)) :
    ∃ xprt', xprt.svcSendreply results = some (false, xprt') ∧ Still xprt xprt' :=
  svcReply_full hReady (sendable_accepted _ _) hResults (length_bytes_success rs ▸ hFull)

/-- A reply without results. -/
theorem svcerr_answered (hReady : xprt.Ready) (hMsg : msg.Sendable)
    (hRoom : xprt.Room (msg.bytes []).length) :
    ∃ xprt', svcerr msg xprt = some xprt' ∧ xprt.Answered xprt' := by
  have hNothing : EmitsAll (fun _ => pure ()) () [] := fun _ _ _ => Emits.pure ()
  obtain ⟨xprt', hRun, hAnswered⟩ := svcReply_answered hReady hMsg hNothing hRoom
  refine ⟨xprt', ?_, hAnswered⟩
  rw [svcerr, hRun]
  rfl

end SvcXprt

namespace Rpcbind

open SvcXprt

variable {env : RpcbindEnv} {out : Outside} {rq : SvcReq} {st st' : Rpcbind}
  {xprt xprt' transp : SvcXprt} {proc : BitVec 32} {msg : ReplyMsg} {α : Type}

/-- One reply is sent by what serves a request. -/
def AnsweredOnce (xprt : SvcXprt) (served : Option (SvcXprt × Rpcbind)) : Prop :=
  ∃ xprt' st', served = some (xprt', st') ∧ xprt.Answered xprt'

theorem not_answeredOnce_none : ¬ AnsweredOnce xprt none := by
  rintro ⟨xprt', st', hNone, -⟩
  cases hNone

theorem not_answeredOnce_still (h : Still xprt xprt') : ¬ AnsweredOnce xprt (some (xprt', st)) := by
  rintro ⟨xprt'', st', hSame, hAnswered⟩
  cases hSame
  exact h.not_answered hAnswered

/-- An error is what the request is answered with. -/
theorem answeredOnce_svcerr (h : Still xprt transp) (hReady : xprt.Ready) (hRoom : xprt.Room 28)
    (hMsg : msg.Sendable) (hLen : (msg.bytes []).length ≤ 28) :
    AnsweredOnce xprt ((svcerr msg transp).map fun transp => (transp, st)) := by
  have hSpace : transp.Room (msg.bytes []).length := ((h.room_iff 28).mpr hRoom).mono hLen
  obtain ⟨xprt', hRun, hAnswered⟩ := svcerr_answered (h.ready hReady) hMsg hSpace
  refine ⟨xprt', st, ?_, h.answered hAnswered⟩
  rw [hRun]
  rfl

/-! ### Arguments and access -/

/-- The procedure is called only if `cond` holds of its arguments, and the address of the
caller, where it is looked at, is a whole one. -/
def Served (env : RpcbindEnv) (proc : BitVec 32) (xdrArgument : XdrFilter α)
    (cond : α → SvcXprt → Prop) (xprt : SvcXprt) : Prop :=
  match xprt.svcGetargs xdrArgument with
  | (none, _) => True
  | (some argument, transp) =>
      match env.checkAccess transp.xpRtaddr proc with
      | none => False
      | some false => True
      | some true => cond argument transp

/-- A procedure returns a result when the condition holds, and else NULL or not at all. -/
def Decides (cond : Prop) (returned : Option (Option RpcbResult × Rpcbind)) : Prop :=
  cond ∧ (∃ result st', returned = some (some result, st') ∧ result.Short) ∨
    ¬ cond ∧ (returned = none ∨ ∃ st', returned = some (none, st'))

theorem rpcbServe_answered {xdrArgument : XdrFilter α} {cond : α → SvcXprt → Prop}
    {routine : α → SvcXprt → Rpcbind → Option (Option RpcbResult × Rpcbind)}
    (hReady : xprt.Ready) (hRoom : xprt.Room 28) (hReads : ReadsOnly xdrArgument)
    (hRoutine : ∀ argument transp, Decides (cond argument transp) (routine argument transp st)) :
    AnsweredOnce xprt (rpcbServe env proc xdrArgument routine xprt st) ↔
      Served env proc xdrArgument cond xprt := by
  have hStill := svcGetargs_still hReads xprt
  unfold rpcbServe Served
  rcases hArgs : xprt.svcGetargs xdrArgument with ⟨_ | argument, transp⟩
  · rw [hArgs] at hStill
    exact iff_of_true (answeredOnce_svcerr hStill hReady hRoom (sendable_accepted _ _)
      (by decide)) trivial
  · rw [hArgs] at hStill
    dsimp only
    rcases hAccess : env.checkAccess transp.xpRtaddr proc with _ | _ | _
    · exact iff_of_false not_answeredOnce_none id
    · exact iff_of_true (answeredOnce_svcerr hStill hReady hRoom (sendable_denied _)
        (by decide)) trivial
    · show AnsweredOnce xprt ((routine argument transp st).bind _) ↔ _
      rcases hRoutine argument transp with
        ⟨hCond, result, st', hRun, hShort⟩ | ⟨hNot, hNone | ⟨st', hNull⟩⟩
      · rw [hRun]
        refine iff_of_true ?_ hCond
        show AnsweredOnce xprt ((transp.svcSendreply result.xdr).bind _)
        have hEmits := RpcbResult.emitsAll_xdr hShort
        by_cases hSpace : transp.Room (24 + result.bytes.length)
        · obtain ⟨xprt', hSent, hAnswered⟩ :=
            svcSendreply_answered (hStill.ready hReady) hEmits hSpace
          rw [hSent]
          exact ⟨xprt', st', rfl, hStill.answered hAnswered⟩
        · obtain ⟨xprt', hSent, hStill'⟩ :=
            svcSendreply_still (hStill.ready hReady) hEmits hSpace
          rw [hSent]
          exact answeredOnce_svcerr (hStill.trans hStill') hReady hRoom (sendable_accepted _ _)
            (by decide)
      · rw [hNone]
        exact iff_of_false not_answeredOnce_none hNot
      · rw [hNull]
        exact iff_of_false (not_answeredOnce_still hStill) hNot

/-- A reply of the port mapper that cannot be sent is not made up for. -/
theorem pmapServe_answered {xdrArgument : XdrFilter α} {cond : α → SvcXprt → Prop}
    {routine : α → SvcXprt → Rpcbind → Option (RpcbResult × Rpcbind)}
    (hReady : xprt.Ready) (hRoom : xprt.Room 28) (hReads : ReadsOnly xdrArgument)
    (hRoutine : ∀ argument transp, transp.Room 28 → ∃ result st',
      routine argument transp st = some (result, st') ∧ result.Short ∧
        (cond argument transp ↔ transp.Room (24 + result.bytes.length))) :
    AnsweredOnce xprt (pmapServe env proc xdrArgument routine xprt st) ↔
      Served env proc xdrArgument cond xprt := by
  have hStill := svcGetargs_still hReads xprt
  unfold pmapServe Served
  rcases hArgs : xprt.svcGetargs xdrArgument with ⟨_ | argument, transp⟩
  · rw [hArgs] at hStill
    exact iff_of_true (answeredOnce_svcerr hStill hReady hRoom (sendable_accepted _ _)
      (by decide)) trivial
  · rw [hArgs] at hStill
    dsimp only
    rcases hAccess : env.checkAccess transp.xpRtaddr proc with _ | _ | _
    · exact iff_of_false not_answeredOnce_none id
    · exact iff_of_true (answeredOnce_svcerr hStill hReady hRoom (sendable_denied _)
        (by decide)) trivial
    · obtain ⟨result, st', hRun, hShort, hCond⟩ :=
        hRoutine argument transp ((hStill.room_iff 28).mpr hRoom)
      show AnsweredOnce xprt ((routine argument transp st).bind _) ↔ cond argument transp
      rw [hRun, hCond]
      show AnsweredOnce xprt ((transp.svcSendreply result.xdr).bind _) ↔ _
      have hEmits := RpcbResult.emitsAll_xdr hShort
      by_cases hSpace : transp.Room (24 + result.bytes.length)
      · obtain ⟨xprt', hSent, hAnswered⟩ :=
          svcSendreply_answered (hStill.ready hReady) hEmits hSpace
        rw [hSent]
        exact iff_of_true ⟨xprt', st', rfl, hStill.answered hAnswered⟩ hSpace
      · obtain ⟨xprt', hSent, hStill'⟩ :=
          svcSendreply_still (hStill.ready hReady) hEmits hSpace
        rw [hSent]
        exact iff_of_false (not_answeredOnce_still (hStill.trans hStill')) hSpace

/-! ### Where a procedure comes to nothing -/

/-- The address of a service is merged with that of the caller without leaving the data. -/
def Mergeable (env : RpcbindEnv) (regp : Rpcb) (transp : SvcXprt) (netid uaddr : CString) : Prop :=
  (env.mergeaddr transp.svcGetrpccaller netid uaddr (hint regp)).isSome

/-- So is that of the service that is asked for, if it is registered. -/
def Locatable (env : RpcbindEnv) (allvers : Bool) (registry : Registry) (regp : Rpcb)
    (transp : SvcXprt) : Prop :=
  ∀ fnd, serviceFor allvers regp transp registry = some fnd →
    Mergeable env regp transp transp.xpNetid fnd.rAddr

/-- The address is a whole one for the transport, or the transport is not served. -/
def Readable (env : RpcbindEnv) (taddr : Netbuf) (transp : SvcXprt) : Prop :=
  ∀ nconf, env.rpcbindGetConf transp.xpNetid = some nconf →
    (taddr2uaddr env.inet nconf taddr).isSome

/-- The transport of an entry is served, and its address can be merged if it is of the family
that is asked for. -/
def Offered (env : RpcbindEnv) (regp : Rpcb) (regNconf : NetconfigEnt) (transp : SvcXprt)
    (rbl : Rpcb) : Prop :=
  ∃ nconf, env.rpcbindGetConf rbl.rNetid = some nconf ∧
    (nconf.ncProtofmly = regNconf.ncProtofmly → Mergeable env regp transp rbl.rNetid rbl.rAddr)

/-- All the entries for a service can be listed. -/
def Listable (env : RpcbindEnv) (registry : Registry) (regp : Rpcb) (transp : SvcXprt) : Prop :=
  ∃ regNconf, env.rpcbindGetConf transp.xpNetid = some regNconf ∧
    ∀ rbl ∈ registry.listRbl, Listed regp rbl → Offered env regp regNconf transp rbl

variable {regp rbl fnd : Rpcb} {allvers : Bool} {rtype : Fin rpcbversStat}
  {regNconf : NetconfigEnt} {sc : Addrlist}

theorem mem_of_serviceFor (h : serviceFor allvers regp transp st.registry = some fnd) :
    fnd ∈ st.registry.listRbl := by
  have hFound := (Option.filter_eq_some_iff.mp h).1
  rw [Registry.findService, Registry.findServiceFrom_eq, Option.or_none] at hFound
  rcases Option.or_eq_some_iff.mp hFound with hSame | ⟨-, hOther⟩
  · exact (Keyed.mem_of_lookup hSame).1
  · exact List.mem_reverse.mp (List.mem_of_find?_eq_some hOther)

theorem foundUaddr_short (h : Mergeable env regp transp transp.xpNetid fnd.rAddr)
    (hShort : CString.Short fnd.rAddr) (registry : Registry) :
    ∃ uaddr registry', foundUaddr env regp fnd transp registry = some (uaddr, registry') ∧
      CString.Short uaddr := by
  obtain ⟨merged, hMerged⟩ := Option.isSome_iff_exists.mp h
  rw [foundUaddr, hMerged]
  rcases merged with _ | _ | ⟨c, text⟩
  · exact ⟨_, _, rfl, hShort⟩
  · simp only [Option.bind_eq_bind, Option.bind_some, RpcbindEnv.deleteProg_eq]
    exact ⟨[], registry, rfl, Nat.zero_le _⟩
  · exact ⟨_, _, rfl, RpcbindEnv.mergeaddr_short hShort hMerged⟩

theorem rpcbprocGetaddrCom_decides (st : Rpcbind) (hShort : ∀ rbl ∈ st.registry.listRbl, rbl.Short) :
    Decides (Locatable env allvers st.registry regp transp)
      ((rpcbprocGetaddrCom env rtype allvers regp transp st).map (Prod.map some id)) := by
  unfold rpcbprocGetaddrCom getaddrUaddr
  rcases hFound : serviceFor allvers regp transp st.registry with _ | fnd
  · refine Or.inl ⟨fun fnd hSome => ?_, _, _, rfl, Nat.zero_le _⟩
    rw [hFound] at hSome
    cases hSome
  · by_cases hMerge : Mergeable env regp transp transp.xpNetid fnd.rAddr
    · obtain ⟨uaddr, registry, hRun, hUaddr⟩ :=
        foundUaddr_short hMerge (hShort fnd (mem_of_serviceFor hFound)).addr st.registry
      dsimp only
      rw [hRun]
      refine Or.inl ⟨fun fnd' hSome => ?_, _, _, rfl, hUaddr⟩
      rw [hFound] at hSome
      cases hSome
      exact hMerge
    · refine Or.inr ⟨fun hAll => hMerge (hAll fnd hFound), Or.inl ?_⟩
      have hNone : env.mergeaddr transp.svcGetrpccaller transp.xpNetid fnd.rAddr (hint regp) =
          none := by simpa [Mergeable] using hMerge
      dsimp only
      rw [foundUaddr, hNone]
      rfl

theorem rpcbprocTaddr2uaddrCom_decides (taddr : Netbuf) (transp : SvcXprt) :
    Decides (Readable env taddr transp)
      ((rpcbprocTaddr2uaddrCom env taddr transp).map fun result => (some result, st)) := by
  unfold rpcbprocTaddr2uaddrCom Readable
  rcases env.rpcbindGetConf transp.xpNetid with _ | nconf
  · exact Or.inl ⟨fun nconf hNone => (by cases hNone), _, _, rfl, Nat.zero_le _⟩
  · rcases hText : taddr2uaddr env.inet nconf taddr with _ | uaddr
    · refine Or.inr ⟨fun hAll => ?_, Or.inl ?_⟩
      · have hSome := hAll nconf rfl
        rw [hText] at hSome
        cases hSome
      · dsimp only
        rw [hText]
        rfl
    · dsimp only
      rw [hText]
      refine Or.inl ⟨fun nconf' hSame => ?_, _, _, rfl, ?_⟩
      · cases hSame
        rw [hText]
        rfl
      · cases uaddr with
        | none => exact Nat.zero_le _
        | some uaddr => exact taddr2uaddr_short hText

/-! ### `rpcbproc_getaddrlist_4_local` -/

theorem short_entryOf {maddr : CString} (h : CString.Short maddr) (nconf : NetconfigEnt) :
    (entryOf maddr nconf).Short := by
  have hLe {n : Nat} (hLt : n < 1000) : n ≤ rpcMaxdatasize := by
    unfold rpcMaxdatasize
    omega
  exact ⟨h, hLe nconf.short.1, hLe nconf.short.2.1, hLe nconf.short.2.2⟩

theorem addrlistStep_offered (h : Offered env regp regNconf transp rbl) (hShort : rbl.Short)
    (hList : ∀ a ∈ sc.rlist, a.Short) :
    ∃ sc', addrlistStep env regp regNconf transp rbl sc = some (some sc') ∧
      ∀ a ∈ sc'.rlist, a.Short := by
  obtain ⟨nconf, hConf, hMerge⟩ := h
  unfold addrlistStep
  rw [hConf]
  dsimp only
  by_cases hFamily : nconf.ncProtofmly = regNconf.ncProtofmly
  · obtain ⟨merged, hMerged⟩ := Option.isSome_iff_exists.mp (hMerge hFamily)
    rw [if_neg (not_not.mpr hFamily), hMerged]
    rcases merged with _ | _ | ⟨c, text⟩
    · exact ⟨_, rfl, hList⟩
    · simp only [Option.bind_eq_bind, Option.bind_some, RpcbindEnv.deleteProg_eq]
      exact ⟨_, rfl, hList⟩
    · refine ⟨_, rfl, fun a hMem => ?_⟩
      rcases List.mem_append.mp hMem with hOld | hNew
      · exact hList a hOld
      · rw [List.mem_singleton.mp hNew]
        exact short_entryOf (RpcbindEnv.mergeaddr_short hShort.addr hMerged) nconf
  · rw [if_pos hFamily]
    exact ⟨sc, rfl, hList⟩

theorem addrlistStep_not_offered (sc : Addrlist) (h : ¬ Offered env regp regNconf transp rbl) :
    addrlistStep env regp regNconf transp rbl sc = none ∨
      addrlistStep env regp regNconf transp rbl sc = some none := by
  unfold addrlistStep
  rcases hConf : env.rpcbindGetConf rbl.rNetid with _ | nconf
  · exact Or.inr rfl
  · dsimp only
    by_cases hFamily : nconf.ncProtofmly = regNconf.ncProtofmly
    · rw [if_neg (not_not.mpr hFamily)]
      rcases hMerged : env.mergeaddr transp.svcGetrpccaller rbl.rNetid rbl.rAddr (hint regp) with
        _ | merged
      · exact Or.inl rfl
      · refine absurd ⟨nconf, hConf, fun _ => ?_⟩ h
        rw [Mergeable, hMerged]
        rfl
    · exact absurd ⟨nconf, hConf, fun hSame => absurd hSame hFamily⟩ h

/-- The induction is on the entries that are left. -/
theorem addrlistFrom_offered (list : List Rpcb) (sc : Addrlist)
    (h : ∀ rbl ∈ list, Listed regp rbl → Offered env regp regNconf transp rbl)
    (hShort : ∀ rbl ∈ list, rbl.Short) (hList : ∀ a ∈ sc.rlist, a.Short) :
    ∃ sc', addrlistFrom env regp regNconf transp list sc = some (some sc') ∧
      ∀ a ∈ sc'.rlist, a.Short := by
  induction list generalizing sc with
  | nil => exact ⟨sc, rfl, hList⟩
  | cons rbl rest ih =>
      have hRest := fun rbl' hMem => h rbl' (List.mem_cons_of_mem rbl hMem)
      have hShort' := fun rbl' hMem => hShort rbl' (List.mem_cons_of_mem rbl hMem)
      rw [addrlistFrom]
      by_cases hListed : Listed regp rbl
      · obtain ⟨sc', hStep, hList'⟩ := addrlistStep_offered (h rbl List.mem_cons_self hListed)
          (hShort rbl List.mem_cons_self) hList
        rw [if_pos hListed, hStep]
        exact ih sc' hRest hShort' hList'
      · rw [if_neg hListed]
        exact ih sc hRest hShort' hList

/-- The loop does not get past an entry that cannot be offered, and may have stopped before. -/
theorem addrlistFrom_not_offered (list : List Rpcb) (sc : Addrlist) (hMem : rbl ∈ list)
    (hListed : Listed regp rbl) (h : ¬ Offered env regp regNconf transp rbl) :
    addrlistFrom env regp regNconf transp list sc = none ∨
      addrlistFrom env regp regNconf transp list sc = some none := by
  induction list generalizing sc with
  | nil => cases hMem
  | cons first rest ih =>
      rw [addrlistFrom]
      rcases List.mem_cons.mp hMem with rfl | hRest
      · rw [if_pos hListed]
        rcases addrlistStep_not_offered sc h with hStep | hStep
        · rw [hStep]
          exact Or.inl rfl
        · rw [hStep]
          exact Or.inr rfl
      · split
        · split
          · exact Or.inl rfl
          · exact Or.inr rfl
          · exact ih _ hRest
        · exact ih sc hRest

theorem rpcbprocGetaddrlist4Local_decides (st : Rpcbind)
    (hShort : ∀ rbl ∈ st.registry.listRbl, rbl.Short) :
    Decides (Listable env st.registry regp transp)
      (rpcbprocGetaddrlist4Local env rtype regp transp st) := by
  unfold rpcbprocGetaddrlist4Local Listable
  rcases hConf : env.rpcbindGetConf transp.xpNetid with _ | regNconf
  · refine Or.inr ⟨?_, Or.inr ⟨st, rfl⟩⟩
    rintro ⟨regNconf, hNone, -⟩
    cases hNone
  · dsimp only
    by_cases hAll : ∀ rbl ∈ st.registry.listRbl, Listed regp rbl →
        Offered env regp regNconf transp rbl
    · obtain ⟨sc, hRun, hList⟩ := addrlistFrom_offered st.registry.listRbl
        { rlist := [], maddr := none, registry := st.registry } hAll hShort
        (fun a hMem => (by cases hMem))
      rw [hRun]
      exact Or.inl ⟨⟨regNconf, rfl, hAll⟩, _, _, rfl, hList⟩
    · obtain ⟨rbl, hMem, hListed, hMissing⟩ : ∃ rbl ∈ st.registry.listRbl, Listed regp rbl ∧
          ¬ Offered env regp regNconf transp rbl := by simpa using hAll
      refine Or.inr ⟨?_, ?_⟩
      · rintro ⟨regNconf', hSame, hOffered⟩
        cases hSame
        exact hAll hOffered
      · rcases addrlistFrom_not_offered st.registry.listRbl
          { rlist := [], maddr := none, registry := st.registry } hMem hListed hMissing with
          hRun | hRun
        · rw [hRun]
          exact Or.inl rfl
        · rw [hRun]
          exact Or.inr ⟨st, rfl⟩

/-! ### The port mapper -/

/-- A result that is a single word. -/
theorem room_long (ans : BitVec 32) : transp.Room (24 + (RpcbResult.long ans).bytes.length) ↔
    transp.Room 28 := by
  rw [show (RpcbResult.long ans).bytes.length = 4 from Word.length_toBytes ans]

theorem pmapPort_isSome (env : RpcbindEnv) (reg : Pmap) (registry : Registry) :
    ∃ port registry', pmapPort env reg registry = some (port, registry') := by
  unfold pmapPort
  split
  · exact ⟨0, registry, rfl⟩
  · dsimp only
    split
    · exact ⟨0, registry, rfl⟩
    · split
      · rw [if_pos (RpcbindEnv.isBound_eq_true _ _)]
        exact ⟨_, registry, rfl⟩
      · exact ⟨0, registry, rfl⟩

theorem pmapGetport_long (env : RpcbindEnv) (reg : Pmap) (st : Rpcbind) :
    ∃ ans st', pmapGetport env reg st = some (.long ans, st') := by
  obtain ⟨port, registry, hPort⟩ := pmapPort_isSome env reg st.registry
  rw [pmapGetport, hPort]
  exact ⟨_, _, rfl⟩

theorem readsOnly_argVoid : ReadsOnly argVoid := fun _ _ _ _ => Stays.pure _

theorem readsOnly_argRpcb : ReadsOnly argRpcb := fun _ _ _ h => h.xdrRpcb _

theorem readsOnly_argWrapstring : ReadsOnly argWrapstring := fun _ _ _ h => h.xdrText _ _

theorem readsOnly_argNetbuf : ReadsOnly argNetbuf := fun _ _ _ h => h.xdrNetbuf _

theorem readsOnly_argPmap : ReadsOnly argPmap := fun _ _ _ h => h.xdrPmap _

/-! ### The dispatchers -/

/-- Whether a procedure that the versions 3 and 4 have in common answers. -/
def ComAnswerable (env : RpcbindEnv) (proc : BitVec 32) (xprt : SvcXprt) (registry : Registry) :
    Prop :=
  if proc = rpcbprocSet ∨ proc = rpcbprocUnset then
    Served env proc argRpcb (fun _ _ => True) xprt
  else if proc = rpcbprocGetaddr then Served env proc argRpcb (Locatable env true registry) xprt
  else if proc = rpcbprocTaddr2uaddr then Served env proc argNetbuf (Readable env) xprt
  else True

/-- Whether a request is answered. What is asked for must not lead the procedure out of its
data or to NULL, and the ports must fit into a datagram. -/
def Answerable (env : RpcbindEnv) (proc : BitVec 32) (xprt : SvcXprt) (registry : Registry) :
    Dispatcher → Prop
  | .pmapService =>
      if proc = rpcbprocSet ∨ proc = rpcbprocUnset then
        Served env proc argPmap (fun _ _ => True) xprt
      else if proc = rpcbprocDump then xprt.Room (28 + 20 * registry.listPml.length)
      else True
  | .rpcbService3 => ComAnswerable env proc xprt registry
  | .rpcbService4 =>
      if proc = rpcbprocGetversaddr then
        Served env proc argRpcb (Locatable env false registry) xprt
      else if proc = rpcbprocGetaddrlist then Served env proc argRpcb (Listable env registry) xprt
      else ComAnswerable env proc xprt registry

/-- Whether rpcbind serves a request itself. -/
def Dispatcher.Direct (proc : BitVec 32) : Dispatcher → Prop
  | .pmapService | .rpcbService3 => proc ≠ rpcbprocCallit
  | .rpcbService4 => proc ≠ rpcbprocCallit ∧ proc ≠ rpcbprocIndirect

/-- Access is only restricted for changes. -/
theorem checkAccess_open (addr : List UInt8) (h : ¬ (proc = rpcbprocSet ∨ proc = rpcbprocUnset)) :
    env.checkAccess addr proc = some true := by
  rw [RpcbindEnv.checkAccess, if_neg fun hBoth => h hBoth.1]

theorem served_of_open {xdrArgument : XdrFilter α} {cond : α → SvcXprt → Prop}
    (h : ¬ (proc = rpcbprocSet ∨ proc = rpcbprocUnset)) (hCond : ∀ a transp, cond a transp) :
    Served env proc xdrArgument cond xprt := by
  unfold Served
  rcases xprt.svcGetargs xdrArgument with ⟨_ | argument, transp⟩
  · trivial
  · dsimp only
    rw [checkAccess_open _ h]
    exact hCond argument transp

theorem answerable_null {registry : Registry} {d : Dispatcher} (h : proc = rpcbprocNull) :
    Answerable env proc xprt registry d := by
  subst h
  cases d <;> simp [Answerable, ComAnswerable, rpcbprocNull, rpcbprocSet, rpcbprocUnset,
    rpcbprocGetaddr, rpcbprocDump, rpcbprocTaddr2uaddr, rpcbprocGetversaddr, rpcbprocGetaddrlist]

theorem nullProc_answered (hReady : xprt.Ready) (hRoom : xprt.Room 28) :
    AnsweredOnce xprt (nullProc xprt st) := by
  have hEmits := RpcbResult.emitsAll_xdr (r := .void) trivial
  obtain ⟨xprt', hSent, hAnswered⟩ :=
    svcSendreply_answered hReady hEmits (hRoom.mono (by decide : 24 + 0 ≤ 28))
  refine ⟨xprt', st, ?_, hAnswered⟩
  rw [nullProc, hSent]
  rfl

theorem noProc_answered (hReady : xprt.Ready) (hRoom : xprt.Room 28) :
    AnsweredOnce xprt (noProc xprt st) :=
  answeredOnce_svcerr (Still.refl xprt) hReady hRoom (sendable_accepted _ _) (by decide)

theorem decides_of_short {cond : Prop} {result : RpcbResult} (h : cond) (hShort : result.Short) :
    Decides cond (some (some result, st)) := Or.inl ⟨h, result, st, rfl, hShort⟩

/-- A procedure that looks at nothing that could be missing is always answered. -/
theorem alwaysServe_answered {xdrArgument : XdrFilter α}
    (result : α → SvcXprt → Rpcbind → RpcbResult) (hReady : xprt.Ready) (hRoom : xprt.Room 28)
    (hReads : ReadsOnly xdrArgument) (hOpen : ¬ (proc = rpcbprocSet ∨ proc = rpcbprocUnset))
    (hResult : ∀ a transp, (result a transp st).Short) :
    AnsweredOnce xprt (rpcbServe env proc xdrArgument
      (fun a transp st => some (some (result a transp st), st)) xprt st) := by
  have hServed : Served env proc xdrArgument (fun _ _ => True) xprt :=
    served_of_open hOpen fun _ _ => trivial
  refine (rpcbServe_answered hReady hRoom hReads fun a transp => ?_).mpr hServed
  exact decides_of_short trivial (hResult a transp)

theorem rpcbprocUaddr2taddrCom_short (uaddr : CString) (transp : SvcXprt) :
    (rpcbprocUaddr2taddrCom env uaddr transp).Short := by
  have hEmpty : emptyNetbuf.Short := ⟨Nat.zero_le _, le_refl _, Nat.zero_le _⟩
  unfold rpcbprocUaddr2taddrCom
  split
  · exact hEmpty
  · next nconf hConf =>
      rcases hTaddr : uaddr2taddr env.inet nconf uaddr with _ | taddr
      · exact hEmpty
      · exact uaddr2taddr_short hTaddr

/-- The procedures that both versions have, and those that there are not. -/
theorem rpcbServiceCom_answered (st : Rpcbind) (hReady : xprt.Ready) (hRoom : xprt.Room 28)
    (hShort : ∀ rbl ∈ st.registry.listRbl, rbl.Short) :
    AnsweredOnce xprt (match rpcbServiceCom env out rtype proc with
      | some serve => serve xprt st
      | none => noProc xprt st) ↔ ComAnswerable env proc xprt st.registry := by
  unfold rpcbServiceCom ComAnswerable
  by_cases hSet : proc = rpcbprocSet
  · rw [if_pos hSet, if_pos (Or.inl hSet)]
    exact rpcbServe_answered hReady hRoom readsOnly_argRpcb fun _ _ =>
      decides_of_short trivial trivial
  rw [if_neg hSet]
  by_cases hUnset : proc = rpcbprocUnset
  · rw [if_pos hUnset, if_pos (Or.inr hUnset)]
    exact rpcbServe_answered hReady hRoom readsOnly_argRpcb fun _ _ =>
      decides_of_short trivial trivial
  have hOpen : ¬ (proc = rpcbprocSet ∨ proc = rpcbprocUnset) := not_or.mpr ⟨hSet, hUnset⟩
  rw [if_neg hUnset, if_neg hOpen]
  by_cases hGetaddr : proc = rpcbprocGetaddr
  · rw [if_pos hGetaddr, if_pos hGetaddr]
    exact rpcbServe_answered hReady hRoom readsOnly_argRpcb fun _ _ =>
      rpcbprocGetaddrCom_decides st hShort
  rw [if_neg hGetaddr, if_neg hGetaddr]
  by_cases hTaddr : proc = rpcbprocTaddr2uaddr
  · rw [if_pos hTaddr, hTaddr]
    exact rpcbServe_answered hReady hRoom readsOnly_argNetbuf rpcbprocTaddr2uaddrCom_decides
  rw [if_neg hTaddr, if_neg hTaddr]
  refine iff_of_true ?_ trivial
  split_ifs
  · exact alwaysServe_answered (fun _ _ st => .rpcblist st.registry.listRbl) hReady hRoom
      readsOnly_argVoid hOpen fun _ _ => hShort
  · exact alwaysServe_answered (fun _ _ _ => rpcbprocGettimeCom out.time) hReady hRoom
      readsOnly_argVoid hOpen fun _ _ => trivial
  · exact alwaysServe_answered (fun uaddr transp _ => rpcbprocUaddr2taddrCom env uaddr transp)
      hReady hRoom readsOnly_argWrapstring hOpen rpcbprocUaddr2taddrCom_short
  · exact noProc_answered hReady hRoom

theorem pmapprocGetport_answered (hReady : xprt.Ready) (hRoom : xprt.Room 28) :
    AnsweredOnce xprt (pmapprocGetport env xprt st) := by
  have hServed : Served env rpcbprocGetaddr argPmap (fun _ _ => True) xprt :=
    served_of_open (by decide) fun _ _ => trivial
  refine (pmapServe_answered hReady hRoom readsOnly_argPmap fun reg transp hSpace => ?_).mpr hServed
  obtain ⟨ans, st', hRun⟩ := pmapGetport_long env reg st
  exact ⟨_, st', hRun, trivial, iff_of_true trivial ((room_long ans).mpr hSpace)⟩

/-- The ports are sent only if they fit. -/
theorem pmapprocDump_answered (hReady : xprt.Ready) (hRoom : xprt.Room 28) :
    AnsweredOnce xprt (pmapprocDump env xprt st) ↔
      xprt.Room (28 + 20 * st.registry.listPml.length) := by
  have hArgs : (xprt.svcGetargs argVoid).1 = some () := by
    rcases xprt with ⟨netid, sockinfo, ⟨rtaddr, cd⟩ | ⟨su, line⟩⟩
    · rfl
    · rfl
  have hServed : Served env rpcbprocDump argVoid
      (fun _ transp => transp.Room (28 + 20 * st.registry.listPml.length)) xprt ↔
        xprt.Room (28 + 20 * st.registry.listPml.length) := by
    have hSame := (svcGetargs_still readsOnly_argVoid xprt).room_iff
      (28 + 20 * st.registry.listPml.length)
    unfold Served
    rcases hRun : xprt.svcGetargs argVoid with ⟨argument, transp⟩
    rw [hRun] at hArgs hSame
    cases hArgs
    dsimp only
    rw [checkAccess_open _ (by decide)]
    exact hSame
  refine (pmapServe_answered hReady hRoom readsOnly_argVoid fun _ transp _ => ?_).trans hServed
  refine ⟨_, _, rfl, trivial, ?_⟩
  rw [RpcbResult.length_bytes_pmaplist, ← Nat.add_assoc]

theorem pmapService_answered (hReady : xprt.Ready) (hRoom : xprt.Room 28)
    (hDirect : rq.rqProc ≠ rpcbprocCallit) :
    AnsweredOnce xprt (pmapService env out rq xprt st) ↔
      Answerable env rq.rqProc xprt st.registry .pmapService := by
  unfold pmapService
  dsimp only
  by_cases hNull : rq.rqProc = rpcbprocNull
  · rw [if_pos hNull]
    exact iff_of_true (nullProc_answered hReady hRoom) (answerable_null hNull)
  rw [if_neg hNull]
  unfold Answerable
  dsimp only
  by_cases hChange : rq.rqProc = rpcbprocSet ∨ rq.rqProc = rpcbprocUnset
  · rw [if_pos hChange, if_pos hChange]
    exact pmapServe_answered hReady hRoom readsOnly_argPmap fun reg transp hSpace =>
      ⟨_, _, rfl, trivial, iff_of_true trivial ((room_long _).mpr hSpace)⟩
  rw [if_neg hChange, if_neg hChange]
  by_cases hGetport : rq.rqProc = rpcbprocGetaddr
  · rw [if_pos hGetport, hGetport, if_neg (by decide)]
    exact iff_of_true (pmapprocGetport_answered hReady hRoom) trivial
  rw [if_neg hGetport]
  by_cases hDump : rq.rqProc = rpcbprocDump
  · rw [if_pos hDump, if_pos hDump]
    exact pmapprocDump_answered hReady hRoom
  rw [if_neg hDump, if_neg hDump, if_neg hDirect]
  exact iff_of_true (noProc_answered hReady hRoom) trivial

theorem rpcbService3_answered (hReady : xprt.Ready) (hRoom : xprt.Room 28)
    (hShort : ∀ rbl ∈ st.registry.listRbl, rbl.Short) (hDirect : rq.rqProc ≠ rpcbprocCallit) :
    AnsweredOnce xprt (rpcbService3 env out rq xprt st) ↔
      Answerable env rq.rqProc xprt st.registry .rpcbService3 := by
  unfold rpcbService3
  dsimp only
  by_cases hNull : rq.rqProc = rpcbprocNull
  · rw [if_pos hNull]
    exact iff_of_true (nullProc_answered hReady hRoom) (answerable_null hNull)
  · rw [if_neg hNull, if_neg hDirect]
    exact rpcbServiceCom_answered (st.procinfo 1 rq.rqProc) hReady hRoom hShort

theorem rpcbService4_answered (out : Outside) (rq : SvcReq) (st : Rpcbind) (hReady : xprt.Ready)
    (hRoom : xprt.Room 28)
    (hShort : ∀ rbl ∈ st.registry.listRbl, rbl.Short) (hInf : st.inf.Short)
    (hDirect : rq.rqProc ≠ rpcbprocCallit ∧ rq.rqProc ≠ rpcbprocIndirect) :
    AnsweredOnce xprt (rpcbService4 env out rq xprt st) ↔
      Answerable env rq.rqProc xprt st.registry .rpcbService4 := by
  unfold rpcbService4
  dsimp only
  by_cases hNull : rq.rqProc = rpcbprocNull
  · rw [if_pos hNull]
    exact iff_of_true (nullProc_answered hReady hRoom) (answerable_null hNull)
  rw [if_neg hNull, if_neg fun hBoth => hBoth.elim hDirect.2 hDirect.1]
  unfold Answerable
  dsimp only
  by_cases hVers : rq.rqProc = rpcbprocGetversaddr
  · rw [if_pos hVers, if_pos hVers]
    exact rpcbServe_answered hReady hRoom readsOnly_argRpcb fun _ _ =>
      rpcbprocGetaddrCom_decides (st.procinfo 2 rq.rqProc) hShort
  rw [if_neg hVers, if_neg hVers]
  by_cases hList : rq.rqProc = rpcbprocGetaddrlist
  · rw [if_pos hList, if_pos hList]
    exact rpcbServe_answered hReady hRoom readsOnly_argRpcb fun _ _ =>
      rpcbprocGetaddrlist4Local_decides (st.procinfo 2 rq.rqProc) hShort
  rw [if_neg hList, if_neg hList]
  by_cases hStat : rq.rqProc = rpcbprocGetstat
  · have hInf' : (st.procinfo 2 rq.rqProc).inf.Short := hInf.rpcbsProcinfo 2 rq.rqProc
    rw [if_pos hStat, hStat]
    rw [hStat] at hInf'
    refine iff_of_true ?_ ?_
    · exact alwaysServe_answered (fun _ _ st => .statByvers st.inf) hReady hRoom
        readsOnly_argVoid (by decide) fun _ _ => hInf'
    · unfold ComAnswerable
      rw [if_neg (by decide), if_neg (by decide), if_neg (by decide)]
      trivial
  rw [if_neg hStat]
  exact rpcbServiceCom_answered (st.procinfo 2 rq.rqProc) hReady hRoom hShort

/-- A client has registered a service for a transport that there is not. -/
def strayRequest : RpcbRequest :=
  .set
    { rProg := 0, rVers := 0, rNetid := CString.ascii "nonet"
      rAddr := CString.ascii "10.0.0.1.3.232", rOwner := [] }
    rpcbindUnknown

def strayRpcbind : Rpcbind :=
  { bareRpcbind with registry := RpcbRequest.reach (CString.ascii "udp") [] [strayRequest] }

def quietOutside : Outside := { time := 0, timeDup := 0, dup := true, sent := true }

/-- What a caller wants to know. Its arguments are zeros. -/
def strayRq (proc : BitVec 32) : SvcReq :=
  { rqProc := proc, rqFlavor := authNull, rqMarshalled := none }

theorem strayRequest_short : ∀ r ∈ [strayRequest], r.Short := by
  intro r hMem
  rw [List.mem_singleton.mp hMem]
  have hNetid : (CString.ascii "nonet").length ≤ rpcMaxdatasize := by decide
  have hAddr : (CString.ascii "10.0.0.1.3.232").length ≤ rpcMaxdatasize := by decide
  have hOwner : rpcbindUnknown.length ≤ rpcMaxdatasize := by decide
  exact ⟨⟨hNetid, hAddr, Nat.zero_le _⟩, hOwner⟩

theorem strangeCaller_ready : strangeCaller.Ready :=
  ⟨⟨rfl, fun uc hNone => (by cases hNone)⟩, rfl⟩

end Rpcbind
end OncRpc
