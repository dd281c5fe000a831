import OncRpc.Rec.Stream
import OncRpc.Rpc.CallMsg
import OncRpc.Svc.Callout

/-! `svc.c`: the loop that takes the requests of a transport. -/
namespace OncRpc

/-- A reply of `svc.c` to a request that no routine is called for. -/
inductive SvcErr where
  /-- `svcerr_auth`. -/
  | auth (why : BitVec 32)
  /-- `svcerr_progvers`. -/
  | progvers (lowVers highVers : BitVec 32)
  /-- `svcerr_noprog`. -/
  | noprog
  deriving DecidableEq, Repr

/-- `AUTH_OK`. -/
def authOk : BitVec 32 := 0

/-- The world that `svc_getreq_common` stands on: the transports, the authentication and the
dispatch routines, any of which can change everything. A transport is known by its address. -/
structure SvcWorld (σ δ : Type) where
  /-- `__svc_xports`. -/
  svcXports : σ → List (Option Nat)
  svcHead : σ → List (SvcCallout δ)
  /-- `SVC_RECV`. -/
  svcRecv : Nat → σ → Option RpcMsg × σ
  /-- `SVC_STAT`. -/
  svcStat : Nat → σ → XprtStat × σ
  /-- `SVC_DESTROY`. -/
  svcDestroy : Nat → σ → σ
  svcerr : SvcErr → Nat → σ → σ
  /-- `_authenticate`. -/
  authenticate : RpcMsg → Nat → σ → BitVec 32 × σ
  /-- A dispatch routine, and whether it has destroyed the transport. -/
  dispatch : δ → RpcMsg → Nat → σ → Bool × σ

/-- What `svc_getreq_common` does, in its order. -/
inductive GetreqEvent (δ : Type) where
  | recv
  | stat
  | destroy
  | svcerr (e : SvcErr)
  /-- The routine has returned. It has destroyed the transport, or the transport is no longer
  registered, when `gone` is set. -/
  | dispatch (scDispatch : δ) (gone : Bool)
  deriving DecidableEq, Repr

namespace GetreqEvent

variable {δ : Type}

/-- The transport is used. -/
def uses : GetreqEvent δ → Bool
  | recv | stat | destroy => true
  | svcerr _ | dispatch _ _ => false

/-- The transport is gone. -/
def gone : GetreqEvent δ → Bool
  | dispatch _ gone => gone
  | _ => false

/-- A transport that is gone is not used again. -/
def NeverUsedAgain (es : List (GetreqEvent δ)) : Prop :=
  es.Pairwise fun e e' => e.gone = true → e'.uses = false

instance (es : List (GetreqEvent δ)) : Decidable (NeverUsedAgain es) :=
  inferInstanceAs (Decidable (es.Pairwise _))

end GetreqEvent

namespace SvcWorld

variable {σ δ : Type}

/-- The transport is still the one of its descriptor. -/
def Registered (w : SvcWorld σ δ) (fd xprt : Nat) (st : σ) : Prop :=
  (w.svcXports st)[fd]? = some (some xprt)

instance (w : SvcWorld σ δ) (fd xprt : Nat) (st : σ) : Decidable (w.Registered fd xprt st) :=
  inferInstanceAs (Decidable (_ = _))

/-- `call_done`. The last component says whether the loop goes on. -/
def callDone (w : SvcWorld σ δ) (xprt : Nat) (st : σ) : List (GetreqEvent δ) × σ × Bool :=
  match w.svcStat xprt st with
  | (.died, st) => ([.stat, .destroy], w.svcDestroy xprt st, false)
  | (.moreReqs, st) => ([.stat], st, true)
  | (.idle, st) => ([.stat], st, false)

/-- The check for a transport that is no longer registered, and what comes after it. -/
def recheck (w : SvcWorld σ δ) (fd xprt : Nat) (st : σ) : List (GetreqEvent δ) × σ × Bool :=
  if w.Registered fd xprt st then w.callDone xprt st else ([], st, false)

/-- Puts what was done before in front. -/
def after (es : List (GetreqEvent δ)) (r : List (GetreqEvent δ) × σ × Bool) :
    List (GetreqEvent δ) × σ × Bool := (es ++ r.1, r.2)

/-- A request that has been received. -/
def getreqMsg (w : SvcWorld σ δ) (fd xprt : Nat) (msg : RpcMsg) (st : σ) :
    List (GetreqEvent δ) × σ × Bool :=
  match w.authenticate msg xprt st with
  | (why, st) =>
      if why ≠ authOk then
        after [.svcerr (.auth why)] (w.callDone xprt (w.svcerr (.auth why) xprt st))
      else
        match serviceOf msg.rmCall.cbProg msg.rmCall.cbVers (w.svcHead st) with
        | .dispatch d =>
            -- `goto call_done`, past the check.
            let r := w.dispatch d msg xprt st
            after [.dispatch d (r.1 || !decide (w.Registered fd xprt r.2))] (w.callDone xprt r.2)
        | .progvers low high =>
            after [.svcerr (.progvers low high)]
              (w.recheck fd xprt (w.svcerr (.progvers low high) xprt st))
        | .noprog => after [.svcerr .noprog] (w.recheck fd xprt (w.svcerr .noprog xprt st))

/-- A round of the loop. -/
def getreqRound (w : SvcWorld σ δ) (fd xprt : Nat) (st : σ) : List (GetreqEvent δ) × σ × Bool :=
  match w.svcRecv xprt st with
  | (none, st) => after [.recv] (w.recheck fd xprt st)
  | (some msg, st) => after [.recv] (w.getreqMsg fd xprt msg st)

/-- The first `n` rounds of the loop. -/
def getreqLoop (w : SvcWorld σ δ) (fd xprt : Nat) : Nat → σ → List (GetreqEvent δ) × σ
  | 0, st => ([], st)
  | n + 1, st =>
      match w.getreqRound fd xprt st with
      | (es, st, true) =>
          let rest := w.getreqLoop fd xprt n st
          (es ++ rest.1, rest.2)
      | (es, st, false) => (es, st)

/-- `svc_getreq_common`, for `n` rounds. -/
def svcGetreqCommon (w : SvcWorld σ δ) (n fd : Nat) (st : σ) : List (GetreqEvent δ) × σ :=
  match (w.svcXports st)[fd]? with
  | some (some xprt) => w.getreqLoop fd xprt n st
  | _ => ([], st)

/-- The loop comes to a round in this state. -/
inductive Visits (w : SvcWorld σ δ) (fd xprt : Nat) : σ → σ → Prop where
  | here (st : σ) : Visits w fd xprt st st
  | round {st st' : σ} (more : (w.getreqRound fd xprt st).2.2 = true)
      (rest : Visits w fd xprt (w.getreqRound fd xprt st).2.1 st') : Visits w fd xprt st st'

/-- The routine that the next request leads to, if any, leaves the transport in place. -/
def Spares (w : SvcWorld σ δ) (fd xprt : Nat) (st : σ) : Prop :=
  ∀ msg st₁ st₂ d, w.svcRecv xprt st = (some msg, st₁) →
    w.authenticate msg xprt st₁ = (authOk, st₂) →
    serviceOf msg.rmCall.cbProg msg.rmCall.cbVers (w.svcHead st₂) = .dispatch d →
    (w.dispatch d msg xprt st₂).1 = false ∧ w.Registered fd xprt (w.dispatch d msg xprt st₂).2

open GetreqEvent

variable {w : SvcWorld σ δ} {fd xprt : Nat} {st : σ}

/-! ### A round -/

theorem gone_callDone {e : GetreqEvent δ} (h : e ∈ (w.callDone xprt st).1) : e.gone = false := by
  unfold callDone at h
  split at h
  · rcases List.mem_pair.mp h with rfl | rfl
    · rfl
    · rfl
  · rw [List.mem_singleton.mp h]
    rfl
  · rw [List.mem_singleton.mp h]
    rfl

/-- `SVC_STAT` comes first. -/
theorem callDone_stat : ∃ es, (w.callDone xprt st).1 = .stat :: es := by
  unfold callDone
  split
  · exact ⟨[.destroy], rfl⟩
  · exact ⟨[], rfl⟩
  · exact ⟨[], rfl⟩

theorem gone_recheck {e : GetreqEvent δ} (h : e ∈ (w.recheck fd xprt st).1) : e.gone = false := by
  unfold recheck at h
  split at h
  · exact gone_callDone h
  · cases h

/-- What is done in a round, when a routine is called. -/
theorem getreqRound_dispatch {msg : RpcMsg} {st₁ st₂ : σ} {d : δ}
    (hRecv : w.svcRecv xprt st = (some msg, st₁))
    (hAuth : w.authenticate msg xprt st₁ = (authOk, st₂))
    (hService : serviceOf msg.rmCall.cbProg msg.rmCall.cbVers (w.svcHead st₂) = .dispatch d) :
    w.getreqRound fd xprt st = after [.recv, .dispatch d ((w.dispatch d msg xprt st₂).1 ||
      !decide (w.Registered fd xprt (w.dispatch d msg xprt st₂).2))]
      (w.callDone xprt (w.dispatch d msg xprt st₂).2) := by
  unfold getreqRound
  rw [hRecv]
  show after [.recv] (w.getreqMsg fd xprt msg st₁) = _
  unfold getreqMsg
  rw [hAuth]
  show after [.recv] (if authOk ≠ authOk then _ else _) = _
  rw [if_neg (not_not.mpr rfl), hService]
  rfl

/-- In a round that spares the transport, no routine takes it away. -/
theorem Spares.gone (h : w.Spares fd xprt st) {e : GetreqEvent δ}
    (hMem : e ∈ (w.getreqRound fd xprt st).1) : e.gone = false := by
  cases hRecv : w.svcRecv xprt st with
  | mk received st₁ =>
      cases received with
      | none =>
          unfold getreqRound at hMem
          rw [hRecv] at hMem
          rcases List.mem_cons.mp hMem with rfl | hRest
          · rfl
          · exact gone_recheck hRest
      | some msg =>
          unfold getreqRound at hMem
          rw [hRecv] at hMem
          rcases List.mem_cons.mp hMem with rfl | hRest
          · rfl
          · unfold getreqMsg at hRest
            split at hRest
            next why st₂ hAuth =>
              split at hRest
              · rcases List.mem_cons.mp hRest with rfl | hRest
                · rfl
                · exact gone_callDone hRest
              · next hOk =>
                  rw [not_not.mp hOk] at hAuth
                  split at hRest
                  · next d hService =>
                      rcases List.mem_cons.mp hRest with rfl | hRest
                      · obtain ⟨hAlive, hRegistered⟩ := h msg st₁ st₂ d hRecv hAuth hService
                        show ((w.dispatch d msg xprt st₂).1 || _) = false
                        rw [hAlive, decide_eq_true hRegistered]
                        rfl
                      · exact gone_callDone hRest
                  · rcases List.mem_cons.mp hRest with rfl | hRest
                    · rfl
                    · exact gone_recheck hRest
                  · rcases List.mem_cons.mp hRest with rfl | hRest
                    · rfl
                    · exact gone_recheck hRest

/-- In any other round, `SVC_STAT` follows on a transport that is gone. -/
theorem stat_of_not_spares (h : ¬ w.Spares fd xprt st) :
    ∃ d es, (w.getreqRound fd xprt st).1 = .recv :: .dispatch d true :: .stat :: es := by
  unfold Spares at h
  push Not at h
  obtain ⟨msg, st₁, st₂, d, hRecv, hAuth, hService, hGone⟩ := h
  obtain ⟨es, hStat⟩ := @callDone_stat σ δ w xprt (w.dispatch d msg xprt st₂).2
  refine ⟨d, es, ?_⟩
  rw [getreqRound_dispatch hRecv hAuth hService, after, hStat]
  have hFlag : ((w.dispatch d msg xprt st₂).1 ||
      !decide (w.Registered fd xprt (w.dispatch d msg xprt st₂).2)) = true := by
    cases hAlive : (w.dispatch d msg xprt st₂).1 with
    | true => rfl
    | false =>
        rw [decide_eq_false (hGone hAlive)]
        rfl
  rw [hFlag]
  rfl

/-! ### The loop -/

theorem getreqLoop_succ (n : Nat) : (w.getreqLoop fd xprt (n + 1) st).1 =
    (w.getreqRound fd xprt st).1 ++ if (w.getreqRound fd xprt st).2.2 = true then
      (w.getreqLoop fd xprt n (w.getreqRound fd xprt st).2.1).1 else [] := by
  rw [getreqLoop]
  split
  · next hRound => rw [hRound, if_pos rfl]
  · next hRound => rw [hRound, if_neg Bool.false_ne_true, List.append_nil]

/-- When no round takes the transport away, it is never gone. -/
theorem gone_getreqLoop (h : ∀ st', w.Visits fd xprt st st' → w.Spares fd xprt st') (n : Nat)
    {e : GetreqEvent δ} (hMem : e ∈ (w.getreqLoop fd xprt n st).1) : e.gone = false := by
  induction n generalizing st with
  | zero => cases hMem
  | succ n ih =>
      rw [getreqLoop_succ, List.mem_append] at hMem
      rcases hMem with hRound | hRest
      · exact (h st (.here st)).gone hRound
      · split at hRest
        · next hMore => exact ih (fun st' hVisits => h st' (.round hMore hVisits)) hRest
        · cases hRest

/-- A round that takes the transport away is followed by a use of it. -/
theorem Visits.used_again {st' : σ} (h : w.Visits fd xprt st st') (hNot : ¬ w.Spares fd xprt st') :
    ∃ n, ¬ NeverUsedAgain (w.getreqLoop fd xprt n st).1 := by
  induction h with
  | here st =>
      obtain ⟨d, es, hRound⟩ := stat_of_not_spares hNot
      refine ⟨1, fun hNever => ?_⟩
      rw [getreqLoop_succ, hRound] at hNever
      have hTail := (List.pairwise_cons.mp hNever).2
      have hBad := (List.pairwise_cons.mp hTail).1 .stat List.mem_cons_self rfl
      cases hBad
  | @round st st' hMore hRest ih =>
      obtain ⟨n, hUsed⟩ := ih hNot
      refine ⟨n + 1, fun hNever => hUsed ?_⟩
      rw [getreqLoop_succ, if_pos hMore] at hNever
      exact (List.pairwise_append.mp hNever).2.1

/-- Whatever the routines do, a transport that is gone is not used again exactly when no request
that the loop comes to leads to a routine that takes the transport away. -/
theorem svcGetreqCommon_never_used_again_iff (w : SvcWorld σ δ) (fd : Nat) (st : σ) :
    (∀ n, NeverUsedAgain (w.svcGetreqCommon n fd st).1) ↔
      ∀ xprt, w.Registered fd xprt st → ∀ st', w.Visits fd xprt st st' → w.Spares fd xprt st' := by
  constructor
  · intro hNever xprt hRegistered st' hVisits
    by_contra hNot
    obtain ⟨n, hUsed⟩ := hVisits.used_again hNot
    apply hUsed
    have hRun := hNever n
    unfold svcGetreqCommon at hRun
    rw [hRegistered] at hRun
    exact hRun
  · intro h n
    unfold svcGetreqCommon
    split
    · next xprt hRegistered =>
        apply List.pairwise_of_forall_mem_list
        intro e hMem e' _ hGone
        rw [gone_getreqLoop (h xprt hRegistered) n hMem] at hGone
        cases hGone
    · exact List.Pairwise.nil

/-- A request of version `vers` of a program, without credentials. -/
def request (prog vers : BitVec 32) : RpcMsg where
  rmXid := 1
  rmDirection := call
  rmCall :=
    { cbRpcvers := rpcMsgVersion
      cbProg := prog
      cbVers := vers
      cbProc := 0
      cbCred := { oaFlavor := 0, oaBase := none, oaLength := 0 }
      cbVerf := { oaFlavor := 0, oaBase := none, oaLength := 0 } }

/-- A server with the transport 77 on descriptor 3, and the requests that wait there. The routine
`true` destroys the transport. -/
def queueing (svcHead : List (SvcCallout Bool)) : SvcWorld (List RpcMsg × List (Option Nat)) Bool
    where
  svcXports := Prod.snd
  svcHead := fun _ => svcHead
  svcRecv := fun _ st => (st.1.head?, (st.1.tail, st.2))
  svcStat := fun _ st => (if st.1 = [] then .idle else .moreReqs, st)
  svcDestroy := fun _ st => (st.1, st.2.set 3 none)
  svcerr := fun _ _ st => st
  authenticate := fun _ _ st => (authOk, st)
  dispatch := fun d _ _ st => (d, if d then (st.1, st.2.set 3 none) else st)

/-- The descriptors of that server. -/
def queueingXports : List (Option Nat) := [none, none, none, some 77]

/-- A routine that destroys the transport of its request is followed by `SVC_STAT` on it, and
there is a next request. -/
theorem not_never_used_again_dispatch : ¬ ∀ n, NeverUsedAgain
    ((queueing [{ scProg := 5, scVers := 1, scNetid := none, scDispatch := true }]).svcGetreqCommon
      n 3 ([request 5 1, request 5 1], queueingXports)).1 := by
  intro h
  have hBad := h 1
  revert hBad
  decide

/-! ### The answer to a request -/

/-- In a round, the request is answered by this. -/
def Answered (e : GetreqEvent δ) (es : List (GetreqEvent δ)) : Prop :=
  ∃ rest, es = .recv :: e :: rest

/-- The round calls the routine of the entry that `svc_find` selects, or there is none and the
round says so. -/
def Honours (prog vers : BitVec 32) (netid : Option CString) (l : List (SvcCallout δ))
    (es : List (GetreqEvent δ)) : Prop :=
  match svcFind prog vers netid l with
  | some (_, s, _) => ∃ gone, Answered (.dispatch s.scDispatch gone) es
  | none =>
      Answered (.svcerr .noprog) es ∨ ∃ low high, Answered (.svcerr (.progvers low high)) es

/-- How a request is answered that has been authenticated. -/
theorem answered_serviceOf {msg : RpcMsg} {st₁ st₂ : σ}
    (hRecv : w.svcRecv xprt st = (some msg, st₁))
    (hAuth : w.authenticate msg xprt st₁ = (authOk, st₂)) :
    match serviceOf msg.rmCall.cbProg msg.rmCall.cbVers (w.svcHead st₂) with
    | .dispatch d => ∃ gone, Answered (.dispatch d gone) (w.getreqRound fd xprt st).1
    | .progvers low high =>
        Answered (.svcerr (.progvers low high)) (w.getreqRound fd xprt st).1
    | .noprog => Answered (.svcerr .noprog) (w.getreqRound fd xprt st).1 := by
  have hRound : w.getreqRound fd xprt st = after [.recv] (w.getreqMsg fd xprt msg st₁) := by
    unfold getreqRound
    rw [hRecv]
  have hMsg : w.getreqMsg fd xprt msg st₁ =
      match serviceOf msg.rmCall.cbProg msg.rmCall.cbVers (w.svcHead st₂) with
      | .dispatch d =>
          let r := w.dispatch d msg xprt st₂
          after [.dispatch d (r.1 || !decide (w.Registered fd xprt r.2))] (w.callDone xprt r.2)
      | .progvers low high =>
          after [.svcerr (.progvers low high)]
            (w.recheck fd xprt (w.svcerr (.progvers low high) xprt st₂))
      | .noprog => after [.svcerr .noprog] (w.recheck fd xprt (w.svcerr .noprog xprt st₂)) := by
    unfold getreqMsg
    rw [hAuth]
    exact if_neg (not_not.mpr rfl)
  rw [hRound, hMsg]
  split
  · exact ⟨_, _, rfl⟩
  · exact ⟨_, rfl⟩
  · exact ⟨_, rfl⟩

theorem Answered.inj {e e' : GetreqEvent δ} {es : List (GetreqEvent δ)} (h : Answered e es)
    (h' : Answered e' es) : e = e' := by
  obtain ⟨rest, rfl⟩ := h
  obtain ⟨rest', hSame⟩ := h'
  injection hSame with _ hSame
  injection hSame

section Answer

variable {msg : RpcMsg} {st₁ st₂ : σ}

/-- The answer to a request whose version has an entry: the routine of the first one. -/
theorem answered_of_svcFind {before behind : List (SvcCallout δ)} {s : SvcCallout δ}
    (hRecv : w.svcRecv xprt st = (some msg, st₁))
    (hAuth : w.authenticate msg xprt st₁ = (authOk, st₂))
    (hFound : svcFind msg.rmCall.cbProg msg.rmCall.cbVers none (w.svcHead st₂) =
      some (before, s, behind)) :
    ∃ gone, Answered (.dispatch s.scDispatch gone) (w.getreqRound fd xprt st).1 := by
  have hAnswer := @answered_serviceOf σ δ w fd xprt st msg st₁ st₂ hRecv hAuth
  unfold serviceOf at hAnswer
  rw [getreqFind_of_svcFind hFound] at hAnswer
  exact hAnswer

/-- The answer to a request whose version has no entry. -/
theorem answered_of_unregistered
    (hRecv : w.svcRecv xprt st = (some msg, st₁))
    (hAuth : w.authenticate msg xprt st₁ = (authOk, st₂))
    (hNone : ∀ s ∈ w.svcHead st₂, s.scProg = msg.rmCall.cbProg → s.scVers ≠ msg.rmCall.cbVers) :
    Answered (.svcerr .noprog) (w.getreqRound fd xprt st).1 ∧
        versions msg.rmCall.cbProg (w.svcHead st₂) = ∅ ∨
      ∃ low high, Answered (.svcerr (.progvers low high)) (w.getreqRound fd xprt st).1 ∧
        IsLeast (versions msg.rmCall.cbProg (w.svcHead st₂)) low ∧
        IsGreatest (versions msg.rmCall.cbProg (w.svcHead st₂)) high := by
  have hAnswer := @answered_serviceOf σ δ w fd xprt st msg st₁ st₂ hRecv hAuth
  rcases serviceOf_of_unregistered hNone with ⟨hRun, hEmpty⟩ | ⟨low, high, hRun, hLow, hHigh⟩
  · rw [hRun] at hAnswer
    exact Or.inl ⟨hAnswer, hEmpty⟩
  · rw [hRun] at hAnswer
    exact Or.inr ⟨low, high, hAnswer, hLow, hHigh⟩

variable [DecidableEq δ]

/-- The routine that `svc_find` selects for the netid of a transport is the one called exactly
when an entry for that netid has the routine of the entry that is first in the list. -/
theorem honours_netid_iff (calls : List (CalloutCall δ)) (w : SvcWorld σ δ) (fd xprt : Nat)
    (netid : Option CString) (hRecv : w.svcRecv xprt st = (some msg, st₁))
    (hAuth : w.authenticate msg xprt st₁ = (authOk, st₂))
    (hHead : w.svcHead st₂ = CalloutCall.run calls) :
    Honours msg.rmCall.cbProg msg.rmCall.cbVers netid (CalloutCall.run calls)
        (w.getreqRound fd xprt st).1 ↔
      ∀ before s behind, svcFind msg.rmCall.cbProg msg.rmCall.cbVers none
          (CalloutCall.run calls) = some (before, s, behind) →
        ∃ t ∈ CalloutCall.run calls, t.For msg.rmCall.cbProg msg.rmCall.cbVers netid ∧
          t.scDispatch = s.scDispatch := by
  have hApart := pairwise_run calls
  rw [← hHead] at hApart ⊢
  unfold Honours
  cases hFirst : svcFind msg.rmCall.cbProg msg.rmCall.cbVers none (w.svcHead st₂) with
  | none =>
      have hNone := svcFind_eq_none.mp hFirst
      have hNetid : svcFind msg.rmCall.cbProg msg.rmCall.cbVers netid (w.svcHead st₂) = none :=
        svcFind_eq_none.mpr fun s hMem hFor =>
          hNone s hMem (for_none.mpr ⟨hFor.1, hFor.2.1⟩)
      rw [hNetid]
      refine iff_of_true ?_ (fun _ _ _ hBad => by cases hBad)
      have hUnregistered : ∀ s ∈ w.svcHead st₂, s.scProg = msg.rmCall.cbProg →
          s.scVers ≠ msg.rmCall.cbVers :=
        fun s hMem hProg hVers => hNone s hMem (for_none.mpr ⟨hProg, hVers⟩)
      rcases answered_of_unregistered hRecv hAuth hUnregistered with
        ⟨hAnswer, -⟩ | ⟨low, high, hAnswer, -⟩
      · exact Or.inl hAnswer
      · exact Or.inr ⟨low, high, hAnswer⟩
  | some r =>
      obtain ⟨before, s, behind⟩ := r
      obtain ⟨gone, hAnswer⟩ := @answered_of_svcFind σ δ w fd xprt st msg st₁ st₂ before behind s
        hRecv hAuth hFirst
      cases hNetid : svcFind msg.rmCall.cbProg msg.rmCall.cbVers netid (w.svcHead st₂) with
      | none =>
          constructor
          · rintro (hBad | ⟨low, high, hBad⟩)
            · cases hAnswer.inj hBad
            · cases hAnswer.inj hBad
          · intro h
            obtain ⟨t, hMem, hFor, -⟩ := h before s behind rfl
            exact absurd hFor (svcFind_eq_none.mp hNetid t hMem)
      | some r' =>
          obtain ⟨before', t, behind'⟩ := r'
          obtain ⟨hList, hFor, -⟩ := svcFind_eq_some hNetid
          constructor
          · rintro ⟨gone', hCalled⟩ _ _ _ hSame
            cases hSame
            injection hAnswer.inj hCalled with hRoutine
            refine ⟨t, ?_, hFor, hRoutine.symm⟩
            rw [hList]
            exact List.mem_append_right before' List.mem_cons_self
          · intro h
            obtain ⟨u, hMem, hForU, hRoutine⟩ := h before s behind rfl
            refine ⟨gone, ?_⟩
            cases netid with
            | none =>
                rw [hFirst] at hNetid
                cases hNetid
                exact hAnswer
            | some n =>
                rw [← svcFind_unique hApart hNetid hMem hForU (Or.inl rfl), hRoutine]
                exact hAnswer

end Answer

/-- `svc_reg` without an `nconf`, for a transport with a netid. -/
def regOn (netid : CString) (prog vers : BitVec 32) (dispatch : Bool) : SvcRegCall Bool where
  prog := prog
  vers := vers
  dispatch := dispatch
  xpNetid := some netid
  nconf := none
  rpcgettp := none
  netidDup := true
  xprtDup := true
  alloc := true
  rpcbSet := true

/-- A routine for a program over TCP, and another one over UDP. -/
def regTcpUdp (onTcp onUdp : Bool) : List (CalloutCall Bool) :=
  [.reg (regOn (.ascii "tcp") 5 1 onTcp), .reg (regOn (.ascii "udp") 5 1 onUdp)]

theorem honours_netid_iff_one_routine :
    Honours 5 1 (some (.ascii "tcp")) (CalloutCall.run (regTcpUdp false false))
      ((queueing (CalloutCall.run (regTcpUdp false false))).getreqRound 3 77
        ([request 5 1], queueingXports)).1 := by
  have hRecv : (queueing (CalloutCall.run (regTcpUdp false false))).svcRecv 77
      ([request 5 1], queueingXports) = (some (request 5 1), ([], queueingXports)) := rfl
  have hOne : ∀ t ∈ CalloutCall.run (regTcpUdp false false), t.scDispatch = false := by
    decide
  have hTcp : ∃ t ∈ CalloutCall.run (regTcpUdp false false), t.For 5 1 (some (.ascii "tcp")) := by
    decide
  apply (honours_netid_iff (regTcpUdp false false) _ 3 77 (some (.ascii "tcp")) hRecv rfl rfl).mpr
  intro before s behind hFound
  obtain ⟨t, hMem, hFor⟩ := hTcp
  have hFirst : s ∈ CalloutCall.run (regTcpUdp false false) := by
    rw [(svcFind_eq_some hFound).1]
    exact List.mem_append_right before List.mem_cons_self
  exact ⟨t, hMem, hFor, (hOne t hMem).trans (hOne s hFirst).symm⟩

/-- A request over TCP reaches the routine that was registered for UDP. -/
theorem not_honours_netid_two_routines :
    ¬ Honours 5 1 (some (.ascii "tcp")) (CalloutCall.run (regTcpUdp true false))
      ((queueing (CalloutCall.run (regTcpUdp true false))).getreqRound 3 77
        ([request 5 1], queueingXports)).1 := by
  rintro ⟨gone, rest, hSame⟩
  have hCalled : (queueing (CalloutCall.run (regTcpUdp true false))).getreqRound 3 77
      ([request 5 1], queueingXports) =
        ([.recv, .dispatch false false, .stat], ([], queueingXports), false) := by
    decide
  rw [hCalled] at hSame
  cases hSame

/-- Two versions of a program over TCP. -/
def regVersions : List (CalloutCall Bool) :=
  [.reg (regOn (.ascii "tcp") 5 1 false), .reg (regOn (.ascii "tcp") 5 3 true)]

end SvcWorld

end OncRpc
