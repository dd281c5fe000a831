import OncRpc.Rpcbind.Unset
import OncRpc.Svc.Callout

/-! `svc_reg` and `svc_tp_create` with the local rpcbind: what is left of a registration that
fails. -/
namespace OncRpc

/-- What `rpcb_set` and `rpcb_unset` meet. -/
structure LocalRpcbind where
  /-- A request comes to the local rpcbind, and what it answers comes back. -/
  setReached : Bool
  unsetReached : Bool
  /-- What `taddr2uaddr` makes of `xp_ltaddr`. -/
  uaddr : Option CString
  /-- `r_owner`, and the owner that rpcbind knows. -/
  uid : CString
  owner : CString

namespace LocalRpcbind

/-- `rpcb_set`. Without a netid the request is not encoded. -/
def rpcbSet (b : LocalRpcbind) (program version : BitVec 32) (ncNetid : Option CString)
    (st : Registry) : Bool × Registry :=
  match b.uaddr, ncNetid with
  | some uaddr, some netid =>
      if b.setReached then
        st.mapSet { rProg := program, rVers := version, rNetid := netid, rAddr := uaddr
                    rOwner := b.uid } b.owner
      else (false, st)
  | _, _ => (false, st)

/-- `rpcb_unset` for a transport. -/
def rpcbUnset (b : LocalRpcbind) (program version : BitVec 32) (ncNetid : CString)
    (st : Registry) : Bool × Registry :=
  if b.unsetReached then
    st.mapUnset { rProg := program, rVers := version, rNetid := ncNetid, rAddr := []
                  rOwner := b.uid } (some b.owner)
  else (false, st)

end LocalRpcbind

/-- The services list, and the registries of the local rpcbind. -/
structure Registered (δ : Type) where
  svcHead : List (SvcCallout δ)
  registry : Registry

variable {δ : Type}

/-- `rpcb_it`: the result, `xp_netid`, and what is registered. -/
def SvcRegCall.bindService (c : SvcRegCall δ) (b : LocalRpcbind) (xpNetid : Option CString)
    (st : Registered δ) : Bool × Option CString × Registered δ :=
  match c.nconf with
  | some ncNetid =>
      let r := b.rpcbSet c.prog c.vers ncNetid st.registry
      (r.1, xpNetid, { st with registry := r.2 })
  | none => (true, xpNetid, st)

/-- `svc_reg`, with the local rpcbind. `rpcbSet` of the call plays no part. -/
def svcRegBound [DecidableEq δ] (c : SvcRegCall δ) (b : LocalRpcbind) (st : Registered δ) :
    Bool × Option CString × Registered δ :=
  if c.netid.isSome ∧ c.netidDup = false then (false, c.xpNetid, st)
  else
    match svcFind c.prog c.vers c.netid st.svcHead with
    | some (_, s, _) =>
        if s.scDispatch = c.dispatch then c.bindService b c.xpNetid st
        else (false, c.xpNetid, st)
    | none =>
        if c.alloc = false then (false, c.xpNetid, st)
        else if c.xpNetid = none ∧ c.netid.isSome ∧ c.xprtDup = false then (false, c.xpNetid, st)
        else c.bindService b c.netid { st with svcHead := c.entry :: st.svcHead }

/-- A call of `svc_tp_create`, and what the world makes of it. -/
structure SvcTpCreateCall (δ : Type) where
  dispatch : δ
  prognum : BitVec 32
  versnum : BitVec 32
  /-- `nc_netid` of `nconf`, when there is an `nconf`. -/
  nconf : Option CString
  /-- Whether `svc_tli_create` makes a transport. -/
  tliCreate : Bool
  /-- What `svc_reg` meets. -/
  netidDup : Bool
  alloc : Bool

/-- The call of `svc_reg`: `svc_tli_create` has put the netid at the transport. -/
def SvcTpCreateCall.regCall (c : SvcTpCreateCall δ) (netid : CString) : SvcRegCall δ where
  prog := c.prognum
  vers := c.versnum
  dispatch := c.dispatch
  xpNetid := some netid
  nconf := some (some netid)
  rpcgettp := none
  netidDup := c.netidDup
  xprtDup := true
  alloc := c.alloc
  rpcbSet := true

/-- `svc_tp_create`: whether it returns a transport, and what is registered. -/
def svcTpCreate [DecidableEq δ] (c : SvcTpCreateCall δ) (b : LocalRpcbind) (st : Registered δ) :
    Bool × Registered δ :=
  match c.nconf with
  | none => (false, st)
  | some netid =>
      if c.tliCreate = false then (false, st)
      else
        let unset := b.rpcbUnset c.prognum c.versnum netid st.registry
        let r := svcRegBound (c.regCall netid) b { st with registry := unset.2 }
        (r.1, r.2.2)

/-! ### What a failure leaves -/

/-- Nothing of a registration is left: the list is what it was and answers as it did, and rpcbind
has no entry that it did not have. -/
structure LeavesNothing [DecidableEq δ] (before after : Registered δ) : Prop where
  svcHead : after.svcHead = before.svcHead
  listRbl : ∀ rbl ∈ after.registry.listRbl, rbl ∈ before.registry.listRbl
  listPml : ∀ pml ∈ after.registry.listPml, pml ∈ before.registry.listPml
  /-- Another attempt is refused only if it had been refused before. -/
  retried : ∀ c, svcReg c after.svcHead = svcReg c before.svcHead
  served : ∀ prog vers, serviceOf prog vers after.svcHead = serviceOf prog vers before.svcHead

/-- `svc_reg` comes to add an entry. -/
def SvcRegCall.Adds (c : SvcRegCall δ) (svcHead : List (SvcCallout δ)) : Prop :=
  (c.netid.isSome → c.netidDup = true) ∧ (∀ s ∈ svcHead, ¬ s.For c.prog c.vers c.netid) ∧
    c.alloc = true ∧ (c.xpNetid = none → c.netid.isSome → c.xprtDup = true)

/-- `rpcb_set` is called, and it refuses. -/
def SvcRegCall.Refused (c : SvcRegCall δ) (b : LocalRpcbind) (registry : Registry) : Prop :=
  ∃ ncNetid, c.nconf = some ncNetid ∧ (b.rpcbSet c.prog c.vers ncNetid registry).1 = false

/-- `svc_tp_create` comes to `svc_reg`, which adds an entry, and `rpcb_set` refuses. -/
def SvcTpCreateCall.AddsRefused (c : SvcTpCreateCall δ) (b : LocalRpcbind) (st : Registered δ) :
    Prop :=
  ∃ netid, c.nconf = some netid ∧ c.tliCreate = true ∧ (c.regCall netid).Adds st.svcHead ∧
    (c.regCall netid).Refused b (b.rpcbUnset c.prognum c.versnum netid st.registry).2

section Registry

open Registry

variable {regp : Rpcb} {owner : CString} {st : Registry}

theorem mapSet_refused (h : (st.mapSet regp owner).1 = false) : (st.mapSet regp owner).2 = st := by
  rcases mapSet_cases st regp owner with ⟨rbl, -, hSame⟩ | ⟨-, hAdded⟩
  · rw [hSame]
  · rw [hAdded] at h
    cases h

/-- `map_unset` adds nothing to either list. -/
theorem mapUnset_subset (regp : Rpcb) (owner : CString) (st : Registry) :
    (st.mapUnset regp (some owner)).2.listRbl ⊆ st.listRbl ∧
      (st.mapUnset regp (some owner)).2.listPml ⊆ st.listPml := by
  constructor
  · rw [listRbl_mapUnset]
    exact (unsetFrom_sublist regp owner st.listRbl).subset
  · unfold mapUnset
    dsimp only
    split
    · split
      · rw [delPmaplist_eq]
        exact List.filter_subset_self _
      · exact List.Subset.refl _
    · exact List.Subset.refl _

end Registry

section Failure

variable {b : LocalRpcbind} {c : SvcRegCall δ} {st st' st'' : Registered δ}

theorem rpcbSet_refused {program version : BitVec 32} {ncNetid : Option CString}
    {registry : Registry} (h : (b.rpcbSet program version ncNetid registry).1 = false) :
    (b.rpcbSet program version ncNetid registry).2 = registry := by
  unfold LocalRpcbind.rpcbSet at h ⊢
  generalize b.uaddr = uaddr at h ⊢
  rcases uaddr, ncNetid with ⟨_ | uaddr, _ | netid⟩
  · rfl
  · rfl
  · rfl
  · dsimp only at h ⊢
    by_cases hReached : b.setReached = true
    · rw [if_pos hReached] at h ⊢
      exact mapSet_refused h
    · rw [if_neg hReached]

/-- `rpcb_it` fails where rpcbind refuses, and it changes nothing then. -/
theorem bindService_refused (c : SvcRegCall δ) (b : LocalRpcbind) (xpNetid : Option CString)
    (st : Registered δ) :
    ((c.bindService b xpNetid st).1 = false ↔ c.Refused b st.registry) ∧
      ((c.bindService b xpNetid st).1 = false → (c.bindService b xpNetid st).2.2 = st) := by
  unfold SvcRegCall.bindService SvcRegCall.Refused
  rcases c.nconf with - | ncNetid
  · exact ⟨⟨nofun, fun ⟨_, hBad, _⟩ => by cases hBad⟩, nofun⟩
  · refine ⟨⟨fun h => ⟨ncNetid, rfl, h⟩, ?_⟩, fun h => ?_⟩
    · rintro ⟨_, hEq, h⟩
      cases hEq
      exact h
    · dsimp only at h ⊢
      rw [rpcbSet_refused h]

variable [DecidableEq δ]

theorem LeavesNothing.refl (st : Registered δ) : LeavesNothing st st where
  svcHead := rfl
  listRbl _ h := h
  listPml _ h := h
  retried _ := rfl
  served _ _ := rfl

/-- Only entries of rpcbind are removed. -/
theorem LeavesNothing.unset {registry : Registry} (h : registry.listRbl ⊆ st.registry.listRbl)
    (h' : registry.listPml ⊆ st.registry.listPml) :
    LeavesNothing st { st with registry := registry } where
  svcHead := rfl
  listRbl _ hMem := h hMem
  listPml _ hMem := h' hMem
  retried _ := rfl
  served _ _ := rfl

theorem not_leavesNothing_cons (s : SvcCallout δ) {registry : Registry} :
    ¬ LeavesNothing st { svcHead := s :: st.svcHead, registry := registry } := by
  intro h
  have hLength := congrArg List.length h.svcHead
  simp at hLength

/-- All that `svc_reg` can do. -/
theorem svcRegBound_cases (c : SvcRegCall δ) (b : LocalRpcbind) (st : Registered δ) :
    (svcRegBound c b st = (false, c.xpNetid, st) ∧ ¬ c.Adds st.svcHead) ∨
      (svcRegBound c b st = c.bindService b c.xpNetid st ∧ ¬ c.Adds st.svcHead) ∨
      svcRegBound c b st =
          c.bindService b c.netid { st with svcHead := c.entry :: st.svcHead } ∧
        c.Adds st.svcHead := by
  unfold svcRegBound
  split
  · next hDup =>
      refine Or.inl ⟨rfl, fun hAdds => ?_⟩
      rw [hAdds.1 hDup.1] at hDup
      cases hDup.2
  · next hDup =>
      split
      · next s behind hFound =>
          obtain ⟨hList, hFor, -⟩ := svcFind_eq_some hFound
          have hNot : ¬ c.Adds st.svcHead := fun hAdds =>
            hAdds.2.1 s (by rw [hList]; simp) hFor
          split
          · exact Or.inr (Or.inl ⟨rfl, hNot⟩)
          · exact Or.inl ⟨rfl, hNot⟩
      · next hNone =>
          split
          · next hAlloc =>
              refine Or.inl ⟨rfl, fun hAdds => ?_⟩
              rw [hAdds.2.2.1] at hAlloc
              cases hAlloc
          · next hAlloc =>
              split
              · next hXprt =>
                  refine Or.inl ⟨rfl, fun hAdds => ?_⟩
                  have hCopied := hAdds.2.2.2 hXprt.1 hXprt.2.1
                  rw [hXprt.2.2] at hCopied
                  cases hCopied
              · next hXprt =>
                  refine Or.inr (Or.inr ⟨rfl, fun hSome => ?_, svcFind_eq_none.mp hNone,
                    Bool.eq_true_of_not_eq_false hAlloc, fun hXp hSome => ?_⟩)
                  · exact Bool.eq_true_of_not_eq_false fun hBad => hDup ⟨hSome, hBad⟩
                  · exact Bool.eq_true_of_not_eq_false fun hBad => hXprt ⟨hXp, hSome, hBad⟩

/-- With what rpcbind makes of it, `svc_reg` does to the list what it does there. -/
theorem svcReg_of_svcRegBound (c : SvcRegCall δ) (b : LocalRpcbind) (st : Registered δ) :
    ((svcRegBound c b st).1, (svcRegBound c b st).2.1, (svcRegBound c b st).2.2.svcHead) =
      svcReg { c with rpcbSet := (c.bindService b c.xpNetid st).1 } st.svcHead := by
  have hBind : ∀ xpNetid svcHead, ((c.bindService b xpNetid { st with svcHead := svcHead }).1,
      (c.bindService b xpNetid { st with svcHead := svcHead }).2.1,
      (c.bindService b xpNetid { st with svcHead := svcHead }).2.2.svcHead) =
        (SvcRegCall.rpcbIt { c with rpcbSet := (c.bindService b c.xpNetid st).1 }, xpNetid,
          svcHead) := by
    intro xpNetid svcHead
    unfold SvcRegCall.bindService SvcRegCall.rpcbIt
    rcases c.nconf with - | ncNetid <;> rfl
  have hNetid : SvcRegCall.netid { c with rpcbSet := (c.bindService b c.xpNetid st).1 } = c.netid :=
    rfl
  unfold svcRegBound svcReg
  rw [hNetid]
  dsimp only
  split
  · rfl
  · rcases svcFind c.prog c.vers c.netid st.svcHead with - | ⟨before, s, behind⟩
    · dsimp only
      split
      · rfl
      · split
        · rfl
        · exact hBind c.netid (c.entry :: st.svcHead)
    · dsimp only
      split
      · exact hBind c.xpNetid st.svcHead
      · rfl

/-- The entry stays that rpcbind has refused. -/
theorem svcRegBound_of_refused (st : Registered δ) (hAdds : c.Adds st.svcHead) 
    (hRefused : c.Refused b st.registry) : (svcRegBound c b st).1 = false ∧
      (svcRegBound c b st).2.2 = { st with svcHead := c.entry :: st.svcHead } := by
  rcases svcRegBound_cases c b st with ⟨-, hNot⟩ | ⟨-, hNot⟩ | ⟨hRun, -⟩
  · exact absurd hAdds hNot
  · exact absurd hAdds hNot
  · obtain ⟨hIff, hSame⟩ :=
      bindService_refused c b c.netid { st with svcHead := c.entry :: st.svcHead }
    have hFailed := hIff.mpr hRefused
    rw [hRun]
    exact ⟨hFailed, hSame hFailed⟩

/-- Every other failure changes nothing. -/
theorem svcRegBound_of_not_refused (h : ¬ (c.Adds st.svcHead ∧ c.Refused b st.registry))
    (hFailed : (svcRegBound c b st).1 = false) : (svcRegBound c b st).2.2 = st := by
  rcases svcRegBound_cases c b st with ⟨hRun, -⟩ | ⟨hRun, -⟩ | ⟨hRun, hAdds⟩
  · rw [hRun]
  · rw [hRun] at hFailed ⊢
    exact (bindService_refused c b c.xpNetid st).2 hFailed
  · rw [hRun] at hFailed
    obtain ⟨hIff, -⟩ :=
      bindService_refused c b c.netid { st with svcHead := c.entry :: st.svcHead }
    exact absurd ⟨hAdds, hIff.mp hFailed⟩ h

/-- What `svc_reg` leaves when it fails. -/
theorem svcRegBound_failed_iff (c : SvcRegCall δ) (b : LocalRpcbind) (st : Registered δ) :
    ((svcRegBound c b st).1 = false → LeavesNothing st (svcRegBound c b st).2.2) ↔
      ¬ (c.Adds st.svcHead ∧ c.Refused b st.registry) := by
  constructor
  · rintro h ⟨hAdds, hRefused⟩
    obtain ⟨hFailed, hLeft⟩ := svcRegBound_of_refused st hAdds hRefused
    have hLeaves := h hFailed
    rw [hLeft] at hLeaves
    exact not_leavesNothing_cons _ hLeaves
  · intro h hFailed
    rw [svcRegBound_of_not_refused h hFailed]
    exact .refl st

/-- What `svc_tp_create` leaves when it fails. -/
theorem svcTpCreate_failed_iff (c : SvcTpCreateCall δ) (b : LocalRpcbind) (st : Registered δ) :
    ((svcTpCreate c b st).1 = false → LeavesNothing st (svcTpCreate c b st).2) ↔
      ¬ c.AddsRefused b st := by
  unfold svcTpCreate SvcTpCreateCall.AddsRefused
  rcases c.nconf with - | netid
  · refine iff_of_true (fun _ => .refl st) ?_
    rintro ⟨_, hBad, -⟩
    cases hBad
  · dsimp only
    by_cases hTli : c.tliCreate = false
    · rw [if_pos hTli]
      refine iff_of_true (fun _ => .refl st) ?_
      rintro ⟨_, -, hBad, -⟩
      rw [hTli] at hBad
      cases hBad
    · have hUnset : LeavesNothing st
          { st with registry := (b.rpcbUnset c.prognum c.versnum netid st.registry).2 } := by
        unfold LocalRpcbind.rpcbUnset
        split
        · obtain ⟨hRbl, hPml⟩ := mapUnset_subset
            { rProg := c.prognum, rVers := c.versnum, rNetid := netid, rAddr := []
              rOwner := b.uid } b.owner st.registry
          exact .unset hRbl hPml
        · exact .refl st
      rw [if_neg hTli]
      constructor
      · rintro h ⟨_, hEq, -, hAdds, hRefused⟩
        cases hEq
        obtain ⟨hFailed, hLeft⟩ := svcRegBound_of_refused
          { st with registry := (b.rpcbUnset c.prognum c.versnum netid st.registry).2 }
          hAdds hRefused
        have hLeaves := h hFailed
        rw [hLeft] at hLeaves
        exact not_leavesNothing_cons _ hLeaves
      · intro h hFailed
        rw [svcRegBound_of_not_refused (fun hBoth => h ?_) hFailed]
        · exact hUnset
        · exact ⟨netid, rfl, Bool.eq_true_of_not_eq_false hTli, hBoth.1, hBoth.2⟩

end Failure

/-- A registration that fails leaves nothing, so far as it is not rpcbind that refuses a new
entry. -/
theorem failedRegistration_leavesNothing_iff {δ : Type} [DecidableEq δ] (c : SvcRegCall δ)
    (t : SvcTpCreateCall δ) (b : LocalRpcbind) (st : Registered δ) :
    (((svcRegBound c b st).1 = false → LeavesNothing st (svcRegBound c b st).2.2) ↔
        ¬ (c.Adds st.svcHead ∧ c.Refused b st.registry)) ∧
      (((svcTpCreate t b st).1 = false → LeavesNothing st (svcTpCreate t b st).2) ↔
        ¬ t.AddsRefused b st) :=
  ⟨svcRegBound_failed_iff c b st, svcTpCreate_failed_iff t b st⟩

/-- A service that is registered with rpcbind for another address, by another user. -/
def takenRegistry : Registered Bool where
  svcHead := []
  registry :=
    { listRbl := [{ rProg := 5, rVers := 1, rNetid := .ascii "tcp", rAddr := .ascii "::.3.33"
                    rOwner := .ascii "7" }]
      listPml := []
      udptrans := .ascii "udp"
      tcptrans := .ascii "tcp" }

def localRpcbind : LocalRpcbind where
  setReached := true
  unsetReached := true
  uaddr := some (.ascii "::.4.44")
  uid := .ascii "0"
  owner := .ascii "0"

/-- The service over TCP, by one routine or another. -/
def createTcp (dispatch : Bool) : SvcTpCreateCall Bool where
  dispatch := dispatch
  prognum := 5
  versnum := 1
  nconf := some (.ascii "tcp")
  tliCreate := true
  netidDup := true
  alloc := true

theorem svcTpCreate_takenRegistry :
    (svcTpCreate (createTcp true) localRpcbind takenRegistry).1 = false ∧
      serviceOf 5 1 (svcTpCreate (createTcp true) localRpcbind takenRegistry).2.svcHead =
        .dispatch true := by
  decide

/-- With the entry of the other user, requests come to a routine whose registration has failed. -/
theorem not_failedRegistration_leavesNothing :
    (¬ ∀ (c : SvcRegCall Bool) (b : LocalRpcbind) (st : Registered Bool),
      (svcRegBound c b st).1 = false → LeavesNothing st (svcRegBound c b st).2.2) ∧
    ¬ ∀ (t : SvcTpCreateCall Bool) (b : LocalRpcbind) (st : Registered Bool),
      (svcTpCreate t b st).1 = false → LeavesNothing st (svcTpCreate t b st).2 := by
  constructor
  · intro h
    have hLeaves :=
      h ((createTcp true).regCall (.ascii "tcp")) localRpcbind takenRegistry (by decide)
    have hServed := hLeaves.served 5 1
    revert hServed
    decide
  · intro h
    obtain ⟨hFailed, hServes⟩ := svcTpCreate_takenRegistry
    have hServed := (h (createTcp true) localRpcbind takenRegistry hFailed).served 5 1
    rw [hServes] at hServed
    cases hServed

end OncRpc
