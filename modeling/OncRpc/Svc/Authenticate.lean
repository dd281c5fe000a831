import OncRpc.Auth.Handle
import OncRpc.Svc.Getreq

/-! `svc_auth.c`: the flavors that a server can be told of, and the check of a request. -/
namespace OncRpc
namespace SvcAuth

/-- `AUTH_NULL`. -/
def authNull : BitVec 32 := 0

/-- `AUTH_BADCRED` and `AUTH_REJECTEDCRED` of `enum auth_stat`. -/
def authBadcred : BitVec 32 := 1
def authRejectedcred : BitVec 32 := 2

/-- `struct authsvc`. -/
structure Authsvc (η : Type) where
  flavor : BitVec 32
  handler : η
  deriving DecidableEq, Repr

/-- The flavors of the cases of `_authenticate` and `svc_auth_reg`. -/
def builtin : List (BitVec 32) := [authNull, authUnix, authShort]

variable {η : Type}

/-- `svc_auth_reg`. `mem` says whether there is memory for an entry. -/
def svcAuthReg (credFlavor : BitVec 32) (handler : η) (mem : Bool) (auths : List (Authsvc η)) :
    Int × List (Authsvc η) :=
  if credFlavor ∈ builtin then (1, auths)
  else
    match auths.find? (·.flavor = credFlavor) with
    | some _ => (1, auths)
    | none =>
        if mem then (0, { flavor := credFlavor, handler := handler } :: auths) else (-1, auths)

/-- What `_authenticate` returns, or the handler that it leaves the request to. -/
inductive Verdict (η : Type) where
  | stat (why : BitVec 32)
  | handler (h : η)
  /-- `_svcauth_unix` has released memory that was never allocated. -/
  | areaFreed
  deriving DecidableEq, Repr

/-- `_svcauth_null`. -/
def svcauthNull : Verdict η := .stat authOk

/-- `_svcauth_short`. -/
def svcauthShort : Verdict η := .stat authRejectedcred

/-- `_authenticate`, for the credential of a request. -/
def authenticate (area : AuthunixParms) (aligned : Bool) (cred : OpaqueAuth)
    (auths : List (Authsvc η)) : Verdict η :=
  if cred.oaFlavor = authNull then svcauthNull
  else if cred.oaFlavor = authUnix then
    match svcauthUnix area aligned (cred.oaBase.getD []) cred.oaLength with
    | .ok _ => .stat authOk
    | .badcred => .stat authBadcred
    | .areaFreed => .areaFreed
  else if cred.oaFlavor = authShort then svcauthShort
  else
    match auths.find? (·.flavor = cred.oaFlavor) with
    | some asp => .handler asp.handler
    | none => .stat authRejectedcred

/-- A call of `svc_auth_reg`. -/
structure AuthReg (η : Type) where
  credFlavor : BitVec 32
  handler : η
  mem : Bool

/-- `Auths` after a sequence of calls. -/
def run (calls : List (AuthReg η)) : List (Authsvc η) :=
  calls.foldl (fun auths c => (svcAuthReg c.credFlavor c.handler c.mem auths).2) []

/-- The first call that could have made an entry for the flavor. -/
def firstReg (flavor : BitVec 32) (calls : List (AuthReg η)) : Option (AuthReg η) :=
  calls.find? fun c => c.credFlavor = flavor ∧ c.mem = true

/-- The entry that a call makes. -/
def AuthReg.entry (c : AuthReg η) : Authsvc η := { flavor := c.credFlavor, handler := c.handler }

/-! ### The entries -/

variable {flavor : BitVec 32} {calls : List (AuthReg η)} {auths : List (Authsvc η)}

theorem run_append (calls : List (AuthReg η)) (c : AuthReg η) :
    run (calls ++ [c]) = (svcAuthReg c.credFlavor c.handler c.mem (run calls)).2 := by
  simp only [run, List.foldl_append, List.foldl_cons, List.foldl_nil]

/-- All that `svc_auth_reg` can do. -/
theorem svcAuthReg_cases (c : AuthReg η) (auths : List (Authsvc η)) :
    (c.credFlavor ∈ builtin ∨ (auths.find? (·.flavor = c.credFlavor)).isSome) ∧
        svcAuthReg c.credFlavor c.handler c.mem auths = (1, auths) ∨
      c.credFlavor ∉ builtin ∧ auths.find? (·.flavor = c.credFlavor) = none ∧
        svcAuthReg c.credFlavor c.handler c.mem auths =
          if c.mem then (0, c.entry :: auths) else (-1, auths) := by
  unfold svcAuthReg
  by_cases hBuiltin : c.credFlavor ∈ builtin
  · exact Or.inl ⟨Or.inl hBuiltin, if_pos hBuiltin⟩
  · rw [if_neg hBuiltin]
    cases hFound : auths.find? (·.flavor = c.credFlavor) with
    | some asp => exact Or.inl ⟨Or.inr rfl, rfl⟩
    | none => exact Or.inr ⟨hBuiltin, rfl, rfl⟩

/-- The entry for a flavor is the one of the first call for it, and stays. -/
theorem find?_run (hFlavor : flavor ∉ builtin) :
    (run calls).find? (·.flavor = flavor) = (firstReg flavor calls).map AuthReg.entry := by
  induction calls using List.reverseRecOn with
  | nil => rfl
  | append_singleton calls c ih =>
      rw [run_append, firstReg, List.find?_append, ← firstReg]
      rcases svcAuthReg_cases c (run calls) with ⟨hOld, hRun⟩ | ⟨-, hNone, hRun⟩
      · rw [hRun, ih]
        cases hFirst : firstReg flavor calls with
        | some first => rfl
        | none =>
            -- The call is for another flavor, as there would be an entry otherwise.
            rw [hFirst] at ih
            have hOther : c.credFlavor ≠ flavor := by
              rintro rfl
              rcases hOld with hBuiltin | hSome
              · exact hFlavor hBuiltin
              · rw [ih] at hSome
                cases hSome
            simp [hOther]
      · rw [hRun]
        by_cases hMem : c.mem = true
        · rw [if_pos hMem]
          by_cases hSame : c.credFlavor = flavor
          · rw [hSame, ih] at hNone
            rw [Option.map_eq_none_iff.mp hNone]
            simp [hSame, hMem, AuthReg.entry]
          · have hSkip : List.find? (fun a : Authsvc η => decide (a.flavor = flavor))
                (c.entry :: run calls) =
                  List.find? (fun a : Authsvc η => decide (a.flavor = flavor)) (run calls) := by
              simp [AuthReg.entry, hSame]
            rw [hSkip, ih]
            simp [hSame]
        · rw [if_neg hMem, ih]
          simp [hMem]

/-- No flavor has two entries, and no entry is for a flavor that is built in. -/
theorem run_apart (calls : List (AuthReg η)) :
    (run calls).Pairwise (fun a b => a.flavor ≠ b.flavor) ∧
      ∀ asp ∈ run calls, asp.flavor ∉ builtin := by
  induction calls using List.reverseRecOn with
  | nil => exact ⟨List.Pairwise.nil, fun _ hMem => by cases hMem⟩
  | append_singleton calls c ih =>
      rw [run_append]
      rcases svcAuthReg_cases c (run calls) with ⟨-, hRun⟩ | ⟨hNot, hNone, hRun⟩
      · rw [hRun]
        exact ih
      · rw [hRun]
        by_cases hMem : c.mem = true
        · rw [if_pos hMem, List.pairwise_cons, List.forall_mem_cons]
          refine ⟨⟨fun asp hIn hSame => ?_, ih.1⟩, hNot, ih.2⟩
          have hBad := List.find?_eq_none.mp hNone asp hIn
          exact hBad (decide_eq_true hSame.symm)
        · rw [if_neg hMem]
          exact ih

/-- Whatever has been registered, the flavors that are built in keep their own check, every other
flavor is left to the handler of the first call for it that found memory, and to no other one; a
further call says which of the three it is. -/
theorem authenticate_run (calls : List (AuthReg η)) :
    ((run calls).map Authsvc.flavor).Nodup ∧
    (∀ area aligned (cred : OpaqueAuth), cred.oaFlavor ∈ builtin →
      authenticate area aligned cred (run calls) = authenticate area aligned cred []) ∧
    (∀ area aligned (cred : OpaqueAuth), cred.oaFlavor ∉ builtin →
      authenticate area aligned cred (run calls) =
        match firstReg cred.oaFlavor calls with
        | some c => .handler c.handler
        | none => .stat authRejectedcred) ∧
    ∀ c : AuthReg η, (svcAuthReg c.credFlavor c.handler c.mem (run calls)).1 =
      if c.credFlavor ∈ builtin ∨ (firstReg c.credFlavor calls).isSome then 1
      else if c.mem then 0 else -1 := by
  refine ⟨List.pairwise_map.mpr (run_apart calls).1, ?_, ?_, ?_⟩
  · intro area aligned cred hBuiltin
    unfold authenticate
    by_cases hNull : cred.oaFlavor = authNull
    · rw [if_pos hNull, if_pos hNull]
    rw [if_neg hNull, if_neg hNull]
    by_cases hUnix : cred.oaFlavor = authUnix
    · rw [if_pos hUnix, if_pos hUnix]
    rw [if_neg hUnix, if_neg hUnix]
    have hShort : cred.oaFlavor = authShort := by
      simpa [builtin, hNull, hUnix] using hBuiltin
    rw [if_pos hShort, if_pos hShort]
  · intro area aligned cred hOther
    have hApart : cred.oaFlavor ≠ authNull ∧ cred.oaFlavor ≠ authUnix ∧
        cred.oaFlavor ≠ authShort := by
      simpa [builtin] using hOther
    unfold authenticate
    rw [if_neg hApart.1, if_neg hApart.2.1, if_neg hApart.2.2, find?_run hOther]
    cases firstReg cred.oaFlavor calls with
    | none => rfl
    | some c => rfl
  · intro c
    rcases svcAuthReg_cases c (run calls) with ⟨hOld, hRun⟩ | ⟨hNot, hNone, hRun⟩
    · rw [hRun, if_pos]
      by_cases hBuiltin : c.credFlavor ∈ builtin
      · exact Or.inl hBuiltin
      · rw [find?_run hBuiltin, Option.isSome_map] at hOld
        exact hOld
    · rw [find?_run hNot, Option.map_eq_none_iff] at hNone
      have hNew : ¬ (c.credFlavor ∈ builtin ∨ (firstReg c.credFlavor calls).isSome = true) := by
        simp [hNot, hNone]
      rw [hRun, if_neg hNew]
      cases c.mem with
      | true => rfl
      | false => rfl

end SvcAuth
end OncRpc
