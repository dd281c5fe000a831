import OncRpc.Rpc.RpcbProt
import OncRpc.Rpcbind.CheckBound

/-! `security.c`: who may change the registries, and what is called on behalf of others. -/
namespace OncRpc

/-- `INADDR_LOOPBACK` and `in6addr_loopback` as they stand in an address. -/
def inaddrLoopback : List UInt8 := [127, 0, 0, 1]
def in6addrLoopback : List UInt8 := List.replicate 15 0 ++ [1]

/-- `IPPORT_RESERVED`, and `IPV6PORT_RESERVED`. -/
def ipportReserved : Nat := 1024

/-- Programs that are not called for others, and their procedures. -/
def nfsProgram : BitVec 32 := 100003
def ypprog : BitVec 32 := 100004
def mountprog : BitVec 32 := 100005
def ypbindprog : BitVec 32 := 100007
def yppasswdprog : BitVec 32 := 100009
def rquotaprog : BitVec 32 := 100011
def mountprocMnt : BitVec 32 := 1
def mountprocUmnt : BitVec 32 := 3
def ypbindprocSetdom : BitVec 32 := 2
def ypprocMatch : BitVec 32 := 3
def ypprocFirst : BitVec 32 := 4
def ypprocNext : BitVec 32 := 5
def ypprocAll : BitVec 32 := 8

namespace RpcbindEnv

variable (env : RpcbindEnv)

/-- `is_loopback`. -/
def isLoopback (addr : List UInt8) : Option Bool := do
  let family ← Sockaddr.family addr
  if family = afInet then
    if env.oldstyleLocal = false then pure false
    else do
      let sinAddr ← Sockaddr.sinAddr addr
      let port ← Sockaddr.port addr
      pure (decide (sinAddr = inaddrLoopback ∧ port < ipportReserved))
  else if family = afInet6 then
    if env.oldstyleLocal = false then pure false
    else do
      let sin6Addr ← Sockaddr.sin6Addr addr
      let port ← Sockaddr.port addr
      pure (decide (sin6Addr = in6addrLoopback ∧ port < ipportReserved))
  else pure (decide (family = afLocal))

/-- `check_access`. The version and the arguments are only logged. -/
def checkAccess (addr : List UInt8) (proc : BitVec 32) : Option Bool :=
  if (proc = rpcbprocSet ∨ proc = rpcbprocUnset) ∧ env.insecure = false then env.isLoopback addr
  else some true

/-- `check_callit`. -/
def checkCallit (rmtProg rmtProc : BitVec 32) : Bool :=
  if rmtProc = 0 then true
  else if rmtProg = rpcbprog then env.insecure
  else if rmtProg = mountprog then decide (rmtProc ≠ mountprocMnt ∧ rmtProc ≠ mountprocUmnt)
  else if rmtProg = ypbindprog then decide (rmtProc ≠ ypbindprocSetdom)
  else if rmtProg = yppasswdprog ∨ rmtProg = nfsProgram ∨ rmtProg = rquotaprog then false
  else if rmtProg = ypprog then
    decide (rmtProc ≠ ypprocAll ∧ rmtProc ≠ ypprocMatch ∧ rmtProc ≠ ypprocFirst ∧
      rmtProc ≠ ypprocNext)
  else true

end RpcbindEnv

/-- An address of another host: neither of the local family nor one of the loopback
addresses. -/
structure Sockaddr.Remote (addr : List UInt8) : Prop where
  not_local : family addr ≠ some afLocal
  not_inet : family addr = some afInet → sinAddr addr ≠ some inaddrLoopback
  not_inet6 : family addr = some afInet6 → sin6Addr addr ≠ some in6addrLoopback

namespace RpcbindEnv

variable {env : RpcbindEnv} {addr : List UInt8} {proc : BitVec 32}

/-- Another host is never taken for this one. -/
theorem isLoopback_remote (h : Sockaddr.Remote addr) : env.isLoopback addr ≠ some true := by
  intro hLoop
  unfold isLoopback at hLoop
  rcases hFamily : Sockaddr.family addr with _ | family
  · rw [hFamily] at hLoop
    cases hLoop
  · simp only [hFamily, Option.bind_eq_bind, Option.bind_some] at hLoop
    split at hLoop
    · next hInet =>
        subst hInet
        split at hLoop
        · cases hLoop
        · obtain ⟨sinAddr, hAddr, hLoop⟩ := Option.bind_eq_some_iff.mp hLoop
          obtain ⟨port, -, hLoop⟩ := Option.bind_eq_some_iff.mp hLoop
          have hBoth := of_decide_eq_true (Option.some.inj hLoop)
          exact h.not_inet hFamily (hBoth.1 ▸ hAddr)
    · split at hLoop
      · next hInet6 =>
          subst hInet6
          split at hLoop
          · cases hLoop
          · obtain ⟨sin6Addr, hAddr, hLoop⟩ := Option.bind_eq_some_iff.mp hLoop
            obtain ⟨port, -, hLoop⟩ := Option.bind_eq_some_iff.mp hLoop
            have hBoth := of_decide_eq_true (Option.some.inj hLoop)
            exact h.not_inet6 hFamily (hBoth.1 ▸ hAddr)
      · have hLocal : family = afLocal := of_decide_eq_true (Option.some.inj hLoop)
        subst hLocal
        exact h.not_local hFamily

/-- So it may neither set nor unset anything. -/
theorem checkAccess_remote (h : Sockaddr.Remote addr) (hSecure : env.insecure = false)
    (hProc : proc = rpcbprocSet ∨ proc = rpcbprocUnset) :
    env.checkAccess addr proc ≠ some true := by
  unfold checkAccess
  rw [if_pos ⟨hProc, hSecure⟩]
  exact isLoopback_remote h

/-- Nothing but the null procedure of rpcbind is called for others. -/
theorem checkCallit_rpcbprog {rmtProg rmtProc : BitVec 32} (hSecure : env.insecure = false)
    (h : env.checkCallit rmtProg rmtProc = true) : rmtProg ≠ rpcbprog ∨ rmtProc = 0 := by
  by_cases hNull : rmtProc = 0
  · exact Or.inr hNull
  · refine Or.inl ?_
    rintro rfl
    unfold checkCallit at h
    rw [if_neg hNull, if_pos rfl, hSecure] at h
    cases h

end RpcbindEnv
end OncRpc
