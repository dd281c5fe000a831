import OncRpc.Rpc.Uaddr
import OncRpc.Rpcbind.Directory
import OncRpc.Rpcbind.Service

/-! What the procedures of rpcbind answer with is let through by the filters. -/
namespace OncRpc

/-! ### Addresses as text -/

namespace CString

theorem Short.of_le {s : CString} {n : Nat} (h : s.length ≤ n) (hMax : n ≤ rpcMaxdatasize) :
    Short s := h.trans hMax

theorem length_decimal_byte {n : Nat} (h : n < 256) : (decimal n).length ≤ 3 := by
  have hAll : ∀ n : Fin 256, (decimal (n.val : Int)).length ≤ 3 := by decide +kernel
  exact hAll ⟨n, h⟩

end CString

theorem length_uaddrOf (name : CString) {port : Nat} (h : port < 65536) :
    (uaddrOf name port).length ≤ name.length + 8 := by
  have hHigh := CString.length_decimal_byte (n := port / 256) (by omega)
  have hLow := CString.length_decimal_byte (n := port % 256) (by omega)
  have hDot : (CString.ascii ".").length = 1 := by decide
  simp only [uaddrOf, List.length_append, hDot]
  push_cast at hHigh
  omega

theorem inetUaddr_short {inet : Inet} {af size : Nat}
    {addr : List UInt8 → Option (List UInt8)} {sa : List UInt8} {uaddr : CString}
    (hSize : size ≤ 65) (h : inetUaddr inet af size addr sa = some (some uaddr)) :
    CString.Short uaddr := by
  obtain ⟨bytes, -, h⟩ := Option.bind_eq_some_iff.mp h
  obtain ⟨port, hPort, h⟩ := Option.bind_eq_some_iff.mp h
  obtain ⟨name, hName, rfl⟩ := Option.map_eq_some_iff.mp (Option.some.inj h)
  have hFits := inet.ntop_fits hName
  have hLen := length_uaddrOf name (Sockaddr.port_lt hPort)
  exact CString.Short.of_le (n := 72) (by omega) (by decide)

/-- An address as text is never long. -/
theorem rpcTaddr2uaddrAf_short {inet : Inet} {af : Nat} {nbuf : Netbuf} {uaddr : CString}
    (h : rpcTaddr2uaddrAf inet af nbuf = some (some uaddr)) : CString.Short uaddr := by
  unfold rpcTaddr2uaddrAf at h
  split_ifs at h
  · cases h
  · obtain ⟨sa, -, h⟩ := Option.bind_eq_some_iff.mp h
    exact inetUaddr_short (by decide) h
  · cases h
  · obtain ⟨sa, -, h⟩ := Option.bind_eq_some_iff.mp h
    exact inetUaddr_short (by decide) h
  · obtain ⟨sun, -, h⟩ := Option.bind_eq_some_iff.mp h
    obtain ⟨path, -, h⟩ := Option.bind_eq_some_iff.mp h
    cases h
    have hPath : (cString (path.take (sizeofSunPath - 1))).length ≤ sizeofSunPath - 1 :=
      (List.takeWhile_prefix _).length_le.trans (List.length_take_le _ _)
    exact CString.Short.of_le hPath (by decide)
  · cases h

theorem taddr2uaddr_short {inet : Inet} {nconf : NetconfigEnt} {nbuf : Netbuf} {uaddr : CString}
    (h : taddr2uaddr inet nconf nbuf = some (some uaddr)) : CString.Short uaddr := by
  unfold taddr2uaddr at h
  split at h
  · cases h
  · exact rpcTaddr2uaddrAf_short h

/-! ### Addresses as bytes -/

theorem Netbuf.short_of_block {block : List UInt8} {len : Nat} (hLen : len ≤ block.length)
    (hMax : len ≤ rpcMaxdatasize) :
    Netbuf.Short { maxlen := BitVec.ofNat 32 len, len := BitVec.ofNat 32 len, buf := some block } := by
  have hLe : (BitVec.ofNat 32 len).toNat ≤ len := by
    rw [BitVec.toNat_ofNat]
    exact Nat.mod_le _ _
  exact ⟨hLe.trans hMax, le_refl _, hLe.trans hLen⟩

theorem hostTaddr_short {inet : Inet} {af : Nat} {addrstr : CString} {port : Nat} {taddr : Netbuf}
    (h : hostTaddr inet af addrstr port = some taddr) : taddr.Short := by
  unfold hostTaddr at h
  dsimp only at h
  split_ifs at h with hInet hInet6 hLocal
  · obtain ⟨addr, hAddr, rfl⟩ := Option.map_eq_some_iff.mp h
    have hLen := inet.pton_length hAddr
    have hSa : (Sockaddr.inet port addr).length = 4 + addr.length + 8 := by
      simp [Sockaddr.inet, Sockaddr.shortLe, Sockaddr.shortBe]
      omega
    refine Netbuf.short_of_block (le_refl _) ?_
    show (Sockaddr.inet port addr).length ≤ 9000
    rw [hSa]
    split at hLen <;> omega
  · obtain ⟨addr, hAddr, rfl⟩ := Option.map_eq_some_iff.mp h
    have hLen := inet.pton_length hAddr
    have hSa : (Sockaddr.inet6 port addr).length = 8 + addr.length + 4 := by
      simp [Sockaddr.inet6, Sockaddr.shortLe, Sockaddr.shortBe]
      omega
    refine Netbuf.short_of_block (le_refl _) ?_
    show (Sockaddr.inet6 port addr).length ≤ 9000
    rw [hSa]
    split at hLen <;> omega
  · cases h
    have hPath : (addrstr.take (sizeofSunPath - 1)).length ≤ 107 := List.length_take_le _ _
    have hLen : Sockaddr.sunLen (addrstr.take (sizeofSunPath - 1)) ≤ 111 := by
      unfold Sockaddr.sunLen sizeofSockaddrUn sizeofSunPath at *
      omega
    refine Netbuf.short_of_block (hLen.trans ?_) (hLen.trans (by decide))
    simp only [Sockaddr.un, Sockaddr.shortLe, List.length_append, List.length_cons,
      List.length_nil, List.length_replicate]
    unfold sizeofSunPath at *
    omega

theorem uaddr2taddr_short {inet : Inet} {nconf : NetconfigEnt} {uaddr : CString} {taddr : Netbuf}
    (h : uaddr2taddr inet nconf uaddr = some taddr) : taddr.Short := by
  unfold uaddr2taddr at h
  split at h
  · cases h
  · unfold rpcUaddr2taddrAf at h
    split at h
    · split at h
      · cases h
      · exact hostTaddr_short h
    · exact hostTaddr_short h

/-! ### Registrations -/

/-- A request as a client makes it: what it brings has been let through. -/
def RpcbRequest.Short : RpcbRequest → Prop
  | .set regp owner => regp.Short ∧ CString.Short owner
  | .unset regp owner => regp.Short ∧ CString.Short owner

namespace RpcbRequest

open Registry

variable {st : Registry}

theorem short_serve (h : ∀ rbl ∈ st.listRbl, rbl.Short) {r : RpcbRequest} (hr : r.Short) :
    ∀ rbl ∈ (r.serve st).listRbl, rbl.Short := by
  cases r with
  | set regp owner =>
      rcases mapSet_cases st regp owner with ⟨rbl, -, hSame⟩ | ⟨-, hNew⟩
      · rw [RpcbRequest.serve, hSame]
        exact h
      · obtain ⟨pml, hAdd⟩ := addPmaplist_same regp
          { st with listRbl := st.listRbl ++ [{ regp with rOwner := owner }] }
        rw [RpcbRequest.serve, hNew, hAdd]
        intro rbl hMem
        rcases List.mem_append.mp hMem with hOld | hAdded
        · exact h rbl hOld
        · rw [List.mem_singleton.mp hAdded]
          exact ⟨hr.1.netid, hr.1.addr, hr.2⟩
  | unset regp owner =>
      rw [RpcbRequest.serve, listRbl_mapUnset]
      exact fun rbl hMem => h rbl ((unsetFrom_sublist regp owner st.listRbl).subset hMem)

/-- The induction is on the requests, from any registry. -/
theorem short_run {requests : List RpcbRequest} (hRequests : ∀ r ∈ requests, r.Short)
    (h : ∀ rbl ∈ st.listRbl, rbl.Short) : ∀ rbl ∈ (run st requests).listRbl, rbl.Short := by
  induction requests generalizing st with
  | nil => exact h
  | cons r rest ih =>
      exact ih (fun r' hMem => hRequests r' (List.mem_cons_of_mem r hMem))
        (short_serve h (hRequests r List.mem_cons_self))

theorem short_reach {requests : List RpcbRequest} (hRequests : ∀ r ∈ requests, r.Short)
    (udptrans tcptrans : CString) :
    ∀ rbl ∈ (reach udptrans tcptrans requests).listRbl, rbl.Short :=
  short_run hRequests fun rbl hMem => (by cases hMem)

end RpcbRequest

/-! ### Addresses that are merged -/

theorem addrmergeFound_short {inet : Inet} {nconf : NetconfigEnt} {clnt clntSa servSa : List UInt8}
    {ifap : Option Ifaddrs} {examined : Option (List UInt8)} {merged : CString}
    (h : addrmergeFound inet nconf clnt clntSa servSa ifap examined = some (some merged)) :
    CString.Short merged := by
  obtain ⟨family, -, h⟩ := Option.bind_eq_some_iff.mp h
  obtain ⟨clntFamily, -, h⟩ := Option.bind_eq_some_iff.mp h
  dsimp only at h
  by_cases hInternet : family = afInet ∨ family = afInet6
  · rw [if_pos hInternet] at h
    obtain ⟨newsin, -, h⟩ := Option.bind_eq_some_iff.mp h
    obtain ⟨port, -, h⟩ := Option.bind_eq_some_iff.mp h
    split at h
    · exact taddr2uaddr_short h
    · cases h
  · rw [if_neg hInternet] at h
    cases h

theorem addrmergeInterfaces_short {inet : Inet} {nconf : NetconfigEnt}
    {clnt clntSa servSa : List UInt8} {ifp : List Ifaddrs} {merged : CString}
    (h : addrmergeInterfaces inet nconf clnt clntSa servSa ifp = some (some merged)) :
    CString.Short merged := by
  obtain ⟨search, -, h⟩ := Option.bind_eq_some_iff.mp h
  split at h
  · exact addrmergeFound_short h
  · obtain ⟨bestif, -, h⟩ := Option.bind_eq_some_iff.mp h
    exact addrmergeFound_short h
  · cases h

namespace RpcbindEnv

variable {env : RpcbindEnv} {netid uaddr merged : CString} {saddr : Option CString}

theorem addrmergeTaddr_short {caller clntSa : List UInt8} {nconf : NetconfigEnt}
    {servNbp : Netbuf} (h : env.addrmergeTaddr caller nconf servNbp clntSa = some (some merged)) :
    CString.Short merged := by
  unfold addrmergeTaddr at h
  split at h
  · cases h
  · obtain ⟨servSa, -, h⟩ := Option.bind_eq_some_iff.mp h
    exact addrmergeInterfaces_short h

/-- What comes of merging is one of the addresses, or one that has been made a text of. -/
theorem addrmerge_short {caller : List UInt8} (hServ : CString.Short uaddr)
    (hClnt : ∀ clnt, saddr = some clnt → CString.Short clnt)
    (h : env.addrmerge caller uaddr saddr netid = some (some merged)) : CString.Short merged := by
  unfold addrmerge at h
  split at h
  · cases h
  · split at h
    · exact hClnt merged (Option.some.inj h)
    · split at h
      · cases h
      · split at h
        · cases h
        · obtain ⟨clntSa, -, h⟩ := Option.bind_eq_some_iff.mp h
          obtain ⟨family, -, h⟩ := Option.bind_eq_some_iff.mp h
          split at h
          · cases h
            exact hServ
          · exact addrmergeTaddr_short h
      · obtain ⟨family, -, h⟩ := Option.bind_eq_some_iff.mp h
        obtain ⟨clntSa, -, h⟩ := Option.bind_eq_some_iff.mp h
        exact addrmergeTaddr_short h

theorem mergeaddr_short {transp : SvcXprt} (hServ : CString.Short uaddr)
    (h : env.mergeaddr transp.svcGetrpccaller netid uaddr saddr = some (some merged)) :
    CString.Short merged := by
  unfold mergeaddr at h
  split at h
  · cases h
  · split at h
    · cases h
      exact Nat.zero_le _
    · obtain ⟨contact, hContact, h⟩ := Option.bind_eq_some_iff.mp h
      split at h
      · cases h
      · next cUaddr =>
          obtain ⟨caller, -, h⟩ := Option.bind_eq_some_iff.mp h
          refine addrmerge_short hServ (fun clnt hSame => ?_) h
          cases hSame
          exact taddr2uaddr_short hContact

end RpcbindEnv

end OncRpc
