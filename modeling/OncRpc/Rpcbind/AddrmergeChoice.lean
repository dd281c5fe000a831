import OncRpc.Rpcbind.Addrmerge

/-! When `addrmerge` chooses the right interface: what its loops find for a caller that is
link-local over IPv6, and that they find nothing for another one. -/
namespace OncRpc

/-! ### A caller that is link-local -/

section LinkLocalCaller

variable {inet : Inet} {nconf : NetconfigEnt} {si : SockInfo}
  {caller clntSa servSa addr : List UInt8} {ifp : List Ifaddrs} {ifa : Ifaddrs}

theorem FromAdapters.ofCaller_iff (h : FromAdapters ifp) (hMem : ifa ∈ ifp) {af : Nat}
    (hCaller : Sockaddr.family caller = some af) :
    OfCaller caller ifa ↔ ∃ addr, ifa.ifaAddr = some addr ∧ Sockaddr.family addr = some af := by
  rw [OfCaller, hCaller]
  constructor
  · rintro ⟨-, hFamily⟩
    exact Option.bind_eq_some_iff.mp hFamily
  · rintro ⟨addr, hAddr, hFamily⟩
    refine ⟨h.up ifa hMem addr hAddr, ?_⟩
    rw [hAddr]
    exact hFamily

/-- A harmless entry is passed or examined, and is not on the client's subnet. -/
theorem FromAdapters.look_harmless (h : FromAdapters ifp) (hMem : ifa ∈ ifp)
    (hCaller : Sockaddr.family caller = some afInet6)
    (hLength : sizeofSockaddrIn6 ≤ caller.length) (hLocal : LinkLocal caller)
    (hWant : LinkLocal clntSa) (hHarmless : Harmless caller ifa) :
    addrmergeLook caller clntSa ifa =
        some (if OfCaller caller ifa then .examined else .passed) ∧
      ¬ OnSubnet caller clntSa ifa := by
  obtain ⟨addr, hAddr, hCase⟩ := hHarmless
  have hSockaddr := h.sockaddr ifa hMem addr hAddr
  by_cases hFamily : Sockaddr.family addr = some afInet6
  · obtain ⟨hLink, hScope⟩ := hCase.resolve_left fun hOther => hOther hFamily
    have hOf := (h.ofCaller_iff hMem hCaller).mpr ⟨addr, hAddr, hFamily⟩
    constructor
    · rw [look_inet6 hCaller hLength hAddr hFamily (hSockaddr.inet6 hFamily)
        (h.up ifa hMem addr hAddr) (h.netmask ifa hMem), if_pos ⟨hLink, hLocal, hWant⟩,
        if_pos hScope, if_pos hOf]
    · rintro ⟨-, addr', hAddr', hSame⟩
      obtain rfl := Option.some.inj (hAddr.symm.trans hAddr')
      rw [SameSubnet, if_pos ⟨hCaller, hLocal, hWant, hLink⟩] at hSame
      exact hScope hSame
  · have hNot : ¬ OfCaller caller ifa := by
      rw [h.ofCaller_iff hMem hCaller]
      rintro ⟨addr', hAddr', hFamily'⟩
      obtain rfl := Option.some.inj (hAddr.symm.trans hAddr')
      exact hFamily hFamily'
    rw [look_passed hCaller hAddr hSockaddr hFamily, if_neg hNot]
    exact ⟨rfl, fun hOn => hNot hOn.1⟩

/-- Another entry ends the search: it is found if it is link-local, and then has the scope id of
the caller, and otherwise something absent is dereferenced. -/
theorem FromAdapters.look_other (h : FromAdapters ifp) (hMem : ifa ∈ ifp)
    (hCaller : Sockaddr.family caller = some afInet6)
    (hLength : sizeofSockaddrIn6 ≤ caller.length) (hLocal : LinkLocal caller)
    (hWant : LinkLocal clntSa) (hOther : ¬ Harmless caller ifa) :
    (addrmergeLook caller clntSa ifa = none ∧ ¬ ∃ addr ∈ ifa.ifaAddr, LinkLocal addr ∧
        Sockaddr.sin6ScopeId addr = Sockaddr.sin6ScopeId caller) ∨
      addrmergeLook caller clntSa ifa = some .found ∧ OnSubnet caller clntSa ifa ∧
        ∃ addr ∈ ifa.ifaAddr, Sockaddr.family addr = some afInet6 ∧ LinkLocal addr ∧
          Sockaddr.sin6ScopeId addr = Sockaddr.sin6ScopeId caller := by
  cases hAddr : ifa.ifaAddr with
  | none =>
      refine Or.inl ⟨look_none hAddr, ?_⟩
      rintro ⟨addr, hNone, -⟩
      cases hNone
  | some addr =>
      have hFamily : Sockaddr.family addr = some afInet6 := by
        by_contra hNot
        exact hOther ⟨addr, hAddr, Or.inl hNot⟩
      have hLook : addrmergeLook caller clntSa ifa = _ :=
        look_inet6 hCaller hLength hAddr hFamily
          ((h.sockaddr ifa hMem addr hAddr).inet6 hFamily) (h.up ifa hMem addr hAddr)
          (h.netmask ifa hMem)
      by_cases hLink : LinkLocal addr
      · have hScope : Sockaddr.sin6ScopeId addr = Sockaddr.sin6ScopeId caller := by
          by_contra hNot
          exact hOther ⟨addr, hAddr, Or.inr ⟨hLink, hNot⟩⟩
        refine Or.inr ⟨?_, ⟨?_, addr, hAddr, ?_⟩, addr, rfl, hFamily, hLink, hScope⟩
        · rw [hLook, if_pos ⟨hLink, hLocal, hWant⟩, if_neg fun hNot => hNot hScope]
        · exact (h.ofCaller_iff hMem hCaller).mpr ⟨addr, hAddr, hFamily⟩
        · rw [SameSubnet, if_pos ⟨hCaller, hLocal, hWant, hLink⟩]
          exact hScope
      · refine Or.inl ⟨?_, ?_⟩
        · rw [hLook, if_neg fun hAll => hLink hAll.1]
        · rintro ⟨addr', hAddr', hLink', -⟩
          cases hAddr'
          exact hLink hLink'

theorem uaddrOf_injective (port : Nat) : Function.Injective fun name => uaddrOf name port := by
  intro name name' h
  simp only [uaddrOf, List.append_assoc] at h
  exact List.append_cancel_right h

/-- Two interfaces give the same address exactly if they have the same host. -/
theorem mergedUaddr_eq_iff {ifa' : Ifaddrs} {addr' : List UInt8} (hAddr : ifa.ifaAddr = some addr)
    (hSize : sizeofSockaddrIn6 ≤ addr.length) (hAddr' : ifa'.ifaAddr = some addr')
    (hSize' : sizeofSockaddrIn6 ≤ addr'.length) (hServ : 4 ≤ servSa.length) :
    mergedUaddr inet afInet6 servSa ifa = mergedUaddr inet afInet6 servSa ifa' ↔
      hostText inet ifa = hostText inet ifa' := by
  obtain ⟨port, hPort⟩ : ∃ port, Sockaddr.port servSa = some port :=
    ⟨_, by rw [Sockaddr.port, Sockaddr.bytes_of_le hServ]; rfl⟩
  rw [mergedUaddr_eq hAddr hSize hPort, mergedUaddr_eq hAddr' hSize' hPort]
  exact (Option.map_injective (uaddrOf_injective port)).eq_iff

theorem FromAdapters.sized (h : FromAdapters ifp) (hMem : ifa ∈ ifp)
    (hCaller : Sockaddr.family caller = some afInet6) (hOf : OfCaller caller ifa) :
    ∃ addr, ifa.ifaAddr = some addr ∧ Sockaddr.family addr = some afInet6 ∧
      sizeofSockaddrIn6 ≤ addr.length := by
  obtain ⟨addr, hAddr, hFamily⟩ := (h.ofCaller_iff hMem hCaller).mp hOf
  exact ⟨addr, hAddr, hFamily, (h.sockaddr ifa hMem addr hAddr).inet6 hFamily⟩

theorem bestFallback_mem {best : Ifaddrs} (h : bestFallback caller ifp = some best) :
    best ∈ ifp ∧ OfCaller caller best := by
  rcases Option.or_eq_some_iff.mp h with hNormal | ⟨-, hFirst⟩
  · have hTest := List.find?_some hNormal
    rw [decide_eq_true_eq] at hTest
    exact ⟨List.mem_of_find?_eq_some hNormal, hTest.1⟩
  · have hTest := List.find?_some hFirst
    rw [decide_eq_true_eq] at hTest
    exact ⟨List.mem_of_find?_eq_some hFirst, hTest⟩

/-- There is a fallback exactly if an interface is of the caller's family. -/
theorem bestFallback_eq_none :
    bestFallback caller ifp = none ↔ ∀ ifa ∈ ifp, ¬ OfCaller caller ifa := by
  constructor
  · intro h ifa hMem hOf
    have hFirst := (Option.or_eq_none_iff.mp h).2
    exact absurd (decide_eq_true hOf) (List.find?_eq_none.mp hFirst ifa hMem)
  · intro h
    apply Option.eq_none_iff_forall_not_mem.mpr
    intro best hBest
    obtain ⟨hMem, hOf⟩ := bestFallback_mem hBest
    exact h best hMem hOf

/-- What has been examined last is the last interface of the family. -/
theorem lastExamined_eq (h : ∀ ifa ∈ ifp, addrmergeLook caller clntSa ifa =
      some (if OfCaller caller ifa then .examined else .passed)) :
    lastExamined caller clntSa none ifp =
      (ifp.filter fun ifa => decide (OfCaller caller ifa)).getLast?.bind Ifaddrs.ifaAddr := by
  have hFold := foldl_last
    (fun ifa => decide (addrmergeLook caller clntSa ifa = some .examined)) Ifaddrs.ifaAddr ifp none
  simp only [decide_eq_true_eq] at hFold
  rw [lastExamined, hFold]
  have hFilter : (ifp.filter fun ifa =>
      decide (addrmergeLook caller clntSa ifa = some .examined)) =
        ifp.filter fun ifa => decide (OfCaller caller ifa) := by
    apply List.filter_congr
    intro ifa hMem
    rw [h ifa hMem]
    by_cases hOf : OfCaller caller ifa <;> simp [hOf]
  rw [hFilter]
  cases (ifp.filter fun ifa => decide (OfCaller caller ifa)).getLast? <;> rfl

/-- What is to be returned for addresses that parse. -/
def ReturnsRight (inet : Inet) (caller clntSa servSa : List UInt8) (ifp : List Ifaddrs)
    (merged : Option (Option CString)) : Prop :=
  ∃ ret, merged = some ret ∧ (ret = none ↔ ∀ ifa ∈ ifp, ¬ OfCaller caller ifa) ∧
    ∀ ifa, choice caller clntSa ifp = some ifa →
      ret = mergedUaddr inet ((Sockaddr.family caller).getD 0) servSa ifa

theorem not_returnsRight_none : ¬ ReturnsRight inet caller clntSa servSa ifp none := by
  rintro ⟨_, hNone, -⟩
  cases hNone

theorem mergedUaddr_ne_none (hAddr : ifa.ifaAddr = some addr)
    (hSize : sizeofSockaddrIn6 ≤ addr.length) (hServ : 4 ≤ servSa.length)
    (hNtop : ∀ host : List UInt8, host.length = 16 →
      (inet.ntop afInet6 host inet6Addrstrlen).isSome) :
    mergedUaddr inet afInet6 servSa ifa ≠ none := by
  obtain ⟨port, hPort⟩ : ∃ port, Sockaddr.port servSa = some port :=
    ⟨_, by rw [Sockaddr.port, Sockaddr.bytes_of_le hServ]; rfl⟩
  have hLen28 : 28 ≤ addr.length := hSize
  obtain ⟨name, hName⟩ := Option.isSome_iff_exists.mp
    (hNtop _ (Buffer.length_readAt_of_le (by omega : 8 + 16 ≤ addr.length)))
  have hText : hostText inet ifa = some name := by
    rw [hostText, hAddr]
    simp only [Option.bind_eq_bind, Option.bind_some, Sockaddr.exists_sin6Addr hSize]
    exact hName
  rw [mergedUaddr_eq hAddr hSize hPort, hText]
  exact Option.some_ne_none _

/-- An address of an interface of the family is right if it is that of the choice. -/
theorem FromAdapters.returnsRight_iff (h : FromAdapters ifp) (hMem : ifa ∈ ifp)
    (hCaller : Sockaddr.family caller = some afInet6) (hOf : OfCaller caller ifa)
    (hNtop : ∀ host : List UInt8, host.length = 16 →
      (inet.ntop afInet6 host inet6Addrstrlen).isSome)
    (hServ : 4 ≤ servSa.length) {chosen : Ifaddrs} (hChosen : chosen ∈ ifp)
    (hChosenOf : OfCaller caller chosen) (hChoice : choice caller clntSa ifp = some chosen) :
    ReturnsRight inet caller clntSa servSa ifp (some (mergedUaddr inet afInet6 servSa ifa)) ↔
      hostText inet ifa = hostText inet chosen := by
  obtain ⟨addr, hAddr, -, hSize⟩ := h.sized hMem hCaller hOf
  obtain ⟨addr', hAddr', -, hSize'⟩ := h.sized hChosen hCaller hChosenOf
  rw [← mergedUaddr_eq_iff hAddr hSize hAddr' hSize' hServ]
  constructor
  · rintro ⟨ret, hRet, -, hRight⟩
    rw [Option.some.inj hRet, hRight chosen hChoice, hCaller]
    rfl
  · intro hSame
    refine ⟨_, rfl, ?_, ?_⟩
    · constructor
      · intro hNone
        exact absurd hNone (mergedUaddr_ne_none hAddr hSize hServ hNtop)
      · intro hNo
        exact absurd hOf (hNo ifa hMem)
    · intro ifa' hChoice'
      obtain rfl := Option.some.inj (hChoice.symm.trans hChoice')
      rw [hSame, hCaller]
      rfl

/-- Where caller and client are link-local the answer is right exactly if the search ends well. -/
theorem FromAdapters.interfaces_iff (h : FromAdapters ifp)
    (hInfo : rpcNconf2sockinfo nconf = some si) (hAf : si.siAf = afInet6)
    (hCaller : Sockaddr.family caller = some afInet6)
    (hLength : sizeofSockaddrIn6 ≤ caller.length) (hLocal : LinkLocal caller)
    (hClnt : Sockaddr.family clntSa = some afInet6) (hWant : LinkLocal clntSa)
    (hServ : 4 ≤ servSa.length)
    (hNtop : ∀ host : List UInt8, host.length = 16 →
      (inet.ntop afInet6 host inet6Addrstrlen).isSome) :
    ReturnsRight inet caller clntSa servSa ifp
        (addrmergeInterfaces inet nconf caller clntSa servSa ifp) ↔ SearchEnds inet caller ifp := by
  have hHarmless : ∀ ifa ∈ ifp, Harmless caller ifa →
      addrmergeLook caller clntSa ifa =
          some (if OfCaller caller ifa then .examined else .passed) ∧
        ¬ OnSubnet caller clntSa ifa :=
    fun ifa hMem => h.look_harmless hMem hCaller hLength hLocal hWant
  unfold SearchEnds
  cases hFirst : ifp.find? fun ifa => !decide (Harmless caller ifa) with
  | some ifa =>
      obtain ⟨hTest, pre, post, hIfp, hPre⟩ := List.find?_eq_some_iff_append.mp hFirst
      have hMem := List.mem_of_find?_eq_some hFirst
      have hOther : ¬ Harmless caller ifa := by simpa using hTest
      have hSub : ∀ e ∈ pre, e ∈ ifp ∧ Harmless caller e := by
        intro e hPreMem
        refine ⟨hIfp ▸ List.mem_append_left _ hPreMem, ?_⟩
        simpa using hPre e hPreMem
      have hQuiet : ∀ e ∈ pre, addrmergeLook caller clntSa e = some .passed ∨
          addrmergeLook caller clntSa e = some .examined := by
        intro e hPreMem
        have hLook := (hHarmless e (hSub e hPreMem).1 (hSub e hPreMem).2).1
        split at hLook
        · exact Or.inr hLook
        · exact Or.inl hLook
      dsimp only
      rcases h.look_other hMem hCaller hLength hLocal hWant hOther with
        ⟨hNone, hNot⟩ | ⟨hFound, hOn, addr, hAddr, hFamily, hLink, hScope⟩
      · rw [hIfp, interfaces_none hQuiet hNone]
        exact iff_of_false not_returnsRight_none hNot
      · have hFind : (ifp.find? fun ifa => decide (OnSubnet caller clntSa ifa)) = some ifa := by
          rw [List.find?_eq_some_iff_append]
          refine ⟨decide_eq_true hOn, pre, post, hIfp, ?_⟩
          intro e hPreMem
          simp [(hHarmless e (hSub e hPreMem).1 (hSub e hPreMem).2).2]
        have hChoice : choice caller clntSa ifp = some ifa := by
          rw [choice, hFind]
          rfl
        have hSize := (h.sockaddr ifa hMem addr hAddr).inet6 hFamily
        have hAddr' : ifa.ifaAddr = some addr := hAddr
        have hMerged :
            addrmergeInterfaces inet nconf caller clntSa servSa (pre ++ ifa :: post) = _ :=
          interfaces_found hQuiet hFound
        rw [← hIfp, hAddr',
          found_inet6 hInfo hAf hCaller hClnt hAddr' hFamily hSize hServ] at hMerged
        rw [hMerged, h.returnsRight_iff hMem hCaller hOn.1 hNtop hServ hMem hOn.1 hChoice]
        exact iff_of_true rfl ⟨addr, hAddr, hLink, hScope⟩
  | none =>
      have hAll : ∀ ifa ∈ ifp, Harmless caller ifa := by
        intro ifa hMem
        simpa using List.find?_eq_none.mp hFirst ifa hMem
      have hLook := fun ifa hMem => (hHarmless ifa hMem (hAll ifa hMem)).1
      have hQuiet : ∀ e ∈ ifp, addrmergeLook caller clntSa e = some .passed ∨
          addrmergeLook caller clntSa e = some .examined := by
        intro e hMem
        rw [hLook e hMem]
        split
        · exact Or.inr rfl
        · exact Or.inl rfl
      have hAddrs : ∀ ifa ∈ ifp, (ifa.ifaAddr.bind Sockaddr.family).isSome := by
        intro ifa hMem
        obtain ⟨addr, hAddr, -⟩ := hAll ifa hMem
        rw [show ifa.ifaAddr = some addr from hAddr]
        exact (h.sockaddr ifa hMem addr hAddr).family
      have hExhausted : addrmergeInterfaces inet nconf caller clntSa servSa ifp = _ :=
        interfaces_exhausted (by rw [hCaller]; rfl) hAddrs hQuiet
      rw [hExhausted, lastExamined_eq hLook]
      have hNotOn : (ifp.find? fun ifa => decide (OnSubnet caller clntSa ifa)) = none := by
        rw [List.find?_eq_none]
        intro ifa hMem
        simp [(hHarmless ifa hMem (hAll ifa hMem)).2]
      cases hBest : bestFallback caller ifp with
      | none =>
          have hLast : (ifp.filter fun ifa => decide (OfCaller caller ifa)) = [] := by
            rw [List.filter_eq_nil_iff]
            intro ifa hMem
            simp [bestFallback_eq_none.mp hBest ifa hMem]
          rw [hLast, show ([] : List Ifaddrs).getLast?.bind Ifaddrs.ifaAddr = none from rfl,
            found_null hCaller (Or.inr rfl)]
          apply iff_of_false not_returnsRight_none
          rintro ⟨last, best, -, hNone, -⟩
          cases hNone
      | some best =>
          obtain ⟨hBestMem, hBestOf⟩ := bestFallback_mem hBest
          have hChoice : choice caller clntSa ifp = some best := by
            rw [choice, hNotOn, hBest]
            rfl
          cases hLast : (ifp.filter fun ifa => decide (OfCaller caller ifa)).getLast? with
          | none =>
              have hEmpty := List.getLast?_eq_none_iff.mp hLast
              have hIn : best ∈ ifp.filter fun ifa => decide (OfCaller caller ifa) :=
                List.mem_filter.mpr ⟨hBestMem, decide_eq_true hBestOf⟩
              rw [hEmpty] at hIn
              cases hIn
          | some last =>
              obtain ⟨hLastMem, hTest⟩ := List.mem_filter.mp (List.mem_of_getLast? hLast)
              have hLastOf := of_decide_eq_true hTest
              obtain ⟨addr, hAddr, hFamily, hSize⟩ := h.sized hLastMem hCaller hLastOf
              rw [Option.bind_some, hAddr,
                found_inet6 hInfo hAf hCaller hClnt hAddr hFamily hSize hServ,
                h.returnsRight_iff hLastMem hCaller hLastOf hNtop hServ hBestMem hBestOf hChoice]
              constructor
              · intro hSame
                exact ⟨last, best, rfl, rfl, hSame⟩
              · rintro ⟨last', best', hLast', hBest', hSame⟩
                cases hLast'
                cases hBest'
                exact hSame

/-- For any other caller or client the search meets an interface without an address or a netmask,
or none of the family. -/
theorem FromAdapters.interfaces_none_of_not_linkLocal (h : FromAdapters ifp)
    (hSockaddr : WholeSockaddr caller) {af : Nat} (hCaller : Sockaddr.family caller = some af)
    (hAf : af = afInet ∨ af = afInet6)
    (hNot : ¬ (af = afInet6 ∧ LinkLocal caller ∧ LinkLocal clntSa)) :
    addrmergeInterfaces inet nconf caller clntSa servSa ifp = none := by
  apply interfaces_blind hCaller hAf
  intro ifa hMem
  cases hAddr : ifa.ifaAddr with
  | none => exact Or.inl (look_none hAddr)
  | some addr =>
      have hIf := h.sockaddr ifa hMem addr hAddr
      by_cases hFamily : Sockaddr.family addr = some af
      · left
        rcases hAf with rfl | rfl
        · exact look_inet hCaller hAddr hFamily (h.up ifa hMem addr hAddr) (h.netmask ifa hMem)
        · rw [look_inet6 hCaller (hSockaddr.inet6 hCaller) hAddr hFamily (hIf.inet6 hFamily)
            (h.up ifa hMem addr hAddr) (h.netmask ifa hMem), if_neg]
          rintro ⟨-, hLocal, hWant⟩
          exact hNot ⟨rfl, hLocal, hWant⟩
      · refine Or.inr ⟨look_passed hCaller hAddr hIf hFamily, ?_, hIf.family⟩
        rw [h.ofCaller_iff hMem hCaller]
        rintro ⟨addr', hAddr', hFamily'⟩
        obtain rfl := Option.some.inj (hAddr.symm.trans hAddr')
        exact hFamily hFamily'

end LinkLocalCaller

/-! ### The whole of `addrmerge` -/

/-- What is made of a host and a port is of the family, and as long as it asks for. -/
theorem hostTaddr_sockaddr {inet : Inet} {af port : Nat} {addrstr : CString} {taddr : Netbuf}
    (hAf : af = afInet ∨ af = afInet6) (h : hostTaddr inet af addrstr port = some taddr) :
    ∃ sa, taddr.buf = some sa ∧ Sockaddr.family sa = some af ∧ sa.length = socklen af := by
  unfold hostTaddr at h
  rcases hAf with rfl | rfl
  · rw [if_pos rfl] at h
    obtain ⟨addr, hAddr, rfl⟩ := Option.map_eq_some_iff.mp h
    have hLen : addr.length = 4 := inet.pton_length hAddr
    refine ⟨_, rfl, ?_, ?_⟩
    · rw [Sockaddr.inet, List.append_assoc, List.append_assoc,
        Sockaddr.family_shortLe (by decide)]
    · simp [Sockaddr.inet, Sockaddr.shortLe, Sockaddr.shortBe, hLen]
      rfl
  · rw [if_neg (by decide), if_pos rfl] at h
    obtain ⟨addr, hAddr, rfl⟩ := Option.map_eq_some_iff.mp h
    have hLen : addr.length = 16 := inet.pton_length hAddr
    refine ⟨_, rfl, ?_, ?_⟩
    · rw [Sockaddr.inet6, List.append_assoc, List.append_assoc, List.append_assoc,
        Sockaddr.family_shortLe (by decide)]
    · simp [Sockaddr.inet6, Sockaddr.shortLe, Sockaddr.shortBe, hLen]
      rfl

namespace RpcbindEnv

variable {env : RpcbindEnv} {nconf : NetconfigEnt} {si : SockInfo} {uaddr servUaddr : CString}
  {clntUaddr : Option CString} {caller sa servSa clntSa : List UInt8} {ifp : List Ifaddrs}

theorem buf_uaddr2taddr {taddr : Netbuf} (hInfo : rpcNconf2sockinfo nconf = some si)
    (hAf : si.siAf = afInet ∨ si.siAf = afInet6)
    (h : uaddr2taddr env.inet nconf uaddr = some taddr) :
    ∃ sa, taddr.buf = some sa ∧ Sockaddr.family sa = some si.siAf ∧
      sa.length = socklen si.siAf := by
  unfold uaddr2taddr at h
  rw [hInfo] at h
  dsimp only at h
  unfold rpcUaddr2taddrAf at h
  split at h
  · split at h
    · cases h
    · exact hostTaddr_sockaddr hAf h
  · exact hostTaddr_sockaddr hAf h

theorem parsed_sockaddr (hInfo : rpcNconf2sockinfo nconf = some si)
    (hAf : si.siAf = afInet ∨ si.siAf = afInet6) (h : env.parsed nconf uaddr = some sa) :
    Sockaddr.family sa = some si.siAf ∧ sa.length = socklen si.siAf := by
  obtain ⟨taddr, hTaddr, hBuf⟩ := Option.bind_eq_some_iff.mp h
  obtain ⟨sa', hBuf', hShape⟩ := buf_uaddr2taddr hInfo hAf hTaddr
  obtain rfl := Option.some.inj (hBuf.symm.trans hBuf')
  exact hShape

theorem parsed_eq_none (hInfo : rpcNconf2sockinfo nconf = some si)
    (hAf : si.siAf = afInet ∨ si.siAf = afInet6) :
    env.parsed nconf uaddr = none ↔ uaddr2taddr env.inet nconf uaddr = none := by
  constructor
  · intro h
    by_contra hSome
    obtain ⟨taddr, hTaddr⟩ := Option.ne_none_iff_exists'.mp hSome
    obtain ⟨sa, hBuf, -⟩ := buf_uaddr2taddr hInfo hAf hTaddr
    rw [parsed, hTaddr, Option.bind_some, hBuf] at h
    cases h
  · intro h
    rw [parsed, h]
    rfl

/-- The client's address is of the family of the netid, and as long as it asks for. -/
theorem clientSa_sockaddr (hInfo : rpcNconf2sockinfo nconf = some si)
    (hAf : si.siAf = afInet ∨ si.siAf = afInet6)
    (hOwn : clntUaddr = none → Sockaddr.family caller = some si.siAf)
    (h : env.clientSa nconf caller clntUaddr = some clntSa) :
    Sockaddr.family clntSa = some si.siAf ∧ clntSa.length = socklen si.siAf := by
  cases clntUaddr with
  | some uaddr => exact parsed_sockaddr hInfo hAf h
  | none =>
      have hFamily := hOwn rfl
      rw [clientSa, hFamily, Option.getD_some, Sockaddr.bytes] at h
      split at h
      · next hFits =>
          obtain rfl := Option.some.inj h
          have hLen : (Buffer.readAt caller 0 (socklen si.siAf)).length = socklen si.siAf :=
            Buffer.length_readAt_of_le hFits
          have hTwo : 2 ≤ socklen si.siAf := by
            unfold socklen
            split <;> decide
          refine ⟨?_, hLen⟩
          rw [← hFamily]
          apply Sockaddr.family_eq_of_readAt (by omega) (by omega)
          exact Buffer.readAt_readAt _ _ _ _ _ (by omega)
      · cases h

/-- Addresses that parse are merged by the loops over the interfaces. -/
theorem addrmerge_eq (hNconf : env.getnetconfigent nconf.ncNetid = some nconf)
    (hRemote : ¬ clntUaddr.any
      (fun uaddr => decide (uaddr.take 8 = CString.ascii "0.0.0.0.")) = true)
    (hIfp : getifaddrs env.adapters = some ifp) (hServ : env.parsed nconf servUaddr = some servSa)
    (hClnt : env.clientSa nconf caller clntUaddr = some clntSa) {af : Nat}
    (hFamily : Sockaddr.family clntSa = some af) (hInternet : af ≠ afLocal)
    (hCaller : (Sockaddr.family caller).isSome) :
    env.addrmerge caller servUaddr clntUaddr nconf.ncNetid =
      addrmergeInterfaces env.inet nconf caller clntSa servSa ifp := by
  obtain ⟨servNbp, hServNbp, hServBuf⟩ := Option.bind_eq_some_iff.mp hServ
  have hTaddr : env.addrmergeTaddr caller nconf servNbp clntSa =
      addrmergeInterfaces env.inet nconf caller clntSa servSa ifp := by
    rw [addrmergeTaddr, hIfp, hServBuf]
    rfl
  rw [← hTaddr]
  cases clntUaddr with
  | some uaddr =>
      obtain ⟨clntNbp, hClntNbp, hClntBuf⟩ := Option.bind_eq_some_iff.mp hClnt
      simp only [addrmerge, hNconf, if_neg hRemote, hServNbp, hClntNbp, hClntBuf, hFamily,
        Option.bind_eq_bind, Option.bind_some, if_neg hInternet]
  | none =>
      obtain ⟨family, hCallerFamily⟩ := Option.isSome_iff_exists.mp hCaller
      rw [clientSa, hCallerFamily, Option.getD_some] at hClnt
      simp only [addrmerge, hNconf, if_neg hRemote, hServNbp, hCallerFamily, hClnt,
        Option.bind_eq_bind, Option.bind_some]

/-- An address that does not parse makes NULL. -/
theorem addrmerge_null (hNconf : env.getnetconfigent nconf.ncNetid = some nconf)
    (hRemote : ¬ clntUaddr.any
      (fun uaddr => decide (uaddr.take 8 = CString.ascii "0.0.0.0.")) = true)
    (hInfo : rpcNconf2sockinfo nconf = some si) (hAf : si.siAf = afInet ∨ si.siAf = afInet6)
    (hCaller : (env.clientSa nconf caller none).isSome)
    (h : env.parsed nconf servUaddr = none ∨ env.clientSa nconf caller clntUaddr = none) :
    env.addrmerge caller servUaddr clntUaddr nconf.ncNetid = some none := by
  rw [parsed_eq_none hInfo hAf] at h
  cases hServ : uaddr2taddr env.inet nconf servUaddr with
  | none => simp only [addrmerge, hNconf, if_neg hRemote, hServ]
  | some servNbp =>
      have hClnt := h.resolve_left (by rw [hServ]; exact Option.some_ne_none _)
      cases clntUaddr with
      | none =>
          rw [hClnt] at hCaller
          cases hCaller
      | some uaddr =>
          have hNone := (parsed_eq_none hInfo hAf).mp hClnt
          simp only [addrmerge, hNconf, if_neg hRemote, hServ, hNone]

theorem clientSa_isSome (nconf : NetconfigEnt) (hSockaddr : WholeSockaddr caller) {af : Nat}
    (hCaller : Sockaddr.family caller = some af) (hAf : af = afInet ∨ af = afInet6) :
    (env.clientSa nconf caller none).isSome := by
  have hFits : 0 + socklen af ≤ caller.length := by
    rw [Nat.zero_add]
    rcases hAf with rfl | rfl
    · exact hSockaddr.inet hCaller
    · exact hSockaddr.inet6 hCaller
  rw [clientSa, hCaller, Option.getD_some, Sockaddr.bytes_of_le hFits]
  rfl

theorem ne_afLocal {af : Nat} (hAf : af = afInet ∨ af = afInet6) : af ≠ afLocal := by
  rcases hAf with rfl | rfl <;> decide

/-- A link-local address is of IPv6. -/
theorem siAf_of_linkLocal {af : Nat} (hAf : af = afInet ∨ af = afInet6)
    (hLength : clntSa.length = socklen af) (h : LinkLocal clntSa) : af = afInet6 := by
  rcases hAf with rfl | rfl
  · have hLen16 : clntSa.length = 16 := hLength
    have hShort : Sockaddr.sin6Addr clntSa = none := if_neg (by omega)
    rw [LinkLocal, hShort] at h
    cases h
  · rfl

theorem returnsRight_of_parsed (hServ : env.parsed nconf servUaddr = some servSa)
    (hClnt : env.clientSa nconf caller clntUaddr = some clntSa)
    {merged answer : Option (Option CString)} (hMerged : merged = answer) :
    (∃ ret, merged = some ret ∧
        (ret = none ↔ env.parsed nconf servUaddr = none ∨
          env.clientSa nconf caller clntUaddr = none ∨ ∀ ifa ∈ ifp, ¬ OfCaller caller ifa) ∧
        ∀ servSa clntSa ifa, env.parsed nconf servUaddr = some servSa →
          env.clientSa nconf caller clntUaddr = some clntSa →
          choice caller clntSa ifp = some ifa →
          ret = mergedUaddr env.inet ((Sockaddr.family caller).getD 0) servSa ifa) ↔
      ReturnsRight env.inet caller clntSa servSa ifp answer := by
  subst hMerged
  apply exists_congr
  intro ret
  apply and_congr_right
  intro _
  rw [hServ, hClnt]
  constructor
  · rintro ⟨hNone, hRight⟩
    refine ⟨by simpa using hNone, fun ifa hChoice => hRight servSa clntSa ifa rfl rfl hChoice⟩
  · rintro ⟨hNone, hRight⟩
    refine ⟨by simpa using hNone, ?_⟩
    intro servSa' clntSa' ifa hServ' hClnt' hChoice
    cases hServ'
    cases hClnt'
    exact hRight ifa hChoice

theorem mergesWhen_of_parsed
    (hRemote : ¬ clntUaddr.any
      (fun uaddr => decide (uaddr.take 8 = CString.ascii "0.0.0.0.")) = true)
    (hServ : env.parsed nconf servUaddr = some servSa)
    (hClnt : env.clientSa nconf caller clntUaddr = some clntSa) :
    env.MergesWhen ifp nconf caller servUaddr clntUaddr ↔
      Sockaddr.family caller = some afInet6 ∧ LinkLocal caller ∧ LinkLocal clntSa ∧
        SearchEnds env.inet caller ifp := by
  rw [MergesWhen, hServ, hClnt]
  simp [hRemote]

/-- `addrmerge` merges right exactly if the client is on this host, an address does not parse, or
the caller and the client are link-local and the search ends well. -/
theorem addrmerge_right_iff (env : RpcbindEnv) (ifp : List Ifaddrs) (nconf : NetconfigEnt)
    (si : SockInfo) (caller : List UInt8) (servUaddr : CString) (clntUaddr : Option CString)
    (hIfp : getifaddrs env.adapters = some ifp)
    (hUnicast : ∀ adapters ∈ env.adapters, ∀ adapter ∈ adapters, ∀ cur ∈ adapter.unicast,
      WholeSockaddr cur.2)
    (hNconf : env.getnetconfigent nconf.ncNetid = some nconf)
    (hInfo : rpcNconf2sockinfo nconf = some si) (hAf : si.siAf = afInet ∨ si.siAf = afInet6)
    (hCaller : WholeSockaddr caller)
    (hFamily : Sockaddr.family caller = some afInet ∨ Sockaddr.family caller = some afInet6)
    (hOwn : clntUaddr = none → Sockaddr.family caller = some si.siAf)
    (hNtop : ∀ host : List UInt8, host.length = 16 →
      (env.inet.ntop afInet6 host inet6Addrstrlen).isSome) :
    env.MergesRight ifp nconf caller servUaddr clntUaddr ↔
      env.MergesWhen ifp nconf caller servUaddr clntUaddr := by
  have hShape : FromAdapters ifp := by
    cases hAdapters : env.adapters with
    | none =>
        rw [hAdapters] at hIfp
        cases hIfp
    | some adapters =>
        rw [hAdapters] at hIfp
        exact fromAdapters (hUnicast adapters hAdapters) hIfp
  obtain ⟨af, hCallerAf, hCallerInternet⟩ :
      ∃ af, Sockaddr.family caller = some af ∧ (af = afInet ∨ af = afInet6) := by
    rcases hFamily with h4 | h6
    · exact ⟨_, h4, Or.inl rfl⟩
    · exact ⟨_, h6, Or.inr rfl⟩
  unfold MergesRight
  dsimp only
  by_cases hLocal : clntUaddr.any
      (fun uaddr => decide (uaddr.take 8 = CString.ascii "0.0.0.0.")) = true
  · rw [if_pos hLocal]
    refine iff_of_true ?_ (Or.inl hLocal)
    rw [addrmerge, hNconf]
    exact if_pos hLocal
  · rw [if_neg hLocal]
    by_cases hNull : env.parsed nconf servUaddr = none ∨
        env.clientSa nconf caller clntUaddr = none
    · have hReturned := addrmerge_null hNconf hLocal hInfo hAf
        (clientSa_isSome nconf hCaller hCallerAf hCallerInternet) hNull
      apply iff_of_true
      · refine ⟨none, hReturned, iff_of_true rfl (or_assoc.mp (Or.inl hNull)), ?_⟩
        intro servSa clntSa ifa hServ hClnt
        rcases hNull with hNone | hNone
        · cases hServ.symm.trans hNone
        · cases hClnt.symm.trans hNone
      · exact Or.inr (or_assoc.mp (Or.inl hNull))
    · obtain ⟨hServNone, hClntNone⟩ := not_or.mp hNull
      obtain ⟨servSa, hServ⟩ := Option.ne_none_iff_exists'.mp hServNone
      obtain ⟨clntSa, hClnt⟩ := Option.ne_none_iff_exists'.mp hClntNone
      obtain ⟨-, hServLen⟩ := parsed_sockaddr hInfo hAf hServ
      obtain ⟨hClntFamily, hClntLen⟩ := clientSa_sockaddr hInfo hAf hOwn hClnt
      have hMerged := addrmerge_eq hNconf hLocal hIfp hServ hClnt hClntFamily
        (ne_afLocal hAf) hCaller.family
      rw [returnsRight_of_parsed hServ hClnt hMerged, mergesWhen_of_parsed hLocal hServ hClnt]
      by_cases hLink : af = afInet6 ∧ LinkLocal caller ∧ LinkLocal clntSa
      · obtain ⟨rfl, hCallerLink, hWant⟩ := hLink
        have hAf6 := siAf_of_linkLocal hAf hClntLen hWant
        rw [hAf6] at hClntFamily
        have hServ4 : 4 ≤ servSa.length := by
          rw [hServLen, hAf6]
          decide
        rw [hShape.interfaces_iff hInfo hAf6 hCallerAf (hCaller.inet6 hCallerAf) hCallerLink
          hClntFamily hWant hServ4 hNtop]
        exact ⟨fun h => ⟨hCallerAf, hCallerLink, hWant, h⟩, fun h => h.2.2.2⟩
      · rw [hShape.interfaces_none_of_not_linkLocal hCaller hCallerAf hCallerInternet hLink]
        apply iff_of_false not_returnsRight_none
        rintro ⟨hInet6, hCallerLink, hWant, -⟩
        exact hLink ⟨Option.some.inj (hCallerAf.symm.trans hInet6), hCallerLink, hWant⟩

end RpcbindEnv

namespace Rpcbind

/-- `udp6`, as `/etc/netconfig` has it. -/
def udp6Nconf : NetconfigEnt where
  ncNetid := CString.ascii "udp6"
  ncProtofmly := CString.ascii "inet6"
  ncProto := CString.ascii "udp"
  ncSemantics := 1
  short := by decide

/-- An address of IPv6 as text, of which no component is short. -/
def wideText : List UInt8 → CString
  | a :: b :: rest =>
      let digits := hexDigits a ++ hexDigits b
      if rest = [] then digits else digits ++ 58 :: wideText rest
  | _ => []
where
  hexDigit (n : Nat) : UInt8 := UInt8.ofNat (if n < 10 then 48 + n else 87 + n)
  hexDigits (b : UInt8) : CString := [hexDigit (b.toNat / 16), hexDigit (b.toNat % 16)]

theorem length_wideText_le : ∀ addr : List UInt8, (wideText addr).length ≤ 3 * addr.length
  | [] => Nat.zero_le _
  | [_] => Nat.zero_le _
  | a :: b :: rest => by
      have hRest := length_wideText_le rest
      rw [wideText]
      split
      · simp [wideText.hexDigits]
        omega
      · simp [wideText.hexDigits]
        omega

/-- A system that knows addresses of IPv6 without short components, and the unspecified one. -/
def wideInet : Inet where
  ntop := fun af addr size =>
    if af = afInet6 ∧ (wideText addr).length < size then some (wideText addr) else none
  pton := fun af name =>
    if af = afInet6 ∧ name = CString.ascii "::" then some (List.replicate 16 0) else none
  slack := fun _ => 0
  ntop_fits := by
    intro af addr size name h
    split at h
    · next hFits =>
        obtain rfl := Option.some.inj h
        exact hFits.2
    · cases h
  pton_length := by
    intro af name addr h
    split at h
    · next hKnown =>
        obtain rfl := Option.some.inj h
        rw [if_pos hKnown.1, List.length_replicate]
    · cases h

theorem wideInet_ntop (host : List UInt8) (h : host.length = 16) :
    (wideInet.ntop afInet6 host inet6Addrstrlen).isSome := by
  have hLength := length_wideText_le host
  have hFits : (wideText host).length < inet6Addrstrlen := by
    unfold inet6Addrstrlen
    omega
  show (if afInet6 = afInet6 ∧ (wideText host).length < inet6Addrstrlen then
    some (wideText host) else none).isSome
  rw [if_pos ⟨rfl, hFits⟩]
  rfl

/-- A link-local address, with its last byte and its scope id. -/
def linkSa (host scope : UInt8) : List UInt8 :=
  (Sockaddr.inet6 0 [0xfe, 0x80, 0x11, 0x11, 0x22, 0x22, 0x33, 0x33, 0x44, 0x44, 0x55, 0x55, 0x66,
    0x66, 0x77, host]).take 24 ++ [scope, 0, 0, 0]

/-- A host with networks over IPv6. -/
def netEnv (inet : Inet) (loopback : Bool) (addrs : List (List UInt8)) : RpcbindEnv :=
  { bareEnv with
    inet := inet
    netconfig := [udp6Nconf]
    adapters := some (addrs.map fun addr =>
      { loopback := loopback, up := true, unicast := [(false, addr)] }) }

/-- The interfaces that it has. -/
def netIfp (loopback : Bool) (addrs : List (List UInt8)) : List Ifaddrs :=
  addrs.map fun addr =>
    { up := true, loopback := loopback, ifaAddr := some addr, ifaNetmask := none }

def loopbackSa : List UInt8 := Sockaddr.inet6 0 [0, 0, 0, 0, 0, 0, 0, 0, 0, 0, 0, 0, 0, 0, 0, 1]

end Rpcbind

namespace RpcbindEnv

open Rpcbind

/-- A caller on a link that the host is on. -/
theorem addrmerge_right_iff_link :
    (netEnv wideInet false [linkSa 0x11 7]).MergesRight (netIfp false [linkSa 0x11 7]) udp6Nconf
        (linkSa 0x22 7) (CString.ascii "::.0.111") none ↔
      (netEnv wideInet false [linkSa 0x11 7]).MergesWhen (netIfp false [linkSa 0x11 7]) udp6Nconf
        (linkSa 0x22 7) (CString.ascii "::.0.111") none := by
  refine addrmerge_right_iff _ _ udp6Nconf
    { siAf := afInet6, siProto := ipprotoUdp, siSocktype := .dgram } _ _ none rfl ?_ rfl
    (by decide) (Or.inr rfl) ⟨by decide, by decide, by decide⟩
    (Or.inr (by decide)) (fun _ => by decide) wideInet_ntop
  intro adapters hAdapters adapter hAdapter cur hCur
  cases hAdapters
  obtain rfl := List.mem_singleton.mp hAdapter
  obtain rfl := List.mem_singleton.mp hCur
  exact ⟨by decide, by decide, by decide⟩

/-- For a caller on the loopback network the missing netmask is dereferenced; and on a link that
the host is not on, a caller is told the host of the last interface and not that of the first. -/
theorem not_addrmerge_right :
    (getifaddrs (netEnv loopbackInet true [loopbackSa]).adapters =
        some (netIfp true [loopbackSa]) ∧
      ¬ (netEnv loopbackInet true [loopbackSa]).MergesRight (netIfp true [loopbackSa]) udp6Nconf
        loopbackSa (CString.ascii "::1.0.111") (some (CString.ascii "::1.3.233"))) ∧
    getifaddrs (netEnv wideInet false [linkSa 0x11 7, linkSa 0x22 8]).adapters =
        some (netIfp false [linkSa 0x11 7, linkSa 0x22 8]) ∧
      ¬ (netEnv wideInet false [linkSa 0x11 7, linkSa 0x22 8]).MergesRight
        (netIfp false [linkSa 0x11 7, linkSa 0x22 8]) udp6Nconf (linkSa 0x33 9)
        (CString.ascii "::.0.111") none := by
  refine ⟨⟨rfl, ?_⟩, rfl, ?_⟩
  · rintro ⟨ret, hReturned, -⟩
    have hNull : (netEnv loopbackInet true [loopbackSa]).addrmerge loopbackSa
        (CString.ascii "::1.0.111") (some (CString.ascii "::1.3.233")) udp6Nconf.ncNetid =
          none := by
      decide
    cases hNull.symm.trans hReturned
  · rintro ⟨ret, hReturned, -, hRight⟩
    have hLast : (netEnv wideInet false [linkSa 0x11 7, linkSa 0x22 8]).addrmerge (linkSa 0x33 9)
        (CString.ascii "::.0.111") none udp6Nconf.ncNetid =
          some (some (CString.ascii "fe80:1111:2222:3333:4444:5555:6666:7722.0.111")) := by
      decide
    have hFirst := hRight (Sockaddr.inet6 111 (List.replicate 16 0)) (linkSa 0x33 9)
      { up := true, loopback := false, ifaAddr := some (linkSa 0x11 7), ifaNetmask := none }
      (by decide) (by decide) (by decide)
    obtain rfl := Option.some.inj (hLast.symm.trans hReturned)
    revert hFirst
    decide

end RpcbindEnv

end OncRpc
