import OncRpc.Rpc.Uaddr
import OncRpc.Rpcbind.CheckBound

/-! `addrmerge` of `util.c`: which interface a client should be told to reach a service at, and
the lists of interfaces for which `addrmerge` finds it. -/
namespace OncRpc

/-- A socket address that is as long as its family asks for. -/
structure WholeSockaddr (sa : List UInt8) : Prop where
  family : (Sockaddr.family sa).isSome
  inet : Sockaddr.family sa = some afInet → sizeofSockaddrIn ≤ sa.length
  inet6 : Sockaddr.family sa = some afInet6 → sizeofSockaddrIn6 ≤ sa.length

/-- A link-local address of IPv6. -/
def LinkLocal (sa : List UInt8) : Prop := (Sockaddr.sin6Addr sa).any in6IsAddrLinklocal = true

instance (sa : List UInt8) : Decidable (LinkLocal sa) := inferInstanceAs (Decidable (_ = true))

/-! ### Which interface it should be -/

/-- An interface that is up, with an address of the caller's family. -/
def OfCaller (caller : List UInt8) (ifa : Ifaddrs) : Prop :=
  ifa.up = true ∧ ifa.ifaAddr.bind Sockaddr.family = Sockaddr.family caller

instance (caller : List UInt8) (ifa : Ifaddrs) : Decidable (OfCaller caller ifa) :=
  inferInstanceAs (Decidable (_ ∧ _))

/-- The network of a host under a mask. -/
def network (af : Nat) (sa mask : List UInt8) : Option (List UInt8) := do
  let mask ← Sockaddr.host af mask
  let host ← Sockaddr.host af sa
  pure (List.zipWith (fun a b => a &&& b) mask host)

/-- Whether an address is on the subnet of the client. Link-local addresses are all of one
network, and it is the caller's scope id that tells the link. -/
def SameSubnet (caller clntSa addr : List UInt8) (netmask : Option (List UInt8)) : Prop :=
  if Sockaddr.family caller = some afInet6 ∧ LinkLocal caller ∧ LinkLocal clntSa ∧
      LinkLocal addr then
    Sockaddr.sin6ScopeId addr = Sockaddr.sin6ScopeId caller
  else
    let af := (Sockaddr.family caller).getD 0
    ∃ mask ∈ netmask, (network af addr mask).isSome ∧
      network af addr mask = network af clntSa mask

instance (caller clntSa addr : List UInt8) (netmask : Option (List UInt8)) :
    Decidable (SameSubnet caller clntSa addr netmask) :=
  inferInstanceAs (Decidable (ite _ _ _))

/-- An interface on the client's subnet. -/
def OnSubnet (caller clntSa : List UInt8) (ifa : Ifaddrs) : Prop :=
  OfCaller caller ifa ∧ ∃ addr ∈ ifa.ifaAddr, SameSubnet caller clntSa addr ifa.ifaNetmask

instance (caller clntSa : List UInt8) (ifa : Ifaddrs) : Decidable (OnSubnet caller clntSa ifa) :=
  inferInstanceAs (Decidable (_ ∧ _))

/-- The first interface of the caller's family that is no loopback, or else the first one. -/
def bestFallback (caller : List UInt8) (ifp : List Ifaddrs) : Option Ifaddrs :=
  (ifp.find? fun ifa => decide (OfCaller caller ifa ∧ ifa.loopback = false)).or
    (ifp.find? fun ifa => decide (OfCaller caller ifa))

/-- The interface that the client should be told. -/
def choice (caller clntSa : List UInt8) (ifp : List Ifaddrs) : Option Ifaddrs :=
  (ifp.find? fun ifa => decide (OnSubnet caller clntSa ifa)).or (bestFallback caller ifp)

/-- The universal address of a service at an interface. -/
def mergedUaddr (inet : Inet) (af : Nat) (servSa : List UInt8) (ifa : Ifaddrs) :
    Option CString := do
  let host ← Sockaddr.host af (← ifa.ifaAddr)
  let name ← inet.ntop af host (namebufSize af)
  pure (uaddrOf name (← Sockaddr.port servSa))

namespace RpcbindEnv

variable (env : RpcbindEnv)

/-- The address that a universal address parses to. -/
def parsed (nconf : NetconfigEnt) (uaddr : CString) : Option (List UInt8) :=
  (uaddr2taddr env.inet nconf uaddr).bind Netbuf.buf

/-- The address at which the client has asked to be told: the caller's own if it has not. -/
def clientSa (nconf : NetconfigEnt) (caller : List UInt8) : Option CString → Option (List UInt8)
  | none => Sockaddr.bytes 0 (socklen ((Sockaddr.family caller).getD 0)) caller
  | some uaddr => env.parsed nconf uaddr

/-- What `addrmerge` is to do. The text for a client on this host is returned as it is. For
another one nothing absent is dereferenced, NULL is returned exactly if an address does not parse
or no interface is of the caller's family, and otherwise the address of the service at the
interface that is to be chosen. -/
def MergesRight (ifp : List Ifaddrs) (nconf : NetconfigEnt) (caller : List UInt8)
    (servUaddr : CString) (clntUaddr : Option CString) : Prop :=
  let merged := env.addrmerge caller servUaddr clntUaddr nconf.ncNetid
  if clntUaddr.any fun uaddr => decide (uaddr.take 8 = CString.ascii "0.0.0.0.") then
    merged = some clntUaddr
  else
    ∃ ret, merged = some ret ∧
      (ret = none ↔ env.parsed nconf servUaddr = none ∨ env.clientSa nconf caller clntUaddr = none ∨
        ∀ ifa ∈ ifp, ¬ OfCaller caller ifa) ∧
      ∀ servSa clntSa ifa, env.parsed nconf servUaddr = some servSa →
        env.clientSa nconf caller clntUaddr = some clntSa → choice caller clntSa ifp = some ifa →
        ret = mergedUaddr env.inet ((Sockaddr.family caller).getD 0) servSa ifa

end RpcbindEnv

/-! ### Where it is -/

/-- An entry that the search passes, or that is link-local with another scope id. -/
def Harmless (caller : List UInt8) (ifa : Ifaddrs) : Prop :=
  ∃ addr ∈ ifa.ifaAddr, Sockaddr.family addr ≠ some afInet6 ∨
    LinkLocal addr ∧ Sockaddr.sin6ScopeId addr ≠ Sockaddr.sin6ScopeId caller

instance (caller : List UInt8) (ifa : Ifaddrs) : Decidable (Harmless caller ifa) :=
  inferInstanceAs (Decidable (∃ _ ∈ _, _))

/-- The host of an interface, over IPv6, as text. -/
def hostText (inet : Inet) (ifa : Ifaddrs) : Option CString := do
  let host ← Sockaddr.sin6Addr (← ifa.ifaAddr)
  inet.ntop afInet6 host inet6Addrstrlen

/-- The search ends well: the first entry that is not harmless is link-local with the scope id of
the caller; or all are harmless, and the last one of the family has the host of the best. -/
def SearchEnds (inet : Inet) (caller : List UInt8) (ifp : List Ifaddrs) : Prop :=
  match ifp.find? fun ifa => !decide (Harmless caller ifa) with
  | some ifa => ∃ addr ∈ ifa.ifaAddr, LinkLocal addr ∧
      Sockaddr.sin6ScopeId addr = Sockaddr.sin6ScopeId caller
  | none => ∃ last best, (ifp.filter fun ifa => decide (OfCaller caller ifa)).getLast? = some last ∧
      bestFallback caller ifp = some best ∧ hostText inet last = hostText inet best

namespace RpcbindEnv

variable (env : RpcbindEnv)

/-- The condition: the client is on this host, or an address does not parse, or caller and client
are link-local over IPv6 and the search ends well. -/
def MergesWhen (ifp : List Ifaddrs) (nconf : NetconfigEnt) (caller : List UInt8)
    (servUaddr : CString) (clntUaddr : Option CString) : Prop :=
  (clntUaddr.any fun uaddr => decide (uaddr.take 8 = CString.ascii "0.0.0.0.")) = true ∨
    env.parsed nconf servUaddr = none ∨ env.clientSa nconf caller clntUaddr = none ∨
    Sockaddr.family caller = some afInet6 ∧ LinkLocal caller ∧
      (∃ clntSa ∈ env.clientSa nconf caller clntUaddr, LinkLocal clntSa) ∧
      SearchEnds env.inet caller ifp

end RpcbindEnv

/-! ### Socket addresses -/

namespace Sockaddr

variable {sa : List UInt8}

theorem family_eq_of_readAt {sa' : List UInt8} (hLen : 2 ≤ sa.length) (hLen' : 2 ≤ sa'.length)
    (h : Buffer.readAt sa 0 2 = Buffer.readAt sa' 0 2) : family sa = family sa' := by
  rw [family, family, bytes_of_le (by omega), bytes_of_le (by omega), h]

theorem exists_sin6Addr (h : sizeofSockaddrIn6 ≤ sa.length) :
    sin6Addr sa = some (Buffer.readAt sa 8 16) :=
  bytes_of_le (by unfold sizeofSockaddrIn6 at h; omega)

theorem exists_sin6ScopeId (h : sizeofSockaddrIn6 ≤ sa.length) :
    sin6ScopeId sa = some (Buffer.readAt sa 24 4) :=
  bytes_of_le (by unfold sizeofSockaddrIn6 at h; omega)

theorem linkLocal_iff (h : sizeofSockaddrIn6 ≤ sa.length) :
    LinkLocal sa ↔ in6IsAddrLinklocal (Buffer.readAt sa 8 16) = true := by
  rw [LinkLocal, exists_sin6Addr h, Option.any_some]

end Sockaddr

/-- What `getifaddrs` makes of adapters: there is never a netmask, and an entry that has an
address is up. -/
structure FromAdapters (ifp : List Ifaddrs) : Prop where
  netmask : ∀ ifa ∈ ifp, ifa.ifaNetmask = none
  up : ∀ ifa ∈ ifp, ∀ addr ∈ ifa.ifaAddr, ifa.up = true
  sockaddr : ∀ ifa ∈ ifp, ∀ addr ∈ ifa.ifaAddr, WholeSockaddr addr

theorem mem_ifaddrs {adapter : Adapter} {ifa : Ifaddrs} (h : ifa ∈ adapter.ifaddrs) :
    ifa.ifaNetmask = none ∧
      ∀ addr ∈ ifa.ifaAddr, ifa.up = true ∧ ∃ cur ∈ adapter.unicast, cur.2 = addr := by
  unfold Adapter.ifaddrs at h
  dsimp only at h
  split at h
  · rw [List.mem_singleton] at h
    subst h
    exact ⟨rfl, fun addr hAddr => by cases hAddr⟩
  · next added hAdded =>
      obtain ⟨cur, hMem, rfl⟩ := List.mem_map.mp h
      refine ⟨rfl, ?_⟩
      intro addr hAddr
      cases hAddr
      split at hMem
      · next hUp => exact ⟨hUp, cur, (List.mem_filter.mp hMem).1, rfl⟩
      · cases hMem

theorem fromAdapters {adapters : List Adapter} {ifp : List Ifaddrs}
    (hUnicast : ∀ adapter ∈ adapters, ∀ cur ∈ adapter.unicast, WholeSockaddr cur.2)
    (h : getifaddrs (some adapters) = some ifp) : FromAdapters ifp := by
  obtain rfl := Option.some.inj h
  constructor
  · intro ifa hMem
    obtain ⟨adapter, _, hIfa⟩ := List.mem_flatMap.mp hMem
    exact (mem_ifaddrs hIfa).1
  · intro ifa hMem addr hAddr
    obtain ⟨adapter, _, hIfa⟩ := List.mem_flatMap.mp hMem
    exact ((mem_ifaddrs hIfa).2 addr hAddr).1
  · intro ifa hMem addr hAddr
    obtain ⟨adapter, hAdapter, hIfa⟩ := List.mem_flatMap.mp hMem
    obtain ⟨_, cur, hCur, rfl⟩ := (mem_ifaddrs hIfa).2 addr hAddr
    exact hUnicast adapter hAdapter cur hCur

/-! ### One interface -/

section Look

variable {caller clntSa addr : List UInt8} {ifa : Ifaddrs} {af : Nat}

theorem look_none (h : ifa.ifaAddr = none) : addrmergeLook caller clntSa ifa = none := by
  rw [addrmergeLook, h]
  rfl

/-- An interface of another family is passed. -/
theorem look_passed (hCaller : Sockaddr.family caller = some af) (hAddr : ifa.ifaAddr = some addr)
    (hSockaddr : WholeSockaddr addr) (hOther : Sockaddr.family addr ≠ some af) :
    addrmergeLook caller clntSa ifa = some .passed := by
  obtain ⟨other, hFamily⟩ := Option.isSome_iff_exists.mp hSockaddr.family
  have hApart : other ≠ af := fun hSame => hOther (hSame ▸ hFamily)
  simp only [addrmergeLook, hAddr, hFamily, hCaller, Option.bind_eq_bind, Option.bind_some,
    if_pos (Or.inl hApart : other ≠ af ∨ ifa.up = false)]
  rfl

/-- Over IPv4 the netmask is read at once. -/
theorem look_inet (hCaller : Sockaddr.family caller = some afInet) (hAddr : ifa.ifaAddr = some addr)
    (hFamily : Sockaddr.family addr = some afInet) (hUp : ifa.up = true)
    (hMask : ifa.ifaNetmask = none) : addrmergeLook caller clntSa ifa = none := by
  have hSame : ¬ (afInet ≠ afInet ∨ ifa.up = false) := by simp [hUp]
  simp only [addrmergeLook, hAddr, hFamily, hCaller, Option.bind_eq_bind, Option.bind_some,
    if_neg hSame, hMask]
  rfl

/-- Over IPv6 the netmask is read unless all three addresses are link-local. -/
theorem look_inet6 (hCaller : Sockaddr.family caller = some afInet6)
    (hLength : sizeofSockaddrIn6 ≤ caller.length) (hAddr : ifa.ifaAddr = some addr)
    (hFamily : Sockaddr.family addr = some afInet6)
    (hSize : sizeofSockaddrIn6 ≤ addr.length) (hUp : ifa.up = true)
    (hMask : ifa.ifaNetmask = none) :
    addrmergeLook caller clntSa ifa =
      if LinkLocal addr ∧ LinkLocal caller ∧ LinkLocal clntSa then
        some (if Sockaddr.sin6ScopeId addr ≠ Sockaddr.sin6ScopeId caller then .examined else .found)
      else none := by
  have hSame : ¬ (afInet6 ≠ afInet6 ∨ ifa.up = false) := by simp [hUp]
  have hNot4 : ¬ afInet6 = afInet := by decide
  simp only [addrmergeLook, hAddr, hFamily, hCaller, Option.bind_eq_bind, Option.bind_some,
    if_neg hSame, if_neg hNot4, lookInet6, allLinkLocal, Sockaddr.exists_sin6Addr hSize,
    Sockaddr.exists_sin6Addr hLength, Sockaddr.exists_sin6ScopeId hSize,
    Sockaddr.exists_sin6ScopeId hLength, Sockaddr.linkLocal_iff hSize,
    Sockaddr.linkLocal_iff hLength, hMask]
  by_cases hIf : in6IsAddrLinklocal (Buffer.readAt addr 8 16) = true
  · by_cases hReal : in6IsAddrLinklocal (Buffer.readAt caller 8 16) = true
    · cases hClnt : Sockaddr.sin6Addr clntSa with
      | none => simp [hIf, hReal, hClnt, LinkLocal]
      | some clntsin6 =>
          by_cases hWant : in6IsAddrLinklocal clntsin6 = true
          · simp [hIf, hReal, hClnt, LinkLocal, hWant]
          · simp [hIf, hReal, hClnt, LinkLocal, hWant]
    · simp [hIf, hReal]
  · simp [hIf]

end Look

/-! ### The loops -/

section Loops

variable {caller clntSa servSa addr : List UInt8} {ifp rest : List Ifaddrs} {ifa : Ifaddrs}

/-- What `ifsin6` points to behind some interfaces. -/
def lastExamined (caller clntSa : List UInt8) (examined : Option (List UInt8))
    (ifp : List Ifaddrs) : Option (List UInt8) :=
  ifp.foldl
    (fun examined ifa =>
      if addrmergeLook caller clntSa ifa = some .examined then ifa.ifaAddr else examined)
    examined

/-- The search goes on behind interfaces that do not end it. -/
theorem search_append
    (h : ∀ ifa ∈ ifp, addrmergeLook caller clntSa ifa = some .passed ∨
      addrmergeLook caller clntSa ifa = some .examined) (examined : Option (List UInt8)) :
    addrmergeSearch caller clntSa examined (ifp ++ rest) =
      addrmergeSearch caller clntSa (lastExamined caller clntSa examined ifp) rest := by
  induction ifp generalizing examined with
  | nil => rfl
  | cons ifa ifp ih =>
      have hRest := ih fun e hMem => h e (List.mem_cons_of_mem ifa hMem)
      rw [List.cons_append, addrmergeSearch, lastExamined, List.foldl_cons]
      rcases h ifa List.mem_cons_self with hLook | hLook
      · simp only [hLook]
        exact hRest examined
      · simp only [hLook]
        exact hRest ifa.ifaAddr

theorem foldl_last {α β : Type} (p : α → Bool) (f : α → β) (l : List α) (b : β) :
    l.foldl (fun b a => if p a = true then f a else b) b =
      ((l.filter p).getLast?.map f).getD b := by
  induction l using List.reverseRecOn with
  | nil => rfl
  | append_singleton l a ih =>
      rw [List.foldl_append, List.foldl_cons, List.foldl_nil, ih, List.filter_append]
      by_cases hp : p a = true
      · simp [hp]
      · simp [hp]

/-- The second loop comes to the best fallback. -/
theorem bestif_eq (hFamily : (Sockaddr.family caller).isSome)
    (h : ∀ ifa ∈ ifp, (ifa.ifaAddr.bind Sockaddr.family).isSome) (bestif : Option Ifaddrs) :
    addrmergeBestif caller bestif ifp =
      some ((ifp.find? fun ifa => decide (OfCaller caller ifa ∧ ifa.loopback = false)).or
        (bestif.or (ifp.find? fun ifa => decide (OfCaller caller ifa)))) := by
  obtain ⟨af, hAf⟩ := Option.isSome_iff_exists.mp hFamily
  induction ifp generalizing bestif with
  | nil => simp [addrmergeBestif]
  | cons ifa ifp ih =>
      have hRest := ih fun e hMem => h e (List.mem_cons_of_mem ifa hMem)
      obtain ⟨ifFamily, hIf⟩ := Option.isSome_iff_exists.mp (h ifa List.mem_cons_self)
      have hOf : OfCaller caller ifa ↔ ¬ (ifFamily ≠ af ∨ ifa.up = false) := by
        rw [OfCaller, hIf, hAf, Option.some.injEq]
        cases ifa.up <;> simp
      simp only [addrmergeBestif, hIf, hAf, Option.bind_eq_bind, Option.bind_some]
      by_cases hOther : ifFamily ≠ af ∨ ifa.up = false
      · have hNot : ¬ OfCaller caller ifa := fun hYes => hOf.mp hYes hOther
        rw [if_pos hOther, hRest, List.find?_cons_of_neg (by simp [hNot]),
          List.find?_cons_of_neg (by simp [hNot])]
      · have hYes := hOf.mpr hOther
        rw [if_neg hOther]
        cases hLoop : ifa.loopback with
        | false => simp [hYes, hLoop]
        | true =>
            rw [if_neg (by simp), hRest, List.find?_cons_of_neg (by simp [hLoop]),
              List.find?_cons_of_pos (by simp [hYes])]
            cases bestif <;> simp

/-- Without an interface of the family `found` is reached with null pointers. -/
theorem found_null {inet : Inet} {nconf : NetconfigEnt} {af : Nat}
    (hCaller : Sockaddr.family caller = some af) (hAf : af = afInet ∨ af = afInet6) :
    addrmergeFound inet nconf caller clntSa servSa none none = none := by
  simp only [addrmergeFound, hCaller, Option.bind_eq_bind, Option.bind_some, if_pos hAf,
    Option.bind_none, ite_self]
  cases Sockaddr.family clntSa <;> rfl

/-- The search stops where nothing can be read. -/
theorem interfaces_none {inet : Inet} {nconf : NetconfigEnt}
    (h : ∀ ifa ∈ ifp, addrmergeLook caller clntSa ifa = some .passed ∨
      addrmergeLook caller clntSa ifa = some .examined)
    (hLook : addrmergeLook caller clntSa ifa = none) :
    addrmergeInterfaces inet nconf caller clntSa servSa (ifp ++ ifa :: rest) = none := by
  rw [addrmergeInterfaces, search_append h, addrmergeSearch]
  simp only [hLook]
  rfl

/-- An interface that is found is merged with. -/
theorem interfaces_found {inet : Inet} {nconf : NetconfigEnt}
    (h : ∀ ifa ∈ ifp, addrmergeLook caller clntSa ifa = some .passed ∨
      addrmergeLook caller clntSa ifa = some .examined)
    (hLook : addrmergeLook caller clntSa ifa = some .found) :
    addrmergeInterfaces inet nconf caller clntSa servSa (ifp ++ ifa :: rest) =
      addrmergeFound inet nconf caller clntSa servSa (some ifa) ifa.ifaAddr := by
  rw [addrmergeInterfaces, search_append h, addrmergeSearch]
  simp only [hLook]
  rfl

/-- Behind the last interface the best fallback is merged with, over IPv4, and over IPv6 the last
one that has been examined. -/
theorem interfaces_exhausted {inet : Inet} {nconf : NetconfigEnt}
    (hFamily : (Sockaddr.family caller).isSome)
    (hAddrs : ∀ ifa ∈ ifp, (ifa.ifaAddr.bind Sockaddr.family).isSome)
    (h : ∀ ifa ∈ ifp, addrmergeLook caller clntSa ifa = some .passed ∨
      addrmergeLook caller clntSa ifa = some .examined) :
    addrmergeInterfaces inet nconf caller clntSa servSa ifp =
      addrmergeFound inet nconf caller clntSa servSa (bestFallback caller ifp)
        (lastExamined caller clntSa none ifp) := by
  have hSearch : addrmergeSearch caller clntSa none (ifp ++ []) = _ := search_append h none
  rw [List.append_nil, addrmergeSearch] at hSearch
  rw [addrmergeInterfaces, hSearch]
  simp only [Option.bind_eq_bind, Option.bind_some, bestif_eq hFamily hAddrs, Option.none_or]
  rfl

/-- A search that cannot look at an interface of the family leads to null pointers, where it does
not start with one. -/
theorem interfaces_blind {inet : Inet} {nconf : NetconfigEnt} {af : Nat}
    (hCaller : Sockaddr.family caller = some af) (hAf : af = afInet ∨ af = afInet6)
    (h : ∀ ifa ∈ ifp, addrmergeLook caller clntSa ifa = none ∨
      addrmergeLook caller clntSa ifa = some .passed ∧ ¬ OfCaller caller ifa ∧
        (ifa.ifaAddr.bind Sockaddr.family).isSome) :
    addrmergeInterfaces inet nconf caller clntSa servSa ifp = none := by
  cases hFirst : ifp.find? fun ifa => decide (addrmergeLook caller clntSa ifa = none) with
  | some ifa =>
      obtain ⟨hLook, pre, post, rfl, hPre⟩ := List.find?_eq_some_iff_append.mp hFirst
      apply interfaces_none _ (of_decide_eq_true hLook)
      intro e hMem
      rcases h e (List.mem_append_left _ hMem) with hNone | ⟨hPassed, _⟩
      · have hSome := hPre e hMem
        rw [decide_eq_true hNone] at hSome
        cases hSome
      · exact Or.inl hPassed
  | none =>
      have hPassed : ∀ ifa ∈ ifp, addrmergeLook caller clntSa ifa = some .passed ∧
          ¬ OfCaller caller ifa ∧ (ifa.ifaAddr.bind Sockaddr.family).isSome := by
        intro ifa hMem
        rcases h ifa hMem with hNone | hYes
        · exact absurd (decide_eq_true hNone) (List.find?_eq_none.mp hFirst ifa hMem)
        · exact hYes
      have hLast : lastExamined caller clntSa none ifp = none := by
        have hFold := foldl_last
          (fun ifa => decide (addrmergeLook caller clntSa ifa = some .examined))
          Ifaddrs.ifaAddr ifp none
        simp only [decide_eq_true_eq] at hFold
        rw [lastExamined, hFold, List.filter_eq_nil_iff.mpr]
        · rfl
        · intro ifa hMem
          rw [(hPassed ifa hMem).1]
          decide
      have hBest : bestFallback caller ifp = none := by
        rw [bestFallback, List.find?_eq_none.mpr, List.find?_eq_none.mpr]
        · rfl
        · intro ifa hMem
          simp [(hPassed ifa hMem).2.1]
        · intro ifa hMem
          simp [(hPassed ifa hMem).2.1]
      rw [interfaces_exhausted (by rw [hCaller]; rfl) (fun ifa hMem => (hPassed ifa hMem).2.2)
        fun ifa hMem => Or.inl (hPassed ifa hMem).1, hLast, hBest, found_null hCaller hAf]

end Loops

/-! ### Merging over IPv6 -/

section Inet6

variable {inet : Inet} {nconf : NetconfigEnt} {si : SockInfo}
  {caller clntSa servSa addr : List UInt8} {ifa : Ifaddrs} {port : Nat}

theorem mergedUaddr_eq (hAddr : ifa.ifaAddr = some addr) (hSize : sizeofSockaddrIn6 ≤ addr.length)
    (hPort : Sockaddr.port servSa = some port) :
    mergedUaddr inet afInet6 servSa ifa =
      (hostText inet ifa).map fun name => uaddrOf name port := by
  have hHost : Sockaddr.host afInet6 addr = some (Buffer.readAt addr 8 16) :=
    Sockaddr.exists_sin6Addr hSize
  have hBuffer : namebufSize afInet6 = inet6Addrstrlen := rfl
  simp only [mergedUaddr, hostText, hAddr, hHost, Sockaddr.exists_sin6Addr hSize, hPort, hBuffer,
    Option.bind_eq_bind, Option.bind_some]
  cases inet.ntop afInet6 (Buffer.readAt addr 8 16) inet6Addrstrlen <;> rfl

/-- The copy of an address with a port written to it. -/
theorem holds_written (hFamily : Sockaddr.family addr = some afInet6)
    (hSize : sizeofSockaddrIn6 ≤ addr.length) (hServ : 4 ≤ servSa.length)
    (hPort : Sockaddr.port servSa = some port) :
    Netbuf.Holds afInet6 (Buffer.readAt addr 8 16) port
      { maxlen := 128, len := BitVec.ofNat 32 28
        buf := some (Buffer.writeAt (Buffer.readAt addr 0 28) 2 (Buffer.readAt servSa 2 2)) } := by
  have hLen28 : 28 ≤ addr.length := hSize
  have hCopyLen : (Buffer.readAt addr 0 28).length = 28 := Buffer.length_readAt_of_le (by omega)
  have hPortLen : (Buffer.readAt servSa 2 2).length = 2 := Buffer.length_readAt_of_le hServ
  have hLength : (Buffer.writeAt (Buffer.readAt addr 0 28) 2 (Buffer.readAt servSa 2 2)).length =
      28 := by
    rw [Buffer.length_writeAt (by omega), hCopyLen]
  refine ⟨_, rfl, Nat.le_refl 28, ?_, ?_, ?_, ?_⟩
  · rw [hLength]
    exact Nat.le_refl 28
  · rw [← hFamily]
    apply Sockaddr.family_eq_of_readAt (by omega) (by omega)
    rw [Buffer.readAt_writeAt_before (by omega) (by omega),
      Buffer.readAt_readAt _ _ _ _ _ (by omega)]
  · show Sockaddr.sin6Addr _ = _
    rw [Sockaddr.exists_sin6Addr (by rw [hLength]; exact Nat.le_refl 28),
      Buffer.readAt_writeAt_after (by omega) (by omega), Buffer.readAt_readAt _ _ _ _ _ (by omega)]
  · have hRead : Buffer.readAt (Buffer.writeAt (Buffer.readAt addr 0 28) 2
        (Buffer.readAt servSa 2 2)) 2 (Buffer.readAt servSa 2 2).length =
          Buffer.readAt servSa 2 2 := Buffer.readAt_writeAt (by omega)
    rw [hPortLen] at hRead
    rw [← hPort, Sockaddr.port, Sockaddr.port, Sockaddr.bytes_of_le (by omega),
      Sockaddr.bytes_of_le hServ, hRead]

/-- What is merged is the host of the address that was examined last, and the service's port. -/
theorem found_inet6 (hInfo : rpcNconf2sockinfo nconf = some si) (hAf : si.siAf = afInet6)
    (hCaller : Sockaddr.family caller = some afInet6)
    (hClnt : Sockaddr.family clntSa = some afInet6) (hAddr : ifa.ifaAddr = some addr)
    (hFamily : Sockaddr.family addr = some afInet6) (hSize : sizeofSockaddrIn6 ≤ addr.length)
    (hServ : 4 ≤ servSa.length) (ifap : Ifaddrs) :
    addrmergeFound inet nconf caller clntSa servSa (some ifap) (some addr) =
      some (mergedUaddr inet afInet6 servSa ifa) := by
  obtain ⟨port, hPort⟩ : ∃ port, Sockaddr.port servSa = some port :=
    ⟨_, by rw [Sockaddr.port, Sockaddr.bytes_of_le hServ]; rfl⟩
  have hNot4 : ¬ afInet6 = afInet := by decide
  have hSocklen : socklen afInet6 = 28 := rfl
  simp only [addrmergeFound, hCaller, hClnt, Option.bind_eq_bind, Option.bind_some, hSocklen,
    if_neg hNot4, Sockaddr.bytes_of_le (show 0 + 28 ≤ addr.length from hSize),
    Sockaddr.bytes_of_le (show 2 + 2 ≤ servSa.length from hServ), or_true, if_true,
    Option.isSome_some]
  have hHolds := holds_written hFamily hSize hServ hPort
  have hUaddr : rpcTaddr2uaddrAf inet afInet6 _ = _ :=
    rpcTaddr2uaddrAf_of_holds (Or.inr rfl) hHolds
  show taddr2uaddr inet nconf _ = _
  rw [taddr2uaddr, hInfo]
  show rpcTaddr2uaddrAf inet si.siAf _ = _
  rw [hAf, hUaddr, mergedUaddr_eq hAddr hSize hPort, hostText, hAddr]
  simp only [Option.bind_eq_bind, Option.bind_some, Sockaddr.exists_sin6Addr hSize]
  rfl

end Inet6

end OncRpc
