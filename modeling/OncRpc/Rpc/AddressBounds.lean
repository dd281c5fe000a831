import OncRpc.Rpc.RpcbProt
import OncRpc.Rpc.Uaddr

/-! `rpc_generic.c`: the translation of addresses that come from a client. Every access is made
to the bytes that the client's text or netbuf has, and `none` is an access outside of them. -/
namespace OncRpc

/-! ### The functions with their accesses -/

/-- Whether `__rpc_uaddr2taddr_af` searches the text for a port, as it reads the characters of
the copy that `strdup` makes. -/
def lookAhead (addrstr : CString) : Option Bool := do
  let copy := addrstr ++ [0]
  let c ← copy[0]?
  -- '/', ':', and '/' again
  if c = 47 then pure false
  else do
    let c ← copy[1]?
    if c ≠ 58 then pure false
    else do
      let c ← copy[2]?
      pure (decide (c ≠ 47))

/-- `__rpc_uaddr2taddr_af`. What the library makes of a text is read up to its null. -/
def rpcUaddr2taddrAfWithin (inet : Inet) (af : Nat) (uaddr : CString) :
    Option (Option Netbuf) := do
  if ← lookAhead uaddr then
    pure ((hostAndPort uaddr).bind fun r => hostTaddr inet af r.1 r.2)
  else pure (hostTaddr inet af uaddr 0)

/-- The bytes of a netbuf that are the client's. -/
def Netbuf.clientBytes (nbuf : Netbuf) : Option (List UInt8) :=
  nbuf.buf.map fun block => block.take nbuf.len.toNat

/-- `sun_path[sizeof (sun_path) - 1] = '\0'`. -/
def terminatePath (sun : List UInt8) : Option (List UInt8) :=
  let last := sunPath + (sizeofSunPath - 1)
  if last < sun.length then some (sun.set last 0) else none

/-- `strdup (sun_path)`. -/
def strdupPath (sun : List UInt8) : Option CString :=
  if 0 ∈ sun.drop sunPath then some (cString (sun.drop sunPath)) else none

/-- `__rpc_taddr2uaddr_af`. -/
def rpcTaddr2uaddrAfWithin (inet : Inet) (af : Nat) (nbuf : Netbuf) : Option (Option CString) :=
  if af = afInet then
    if nbuf.len.toNat < sizeofSockaddrIn then some none
    else nbuf.clientBytes.bind (inetUaddr inet af inetAddrstrlen Sockaddr.sinAddr)
  else if af = afInet6 then
    if nbuf.len.toNat < sizeofSockaddrIn6 then some none
    else nbuf.clientBytes.bind (inetUaddr inet af inet6Addrstrlen Sockaddr.sin6Addr)
  else if af = afLocal then do
    let sun ← nbuf.clientBytes
    let sun ← terminatePath sun
    let path ← strdupPath sun
    pure (some path)
  else some none

/-! ### Addresses of a family -/

/-- A number that fits a byte, in decimal. -/
def IsOctet (s : CString) : Prop :=
  s ≠ [] ∧ (∀ c ∈ s, CString.isdigit c = true) ∧ CString.digitsValue 0 s < 256

instance (s : CString) : Decidable (IsOctet s) := inferInstanceAs (Decidable (_ ∧ _))

/-- An absolute path that fits `sun_path`. -/
def IsPath (s : CString) : Prop := s[0]? = some 47 ∧ s.length < sizeofSunPath

instance (s : CString) : Decidable (IsPath s) := inferInstanceAs (Decidable (_ ∧ _))

/-- A host and the two numbers of a port. -/
def uaddrText (host porthi portlo : CString) : CString :=
  (host ++ 46 :: porthi) ++ 46 :: portlo

/-- The text is a universal address of the family. -/
def IsUaddr (inet : Inet) (af : Nat) (s : CString) : Prop :=
  if af = afLocal then IsPath s
  else ∃ host porthi portlo, s = uaddrText host porthi portlo ∧ IsOctet porthi ∧ IsOctet portlo ∧
    (inet.pton af host).isSome

/-- The bytes are a socket address of the family. -/
def IsSockaddr (af : Nat) (sa : List UInt8) : Prop :=
  Sockaddr.family sa = some af ∧
    if af = afLocal then
      sa[sunPath]? = some 47 ∧ 0 ∈ (sa.drop sunPath).take sizeofSunPath
    else socklen af ≤ sa.length

/-- The first bytes of the netbuf are. -/
def IsTaddr (af : Nat) (nbuf : Netbuf) : Prop := ∃ sa, nbuf.clientBytes = some sa ∧ IsSockaddr af sa

/-- `__rpc_uaddr2taddr_af` stays inside the text, and yields NULL for what is no address. -/
def UaddrSafe (inet : Inet) (af : Nat) (s : CString) : Prop :=
  ∃ taddr, rpcUaddr2taddrAfWithin inet af s = some taddr ∧ (¬ IsUaddr inet af s → taddr = none)

/-- `__rpc_taddr2uaddr_af` stays inside the bytes of the netbuf, and yields NULL for what is no
address. -/
def TaddrSafe (inet : Inet) (af : Nat) (nbuf : Netbuf) : Prop :=
  ∃ uaddr, rpcTaddr2uaddrAfWithin inet af nbuf = some uaddr ∧ (¬ IsTaddr af nbuf → uaddr = none)

/-! ### When they do -/

/-- The host and the numbers of the port, as the last two dots part them. -/
def splitPort (s : CString) : Option (CString × CString × CString) := do
  let (s, portlo) ← CString.strrchr 46 s
  let (host, porthi) ← CString.strrchr 46 s
  pure (host, porthi, portlo)

/-- The texts that `__rpc_uaddr2taddr_af` handles as it should: none that is empty; where a port
is searched for, none for a local transport with two dots, and none with a host of the family and
something else than the numbers of a port; where it is not, none but paths for a local transport,
and no bare host of the family. -/
def GoodUaddr (inet : Inet) (af : Nat) (s : CString) : Prop :=
  s ≠ [] ∧
    if HasPort inet s then
      ∀ host porthi portlo, splitPort s = some (host, porthi, portlo) →
        af ≠ afLocal ∧ ((inet.pton af host).isSome → IsOctet porthi ∧ IsOctet portlo)
    else if af = afLocal then IsPath s
    else inet.pton af s = none

/-- The netbufs that `__rpc_taddr2uaddr_af` handles as it should: for a local transport those with
a local address and a whole `sun_path`; otherwise those that are too short, those that bear the
family, and those with a host that is no host to `inet_ntop`. -/
def GoodTaddr (inet : Inet) (af : Nat) (nbuf : Netbuf) : Prop :=
  if af = afLocal then
    IsTaddr afLocal nbuf ∧ sunPath + sizeofSunPath ≤ nbuf.len.toNat
  else nbuf.len.toNat < socklen af ∨
    ∃ sa, nbuf.clientBytes = some sa ∧
      (Sockaddr.family sa = some af ∨
        (Sockaddr.host af sa).bind (fun host => inet.ntop af host (namebufSize af)) = none)

/-- What `xdr_netbuf` delivers: `len` bytes, or no block when there are none. -/
structure Netbuf.Delivered (nbuf : Netbuf) : Prop where
  len_le : nbuf.len.toNat ≤ nbuf.maxlen.toNat
  maxlen_le : nbuf.maxlen.toNat ≤ rpcMaxdatasize
  block : nbuf.len ≠ 0 → ∃ bs, nbuf.buf = some bs ∧ bs.length = nbuf.len.toNat
  null : nbuf.len = 0 → nbuf.buf = none

/-- No host of the family is a host of the family with two numbers behind it. -/
def Inet.HostsApart (inet : Inet) : Prop :=
  ∀ af host porthi portlo, (inet.pton af host).isSome → IsOctet porthi → IsOctet portlo →
    inet.pton af (uaddrText host porthi portlo) = none

/-! ### The families of the netids -/

theorem inet_of_not_local {af : Nat} (hAf : af = afInet ∨ af = afInet6 ∨ af = afLocal)
    (h : af ≠ afLocal) : af = afInet ∨ af = afInet6 := by
  rcases hAf with hInet | hInet6 | hLocal
  · exact Or.inl hInet
  · exact Or.inr hInet6
  · exact absurd hLocal h

/-- `na_cvt` has no family but these. -/
theorem siAf_of_sockinfo {nconf : NetconfigEnt} {si : SockInfo}
    (h : rpcNconf2sockinfo nconf = some si) :
    si.siAf = afInet ∨ si.siAf = afInet6 ∨ si.siAf = afLocal := by
  have hAll : ∀ na ∈ naCvt, na.2.1 = afInet ∨ na.2.1 = afInet6 ∨ na.2.1 = afLocal := by
    decide
  rw [rpcNconf2sockinfo] at h
  cases hFound : naCvt.find? fun na => decide (na.1 = nconf.ncNetid) with
  | none =>
      rw [hFound] at h
      cases h
  | some na =>
      rw [hFound] at h
      obtain ⟨socktype, -, rfl⟩ := Option.map_eq_some_iff.mp h
      exact hAll na (List.mem_of_find?_eq_some hFound)

/-! ### Texts -/

namespace CString

/-- What `strrchr` finds is in the text, and nothing behind it is. -/
theorem append_of_strrchr {c : UInt8} {s before behind : CString}
    (h : strrchr c s = some (before, behind)) : s = before ++ c :: behind := by
  induction s generalizing before with
  | nil => cases h
  | cons c' s ih =>
      rw [strrchr] at h
      cases hRest : strrchr c s with
      | some parts =>
          obtain ⟨before', behind'⟩ := parts
          rw [hRest] at h
          obtain ⟨rfl, rfl⟩ := Prod.mk.inj (Option.some.inj h)
          rw [ih hRest]
          rfl
      | none =>
          rw [hRest] at h
          by_cases hFirst : c' = c
          · obtain ⟨rfl, rfl⟩ := Prod.mk.inj (Option.some.inj ((if_pos hFirst).symm.trans h))
            rw [hFirst]
            rfl
          · cases (if_neg hFirst).symm.trans h

end CString

/-- A number of a port has no dot. -/
theorem IsOctet.not_dot {s : CString} (h : IsOctet s) : 46 ∉ s := by
  intro hDot
  have hDigit := h.2.1 46 hDot
  revert hDigit
  decide

theorem splitPort_uaddrText {host porthi portlo : CString} (hHi : IsOctet porthi)
    (hLo : IsOctet portlo) :
    splitPort (uaddrText host porthi portlo) = some (host, porthi, portlo) := by
  rw [splitPort, uaddrText, CString.strrchr_append _ hLo.not_dot]
  show (CString.strrchr 46 (host ++ 46 :: porthi)).bind _ = _
  rw [CString.strrchr_append _ hHi.not_dot]
  rfl

theorem uaddrText_of_splitPort {s host porthi portlo : CString}
    (h : splitPort s = some (host, porthi, portlo)) : s = uaddrText host porthi portlo := by
  obtain ⟨⟨first, lo⟩, hLast, h⟩ := Option.bind_eq_some_iff.mp h
  obtain ⟨⟨before, hi⟩, hNext, h⟩ := Option.bind_eq_some_iff.mp h
  cases h
  rw [CString.append_of_strrchr hLast, CString.append_of_strrchr hNext]
  rfl

/-- A universal address of the internet, by the parts of the text. -/
theorem isUaddr_iff_of_splitPort {inet : Inet} {af : Nat} {s host porthi portlo : CString}
    (hAf : af ≠ afLocal) (h : splitPort s = some (host, porthi, portlo)) :
    IsUaddr inet af s ↔ IsOctet porthi ∧ IsOctet portlo ∧ (inet.pton af host).isSome := by
  rw [IsUaddr, if_neg hAf]
  constructor
  · rintro ⟨host', hi, lo, rfl, hHi, hLo, hHost⟩
    rw [splitPort_uaddrText hHi hLo] at h
    cases h
    exact ⟨hHi, hLo, hHost⟩
  · rintro ⟨hHi, hLo, hHost⟩
    exact ⟨host, porthi, portlo, uaddrText_of_splitPort h, hHi, hLo, hHost⟩

theorem hostAndPort_eq (s : CString) :
    ∃ port : CString → CString → Nat,
      hostAndPort s = (splitPort s).map fun parts => (parts.1, port parts.2.1 parts.2.2) := by
  refine ⟨fun hi lo => ((BitVec.ofInt 32 (CString.atoi hi) <<< 8) |||
    BitVec.ofInt 32 (CString.atoi lo)).toNat % 2 ^ 16, ?_⟩
  unfold hostAndPort splitPort
  cases CString.strrchr 46 s with
  | none => rfl
  | some parts =>
      show (CString.strrchr 46 parts.1).bind _ = Option.map _ ((CString.strrchr 46 parts.1).bind _)
      cases CString.strrchr 46 parts.1 <;> rfl

/-! ### The look-ahead -/

section Uaddr

variable {inet : Inet} {af : Nat} {s : CString}

/-- The first character of a text is looked at, the second one when there is a first, and the
third one only behind a ':'. -/
theorem lookAhead_eq (inet : Inet) (h : s ≠ []) : lookAhead s = some (decide (HasPort inet s)) := by
  match s, h with
  | [c], _ =>
      by_cases hSlash : c = 47
      · simp [lookAhead, HasPort, CString.charAt, hSlash]
      · simp [lookAhead, HasPort, CString.charAt, hSlash]
  | [c, c'], _ =>
      by_cases hSlash : c = 47
      · simp [lookAhead, HasPort, CString.charAt, hSlash]
      · by_cases hColon : c' = 58
        · simp [lookAhead, HasPort, CString.charAt, hSlash, hColon]
        · simp [lookAhead, HasPort, CString.charAt, hSlash, hColon]
  | c :: c' :: c'' :: rest, _ =>
      by_cases hSlash : c = 47
      · simp [lookAhead, HasPort, CString.charAt, hSlash]
      · by_cases hColon : c' = 58
        · simp [lookAhead, HasPort, CString.charAt, hSlash, hColon]
        · simp [lookAhead, HasPort, CString.charAt, hSlash, hColon]

/-- Inside the text the function is what it is when what is behind does not matter. -/
theorem rpcUaddr2taddrAfWithin_eq (h : s ≠ []) :
    rpcUaddr2taddrAfWithin inet af s = some (rpcUaddr2taddrAf inet af s) := by
  rw [rpcUaddr2taddrAfWithin, lookAhead_eq inet h, rpcUaddr2taddrAf]
  by_cases hPort : HasPort inet s
  · rw [if_pos hPort, decide_eq_true hPort]
    show some ((hostAndPort s).bind _) = _
    cases hostAndPort s <;> rfl
  · rw [if_neg hPort, decide_eq_false hPort]
    rfl

theorem uaddrSafe_iff_of_ne_nil (h : s ≠ []) :
    UaddrSafe inet af s ↔ (¬ IsUaddr inet af s → rpcUaddr2taddrAf inet af s = none) := by
  rw [UaddrSafe, rpcUaddr2taddrAfWithin_eq h]
  constructor
  · rintro ⟨taddr, hSome, hNull⟩
    cases hSome
    exact hNull
  · exact fun hNull => ⟨_, rfl, hNull⟩

theorem hostTaddr_eq_none_iff (hAf : af = afInet ∨ af = afInet6) (host : CString) (port : Nat) :
    hostTaddr inet af host port = none ↔ inet.pton af host = none := by
  constructor
  · intro hNone
    rcases hAf with rfl | rfl
    · rw [hostTaddr, if_pos rfl] at hNone
      exact Option.map_eq_none_iff.mp hNone
    · rw [hostTaddr, if_neg (by decide), if_pos rfl] at hNone
      exact Option.map_eq_none_iff.mp hNone
  · exact hostTaddr_of_pton_none hAf

/-- Any text is a path for a local transport. -/
theorem hostTaddr_local (host : CString) (port : Nat) :
    hostTaddr inet afLocal host port ≠ none := by
  intro hNone
  rw [hostTaddr, if_neg (by decide), if_neg (by decide), if_pos rfl] at hNone
  cases hNone

/-- A text that is searched for a port is no path. -/
theorem HasPort.not_isPath (h : HasPort inet s) : ¬ IsPath s := by
  intro hPath
  have hFirst : 0 < s.length := (List.getElem?_eq_some_iff.mp hPath.1).1
  have hSlash := CString.charAt_of_lt inet.slack hFirst
  rw [hPath.1] at hSlash
  exact h.1 (Option.some.inj hSlash)

/-- A text that is searched for a port. -/
theorem uaddrSafe_iff_of_hasPort (hAf : af = afInet ∨ af = afInet6 ∨ af = afLocal)
    (hNil : s ≠ []) (hPort : HasPort inet s) :
    UaddrSafe inet af s ↔ ∀ host porthi portlo, splitPort s = some (host, porthi, portlo) →
      af ≠ afLocal ∧ ((inet.pton af host).isSome → IsOctet porthi ∧ IsOctet portlo) := by
  obtain ⟨port, hParts⟩ := hostAndPort_eq s
  rw [uaddrSafe_iff_of_ne_nil hNil, rpcUaddr2taddrAf, if_pos hPort, hParts]
  cases hSplit : splitPort s with
  | none =>
      constructor
      · intro _ host porthi portlo hSome
        cases hSome
      · exact fun _ _ => rfl
  | some parts =>
      obtain ⟨host, porthi, portlo⟩ := parts
      show (¬ IsUaddr inet af s → hostTaddr inet af host (port porthi portlo) = none) ↔ _
      constructor
      · intro hSafe host' hi lo hSome
        cases hSome
        have hLocal : af ≠ afLocal := by
          rintro rfl
          refine hostTaddr_local host (port porthi portlo) (hSafe ?_)
          rw [IsUaddr, if_pos rfl]
          exact hPort.not_isPath
        have hInet := inet_of_not_local hAf hLocal
        refine ⟨hLocal, fun hHost => ?_⟩
        by_contra hBad
        have hNone := (hostTaddr_eq_none_iff hInet host _).mp (hSafe fun hUaddr => by
          obtain ⟨hHi, hLo, -⟩ := (isUaddr_iff_of_splitPort hLocal hSplit).mp hUaddr
          exact hBad ⟨hHi, hLo⟩)
        rw [hNone] at hHost
        cases hHost
      · intro hGood hNot
        obtain ⟨hLocal, hNumbers⟩ := hGood host porthi portlo rfl
        have hInet := inet_of_not_local hAf hLocal
        rw [hostTaddr_eq_none_iff hInet]
        by_contra hSome
        have hHost := Option.isSome_iff_ne_none.mpr hSome
        obtain ⟨hHi, hLo⟩ := hNumbers hHost
        exact hNot ((isUaddr_iff_of_splitPort hLocal hSplit).mpr ⟨hHi, hLo, hHost⟩)

/-- A text that is a host or a path as a whole. -/
theorem uaddrSafe_iff_of_not_hasPort (hApart : inet.HostsApart)
    (hAf : af = afInet ∨ af = afInet6 ∨ af = afLocal) (hNil : s ≠ []) (hPort : ¬ HasPort inet s) :
    UaddrSafe inet af s ↔ if af = afLocal then IsPath s else inet.pton af s = none := by
  rw [uaddrSafe_iff_of_ne_nil hNil, rpcUaddr2taddrAf, if_neg hPort]
  by_cases hLocal : af = afLocal
  · subst hLocal
    rw [IsUaddr, if_pos rfl, if_pos rfl]
    constructor
    · intro hSafe
      by_contra hPath
      exact hostTaddr_local s 0 (hSafe hPath)
    · exact fun hPath hNot => absurd hPath hNot
  · have hInet := inet_of_not_local hAf hLocal
    rw [hostTaddr_eq_none_iff hInet, if_neg hLocal]
    constructor
    · intro hSafe
      by_cases hUaddr : IsUaddr inet af s
      · rw [IsUaddr, if_neg hLocal] at hUaddr
        obtain ⟨host, porthi, portlo, rfl, hHi, hLo, hHost⟩ := hUaddr
        exact hApart af host porthi portlo hHost hHi hLo
      · exact hSafe hUaddr
    · exact fun hNone _ => hNone

theorem uaddrSafe_iff (hApart : inet.HostsApart)
    (hAf : af = afInet ∨ af = afInet6 ∨ af = afLocal) (s : CString) :
    UaddrSafe inet af s ↔ GoodUaddr inet af s := by
  by_cases hNil : s = []
  · subst hNil
    constructor
    · rintro ⟨taddr, hSome, -⟩
      cases hSome
    · exact fun hGood => absurd rfl hGood.1
  · by_cases hPort : HasPort inet s
    · rw [uaddrSafe_iff_of_hasPort hAf hNil hPort, GoodUaddr, if_pos hPort]
      exact ⟨fun h => ⟨hNil, h⟩, fun h => h.2⟩
    · rw [uaddrSafe_iff_of_not_hasPort hApart hAf hNil hPort, GoodUaddr, if_neg hPort]
      exact ⟨fun h => ⟨hNil, h⟩, fun h => h.2⟩

end Uaddr

/-! ### The bytes of a netbuf -/

section Taddr

variable {inet : Inet} {af : Nat} {nbuf : Netbuf} {sa : List UInt8}

/-- The block that is delivered is as long as `len` says. -/
theorem Netbuf.Delivered.clientBytes (h : nbuf.Delivered) (hLen : nbuf.len ≠ 0) :
    ∃ sa, nbuf.buf = some sa ∧ nbuf.clientBytes = some sa ∧ sa.length = nbuf.len.toNat := by
  obtain ⟨sa, hBuf, hLength⟩ := h.block hLen
  refine ⟨sa, hBuf, ?_, hLength⟩
  rw [Netbuf.clientBytes, hBuf, Option.map_some, ← hLength, List.take_length]

theorem length_terminatePath {sun : List UInt8} (h : terminatePath sa = some sun) :
    sunPath + sizeofSunPath ≤ sa.length := by
  rw [terminatePath] at h
  split_ifs at h with hLast
  exact hLast

/-- The null that is written ends the path. -/
theorem strdupPath_terminatePath (h : sunPath + sizeofSunPath ≤ sa.length) :
    (terminatePath sa).bind strdupPath =
      some (cString ((Buffer.readAt sa sunPath sizeofSunPath).take (sizeofSunPath - 1))) := by
  have hLast : sunPath + (sizeofSunPath - 1) < sa.length := h
  have hSet : (sa.set (sunPath + (sizeofSunPath - 1)) 0).drop sunPath =
      (sa.drop sunPath).take (sizeofSunPath - 1) ++ 0 :: (sa.drop sunPath).drop sizeofSunPath := by
    have hPath : sizeofSunPath - 1 < (sa.drop sunPath).length := by
      rw [List.length_drop]
      omega
    rw [List.drop_set, if_neg (by decide), Nat.add_sub_cancel_left,
      List.set_eq_take_append_cons_drop, if_pos hPath]
    rfl
  have hCut : ∀ before behind : List UInt8, cString (before ++ 0 :: behind) = cString before := by
    intro before behind
    induction before with
    | nil => rfl
    | cons b before ih =>
        show (b :: (before ++ 0 :: behind)).takeWhile _ = (b :: before).takeWhile _
        rw [List.takeWhile_cons, List.takeWhile_cons]
        split_ifs
        · exact congrArg (b :: ·) ih
        · rfl
  rw [terminatePath]
  rw [if_pos hLast, Option.bind_some, strdupPath, hSet, if_pos (by simp), hCut,
    Buffer.readAt, List.take_take]
  rfl

/-- The two families of the internet. -/
theorem rpcTaddr2uaddrAfWithin_inet (hAf : af = afInet ∨ af = afInet6) :
    rpcTaddr2uaddrAfWithin inet af nbuf =
      if nbuf.len.toNat < socklen af then some none
      else nbuf.clientBytes.bind (inetUaddr inet af (namebufSize af) (Sockaddr.host af)) := by
  rcases hAf with rfl | rfl
  · rfl
  · rfl

/-- A whole address has a host and a port. -/
theorem inetUaddr_of_whole (inet : Inet) (hAf : af = afInet ∨ af = afInet6)
    (h : socklen af ≤ sa.length) (size : Nat) :
    ∃ host port, Sockaddr.host af sa = some host ∧
      inetUaddr inet af size (Sockaddr.host af) sa =
        some ((inet.ntop af host size).map fun name => uaddrOf name port) := by
  have hHost : ∃ host, Sockaddr.host af sa = some host := by
    rcases hAf with rfl | rfl
    · exact ⟨_, Sockaddr.bytes_of_le (Nat.le_trans (by decide) h)⟩
    · exact ⟨_, Sockaddr.bytes_of_le (Nat.le_trans (by decide) h)⟩
  have hPort : ∃ port, Sockaddr.port sa = some port := by
    have hFour : 2 + 2 ≤ sa.length := by
      rcases hAf with rfl | rfl
      · exact Nat.le_trans (by decide) h
      · exact Nat.le_trans (by decide) h
    exact ⟨_, congrArg (Option.map Sockaddr.big) (Sockaddr.bytes_of_le hFour)⟩
  obtain ⟨host, hHost⟩ := hHost
  obtain ⟨port, hPort⟩ := hPort
  refine ⟨host, port, hHost, ?_⟩
  rw [inetUaddr, hHost, hPort]
  rfl

theorem taddrSafe_iff_inet (h : nbuf.Delivered) (hAf : af = afInet ∨ af = afInet6) :
    TaddrSafe inet af nbuf ↔ GoodTaddr inet af nbuf := by
  have hLocal : af ≠ afLocal := by
    rcases hAf with rfl | rfl
    · decide
    · decide
  rw [TaddrSafe, rpcTaddr2uaddrAfWithin_inet hAf, GoodTaddr, if_neg hLocal]
  by_cases hShort : nbuf.len.toNat < socklen af
  · rw [if_pos hShort]
    exact ⟨fun _ => Or.inl hShort, fun _ => ⟨none, rfl, fun _ => rfl⟩⟩
  · have hLen : nbuf.len ≠ 0 := by
      intro hZero
      rw [hZero] at hShort
      rcases hAf with rfl | rfl
      · exact hShort (by decide)
      · exact hShort (by decide)
    obtain ⟨sa, -, hBytes, hLength⟩ := h.clientBytes hLen
    obtain ⟨host, port, hHost, hText⟩ :=
      inetUaddr_of_whole inet hAf (show socklen af ≤ sa.length by omega) (namebufSize af)
    have hTaddr : IsTaddr af nbuf ↔ Sockaddr.family sa = some af := by
      rw [IsTaddr, hBytes]
      constructor
      · rintro ⟨sa', hSa, hFamily, -⟩
        cases hSa
        exact hFamily
      · intro hFamily
        refine ⟨sa, rfl, hFamily, ?_⟩
        rw [if_neg hLocal]
        omega
    rw [if_neg hShort, hBytes, Option.bind_some, hText, hTaddr]
    constructor
    · rintro ⟨uaddr, hSome, hNull⟩
      cases hSome
      refine Or.inr ⟨sa, rfl, ?_⟩
      rw [hHost]
      by_cases hFamily : Sockaddr.family sa = some af
      · exact Or.inl hFamily
      · exact Or.inr (Option.map_eq_none_iff.mp (hNull hFamily))
    · rintro (hBad | ⟨sa', hSa, hGood⟩)
      · exact absurd hBad hShort
      · cases hSa
        refine ⟨_, rfl, fun hFamily => ?_⟩
        rw [hHost] at hGood
        exact Option.map_eq_none_iff.mpr (hGood.resolve_left hFamily)

theorem taddrSafe_iff_local (h : nbuf.Delivered) :
    TaddrSafe inet afLocal nbuf ↔ GoodTaddr inet afLocal nbuf := by
  have hBody : rpcTaddr2uaddrAfWithin inet afLocal nbuf =
      nbuf.clientBytes.bind fun sun => ((terminatePath sun).bind strdupPath).map some := by
    show (nbuf.clientBytes.bind fun sun => (terminatePath sun).bind fun sun =>
      (strdupPath sun).bind fun path => some (some path)) = _
    congr 1
    funext sun
    cases terminatePath sun with
    | none => rfl
    | some sun => cases hPath : strdupPath sun <;> simp [hPath]
  rw [TaddrSafe, hBody, GoodTaddr, if_pos rfl]
  constructor
  · rintro ⟨uaddr, hSome, hNull⟩
    obtain ⟨sa, hBytes, hPath⟩ := Option.bind_eq_some_iff.mp hSome
    obtain ⟨path, hCopy, rfl⟩ := Option.map_eq_some_iff.mp hPath
    obtain ⟨sun, hEnd, -⟩ := Option.bind_eq_some_iff.mp hCopy
    have hWhole := length_terminatePath hEnd
    have hTaddr : IsTaddr afLocal nbuf := by
      by_contra hNot
      cases hNull hNot
    refine ⟨hTaddr, ?_⟩
    obtain ⟨block, hBuf, rfl⟩ := Option.map_eq_some_iff.mp hBytes
    rw [List.length_take] at hWhole
    omega
  · rintro ⟨hTaddr, hWhole⟩
    have hLen : nbuf.len ≠ 0 := by
      intro hZero
      rw [hZero] at hWhole
      exact absurd hWhole (by decide)
    obtain ⟨sa, -, hBytes, hLength⟩ := h.clientBytes hLen
    rw [hBytes, Option.bind_some, strdupPath_terminatePath (by omega)]
    exact ⟨_, rfl, fun hNot => absurd hTaddr hNot⟩

theorem taddrSafe_iff (h : nbuf.Delivered) (hAf : af = afInet ∨ af = afInet6 ∨ af = afLocal) :
    TaddrSafe inet af nbuf ↔ GoodTaddr inet af nbuf := by
  by_cases hLocal : af = afLocal
  · subst hLocal
    exact taddrSafe_iff_local h
  · exact taddrSafe_iff_inet h (inet_of_not_local hAf hLocal)

end Taddr

/-! ### What a client can send -/

/-- The object keeps its size. -/
theorem length_of_xdrOpaque {cp bs t t' : List UInt8} {cnt : Nat} (hLen : cp.length = cnt)
    (hZero : cnt ≠ 0)
    (h : (xdrOpaque .decode cp cnt : Fallible ByteStream (List UInt8)).run t = (some bs, t')) :
    bs.length = cnt := by
  rw [xdrOpaque, if_neg hZero] at h
  obtain ⟨body, t₁, hBody, h⟩ := Fallible.exists_of_run_bind h
  have hBodyLen : body.length = cnt := by
    by_cases hRoom : cnt ≤ t.length
    · cases (if_pos hRoom).symm.trans hBody
      exact List.length_take_of_le hRoom
    · cases (if_neg hRoom).symm.trans hBody
  have hWritten : bs = Buffer.writeAt cp 0 body := by
    split_ifs at h with hPad
    · cases h
      rfl
    · obtain ⟨crud, t₂, -, h⟩ := Fallible.exists_of_run_bind h
      cases h
      rfl
  rw [hWritten, Buffer.length_writeAt (by omega), hLen]

theorem delivered_xdrNetbuf {t t' : List UInt8} {nbuf : Netbuf}
    (h : (xdrNetbuf .decode { maxlen := 0, len := 0, buf := none } :
      Fallible ByteStream Netbuf).run t = (some nbuf, t')) : nbuf.Delivered := by
  obtain ⟨maxlen, t₁, -, h⟩ := Fallible.exists_of_run_bind h
  rw [Fallible.run_bind_require] at h
  by_cases hMax : maxlen.toNat > rpcMaxdatasize
  · cases (if_neg (not_not.mpr hMax)).symm.trans h
  rw [if_pos hMax] at h
  obtain ⟨⟨buf, len⟩, t₂, hBytes, h⟩ := Fallible.exists_of_run_bind h
  cases h
  obtain ⟨size, t₃, -, hBytes⟩ := Fallible.exists_of_run_bind hBytes
  rw [Fallible.run_bind_require] at hBytes
  by_cases hLe : size.toNat ≤ maxlen.toNat
  · rw [if_pos fun hMore => absurd hLe (Nat.not_le.mpr hMore.1)] at hBytes
    by_cases hZero : size.toNat = 0
    · cases (congrFun (if_pos hZero) t₃).symm.trans hBytes
      exact ⟨hLe, Nat.not_lt.mp hMax, fun hLen => absurd (BitVec.eq_of_toNat_eq hZero) hLen,
        fun _ => rfl⟩
    · obtain ⟨bs, t₄, hOpaque, hBytes⟩ :=
        Fallible.exists_of_run_bind ((congrFun (if_neg hZero) t₃).symm.trans hBytes)
      cases hBytes
      refine ⟨hLe, Nat.not_lt.mp hMax, fun _ => ⟨bs, rfl, ?_⟩, fun hLen => ?_⟩
      · exact length_of_xdrOpaque (List.length_replicate ..) hZero hOpaque
      · exact absurd (congrArg BitVec.toNat hLen) hZero
  · cases (if_neg (not_not.mpr ⟨Nat.not_le.mp hLe, by decide⟩)).symm.trans hBytes

/-- Which texts and which netbufs of a client are translated without a look outside of them, and
to NULL where they are no addresses. -/
theorem translation_safe_iff {inet : Inet} (hApart : inet.HostsApart) {nconf : NetconfigEnt}
    {si : SockInfo} (hInfo : rpcNconf2sockinfo nconf = some si) (uaddr : CString)
    {t t' : List UInt8} {taddr : Netbuf}
    (hArg : (xdrNetbuf .decode { maxlen := 0, len := 0, buf := none } :
      Fallible ByteStream Netbuf).run t = (some taddr, t')) :
    (UaddrSafe inet si.siAf uaddr ↔ GoodUaddr inet si.siAf uaddr) ∧
      (TaddrSafe inet si.siAf taddr ↔ GoodTaddr inet si.siAf taddr) :=
  ⟨uaddrSafe_iff hApart (siAf_of_sockinfo hInfo) uaddr,
    taddrSafe_iff (delivered_xdrNetbuf hArg) (siAf_of_sockinfo hInfo)⟩

theorem loopbackInet_hostsApart : loopbackInet.HostsApart := by
  intro af host porthi portlo hHost _ _
  have hAll : ∀ e ∈ loopback, ∀ e' ∈ loopback, e.1 = e'.1 → e'.2.2.length ≤ e.2.2.length := by
    decide
  obtain ⟨addr, hAddr⟩ := Option.isSome_iff_exists.mp hHost
  obtain ⟨e, hFound, -⟩ := Option.map_eq_some_iff.mp hAddr
  have hFirst := List.find?_some hFound
  obtain ⟨hAf, hName⟩ := of_decide_eq_true hFirst
  apply Option.map_eq_none_iff.mpr
  rw [List.find?_eq_none]
  intro e' hMem hKnown
  obtain ⟨hAf', hName'⟩ := of_decide_eq_true hKnown
  have hLength : e'.2.2.length ≤ e.2.2.length :=
    hAll e (List.mem_of_find?_eq_some hFound) e' hMem (hAf.trans hAf'.symm)
  rw [hName, hName', uaddrText] at hLength
  simp only [List.length_append, List.length_cons] at hLength
  omega

/-- The entry of `/etc/netconfig` for the local transport. -/
def localNconf : NetconfigEnt where
  ncNetid := .ascii "local"
  ncProtofmly := .ascii "loopback"
  ncProto := .ascii "-"
  ncSemantics := 3
  short := by decide

/-- A netbuf of no bytes, as it is sent. -/
def noBytes : List UInt8 := [0, 0, 0, 16, 0, 0, 0, 0]

theorem translation_safe_iff_path :
    (UaddrSafe loopbackInet afLocal (.ascii "/tmp/s") ↔
      GoodUaddr loopbackInet afLocal (.ascii "/tmp/s")) ∧
    (TaddrSafe loopbackInet afLocal { maxlen := 16, len := 0, buf := none } ↔
      GoodTaddr loopbackInet afLocal { maxlen := 16, len := 0, buf := none }) := by
  have hInfo : rpcNconf2sockinfo localNconf =
      some { siAf := afLocal, siProto := 0, siSocktype := .stream } := by decide
  have hArg : (xdrNetbuf .decode { maxlen := 0, len := 0, buf := none } :
      Fallible ByteStream Netbuf).run noBytes =
        (some { maxlen := 16, len := 0, buf := none }, []) := by decide
  exact translation_safe_iff loopbackInet_hostsApart hInfo (.ascii "/tmp/s") hArg

/-- The empty text is read behind its null by every transport. A local transport reads behind the
end of a netbuf of no bytes, and takes a relative path for an address. -/
theorem not_translation_safe :
    ¬ UaddrSafe loopbackInet afInet [] ∧
    ¬ TaddrSafe loopbackInet afLocal { maxlen := 16, len := 0, buf := none } ∧
    ¬ UaddrSafe loopbackInet afLocal (.ascii "s") := by
  have hNull : rpcUaddr2taddrAfWithin loopbackInet afInet [] = none := by decide
  have hNoBytes : rpcTaddr2uaddrAfWithin loopbackInet afLocal
      { maxlen := 16, len := 0, buf := none } = none := by decide
  have hRelative : ∃ taddr, rpcUaddr2taddrAfWithin loopbackInet afLocal (.ascii "s") =
      some (some taddr) := ⟨_, rfl⟩
  refine ⟨?_, ?_, ?_⟩
  · rintro ⟨taddr, hSome, -⟩
    rw [hNull] at hSome
    cases hSome
  · rintro ⟨uaddr, hSome, -⟩
    rw [hNoBytes] at hSome
    cases hSome
  · rintro ⟨taddr, hSome, hNone⟩
    obtain ⟨taddr', hTaken⟩ := hRelative
    have hBad : ¬ IsUaddr loopbackInet afLocal (.ascii "s") := by
      rw [IsUaddr, if_pos rfl]
      decide
    rw [hTaken, hNone hBad] at hSome
    cases hSome

end OncRpc
