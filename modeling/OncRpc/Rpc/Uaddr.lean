import OncRpc.Rpc.Address

/-! `rpc_generic.c`: an address of the internet as text, and back. -/
namespace OncRpc

/-! ### Text -/

namespace CString

/-- The last `c` parts the text when there is none behind it. -/
theorem strrchr_append {c : UInt8} (before : CString) {behind : CString} (h : c ∉ behind) :
    strrchr c (before ++ c :: behind) = some (before, behind) := by
  have hNone : ∀ s : CString, c ∉ s → strrchr c s = none := by
    intro s
    induction s with
    | nil => exact fun _ => rfl
    | cons c' s ih =>
        intro hNot
        rw [List.mem_cons, not_or] at hNot
        rw [strrchr, ih hNot.2]
        exact if_neg (Ne.symm hNot.1)
  induction before with
  | nil =>
      show strrchr c (c :: behind) = _
      rw [strrchr, hNone behind h]
      exact if_pos rfl
  | cons c' before ih =>
      show strrchr c (c' :: (before ++ c :: behind)) = _
      rw [strrchr, ih]

/-- `atoi` reads back what `%u` prints of a byte. -/
theorem atoi_decimal {n : Nat} (h : n < 256) : atoi (decimal n) = n := by
  have hAll : ∀ n : Fin 256, atoi (decimal (n.val : Int)) = n.val := by decide +kernel
  exact hAll ⟨n, h⟩

/-- `%u` prints no '.', '/' or ':', and not nothing. -/
theorem decimal_plain {n : Nat} (h : n < 256) :
    46 ∉ decimal n ∧ 47 ∉ decimal n ∧ 58 ∉ decimal n ∧ 0 < (decimal n).length := by
  have hAll : ∀ n : Fin 256, 46 ∉ decimal (n.val : Int) ∧ 47 ∉ decimal (n.val : Int) ∧
      58 ∉ decimal (n.val : Int) ∧ 0 < (decimal (n.val : Int)).length := by decide +kernel
  exact hAll ⟨n, h⟩

theorem charAt_of_lt (slack : Nat → UInt8) {s : CString} {i : Nat} (h : i < s.length) :
    some (charAt slack s i) = s[i]? := by
  rw [charAt, if_neg (Nat.ne_of_lt h), List.getElem?_eq_getElem h]
  rfl

end CString

theorem uaddrOf_eq (name : CString) (port : Nat) : uaddrOf name port =
    (name ++ 46 :: CString.decimal (port / 256 : Nat)) ++
      46 :: CString.decimal (port % 256 : Nat) := by
  have hDot : CString.ascii "." = [46] := by decide
  simp [uaddrOf, hDot]

/-- The two components of a port make up the port. -/
theorem port_of_bytes {port : Nat} (h : port < 65536) :
    (((BitVec.ofInt 32 ((port / 256 : Nat) : Int)) <<< 8) |||
      BitVec.ofInt 32 ((port % 256 : Nat) : Int)).toNat % 2 ^ 16 = port := by
  have hHigh : (BitVec.ofInt 32 ((port / 256 : Nat) : Int) <<< 8).toNat = port / 256 * 2 ^ 8 := by
    rw [BitVec.ofInt_natCast, BitVec.toNat_shiftLeft, BitVec.toNat_ofNat, Nat.shiftLeft_eq]
    omega
  have hLow : (BitVec.ofInt 32 ((port % 256 : Nat) : Int)).toNat = port % 256 := by
    rw [BitVec.ofInt_natCast, BitVec.toNat_ofNat]
    omega
  rw [BitVec.toNat_or, hHigh, hLow, Nat.mul_comm,
    ← Nat.two_pow_add_eq_or_of_lt (show port % 256 < 2 ^ 8 by omega)]
  omega

/-- The host and the port are found again. -/
theorem hostAndPort_uaddrOf (name : CString) {port : Nat} (h : port < 65536) :
    hostAndPort (uaddrOf name port) = some (name, port) := by
  have hHigh : port / 256 < 256 := by omega
  have hLow : port % 256 < 256 := by omega
  have hNumber := port_of_bytes h
  rw [uaddrOf_eq, hostAndPort, CString.strrchr_append _ (CString.decimal_plain hLow).1,
    Option.bind_eq_bind, Option.bind_some]
  show (CString.strrchr 46 (name ++ 46 :: CString.decimal (port / 256 : Nat))).bind _ = _
  rw [CString.strrchr_append _ (CString.decimal_plain hHigh).1, Option.bind_some]
  rw [← CString.atoi_decimal hHigh, ← CString.atoi_decimal hLow] at hNumber
  exact congrArg (fun n => some (name, n)) hNumber

/-- The port as text has no '/' and no ':', and is not short. -/
theorem portText_plain {port : Nat} (h : port < 65536) :
    47 ∉ uaddrOf [] port ∧ 58 ∉ uaddrOf [] port ∧ 3 < (uaddrOf [] port).length := by
  obtain ⟨-, hHighSlash, hHighColon, hHighLen⟩ :=
    CString.decimal_plain (show port / 256 < 256 by omega)
  obtain ⟨-, hLowSlash, hLowColon, hLowLen⟩ :=
    CString.decimal_plain (show port % 256 < 256 by omega)
  rw [uaddrOf_eq]
  simp only [List.nil_append, List.mem_append, List.mem_cons, not_or, List.length_append,
    List.length_cons]
  refine ⟨⟨⟨by decide, hHighSlash⟩, by decide, hLowSlash⟩,
    ⟨⟨by decide, hHighColon⟩, by decide, hLowColon⟩, by omega⟩

theorem uaddrOf_append (name : CString) (port : Nat) :
    uaddrOf name port = name ++ uaddrOf [] port := by
  simp [uaddrOf]

/-- The text of an address is searched for its port when the second character of the host
is ':'. -/
theorem hasPort_uaddrOf {inet : Inet} {name : CString} {port : Nat} (h : port < 65536)
    (hPlain : 47 ∉ name) : HasPort inet (uaddrOf name port) ↔ name[1]? = some 58 := by
  obtain ⟨hSlash, hColon, hLength⟩ := portText_plain h
  have hLong : 3 < (uaddrOf name port).length := by
    rw [uaddrOf_append, List.length_append]
    omega
  have hNoSlash : ∀ i < 3, CString.charAt inet.slack (uaddrOf name port) i ≠ 47 := by
    intro i hLt hEq
    have hAt := CString.charAt_of_lt inet.slack (Nat.lt_trans hLt hLong)
    rw [hEq] at hAt
    have hMem := List.mem_of_getElem? hAt.symm
    rw [uaddrOf_append, List.mem_append] at hMem
    exact hMem.elim hPlain hSlash
  have hSecond := CString.charAt_of_lt inet.slack (show 1 < (uaddrOf name port).length by omega)
  have hHost : CString.charAt inet.slack (uaddrOf name port) 1 = 58 ↔ name[1]? = some 58 := by
    by_cases hTwo : 1 < name.length
    · rw [uaddrOf_append, List.getElem?_append_left hTwo, ← uaddrOf_append] at hSecond
      rw [← hSecond, Option.some.injEq]
    · refine iff_of_false ?_ ?_
      · -- The character is one of the port.
        intro hEq
        rw [hEq, uaddrOf_append, List.getElem?_append_right (by omega)] at hSecond
        exact hColon (List.mem_of_getElem? hSecond.symm)
      · rw [List.getElem?_eq_none (by omega)]
        exact fun hBad => by cases hBad
  exact ⟨fun hPort => hHost.mp hPort.2.1,
    fun hName => ⟨hNoSlash 0 (by decide), hHost.mpr hName, hNoSlash 2 (by decide)⟩⟩

/-! ### Socket addresses -/

namespace Sockaddr

/-- The address of the host, by the family. -/
def host (af : Nat) (sa : List UInt8) : Option (List UInt8) :=
  if af = afInet6 then sin6Addr sa else sinAddr sa

theorem little_lt (bs : List UInt8) : little bs < 256 ^ bs.length := by
  induction bs with
  | nil => exact Nat.one_pos
  | cons b bs ih =>
      have hByte := b.toNat_lt
      rw [little, List.length_cons, Nat.pow_succ]
      omega

theorem length_of_bytes {off n : Nat} {sa bs : List UInt8} (h : bytes off n sa = some bs) :
    bs.length = n := by
  unfold bytes at h
  split at h
  · next hLe =>
      cases h
      exact Buffer.length_readAt_of_le hLe
  · cases h

theorem port_lt {sa : List UInt8} {n : Nat} (h : port sa = some n) : n < 65536 := by
  obtain ⟨bs, hBytes, rfl⟩ := Option.map_eq_some_iff.mp h
  have hLt := little_lt bs.reverse
  rwa [List.length_reverse, length_of_bytes hBytes] at hLt

/-- The part of an address that stands behind `off` others. -/
theorem bytes_append (before behind : List UInt8) {part : List UInt8} {off n : Nat}
    (hOff : before.length = off) (hLen : part.length = n) :
    bytes off n (before ++ (part ++ behind)) = some part := by
  subst hOff
  subst hLen
  rw [bytes_of_le (by simp only [List.length_append]; omega), Buffer.readAt, List.drop_left,
    List.take_left]

theorem big_shortBe {port : Nat} (h : port < 65536) : big (shortBe port) = port := by
  have hHigh : (UInt8.ofNat (port / 256)).toNat = port / 256 := by
    rw [UInt8.toNat_ofNat']
    omega
  have hLow : (UInt8.ofNat port).toNat = port % 256 := UInt8.toNat_ofNat'
  show (UInt8.ofNat port).toNat + 256 * ((UInt8.ofNat (port / 256)).toNat + 256 * 0) = port
  omega

theorem family_shortLe {af : Nat} (h : af < 65536) (rest : List UInt8) :
    family (shortLe af ++ rest) = some af := by
  have hHigh : (UInt8.ofNat (af / 256)).toNat = af / 256 := by
    rw [UInt8.toNat_ofNat']
    omega
  have hLow : (UInt8.ofNat af).toNat = af % 256 := UInt8.toNat_ofNat'
  have hLength : (shortLe af).length = 2 := rfl
  have hBytes : bytes 0 2 (shortLe af ++ rest) = some (shortLe af) :=
    bytes_append [] rest rfl hLength
  rw [family, hBytes, Option.map_some, Option.some.injEq]
  show (UInt8.ofNat af).toNat + 256 * ((UInt8.ofNat (af / 256)).toNat + 256 * 0) = af
  omega

theorem port_shortBe (af : Nat) {n : Nat} (h : n < 65536) (rest : List UInt8) :
    port (shortLe af ++ (shortBe n ++ rest)) = some n := by
  have hBytes : bytes 2 2 (shortLe af ++ (shortBe n ++ rest)) = some (shortBe n) :=
    bytes_append (shortLe af) rest rfl rfl
  rw [port, hBytes, Option.map_some, big_shortBe h]

end Sockaddr

/-- The size of the buffer for the host as text. -/
def namebufSize (af : Nat) : Nat := if af = afInet6 then inet6Addrstrlen else inetAddrstrlen

/-- A socket address of the family, with this host and port. -/
def Netbuf.Holds (af : Nat) (host : List UInt8) (port : Nat) (nbuf : Netbuf) : Prop :=
  ∃ sa, nbuf.buf = some sa ∧ socklen af ≤ nbuf.len.toNat ∧ nbuf.len.toNat ≤ sa.length ∧
    Sockaddr.family sa = some af ∧ Sockaddr.host af sa = some host ∧
    Sockaddr.port sa = some port

/-- What `inet_ntop` and `inet_pton` are documented to do. -/
structure Inet.Lawful (inet : Inet) : Prop where
  pton_ntop : ∀ {af addr size name}, inet.ntop af addr size = some name →
    inet.pton af name = some addr
  /-- There is no '/' in an address. -/
  ntop_plain : ∀ {af addr size name}, inet.ntop af addr size = some name → 47 ∉ name
  /-- An address has no two components more. -/
  pton_uaddr : ∀ {af addr size name port}, inet.ntop af addr size = some name → port < 65536 →
    inet.pton af (uaddrOf name port) = none

section RoundTrip

variable {inet : Inet} {af port : Nat} {addr host : List UInt8} {nbuf : Netbuf}

theorem holds_inet (hPort : port < 65536) (hLen : addr.length = 4)
    (hBuf : nbuf.buf = some (Sockaddr.inet port addr)) (hNum : nbuf.len = 16) :
    nbuf.Holds afInet addr port := by
  have hLength : (Sockaddr.inet port addr).length = 16 := by
    simp [Sockaddr.inet, Sockaddr.shortLe, Sockaddr.shortBe, hLen]
  refine ⟨_, hBuf, by rw [hNum]; decide, by rw [hNum, hLength]; decide, ?_, ?_, ?_⟩
  · rw [Sockaddr.inet, List.append_assoc, List.append_assoc,
      Sockaddr.family_shortLe (by decide)]
  · rw [Sockaddr.inet, List.append_assoc]
    exact Sockaddr.bytes_append _ _ rfl hLen
  · rw [Sockaddr.inet, List.append_assoc, List.append_assoc, Sockaddr.port_shortBe _ hPort]

theorem holds_inet6 (hPort : port < 65536) (hLen : addr.length = 16)
    (hBuf : nbuf.buf = some (Sockaddr.inet6 port addr)) (hNum : nbuf.len = 28) :
    nbuf.Holds afInet6 addr port := by
  have hLength : (Sockaddr.inet6 port addr).length = 28 := by
    simp [Sockaddr.inet6, Sockaddr.shortLe, Sockaddr.shortBe, hLen]
  refine ⟨_, hBuf, by rw [hNum]; decide, by rw [hNum, hLength]; decide, ?_, ?_, ?_⟩
  · rw [Sockaddr.inet6, List.append_assoc, List.append_assoc, List.append_assoc,
      Sockaddr.family_shortLe (by decide)]
  · rw [Sockaddr.inet6, List.append_assoc]
    exact Sockaddr.bytes_append _ _ rfl hLen
  · rw [Sockaddr.inet6, List.append_assoc, List.append_assoc, List.append_assoc,
      Sockaddr.port_shortBe _ hPort]

/-- The text of an address. -/
theorem rpcTaddr2uaddrAf_of_holds (hAf : af = afInet ∨ af = afInet6)
    (h : nbuf.Holds af host port) : rpcTaddr2uaddrAf inet af nbuf =
      some ((inet.ntop af host (namebufSize af)).map fun name => uaddrOf name port) := by
  obtain ⟨sa, hBuf, hLen, -, -, hHost, hPort⟩ := h
  unfold rpcTaddr2uaddrAf
  rcases hAf with rfl | rfl
  · have hFits : ¬ nbuf.len.toNat < sizeofSockaddrIn := Nat.not_lt.mpr hLen
    rw [if_pos rfl, if_neg hFits, hBuf, Option.bind_some, inetUaddr,
      show Sockaddr.sinAddr sa = some host from hHost, hPort]
    rfl
  · have hFits : ¬ nbuf.len.toNat < sizeofSockaddrIn6 := Nat.not_lt.mpr hLen
    rw [if_neg (by decide), if_pos rfl, if_neg hFits, hBuf, Option.bind_some, inetUaddr,
      show Sockaddr.sin6Addr sa = some host from hHost, hPort]
    rfl

/-- The address that is made of a host and a port is of its family. -/
theorem family_hostTaddr {af' port' : Nat} {addrstr : CString} {taddr : Netbuf}
    (h : hostTaddr inet af' addrstr port' = some taddr) (hHolds : taddr.Holds af host port) :
    af' = af := by
  obtain ⟨sa, hBuf, -, -, hFamily, -⟩ := hHolds
  unfold hostTaddr at h
  dsimp only at h
  split_ifs at h with hInet hInet6 hLocal
  · obtain ⟨addr, -, rfl⟩ := Option.map_eq_some_iff.mp h
    cases hBuf
    rw [Sockaddr.inet, List.append_assoc, List.append_assoc,
      Sockaddr.family_shortLe (by decide)] at hFamily
    exact hInet.trans (Option.some.inj hFamily)
  · obtain ⟨addr, -, rfl⟩ := Option.map_eq_some_iff.mp h
    cases hBuf
    rw [Sockaddr.inet6, List.append_assoc, List.append_assoc, List.append_assoc,
      Sockaddr.family_shortLe (by decide)] at hFamily
    exact hInet6.trans (Option.some.inj hFamily)
  · cases h
    cases hBuf
    rw [Sockaddr.un, List.append_assoc, List.append_assoc,
      Sockaddr.family_shortLe (by decide)] at hFamily
    exact hLocal.trans (Option.some.inj hFamily)

/-- The address that is made of a host that the system knows. -/
theorem hostTaddr_of_pton (hAf : af = afInet ∨ af = afInet6) (hPort : port < 65536)
    {name : CString} (h : inet.pton af name = some addr) :
    ∃ taddr, hostTaddr inet af name port = some taddr ∧ taddr.Holds af addr port := by
  have hLen := inet.pton_length h
  unfold hostTaddr
  rcases hAf with rfl | rfl
  · have hLen4 : addr.length = 4 := hLen
    rw [if_pos rfl, h]
    refine ⟨_, rfl, holds_inet hPort hLen4 rfl ?_⟩
    simp [Sockaddr.inet, Sockaddr.shortLe, Sockaddr.shortBe, hLen4]
  · have hLen16 : addr.length = 16 := hLen
    rw [if_neg (by decide), if_pos rfl, h]
    refine ⟨_, rfl, holds_inet6 hPort hLen16 rfl ?_⟩
    simp [Sockaddr.inet6, Sockaddr.shortLe, Sockaddr.shortBe, hLen16]

/-- No address is made of a text that the system does not know. -/
theorem hostTaddr_of_pton_none (hAf : af = afInet ∨ af = afInet6) {name : CString}
    (h : inet.pton af name = none) : hostTaddr inet af name port = none := by
  unfold hostTaddr
  rcases hAf with rfl | rfl
  · rw [if_pos rfl, h]
    rfl
  · rw [if_neg (by decide), if_pos rfl, h]
    rfl

/-- An address of IPv4 or IPv6 comes back from its text exactly when the netconfig entry leads
to its family and the second character of the host as text is ':'. -/
theorem taddr2uaddr_round_trip_iff (hLaws : inet.Lawful) (nconf : NetconfigEnt)
    (hAf : af = afInet ∨ af = afInet6) (h : nbuf.Holds af host port) :
    (∃ uaddr taddr, taddr2uaddr inet nconf nbuf = some (some uaddr) ∧
        uaddr2taddr inet nconf uaddr = some taddr ∧ taddr.Holds af host port) ↔
      (∃ si, rpcNconf2sockinfo nconf = some si ∧ si.siAf = af) ∧
        ∃ name, inet.ntop af host (namebufSize af) = some name ∧ name[1]? = some 58 := by
  have hPort : port < 65536 := by
    obtain ⟨sa, -, -, -, -, -, hPort⟩ := h
    exact Sockaddr.port_lt hPort
  have hText := @rpcTaddr2uaddrAf_of_holds inet af port host nbuf hAf h
  constructor
  · rintro ⟨uaddr, taddr, hUaddr, hTaddr, hHolds⟩
    unfold taddr2uaddr at hUaddr
    unfold uaddr2taddr at hTaddr
    cases hInfo : rpcNconf2sockinfo nconf with
    | none =>
        rw [hInfo] at hTaddr
        cases hTaddr
    | some si =>
        rw [hInfo] at hUaddr hTaddr
        dsimp only at hUaddr hTaddr
        have hSame : si.siAf = af := by
          unfold rpcUaddr2taddrAf at hTaddr
          split at hTaddr
          · split at hTaddr
            · cases hTaddr
            · exact family_hostTaddr hTaddr hHolds
          · exact family_hostTaddr hTaddr hHolds
        refine ⟨⟨si, rfl, hSame⟩, ?_⟩
        rw [hSame] at hUaddr hTaddr
        rw [hText, Option.some.injEq, Option.map_eq_some_iff] at hUaddr
        obtain ⟨name, hName, rfl⟩ := hUaddr
        refine ⟨name, hName, ?_⟩
        by_contra hColon
        have hNot : ¬ HasPort inet (uaddrOf name port) := fun hBad =>
          hColon ((hasPort_uaddrOf hPort (hLaws.ntop_plain hName)).mp hBad)
        rw [rpcUaddr2taddrAf, if_neg hNot,
          hostTaddr_of_pton_none hAf (hLaws.pton_uaddr hName hPort)] at hTaddr
        cases hTaddr
  · rintro ⟨⟨si, hInfo, rfl⟩, name, hName, hColon⟩
    obtain ⟨taddr, hTaddr, hHolds⟩ := hostTaddr_of_pton hAf hPort (hLaws.pton_ntop hName)
    refine ⟨uaddrOf name port, taddr, ?_, ?_, hHolds⟩
    · rw [taddr2uaddr, hInfo]
      show rpcTaddr2uaddrAf inet si.siAf nbuf = _
      rw [hText, hName, Option.map_some]
    · rw [uaddr2taddr, hInfo]
      show rpcUaddr2taddrAf inet si.siAf (uaddrOf name port) = some taddr
      rw [rpcUaddr2taddrAf, if_pos ((hasPort_uaddrOf hPort (hLaws.ntop_plain hName)).mpr hColon),
        hostAndPort_uaddrOf name hPort]
      exact hTaddr

end RoundTrip

/-- The loopback hosts. -/
def loopback : List (Nat × List UInt8 × CString) :=
  [(afInet, [127, 0, 0, 1], .ascii "127.0.0.1"),
   (afInet6, [0, 0, 0, 0, 0, 0, 0, 0, 0, 0, 0, 0, 0, 0, 0, 1], .ascii "::1")]

/-- A system that knows them and no others. -/
def loopbackInet : Inet where
  ntop := fun af addr size =>
    (loopback.find? fun e => decide (e.1 = af ∧ e.2.1 = addr ∧ e.2.2.length < size)).map (·.2.2)
  pton := fun af name => (loopback.find? fun e => decide (e.1 = af ∧ e.2.2 = name)).map (·.2.1)
  slack := fun _ => 0
  ntop_fits := by
    intro af addr size name h
    obtain ⟨e, hFound, rfl⟩ := Option.map_eq_some_iff.mp h
    have hKnown := List.find?_some hFound
    exact (of_decide_eq_true hKnown).2.2
  pton_length := by
    intro af name addr h
    obtain ⟨e, hFound, rfl⟩ := Option.map_eq_some_iff.mp h
    have hKnown := List.find?_some hFound
    obtain ⟨rfl, -⟩ := of_decide_eq_true hKnown
    have hAll : ∀ e ∈ loopback, e.2.1.length = if e.1 = afInet6 then 16 else 4 := by
      decide
    exact hAll e (List.mem_of_find?_eq_some hFound)

/-- What it makes of a loopback host. -/
theorem loopbackInet_ntop {af size : Nat} {addr : List UInt8} {name : CString}
    (h : loopbackInet.ntop af addr size = some name) : (af, addr, name) ∈ loopback := by
  obtain ⟨⟨af', addr', name'⟩, hFound, rfl⟩ := Option.map_eq_some_iff.mp h
  have hKnown := List.find?_some hFound
  obtain ⟨rfl, rfl, -⟩ := of_decide_eq_true hKnown
  exact List.mem_of_find?_eq_some hFound

theorem loopbackInet_lawful : loopbackInet.Lawful where
  pton_ntop := by
    intro af addr size name h
    have hAll : ∀ e ∈ loopback, loopbackInet.pton e.1 e.2.2 = some e.2.1 := by decide
    exact hAll _ (loopbackInet_ntop h)
  ntop_plain := by
    intro af addr size name h
    have hAll : ∀ e ∈ loopback, 47 ∉ e.2.2 := by decide
    exact hAll _ (loopbackInet_ntop h)
  pton_uaddr := by
    intro af addr size name port h hPort
    have hAll : ∀ e ∈ loopback, ∀ e' ∈ loopback, e.1 = e'.1 → e'.2.2.length ≤ e.2.2.length := by
      decide
    obtain ⟨-, -, hLong⟩ := portText_plain hPort
    apply Option.map_eq_none_iff.mpr
    rw [List.find?_eq_none]
    intro e hMem hFound
    obtain ⟨hAf, hName⟩ := of_decide_eq_true hFound
    have hLength : e.2.2.length ≤ name.length :=
      hAll _ (loopbackInet_ntop h) e hMem hAf.symm
    rw [hName, uaddrOf_append, List.length_append] at hLength
    omega

/-- The entry of `/etc/netconfig` for UDP, over IPv4 or IPv6. -/
def udpNconf (netid protofmly : String)
    (short : (CString.ascii netid).length < 1000 ∧ (CString.ascii protofmly).length < 1000) :
    NetconfigEnt where
  ncNetid := .ascii netid
  ncProtofmly := .ascii protofmly
  ncProto := .ascii "udp"
  ncSemantics := 1
  short := ⟨short.1, short.2, by decide⟩

/-- A netbuf with nothing but the address. -/
def wholeNetbuf (sa : List UInt8) : Netbuf where
  maxlen := BitVec.ofNat 32 sa.length
  len := BitVec.ofNat 32 sa.length
  buf := some sa

theorem taddr2uaddr_round_trip_iff_loopback6 :
    ∃ uaddr taddr,
      taddr2uaddr loopbackInet (udpNconf "udp6" "inet6" (by decide))
        (wholeNetbuf (Sockaddr.inet6 111 [0, 0, 0, 0, 0, 0, 0, 0, 0, 0, 0, 0, 0, 0, 0, 1])) =
          some (some uaddr) ∧
      uaddr2taddr loopbackInet (udpNconf "udp6" "inet6" (by decide)) uaddr = some taddr ∧
      taddr.Holds afInet6 [0, 0, 0, 0, 0, 0, 0, 0, 0, 0, 0, 0, 0, 0, 0, 1] 111 :=
  (taddr2uaddr_round_trip_iff loopbackInet_lawful _ (Or.inr rfl)
    (holds_inet6 (by decide) rfl rfl rfl)).mpr
      ⟨⟨{ siAf := afInet6, siProto := ipprotoUdp, siSocktype := .dgram }, by decide, rfl⟩,
        .ascii "::1", by decide, by decide⟩

/-- No address of IPv4 comes back: 127.0.0.1, port 111. -/
theorem not_taddr2uaddr_round_trip_loopback :
    ¬ ∃ uaddr taddr,
      taddr2uaddr loopbackInet (udpNconf "udp" "inet" (by decide))
        (wholeNetbuf (Sockaddr.inet 111 [127, 0, 0, 1])) = some (some uaddr) ∧
      uaddr2taddr loopbackInet (udpNconf "udp" "inet" (by decide)) uaddr = some taddr ∧
      taddr.Holds afInet [127, 0, 0, 1] 111 := by
  rintro ⟨uaddr, taddr, hUaddr, hTaddr, -⟩
  have hText : taddr2uaddr loopbackInet (udpNconf "udp" "inet" (by decide))
      (wholeNetbuf (Sockaddr.inet 111 [127, 0, 0, 1])) =
        some (some (.ascii "127.0.0.1.0.111")) := by decide
  have hNone : uaddr2taddr loopbackInet (udpNconf "udp" "inet" (by decide))
      (.ascii "127.0.0.1.0.111") = none := by decide
  rw [hText] at hUaddr
  cases hUaddr
  rw [hNone] at hTaddr
  cases hTaddr

end OncRpc
