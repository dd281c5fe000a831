import OncRpc.Base.CString
import OncRpc.Xdr.Filters

/-! `rpc_generic.c`: addresses of the transports, as the sockets have them and as text. A
socket address is a block of bytes, and `none` on the outside of an answer is an access
that leaves the block. -/
namespace OncRpc

/-- The address families. -/
def afInet : Nat := 2
def afInet6 : Nat := 23
def afLocal : Nat := 99

/-- The types of a socket. -/
inductive SockType where
  | stream
  | dgram
  | raw
  deriving DecidableEq, Repr

/-- `sizeof` of the socket addresses of IPv4 and IPv6. -/
def sizeofSockaddrIn : Nat := 16
def sizeofSockaddrIn6 : Nat := 28

/-- `SOCKLEN_SOCKADDR_PTR`, by the family. -/
def socklen (family : Nat) : Nat := if family = afInet6 then sizeofSockaddrIn6 else sizeofSockaddrIn

/-- `sizeof (struct sockaddr_un)`, the place of its path, and the size of the path. -/
def sizeofSockaddrUn : Nat := 112
def sunPath : Nat := 3
def sizeofSunPath : Nat := 108

/-- `struct netbuf`. -/
structure Netbuf where
  maxlen : BitVec 32
  len : BitVec 32
  /-- The whole block that `buf` points to. -/
  buf : Option (List UInt8)
  deriving DecidableEq, Repr

namespace Sockaddr

/-- A read of `n` bytes of the address. -/
def bytes (off n : Nat) (sa : List UInt8) : Option (List UInt8) :=
  if off + n ≤ sa.length then some (Buffer.readAt sa off n) else none

/-- A number in the byte order of the machine. -/
def little : List UInt8 → Nat
  | [] => 0
  | b :: bs => b.toNat + 256 * little bs

/-- A number in the byte order of the network, as `ntohs` reads it. -/
def big (bs : List UInt8) : Nat := little bs.reverse

/-- `sa_family`. -/
def family (sa : List UInt8) : Option Nat := (bytes 0 2 sa).map little

/-- `ntohs (sin_port)`; `sin6_port` stands at the same place. -/
def port (sa : List UInt8) : Option Nat := (bytes 2 2 sa).map big

/-- `sin_addr`. -/
def sinAddr (sa : List UInt8) : Option (List UInt8) := bytes 4 4 sa

/-- `sin6_addr`. -/
def sin6Addr (sa : List UInt8) : Option (List UInt8) := bytes 8 16 sa

/-- `sin6_scope_id`. -/
def sin6ScopeId (sa : List UInt8) : Option (List UInt8) := bytes 24 4 sa

/-- A `u_short` in memory. -/
def shortLe (n : Nat) : List UInt8 := [UInt8.ofNat n, UInt8.ofNat (n / 256)]

/-- `htons` in memory. -/
def shortBe (n : Nat) : List UInt8 := [UInt8.ofNat (n / 256), UInt8.ofNat n]

/-- `struct sockaddr_in`. -/
def inet (port : Nat) (addr : List UInt8) : List UInt8 :=
  shortLe afInet ++ shortBe port ++ addr ++ List.replicate 8 0

/-- `struct sockaddr_in6`. -/
def inet6 (port : Nat) (addr : List UInt8) : List UInt8 :=
  shortLe afInet6 ++ shortBe port ++ List.replicate 4 0 ++ addr ++ List.replicate 4 0

/-- `SUN_LEN` of a path. -/
def sunLen (path : CString) : Nat := (sizeofSockaddrUn - sizeofSunPath + path.length) % 256

/-- `struct sockaddr_un`, of which the path is what `strncpy` leaves of `addr`. -/
def un (addr : CString) : List UInt8 :=
  let path := addr.take (sizeofSunPath - 1)
  shortLe afLocal ++ [UInt8.ofNat (sunLen path)] ++
    (path ++ List.replicate (sizeofSunPath - path.length) 0) ++ [0]

theorem bytes_of_le {off n : Nat} {sa : List UInt8} (h : off + n ≤ sa.length) :
    bytes off n sa = some (Buffer.readAt sa off n) := if_pos h

end Sockaddr

/-- The functions for addresses that the system has, and what `malloc` leaves behind the
end of a string. -/
structure Inet where
  /-- `inet_ntop`, by family, address, and size of the buffer. -/
  ntop : Nat → List UInt8 → Nat → Option CString
  /-- `inet_pton`. -/
  pton : Nat → CString → Option (List UInt8)
  slack : Nat → UInt8
  ntop_fits : ∀ {af addr size s}, ntop af addr size = some s → s.length < size
  pton_length : ∀ {af s addr}, pton af s = some addr →
    addr.length = if af = afInet6 then 16 else 4

/-- A system that knows no address. -/
instance : Inhabited Inet where
  default :=
    { ntop := fun _ _ _ => none
      pton := fun _ _ => none
      slack := fun _ => 0
      ntop_fits := fun h => (by cases h)
      pton_length := fun h => (by cases h) }

namespace CString

/-- `atoi`, which saturates. -/
def atoi (s : CString) : Int :=
  match scanInt s with
  | none => 0
  | some (n, _) => max (-(2 ^ 31)) (min (2 ^ 31 - 1) n)

/-- `strrchr`: what is before and what is behind the last `c`. -/
def strrchr (c : UInt8) : CString → Option (CString × CString)
  | [] => none
  | c' :: s =>
      match strrchr c s with
      | some (before, behind) => some (c' :: before, behind)
      | none => if c' = c then some ([], s) else none

/-- The character at an index that may be behind the null. -/
def charAt (slack : Nat → UInt8) (s : CString) (i : Nat) : UInt8 :=
  if i = s.length then 0 else (s[i]?).getD (slack i)

end CString

def ipprotoTcp : Nat := 6
def ipprotoUdp : Nat := 17

/-- `struct netconfig`. -/
structure Netconfig where
  ncNetid : CString
  ncProtofmly : CString
  ncProto : CString
  deriving DecidableEq, Repr

/-- `struct netconfig` with `nc_semantics`, as the lines of `/etc/netconfig` yield it. -/
structure NetconfigEnt extends Netconfig where
  ncSemantics : BitVec 32
  /-- `MAXNETCONFIGLINE`. -/
  short : ncNetid.length < 1000 ∧ ncProtofmly.length < 1000 ∧ ncProto.length < 1000

/-- `struct __rpc_sockinfo`, but for its length. -/
structure SockInfo where
  siAf : Nat
  siProto : Nat
  siSocktype : SockType
  deriving DecidableEq, Repr

/-- `na_cvt`. -/
def naCvt : List (CString × Nat × Nat) :=
  [(CString.ascii "udp", afInet, ipprotoUdp), (CString.ascii "tcp", afInet, ipprotoTcp),
   (CString.ascii "udp6", afInet6, ipprotoUdp), (CString.ascii "tcp6", afInet6, ipprotoTcp),
   (CString.ascii "local", afLocal, 0)]

/-- `__rpc_seman2socktype`. -/
def rpcSeman2socktype (semantics : BitVec 32) : Option SockType :=
  if semantics = 1 then some .dgram
  else if semantics = 3 then some .stream
  else if semantics = 4 then some .raw
  else none

/-- `__rpc_nconf2sockinfo`. -/
def rpcNconf2sockinfo (nconf : NetconfigEnt) : Option SockInfo :=
  match naCvt.find? fun na => decide (na.1 = nconf.ncNetid) with
  | none => none
  | some (_, af, protocol) =>
      (rpcSeman2socktype nconf.ncSemantics).map fun socktype =>
        { siAf := af, siProto := protocol, siSocktype := socktype }

/-- `INET_ADDRSTRLEN` and `INET6_ADDRSTRLEN`. -/
def inetAddrstrlen : Nat := 22
def inet6Addrstrlen : Nat := 65

/-- `"%s.%u.%u"`. -/
def uaddrOf (name : CString) (port : Nat) : CString :=
  name ++ CString.ascii "." ++ CString.decimal (port / 256) ++ CString.ascii "." ++
    CString.decimal (port % 256 : Nat)

/-- The body of `__rpc_taddr2uaddr_af` that both families of the internet have. -/
def inetUaddr (inet : Inet) (af size : Nat) (addr : List UInt8 → Option (List UInt8))
    (sa : List UInt8) : Option (Option CString) := do
  let addr ← addr sa
  let port ← Sockaddr.port sa
  pure ((inet.ntop af addr size).map fun name => uaddrOf name port)

/-- `__rpc_taddr2uaddr_af`. -/
def rpcTaddr2uaddrAf (inet : Inet) (af : Nat) (nbuf : Netbuf) : Option (Option CString) :=
  if af = afInet then
    if nbuf.len.toNat < sizeofSockaddrIn then some none
    else nbuf.buf.bind (inetUaddr inet af inetAddrstrlen Sockaddr.sinAddr)
  else if af = afInet6 then
    if nbuf.len.toNat < sizeofSockaddrIn6 then some none
    else nbuf.buf.bind (inetUaddr inet af inet6Addrstrlen Sockaddr.sin6Addr)
  else if af = afLocal then do
    -- The path is cut off at its end, whatever the length of the address is.
    let sun ← nbuf.buf
    let path ← Sockaddr.bytes sunPath sizeofSunPath sun
    pure (some (cString (path.take (sizeofSunPath - 1))))
  else some none

/-- `taddr2uaddr`. -/
def taddr2uaddr (inet : Inet) (nconf : NetconfigEnt) (nbuf : Netbuf) : Option (Option CString) :=
  match rpcNconf2sockinfo nconf with
  | none => some none
  | some si => rpcTaddr2uaddrAf inet si.siAf nbuf

/-- The host and the port of a text with a port. -/
def hostAndPort (addrstr : CString) : Option (CString × Nat) := do
  let (addrstr, portlo) ← CString.strrchr 46 addrstr
  let (addrstr, porthi) ← CString.strrchr 46 addrstr
  let porthi := BitVec.ofInt 32 (CString.atoi porthi)
  let portlo := BitVec.ofInt 32 (CString.atoi portlo)
  pure (addrstr, ((porthi <<< 8) ||| portlo).toNat % 2 ^ 16)

/-- Whether the text is searched for a port. -/
def HasPort (inet : Inet) (addrstr : CString) : Prop :=
  let c := CString.charAt inet.slack addrstr
  -- '/' and ':'
  c 0 ≠ 47 ∧ c 1 = 58 ∧ c 2 ≠ 47

instance (inet : Inet) (addrstr : CString) : Decidable (HasPort inet addrstr) :=
  inferInstanceAs (Decidable (_ ∧ _))

/-- The address that `__rpc_uaddr2taddr_af` makes of the host and the port. -/
def hostTaddr (inet : Inet) (af : Nat) (addrstr : CString) (port : Nat) : Option Netbuf :=
  let whole (sa : List UInt8) : Netbuf :=
    { maxlen := BitVec.ofNat 32 sa.length, len := BitVec.ofNat 32 sa.length, buf := some sa }
  if af = afInet then (inet.pton af addrstr).map fun addr => whole (Sockaddr.inet port addr)
  else if af = afInet6 then (inet.pton af addrstr).map fun addr => whole (Sockaddr.inet6 port addr)
  else if af = afLocal then
    let len := Sockaddr.sunLen (addrstr.take (sizeofSunPath - 1))
    some { maxlen := BitVec.ofNat 32 len, len := BitVec.ofNat 32 len
           buf := some (Sockaddr.un addrstr) }
  else none

/-- `__rpc_uaddr2taddr_af`. -/
def rpcUaddr2taddrAf (inet : Inet) (af : Nat) (uaddr : CString) : Option Netbuf :=
  if HasPort inet uaddr then
    match hostAndPort uaddr with
    | none => none
    | some (addrstr, port) => hostTaddr inet af addrstr port
  else hostTaddr inet af uaddr 0

/-- `uaddr2taddr`. -/
def uaddr2taddr (inet : Inet) (nconf : NetconfigEnt) (uaddr : CString) : Option Netbuf :=
  match rpcNconf2sockinfo nconf with
  | none => none
  | some si => rpcUaddr2taddrAf inet si.siAf uaddr

end OncRpc
