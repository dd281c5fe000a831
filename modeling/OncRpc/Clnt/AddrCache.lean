import OncRpc.Base.Keyed
import OncRpc.Rpc.Address

/-! `rpcb_clnt.c`: the cache of the addresses of remote rpcbinds, and `getclnthandle`, which
uses it. -/
namespace OncRpc

/-- `struct address_cache`, but for its link. -/
structure AddressCache where
  acHost : CString
  acNetid : CString
  acUaddr : Option CString
  /-- The bytes that `ac_taddr->buf` has been allocated for. -/
  acTaddr : List UInt8
  deriving DecidableEq, Repr

/-- `front`, as the entries that it leads to, and `cachesize`. -/
structure AddrCache where
  front : List AddressCache
  cachesize : Int
  deriving DecidableEq, Repr

/-- `CACHESIZE`. -/
def cacheSize : Nat := 6

namespace AddressCache

/-- What the entry is an address for. -/
def key (e : AddressCache) : CString × CString := (e.acHost, e.acNetid)

/-- `!memcmp (cptr->ac_taddr->buf, addr->buf, addr->len)`. The comparison goes on into the
memory behind the entry's address where that is the shorter one. -/
def sameBytes (behind : AddressCache → Nat → UInt8) (addr : List UInt8) (e : AddressCache) :
    Bool :=
  decide ((List.range addr.length).map (fun i => (e.acTaddr[i]?).getD (behind e i)) = addr)

end AddressCache

namespace AddrCache

/-- `check_cache`. -/
def checkCache (cache : AddrCache) (host netid : CString) : Option AddressCache :=
  cache.front.find? fun cptr => decide (cptr.acHost = host ∧ cptr.acNetid = netid)

/-- `delete_cache`. -/
def deleteCache (cache : AddrCache) (behind : AddressCache → Nat → UInt8) (addr : List UInt8) :
    AddrCache :=
  if cache.front.any (AddressCache.sameBytes behind addr) then
    { front := cache.front.eraseP (AddressCache.sameBytes behind addr)
      cachesize := cache.cachesize - 1 }
  else cache

/-- `add_cache`, whose allocations succeed or not. `none` is an access through a null pointer. -/
def addCache (cache : AddrCache) (allocated : Bool) (host netid : CString) (taddr : List UInt8)
    (uaddr : Option CString) : Option AddrCache :=
  if allocated then
    let adCache : AddressCache :=
      { acHost := host, acNetid := netid, acUaddr := uaddr, acTaddr := taddr }
    if cache.cachesize < cacheSize then
      some { front := adCache :: cache.front, cachesize := cache.cachesize + 1 }
    else
      match cache.front with
      | [] => none
      | front => some { cache with front := adCache :: front.dropLast }
  else some cache

end AddrCache

/-- A netbuf for an address of that many bytes. -/
def Netbuf.ofAddr (addr : List UInt8) : Netbuf :=
  { maxlen := BitVec.ofNat 32 addr.length, len := BitVec.ofNat 32 addr.length, buf := some addr }

/-- `struct addrinfo`, with the address of a socket that `taddr2uaddr` reads no further than it
goes, and what `clnt_tli_create` makes of it. -/
structure Addrinfo (inet : Inet) (nconf : NetconfigEnt) where
  aiAddr : List UInt8
  client : Option Nat
  whole : (taddr2uaddr inet nconf (Netbuf.ofAddr aiAddr)).isSome

/-- `taddr2uaddr (nconf, &taddr)`. -/
def Addrinfo.uaddr {inet : Inet} {nconf : NetconfigEnt} (tres : Addrinfo inet nconf) :
    Option CString :=
  (taddr2uaddr inet nconf (Netbuf.ofAddr tres.aiAddr)).get tres.whole

/-- A call of `getclnthandle`: its arguments, and what it meets. -/
structure HandleCall (inet : Inet) where
  host : CString
  nconf : NetconfigEnt
  /-- Whether `targaddr` is not NULL. -/
  targaddr : Bool
  /-- `clnt_tli_create`, at the cached address. -/
  atCached : Option Nat
  /-- Whether `addr_to_delete.buf` can be allocated. -/
  copied : Bool
  /-- What lies behind the addresses of the cache in memory. -/
  behind : AddressCache → Nat → UInt8
  /-- What `getaddrinfo` yields, unless it fails. -/
  res : Option (List (Addrinfo inet nconf))
  /-- Whether `add_cache` can allocate an entry. -/
  allocated : Bool

/-- What `getclnthandle` returns, and what it stores through `targaddr`, if it does. -/
structure HandleReply where
  client : Option Nat
  targaddr : Option (Option CString)
  deriving DecidableEq, Repr

/-- What a look into the cache leads to. -/
inductive Consulted where
  | ready (reply : HandleReply)
  | stale (addrToDelete : List UInt8)
  | afresh
  deriving DecidableEq, Repr

namespace AddrCache

variable {inet : Inet}

/-- `getclnthandle`, under the lock for reading. -/
def consult (cache : AddrCache) (c : HandleCall inet) : Consulted :=
  match cache.checkCache c.host c.nconf.ncNetid with
  | none => .afresh
  | some adCache =>
      match c.atCached with
      | some client =>
          .ready
            { client := some client
              targaddr := if c.targaddr then some adCache.acUaddr else none }
      | none =>
          -- `addr_to_delete.len` stays zero where there is no memory for the copy.
          if c.copied ∧ adCache.acTaddr ≠ [] then .stale adCache.acTaddr else .afresh

/-- The rest of `getclnthandle`: the first address of the host at which there is a handle. -/
def create (cache : AddrCache) (c : HandleCall inet) : Option (HandleReply × AddrCache) :=
  match rpcNconf2sockinfo c.nconf, c.res with
  | some _, some res =>
      match res.find? fun tres => tres.client.isSome with
      | none => some ({ client := none, targaddr := none }, cache)
      | some tres => do
          let tmpaddr := if c.targaddr then tres.uaddr else none
          let cache ← cache.addCache c.allocated c.host c.nconf.ncNetid tres.aiAddr tmpaddr
          pure ({ client := tres.client, targaddr := if c.targaddr then some tmpaddr else none },
            cache)
  | _, _ => some ({ client := none, targaddr := none }, cache)

/-- `getclnthandle`. -/
def getclnthandle (cache : AddrCache) (c : HandleCall inet) : Option (HandleReply × AddrCache) :=
  match cache.consult c with
  | .ready reply => some (reply, cache)
  | .stale addr => (cache.deleteCache c.behind addr).create c
  | .afresh => cache.create c

end AddrCache

end OncRpc
