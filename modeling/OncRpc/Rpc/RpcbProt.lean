import OncRpc.Rpc.Address
import OncRpc.Rpcbind.Registry
import OncRpc.Xdr.Sink

/-! `rpcb_prot.c`, `pmap_prot.c`, `pmap_prot2.c` and `rpcb_st_xdr.c`: the filters of the
three versions of rpcbind. The filters for lists are given in the direction
`XDR_ENCODE`, and a list is what its `next` pointers lead to. -/
namespace OncRpc

open XdrOps Fallible

/-- The procedures of rpcbind. Those of the port mapper have the numbers of the first
five. -/
def rpcbprocNull : BitVec 32 := 0
def rpcbprocSet : BitVec 32 := 1
def rpcbprocUnset : BitVec 32 := 2
def rpcbprocGetaddr : BitVec 32 := 3
def rpcbprocDump : BitVec 32 := 4
def rpcbprocCallit : BitVec 32 := 5
def rpcbprocGettime : BitVec 32 := 6
def rpcbprocUaddr2taddr : BitVec 32 := 7
def rpcbprocTaddr2uaddr : BitVec 32 := 8
def rpcbprocGetversaddr : BitVec 32 := 9
def rpcbprocIndirect : BitVec 32 := 10
def rpcbprocGetaddrlist : BitVec 32 := 11
def rpcbprocGetstat : BitVec 32 := 12

/-- `RPC_MAXDATASIZE`. -/
def rpcMaxdatasize : Nat := 9000

/-- `rpcb_entry`. -/
structure RpcbEntry where
  rMaddr : CString
  rNcNetid : CString
  rNcSemantics : BitVec 32
  rNcProtofmly : CString
  rNcProto : CString
  deriving DecidableEq, Repr

/-- `RPCBSTAT_HIGHPROC` and `RPCBVERS_STAT`. -/
def rpcbstatHighproc : Nat := 13
def rpcbversStat : Nat := 3

instance : NeZero rpcbversStat := ⟨by decide⟩

/-- `rpcbs_addrlist`, but for its link. -/
structure RpcbsAddr where
  prog : BitVec 32
  vers : BitVec 32
  success : BitVec 32
  failure : BitVec 32
  netid : CString
  deriving DecidableEq, Repr

/-- `rpcbs_rmtcalllist`, but for its link. -/
structure RpcbsRmtcall where
  prog : BitVec 32
  vers : BitVec 32
  proc : BitVec 32
  success : BitVec 32
  failure : BitVec 32
  indirect : BitVec 32
  netid : CString
  deriving DecidableEq, Repr

/-- `rpcb_stat`. -/
structure RpcbStat where
  info : Fin rpcbstatHighproc → BitVec 32
  setinfo : BitVec 32
  unsetinfo : BitVec 32
  addrinfo : List RpcbsAddr
  rmtinfo : List RpcbsRmtcall

/-- `rpcb_stat_byvers`. -/
abbrev RpcbStatByvers := Fin rpcbversStat → RpcbStat

section Filters

variable {σ α : Type} [XdrOps σ]

/-- `xdr_string` on a pointer that is NULL before it is decoded into, and that is then used
as a string. -/
def xdrText (maxsize : Nat) : XdrProc σ CString := fun op s => do
  let cpp ← xdrString maxsize op (if op = .decode then none else some (s ++ [0]))
  pure (cString (cpp.getD []))

/-- `xdr_wrapstring`. -/
def xdrWrapstring : XdrProc σ CString := xdrText rpcMaxdatasize

/-- `xdr_rpcb`. -/
def xdrRpcb : XdrProc σ Rpcb := fun op objp => do
  let prog ← xdrUInt32T op objp.rProg
  let vers ← xdrUInt32T op objp.rVers
  let netid ← xdrText rpcMaxdatasize op objp.rNetid
  let addr ← xdrText rpcMaxdatasize op objp.rAddr
  let owner ← xdrText rpcMaxdatasize op objp.rOwner
  pure { rProg := prog, rVers := vers, rNetid := netid, rAddr := addr, rOwner := owner }

/-- `xdr_pmap`. -/
def xdrPmap : XdrProc σ Pmap := fun op regs => do
  let prog ← xdrULong op regs.pmProg
  let vers ← xdrULong op regs.pmVers
  let prot ← xdrULong op (BitVec.ofNat 32 regs.pmProt)
  let port ← xdrULong op (BitVec.ofNat 32 regs.pmPort)
  pure { pmProg := prog, pmVers := vers, pmProt := prot.toNat, pmPort := port.toNat }

/-- `xdr_rpcb_entry`. -/
def xdrRpcbEntry : XdrProc σ RpcbEntry := fun op objp => do
  let maddr ← xdrText rpcMaxdatasize op objp.rMaddr
  let netid ← xdrText rpcMaxdatasize op objp.rNcNetid
  let semantics ← xdrUInt32T op objp.rNcSemantics
  let protofmly ← xdrText rpcMaxdatasize op objp.rNcProtofmly
  let proto ← xdrText rpcMaxdatasize op objp.rNcProto
  pure { rMaddr := maddr, rNcNetid := netid, rNcSemantics := semantics
         rNcProtofmly := protofmly, rNcProto := proto }

/-- `xdr_netbuf`. -/
def xdrNetbuf : XdrProc σ Netbuf := fun op objp => do
  let maxlen ← xdrUInt32T op objp.maxlen
  require (¬ maxlen.toNat > rpcMaxdatasize)
  let (buf, len) ← xdrBytes maxlen.toNat op (objp.buf, objp.len)
  pure { maxlen := maxlen, len := len, buf := buf }

/-- The loop that puts TRUE and an element for each element, and then FALSE. -/
def putLinked (proc : XdrProc σ α) : List α → Fallible σ Unit
  | [] => do
      let _ ← xdrBool .encode 0
      pure ()
  | a :: rest => do
      let _ ← xdrBool .encode 1
      let _ ← xdrReference a proc .encode (some a)
      putLinked proc rest

/-- `xdr_pmaplist`, and `xdr_pmaplist_ptr`. -/
def xdrPmaplist (list : List Pmap) : Fallible σ Unit := putLinked xdrPmap list

/-- `xdr_rpcblist_ptr`. -/
def xdrRpcblistPtr (list : List Rpcb) : Fallible σ Unit := putLinked xdrRpcb list

/-- `xdr_rpcb_entry_list_ptr`. -/
def xdrRpcbEntryListPtr (list : List RpcbEntry) : Fallible σ Unit := putLinked xdrRpcbEntry list

/-- The part of `xdr_rpcbs_addrlist` in front of its link. -/
def xdrRpcbsAddr : XdrProc σ RpcbsAddr := fun op objp => do
  let prog ← xdrUInt32T op objp.prog
  let vers ← xdrUInt32T op objp.vers
  let success ← xdrInt op objp.success
  let failure ← xdrInt op objp.failure
  let netid ← xdrText rpcMaxdatasize op objp.netid
  pure { prog := prog, vers := vers, success := success, failure := failure, netid := netid }

/-- The part of `xdr_rpcbs_rmtcalllist` in front of its link. -/
def putRpcbsRmtcall (objp : RpcbsRmtcall) : Fallible σ Unit := do
  inlineWords [objp.prog, objp.vers, objp.proc, objp.success, objp.failure, objp.indirect]
  let _ ← xdrText rpcMaxdatasize .encode objp.netid
  pure ()

/-- `xdr_rpcbs_addrlist_ptr`. The filter calls itself for the rest of the list. -/
def xdrRpcbsAddrlistPtr (list : List RpcbsAddr) : Fallible σ Unit := putLinked xdrRpcbsAddr list

/-- `xdr_rpcbs_rmtcalllist_ptr`. -/
def xdrRpcbsRmtcalllistPtr (list : List RpcbsRmtcall) : Fallible σ Unit :=
  putLinked (fun _ objp => do
    putRpcbsRmtcall objp
    pure objp) list

/-- `xdr_rpcbs_proc`. -/
def xdrRpcbsProc (info : Fin rpcbstatHighproc → BitVec 32) : Fallible σ Unit := do
  let _ ← xdrVector rpcbstatHighproc xdrInt .encode (List.ofFn info)
  pure ()

/-- `xdr_rpcb_stat`. -/
def xdrRpcbStat (objp : RpcbStat) : Fallible σ Unit := do
  xdrRpcbsProc objp.info
  let _ ← xdrInt .encode objp.setinfo
  let _ ← xdrInt .encode objp.unsetinfo
  xdrRpcbsAddrlistPtr objp.addrinfo
  xdrRpcbsRmtcalllistPtr objp.rmtinfo

/-- `xdr_rpcb_stat_byvers`. -/
def xdrRpcbStatByvers (inf : RpcbStatByvers) : Fallible σ Unit := do
  let _ ← xdrVector rpcbversStat (fun _ objp => do
    xdrRpcbStat objp
    pure objp) .encode (List.ofFn inf)
  pure ()

end Filters

/-! ### The bytes -/

/-- A string as it is put. -/
def textBytes (s : CString) : List UInt8 :=
  Word.toBytes (BitVec.ofNat 32 (strlen (s ++ [0]))) ++ padded (cString (s ++ [0]))

/-- A list as it is put. -/
def linkedBytes {α : Type} (enc : α → List UInt8) : List α → List UInt8
  | [] => Word.toBytes 0
  | a :: rest => Word.toBytes 1 ++ (enc a ++ linkedBytes enc rest)

def Pmap.bytes (regs : Pmap) : List UInt8 :=
  Word.toBytes regs.pmProg ++ (Word.toBytes regs.pmVers ++
    (Word.toBytes (BitVec.ofNat 32 regs.pmProt) ++ Word.toBytes (BitVec.ofNat 32 regs.pmPort)))

def Rpcb.bytes (objp : Rpcb) : List UInt8 :=
  Word.toBytes objp.rProg ++ (Word.toBytes objp.rVers ++ (textBytes objp.rNetid ++
    (textBytes objp.rAddr ++ textBytes objp.rOwner)))

def RpcbEntry.bytes (objp : RpcbEntry) : List UInt8 :=
  textBytes objp.rMaddr ++ (textBytes objp.rNcNetid ++ (Word.toBytes objp.rNcSemantics ++
    (textBytes objp.rNcProtofmly ++ textBytes objp.rNcProto)))

def Netbuf.bytes (objp : Netbuf) : List UInt8 :=
  Word.toBytes objp.maxlen ++ (Word.toBytes objp.len ++
    padded ((objp.buf.getD []).take objp.len.toNat))

def RpcbsAddr.bytes (objp : RpcbsAddr) : List UInt8 :=
  Word.toBytes objp.prog ++ (Word.toBytes objp.vers ++ (Word.toBytes objp.success ++
    (Word.toBytes objp.failure ++ textBytes objp.netid)))

def RpcbsRmtcall.bytes (objp : RpcbsRmtcall) : List UInt8 :=
  [objp.prog, objp.vers, objp.proc, objp.success, objp.failure, objp.indirect].flatMap
    Word.toBytes ++ textBytes objp.netid

def RpcbStat.bytes (objp : RpcbStat) : List UInt8 :=
  (List.ofFn objp.info).flatMap Word.toBytes ++ (Word.toBytes objp.setinfo ++
    (Word.toBytes objp.unsetinfo ++ (linkedBytes RpcbsAddr.bytes objp.addrinfo ++
      linkedBytes RpcbsRmtcall.bytes objp.rmtinfo)))

/-- A string that the filters let through. -/
def CString.Short (s : CString) : Prop := s.length ≤ rpcMaxdatasize

/-- An entry of which all the strings are let through. -/
structure Rpcb.Short (objp : Rpcb) : Prop where
  netid : CString.Short objp.rNetid
  addr : CString.Short objp.rAddr
  owner : CString.Short objp.rOwner

structure RpcbEntry.Short (objp : RpcbEntry) : Prop where
  maddr : CString.Short objp.rMaddr
  netid : CString.Short objp.rNcNetid
  protofmly : CString.Short objp.rNcProtofmly
  proto : CString.Short objp.rNcProto

structure RpcbStat.Short (objp : RpcbStat) : Prop where
  addrinfo : ∀ al ∈ objp.addrinfo, CString.Short al.netid
  rmtinfo : ∀ rl ∈ objp.rmtinfo, CString.Short rl.netid

/-- An address whose length the filter lets through. -/
structure Netbuf.Short (objp : Netbuf) : Prop where
  maxlen : objp.maxlen.toNat ≤ rpcMaxdatasize
  len : objp.len.toNat ≤ objp.maxlen.toNat
  within : objp.len.toNat ≤ (objp.buf.getD []).length

theorem strlen_append_nul_le (s : CString) : strlen (s ++ [0]) ≤ s.length := by
  have hPrefix : cString (s ++ [0]) <+: s ++ [0] := List.takeWhile_prefix _
  rcases Nat.lt_or_ge s.length (strlen (s ++ [0])) with hLong | hShort
  · have hWhole : cString (s ++ [0]) = s ++ [0] := by
      apply hPrefix.eq_of_length_le
      rw [List.length_append, List.length_singleton]
      exact hLong
    have hEnd : (0 : UInt8) ∈ cString (s ++ [0]) := by
      rw [hWhole]
      exact List.mem_append_right s (List.mem_singleton_self 0)
    have hNot := List.mem_takeWhile_imp hEnd
    simp at hNot
  · exact hShort

section Emits

variable {σ α : Type} [XdrOps σ] [XdrSink σ]

theorem emits_xdrText {s : CString} (h : CString.Short s) :
    Emits (xdrText rpcMaxdatasize .encode s : Fallible σ _) (cString (s ++ [0])) (textBytes s) := by
  have hLen : strlen (s ++ [0]) ≤ rpcMaxdatasize := (strlen_append_nul_le s).trans h
  have hSize : strlen (s ++ [0]) < 2 ^ 32 := Nat.lt_of_le_of_lt hLen (by decide)
  exact (emits_xdrString rpcMaxdatasize (s ++ [0]) hLen hSize).bind_pure rfl

theorem emits_xdrReference (zero : α) {loc loc' : α} {proc : XdrProc σ α} {bs : List UInt8}
    (h : Emits (proc .encode loc) loc' bs) :
    Emits (xdrReference zero proc .encode (some loc)) (some loc') bs :=
  h.bind_pure rfl

/-- The induction is on the list. -/
theorem emits_putLinked {proc : XdrProc σ α} {enc : α → List UInt8} (list : List α)
    (h : ∀ a ∈ list, ∃ a', Emits (proc .encode a) a' (enc a)) :
    Emits (putLinked proc list) () (linkedBytes enc list) := by
  induction list with
  | nil => exact (emits_xdrInteger _ _ _).bind_pure rfl
  | cons a rest ih =>
      obtain ⟨a', hElem⟩ := h a List.mem_cons_self
      refine (emits_xdrInteger _ _ _).bind ((emits_xdrReference a hElem).bind ?_)
      exact ih fun b hMem => h b (List.mem_cons_of_mem a hMem)

theorem emits_xdrPmap (regs : Pmap) :
    ∃ regs', Emits (xdrPmap .encode regs : Fallible σ _) regs' (Pmap.bytes regs) :=
  ⟨_, (emits_xdrInteger id id _).bind <| (emits_xdrInteger id id _).bind <|
    (emits_xdrInteger id id _).bind <| (emits_xdrInteger id id _).bind_pure rfl⟩

theorem emits_xdrRpcb {objp : Rpcb} (h : objp.Short) :
    ∃ objp', Emits (xdrRpcb .encode objp : Fallible σ _) objp' (Rpcb.bytes objp) :=
  ⟨_, (emits_xdrInteger id id _).bind <| (emits_xdrInteger id id _).bind <|
    (emits_xdrText h.netid).bind <| (emits_xdrText h.addr).bind <|
      (emits_xdrText h.owner).bind_pure rfl⟩

theorem emits_xdrRpcbEntry {objp : RpcbEntry} (h : objp.Short) :
    ∃ objp', Emits (xdrRpcbEntry .encode objp : Fallible σ _) objp' (RpcbEntry.bytes objp) :=
  ⟨_, (emits_xdrText h.maddr).bind <| (emits_xdrText h.netid).bind <|
    (emits_xdrInteger id id _).bind <| (emits_xdrText h.protofmly).bind <|
      (emits_xdrText h.proto).bind_pure rfl⟩

theorem emits_xdrNetbuf {objp : Netbuf} (h : objp.Short) :
    ∃ objp', Emits (xdrNetbuf .encode objp : Fallible σ _) objp' (Netbuf.bytes objp) :=
  ⟨_, (emits_xdrInteger id id _).bind <| Emits.require (Nat.not_lt.mpr h.maxlen) <|
    (emits_xdrBytes objp.maxlen.toNat objp.buf objp.len h.len h.within).bind_pure rfl⟩

theorem emits_xdrRpcbsAddr {objp : RpcbsAddr} (h : CString.Short objp.netid) :
    ∃ objp', Emits (xdrRpcbsAddr .encode objp : Fallible σ _) objp' (RpcbsAddr.bytes objp) :=
  ⟨_, (emits_xdrInteger id id _).bind <| (emits_xdrInteger id id _).bind <|
    (emits_xdrInteger id id _).bind <| (emits_xdrInteger id id _).bind <|
      (emits_xdrText h).bind_pure rfl⟩

theorem emits_putRpcbsRmtcall {objp : RpcbsRmtcall} (h : CString.Short objp.netid) :
    Emits (putRpcbsRmtcall objp : Fallible σ _) () (RpcbsRmtcall.bytes objp) := by
  exact (Emits.inlineWords _).bind ((emits_xdrText h).bind_pure rfl)

/-- The induction is on the elements. -/
theorem emits_xdrElements {proc : XdrProc σ α} {enc : α → List UInt8} (target : List α)
    (h : ∀ a ∈ target, Emits (proc .encode a) a (enc a)) :
    Emits (xdrElements .encode proc target.length target) target (target.flatMap enc) := by
  induction target with
  | nil => exact Emits.pure []
  | cons a rest ih =>
      refine (h a List.mem_cons_self).bind (Emits.bind_pure ?_ rfl)
      exact ih fun b hMem => h b (List.mem_cons_of_mem a hMem)

theorem emits_xdrVector {proc : XdrProc σ α} {enc : α → List UInt8} {n : Nat} (base : Fin n → α)
    (h : ∀ i, Emits (proc .encode (base i)) (base i) (enc (base i))) :
    Emits (xdrVector n proc .encode (List.ofFn base)) (List.ofFn base)
      ((List.ofFn base).flatMap enc) := by
  have hElems : Emits (xdrElements .encode proc (List.ofFn base).length (List.ofFn base))
      (List.ofFn base) ((List.ofFn base).flatMap enc) := by
    apply emits_xdrElements
    intro a hMem
    obtain ⟨i, rfl⟩ := List.mem_ofFn.mp hMem
    exact h i
  rwa [List.length_ofFn] at hElems

theorem emits_xdrRpcbsProc (info : Fin rpcbstatHighproc → BitVec 32) :
    Emits (xdrRpcbsProc info : Fallible σ _) () ((List.ofFn info).flatMap Word.toBytes) :=
  (emits_xdrVector info fun _ => emits_xdrInteger id id _).bind_pure rfl

theorem emits_xdrRpcbStat {objp : RpcbStat} (h : objp.Short) :
    Emits (xdrRpcbStat objp : Fallible σ _) () (RpcbStat.bytes objp) := by
  have hAddrinfo : Emits (xdrRpcbsAddrlistPtr objp.addrinfo : Fallible σ _) ()
      (linkedBytes RpcbsAddr.bytes objp.addrinfo) :=
    emits_putLinked _ fun al hMem => emits_xdrRpcbsAddr (h.addrinfo al hMem)
  have hRmtinfo : Emits (xdrRpcbsRmtcalllistPtr objp.rmtinfo : Fallible σ _) ()
      (linkedBytes RpcbsRmtcall.bytes objp.rmtinfo) :=
    emits_putLinked _ fun rl hMem =>
      ⟨rl, (emits_putRpcbsRmtcall (h.rmtinfo rl hMem)).bind_pure rfl⟩
  refine (emits_xdrRpcbsProc _).bind ((emits_xdrInteger id id _).bind ?_)
  exact (emits_xdrInteger id id _).bind (hAddrinfo.bind hRmtinfo)

theorem emits_xdrRpcbStatByvers {inf : RpcbStatByvers} (h : ∀ rtype, (inf rtype).Short) :
    Emits (xdrRpcbStatByvers inf : Fallible σ _) () ((List.ofFn inf).flatMap RpcbStat.bytes) := by
  refine Emits.bind_pure (emits_xdrVector inf fun rtype => ?_) rfl
  exact (emits_xdrRpcbStat (h rtype)).bind_pure rfl

end Emits

section Reading

variable {σ : Type} [XdrOps σ] {P : σ → Prop}

theorem ReadsStay.xdrText (h : ReadsStay P) (maxsize : Nat) (s : CString) :
    Stays P (xdrText maxsize .decode s) :=
  (h.xdrString maxsize _).bind fun _ => Stays.pure _

theorem ReadsStay.xdrRpcb (h : ReadsStay P) (objp : Rpcb) : Stays P (xdrRpcb .decode objp) :=
  (h.xdrInteger id id _).bind fun _ => (h.xdrInteger id id _).bind fun _ =>
    (h.xdrText _ _).bind fun _ => (h.xdrText _ _).bind fun _ => (h.xdrText _ _).bind fun _ =>
      Stays.pure _

theorem ReadsStay.xdrPmap (h : ReadsStay P) (regs : Pmap) : Stays P (xdrPmap .decode regs) :=
  (h.xdrInteger id id _).bind fun _ => (h.xdrInteger id id _).bind fun _ =>
    (h.xdrInteger id id _).bind fun _ => (h.xdrInteger id id _).bind fun _ => Stays.pure _

theorem ReadsStay.xdrNetbuf (h : ReadsStay P) (objp : Netbuf) :
    Stays P (xdrNetbuf .decode objp) :=
  (h.xdrInteger id id _).bind fun _ => (Stays.require _).bind fun _ =>
    (h.xdrBytes _ _).bind fun _ => Stays.pure _

end Reading

/-! ### Results -/

/-- What a procedure of rpcbind answers with: the filter for its results, and the results. -/
inductive RpcbResult where
  | void
  | long (ans : BitVec 32)
  | bool (ans : Bool)
  | wrapstring (s : CString)
  | netbuf (taddr : Netbuf)
  | pmaplist (list : List Pmap)
  | rpcblist (list : List Rpcb)
  | entryList (list : List RpcbEntry)
  | statByvers (inf : RpcbStatByvers)

namespace RpcbResult

/-- The encoding of a result. -/
def xdr : RpcbResult → XdrFilter Unit
  | void => fun _ => pure ()
  | long ans => fun _ => do
      let _ ← xdrLong .encode ans
      pure ()
  | bool ans => fun _ => do
      let _ ← xdrBool .encode (if ans then 1 else 0)
      pure ()
  | wrapstring s => fun _ => do
      let _ ← xdrWrapstring .encode s
      pure ()
  | netbuf taddr => fun _ => do
      let _ ← xdrNetbuf .encode taddr
      pure ()
  | pmaplist list => fun _ => xdrPmaplist list
  | rpcblist list => fun _ => xdrRpcblistPtr list
  | entryList list => fun _ => xdrRpcbEntryListPtr list
  | statByvers inf => fun _ => xdrRpcbStatByvers inf

def bytes : RpcbResult → List UInt8
  | void => []
  | long ans => Word.toBytes ans
  | bool ans => Word.toBytes (if ans then 1 else 0)
  | wrapstring s => textBytes s
  | netbuf taddr => taddr.bytes
  | pmaplist list => linkedBytes Pmap.bytes list
  | rpcblist list => linkedBytes Rpcb.bytes list
  | entryList list => linkedBytes RpcbEntry.bytes list
  | statByvers inf => (List.ofFn inf).flatMap RpcbStat.bytes

/-- A result in which every text and every address is let through. -/
def Short : RpcbResult → Prop
  | void | long _ | bool _ | pmaplist _ => True
  | wrapstring s => CString.Short s
  | netbuf taddr => taddr.Short
  | rpcblist list => ∀ rbl ∈ list, rbl.Short
  | entryList list => ∀ a ∈ list, a.Short
  | statByvers inf => ∀ rtype, (inf rtype).Short

/-- Such a result can be encoded on every stream that has room for it. -/
theorem emitsAll_xdr {r : RpcbResult} (h : r.Short) : EmitsAll r.xdr () r.bytes := by
  intro σ _ _
  cases r with
  | void => exact Emits.pure ()
  | long ans => exact (emits_xdrInteger id id ans).bind_pure rfl
  | bool ans =>
      have hWord : Emits (xdrBool .encode (if ans then 1 else 0) : Fallible σ _)
          (if ans then 1 else 0) (Word.toBytes (if ans then 1 else 0)) := by
        cases ans <;> exact emits_xdrInteger _ _ _
      exact hWord.bind_pure rfl
  | wrapstring s => exact (emits_xdrText h).bind_pure rfl
  | netbuf taddr =>
      obtain ⟨taddr', hEmits⟩ := emits_xdrNetbuf (σ := σ) h
      exact hEmits.bind_pure rfl
  | pmaplist list => exact emits_putLinked list fun pml _ => emits_xdrPmap pml
  | rpcblist list => exact emits_putLinked list fun rbl hMem => emits_xdrRpcb (h rbl hMem)
  | entryList list => exact emits_putLinked list fun a hMem => emits_xdrRpcbEntry (h a hMem)
  | statByvers inf => exact emits_xdrRpcbStatByvers h

/-- How long a list of ports is when it is put. -/
theorem length_bytes_pmaplist (list : List Pmap) :
    (pmaplist list).bytes.length = 4 + 20 * list.length := by
  show (linkedBytes Pmap.bytes list).length = _
  induction list with
  | nil => rfl
  | cons pml rest ih =>
      simp only [linkedBytes, Pmap.bytes, List.length_append, Word.length_toBytes, ih,
        List.length_cons]
      omega

end RpcbResult
end OncRpc
