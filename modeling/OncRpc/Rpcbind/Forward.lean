import Mathlib.Algebra.Ring.Int.Defs
import Mathlib.Algebra.Ring.Nat
import Mathlib.Data.Fintype.Card
import Mathlib.Data.List.FinRange
import OncRpc.Base.CString
import OncRpc.Svc.FdSet

/-! `rpcb_svc_com.c`: the table of the calls that rpcbind has forwarded. -/
namespace OncRpc

/-- `NFORWARD`. -/
def nforward : Nat := 64

instance : NeZero nforward := ⟨by decide⟩

/-- `MAXTIME_OFF`. -/
def maxtimeOff : Int := 300

/-- `struct finfo`, where `active` is `FINFO_ACTIVE` of its flag. -/
structure Finfo where
  active : Bool := false
  callerXid : BitVec 32 := 0
  callerAddr : Option (List UInt8) := none
  forwardXid : BitVec 32 := 0
  forwardFd : Nat := 0
  uaddr : Option CString := none
  replyType : BitVec 32 := 0
  versnum : BitVec 32 := 0
  time : Int := 0
  deriving DecidableEq, Repr

/-- The arguments of `forward_register` that say which call it is. -/
structure ForwardCall where
  callerXid : BitVec 32
  callerAddr : List UInt8
  forwardFd : Nat
  uaddr : Option CString
  replyType : BitVec 32
  versnum : BitVec 32
  deriving DecidableEq, Repr

/-- `FINFO`, `rpcb_rmtcalls` and `lastxid`, with the descriptors of the server. -/
structure Forwarding where
  finfo : Fin nforward → Finfo
  rpcbRmtcalls : Int
  lastxid : BitVec 32
  fds : SvcFdset

/-- What `forward_register` returns: 1 with `*callxidp`, 0, or -1. -/
inductive RegisterAnswer where
  | registered (callxid : BitVec 32)
  | duplicate
  | failed
  deriving DecidableEq, Repr

/-- A slot holds this very call. -/
def Finfo.Duplicate (call : ForwardCall) (fi : Finfo) : Prop :=
  fi.active ∧ fi.callerXid = call.callerXid ∧ fi.replyType = call.replyType ∧
    fi.versnum = call.versnum ∧ fi.callerAddr = some call.callerAddr

instance (call : ForwardCall) (fi : Finfo) : Decidable (fi.Duplicate call) :=
  inferInstanceAs (Decidable (_ ∧ _))

/-- A call has been waited for long enough. -/
def Finfo.Expired (timeNow : Int) (fi : Finfo) : Prop :=
  fi.active ∧ timeNow - fi.time > maxtimeOff

instance (timeNow : Int) (fi : Finfo) : Decidable (fi.Expired timeNow) :=
  inferInstanceAs (Decidable (_ ∧ _))

namespace Forwarding

/-- The table at the start. -/
def initial (fds : SvcFdset) : Forwarding where
  finfo := fun _ => {}
  rpcbRmtcalls := 0
  lastxid := 0
  fds := fds

/-- `free_slot_by_index`. -/
def freeSlotByIndex (idx : Fin nforward) (st : Forwarding) : Forwarding :=
  let fi := st.finfo idx
  if fi.active then
    let (max, fds) := st.fds.svcFdsetGetmax
    let fds :=
      if (fi.forwardFd : Int) ≥ max then
        let fds := fds.svcFdsetGetmax.2
        { fds with fdmax := fds.fdmax - 1 }
      else fds
    { st with
      finfo := Function.update st.finfo idx { fi with active := false }
      rpcbRmtcalls := st.rpcbRmtcalls - 1
      fds := fds }
  else st

/-- `xid % NFORWARD`. -/
def slotOf (xid : BitVec 32) : Fin nforward := ⟨xid.toNat % nforward, Nat.mod_lt _ (by decide)⟩

/-- `free_slot_by_xid`. -/
def freeSlotByXid (xid : BitVec 32) (st : Forwarding) : Forwarding := st.freeSlotByIndex (slotOf xid)

/-- `forward_find`. -/
def forwardFind (replyXid : BitVec 32) (st : Forwarding) : Option (Fin nforward) :=
  let i := slotOf replyXid
  if (st.finfo i).active ∧ (st.finfo i).forwardXid = replyXid then some i else none

/-- What the loop of `forward_register` has found: `entry` is -1 at first, and `j` is the
slot with the earliest time. -/
structure Scan where
  st : Forwarding
  entry : Option (Fin nforward)
  j : Fin nforward
  minTime : Int

/-- The slot of a duplicate is given a new time. -/
def refresh (i : Fin nforward) (time : Int) (st : Forwarding) : Forwarding :=
  { st with finfo := Function.update st.finfo i { st.finfo i with time := time } }

/-- A slot is released when its call has been waited for long enough. -/
def expire (timeNow : Int) (i : Fin nforward) (st : Forwarding) : Forwarding :=
  if (st.finfo i).Expired timeNow then st.freeSlotByIndex i else st

/-- The loop looks for a slot until it has one that is free. -/
def Scan.look (i : Fin nforward) (sc : Scan) : Scan :=
  if sc.entry = none then
    if (sc.st.finfo i).active = false then { sc with entry := some i }
    else if (sc.st.finfo i).time < sc.minTime then
      { sc with j := i, minTime := (sc.st.finfo i).time }
    else sc
  else sc

/-- The loop of `forward_register`, which a duplicate ends. The clock is read again for
it. -/
def forwardScan (call : ForwardCall) (timeNow timeDup : Int) :
    List (Fin nforward) → Scan → Except Forwarding Scan
  | [], sc => .ok sc
  | i :: rest, sc =>
      if (sc.st.finfo i).Duplicate call then .error (sc.st.refresh i timeDup)
      else
        forwardScan call timeNow timeDup rest
          (Scan.look i { sc with st := sc.st.expire timeNow i })

/-- `lastxid`, the first time it is used. -/
def initXid (timeNow : Int) (st : Forwarding) : Forwarding :=
  if st.lastxid = 0 then { st with lastxid := BitVec.ofInt 32 (timeNow * nforward) } else st

/-- The next `lastxid`, which leaves no slot the xid 0. -/
def nextXid (lastxid : BitVec 32) : BitVec 32 :=
  let lastxid := lastxid + BitVec.ofNat 32 nforward
  if lastxid + BitVec.ofNat 32 nforward ≤ BitVec.ofNat 32 nforward then BitVec.ofNat 32 nforward
  else lastxid

/-- What `forward_register` does with the slot it takes. `dup` says whether `netbufdup`
succeeds. -/
def enter (call : ForwardCall) (timeNow : Int) (dup : Bool) (j : Fin nforward)
    (st : Forwarding) : RegisterAnswer × Forwarding :=
  if dup then
    let lastxid := nextXid st.lastxid
    let callxid := lastxid + BitVec.ofNat 32 j
    (.registered callxid,
      { st with
        finfo := Function.update st.finfo j
          { active := true, callerXid := call.callerXid, callerAddr := some call.callerAddr
            forwardXid := callxid, forwardFd := call.forwardFd, uaddr := call.uaddr
            replyType := call.replyType, versnum := call.versnum, time := timeNow }
        rpcbRmtcalls := st.rpcbRmtcalls + 1
        lastxid := lastxid })
  else
    (.failed,
      { st with finfo := Function.update st.finfo j { st.finfo j with callerAddr := none } })

/-- `forward_register`. -/
def forwardRegister (call : ForwardCall) (timeNow timeDup : Int) (dup : Bool)
    (st : Forwarding) : RegisterAnswer × Forwarding :=
  let minTime := (st.finfo 0).time
  let st := st.initXid timeNow
  match forwardScan call timeNow timeDup (List.finRange nforward)
      { st := st, entry := none, j := 0, minTime := minTime } with
  | .error st => (.duplicate, st)
  | .ok sc =>
      match sc.entry with
      | some j => sc.st.enter call timeNow dup j
      | none => (sc.st.freeSlotByIndex sc.j).enter call timeNow dup sc.j

end Forwarding
end OncRpc
