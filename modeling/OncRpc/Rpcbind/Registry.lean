import OncRpc.Rpc.Address

/-! The two registries of rpcbind: the list of the versions 3 and 4, and the list of the
port mapper. A list is what its `next` pointers lead to. -/
namespace OncRpc

/-- `RPCB`. -/
structure Rpcb where
  rProg : BitVec 32
  rVers : BitVec 32
  rNetid : CString
  rAddr : CString
  rOwner : CString
  deriving DecidableEq, Repr

/-- `struct pmap`. -/
structure Pmap where
  pmProg : BitVec 32
  pmVers : BitVec 32
  pmProt : Nat
  pmPort : Nat
  deriving DecidableEq, Repr

def rpcbindSuperuser : CString := CString.ascii "superuser"
def rpcbindUnknown : CString := CString.ascii "unknown"

/-- The global variables that the registries are kept in. -/
structure Registry where
  listRbl : List Rpcb
  listPml : List Pmap
  udptrans : CString
  tcptrans : CString
  deriving DecidableEq, Repr

namespace Registry

/-- Whether an entry is passed over by `find_service`. -/
def Passed (prog : BitVec 32) (netid : CString) (rbl : Rpcb) : Prop :=
  rbl.rProg ≠ prog ∨ ¬ CString.SameCase rbl.rNetid netid

instance (prog : BitVec 32) (netid : CString) (rbl : Rpcb) : Decidable (Passed prog netid rbl) :=
  inferInstanceAs (Decidable (_ ∨ _))

/-- The loop of `find_service`. -/
def findServiceFrom (prog vers : BitVec 32) (netid : CString) (hit : Option Rpcb) :
    List Rpcb → Option Rpcb
  | [] => hit
  | rbl :: rest =>
      if Passed prog netid rbl then findServiceFrom prog vers netid hit rest
      else if rbl.rVers = vers then some rbl
      else findServiceFrom prog vers netid (some rbl) rest

/-- `find_service`. -/
def findService (prog vers : BitVec 32) (netid : CString) (st : Registry) : Option Rpcb :=
  findServiceFrom prog vers netid none st.listRbl

/-- `((p1 & 0xff) << 8) + (p2 & 0xff)`. -/
def portOf (p1 p2 : Int) : Nat := (p1 % 256).toNat * 256 + (p2 % 256).toNat

/-- `add_pmaplist`, when its allocation succeeds. -/
def addPmaplist (arg : Rpcb) (st : Registry) : Registry :=
  let add (pmProt : Nat) : Registry :=
    match CString.scanDotted 5 arg.rAddr with
    | some [_, _, _, _, p1, p2] =>
        { st with listPml := st.listPml ++
            [{ pmProg := arg.rProg, pmVers := arg.rVers, pmProt := pmProt
               pmPort := portOf p1 p2 }] }
    | _ => st
  if arg.rNetid = st.udptrans then add ipprotoUdp
  else if arg.rNetid = st.tcptrans then add ipprotoTcp
  else st

/-- The loop of `del_pmaplist`. -/
def delPmap (arg : Rpcb) (prot : Nat) : List Pmap → List Pmap
  | [] => []
  | pml :: rest =>
      if pml.pmProg ≠ arg.rProg ∨ pml.pmVers ≠ arg.rVers ∨ (prot ≠ 0 ∧ pml.pmProt ≠ prot) then
        pml :: delPmap arg prot rest
      else delPmap arg prot rest

/-- `del_pmaplist`. -/
def delPmaplist (arg : Rpcb) (st : Registry) : Registry :=
  let del (prot : Nat) : Registry := { st with listPml := delPmap arg prot st.listPml }
  if arg.rNetid = st.udptrans then del ipprotoUdp
  else if arg.rNetid = st.tcptrans then del ipprotoTcp
  else if arg.rNetid = [] then del 0
  else st

/-- `map_set`, when its allocations succeed. -/
def mapSet (regp : Rpcb) (owner : CString) (st : Registry) : Bool × Registry :=
  let add : Bool × Registry :=
    (true, addPmaplist regp { st with listRbl := st.listRbl ++ [{ regp with rOwner := owner }] })
  match st.findService regp.rProg regp.rVers regp.rNetid with
  | some fnd =>
      if fnd.rVers = regp.rVers then (decide (fnd.rAddr = regp.rAddr), st) else add
  | none => add

/-- Whether `map_unset` is asked to remove an entry. -/
def Wanted (regp : Rpcb) (rbl : Rpcb) : Prop :=
  rbl.rProg = regp.rProg ∧ rbl.rVers = regp.rVers ∧
    (regp.rNetid = [] ∨ CString.SameCase regp.rNetid rbl.rNetid)

instance (regp rbl : Rpcb) : Decidable (Wanted regp rbl) := inferInstanceAs (Decidable (_ ∧ _))

/-- Whether the caller may remove an entry. -/
def May (owner : CString) (rbl : Rpcb) : Prop := owner = rpcbindSuperuser ∨ rbl.rOwner = owner

instance (owner : CString) (rbl : Rpcb) : Decidable (May owner rbl) :=
  inferInstanceAs (Decidable (_ ∨ _))

/-- The loop of `map_unset`: whether it comes to the end, what is then in the list, and
`ans`. -/
def unsetFrom (regp : Rpcb) (owner : CString) : List Rpcb → Bool × List Rpcb × Bool
  | [] => (true, [], false)
  | rbl :: rest =>
      if Wanted regp rbl then
        if May owner rbl then
          let (done, rest, _) := unsetFrom regp owner rest
          (done, rest, true)
        else (false, rbl :: rest, false)
      else
        let (done, rest, ans) := unsetFrom regp owner rest
        (done, rbl :: rest, ans)

/-- `map_unset`. -/
def mapUnset (regp : Rpcb) (owner : Option CString) (st : Registry) : Bool × Registry :=
  match owner with
  | none => (false, st)
  | some owner =>
      let (done, list, ans) := unsetFrom regp owner st.listRbl
      let st := { st with listRbl := list }
      if done then (true, if ans then delPmaplist regp st else st) else (false, st)

end Registry

/-- A request to change the registries, with the name of its caller. -/
inductive RpcbRequest where
  | set (regp : Rpcb) (owner : CString)
  | unset (regp : Rpcb) (owner : CString)
  deriving DecidableEq, Repr

namespace RpcbRequest

def owner : RpcbRequest → CString
  | set _ owner => owner
  | unset _ owner => owner

/-- What a request does. -/
def serve (st : Registry) : RpcbRequest → Registry
  | set regp owner => (st.mapSet regp owner).2
  | unset regp owner => (st.mapUnset regp (some owner)).2

/-- One request after the other. -/
def run (st : Registry) (requests : List RpcbRequest) : Registry := requests.foldl serve st

end RpcbRequest
end OncRpc
