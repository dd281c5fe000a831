import Mathlib.Data.Fintype.Basic
import OncRpc.Rpc.RpcbProt
import OncRpc.Rpcbind.CheckBound

/-! `rpcb_stat.c`: what rpcbind counts, by the version that has been asked. -/
namespace OncRpc

namespace RpcbStatByvers

/-- `inf` at the start. -/
def zero : RpcbStatByvers := fun _ =>
  { info := fun _ => 0, setinfo := 0, unsetinfo := 0, addrinfo := [], rmtinfo := [] }

/-- `inf[rtype]` is changed. -/
def change (rtype : Fin rpcbversStat) (f : RpcbStat → RpcbStat) (inf : RpcbStatByvers) :
    RpcbStatByvers :=
  Function.update inf rtype (f (inf rtype))

/-- `rpcb_highproc_2`, `rpcb_highproc_3` and `rpcb_highproc_4`. -/
def rpcbHighproc (rtype : Fin rpcbversStat) : BitVec 32 :=
  if rtype = 0 then rpcbprocCallit else if rtype = 1 then rpcbprocTaddr2uaddr else rpcbprocGetstat

theorem rpcbHighproc_lt {rtype : Fin rpcbversStat} {proc : BitVec 32}
    (h : ¬ proc > rpcbHighproc rtype) : proc.toNat < rpcbstatHighproc := by
  have hHigh : (rpcbHighproc rtype).toNat ≤ 12 := by
    unfold rpcbHighproc
    split
    · decide
    · split <;> decide
  have hLe : proc.toNat ≤ (rpcbHighproc rtype).toNat := Nat.not_lt.mp h
  exact Nat.lt_succ_of_le (hLe.trans hHigh)

/-- `rpcbs_procinfo`. -/
def rpcbsProcinfo (rtype : Fin rpcbversStat) (proc : BitVec 32) (inf : RpcbStatByvers) :
    RpcbStatByvers :=
  if h : proc > rpcbHighproc rtype then inf
  else inf.change rtype fun st =>
    let i : Fin rpcbstatHighproc := ⟨proc.toNat, rpcbHighproc_lt h⟩
    { st with info := Function.update st.info i (st.info i + 1) }

/-- `rpcbs_set`. -/
def rpcbsSet (rtype : Fin rpcbversStat) (success : Bool) (inf : RpcbStatByvers) :
    RpcbStatByvers :=
  if success = false then inf
  else inf.change rtype fun st => { st with setinfo := st.setinfo + 1 }

/-- `rpcbs_unset`. -/
def rpcbsUnset (rtype : Fin rpcbversStat) (success : Bool) (inf : RpcbStatByvers) :
    RpcbStatByvers :=
  if success = false then inf
  else inf.change rtype fun st => { st with unsetinfo := st.unsetinfo + 1 }

/-- The loop of `rpcbs_getaddr`: the list with its first entry for the key counted up, if it
has one. -/
def countGetaddr (prog vers : BitVec 32) (netid : CString) (failed : Bool) :
    List RpcbsAddr → Option (List RpcbsAddr)
  | [] => none
  | al :: rest =>
      if al.prog = prog ∧ al.vers = vers ∧ al.netid = netid then
        some ((if failed then { al with failure := al.failure + 1 }
          else { al with success := al.success + 1 }) :: rest)
      else (countGetaddr prog vers netid failed rest).map fun rest => al :: rest

/-- `rpcbs_getaddr`, when its allocation succeeds. -/
def rpcbsGetaddr (env : RpcbindEnv) (rtype : Fin rpcbversStat) (prog vers : BitVec 32)
    (netid : CString) (uaddr : Option CString) (inf : RpcbStatByvers) : RpcbStatByvers :=
  let failed := decide (uaddr.getD [] = [])
  match countGetaddr prog vers netid failed (inf rtype).addrinfo with
  | some addrinfo => inf.change rtype fun st => { st with addrinfo := addrinfo }
  | none =>
      match env.rpcbindGetConf netid with
      | none => inf
      | some nconf =>
          let al : RpcbsAddr :=
            { prog := prog, vers := vers, netid := nconf.ncNetid
              failure := if failed then 1 else 0, success := if failed then 0 else 1 }
          inf.change rtype fun st => { st with addrinfo := al :: st.addrinfo }

/-- The loop of `rpcbs_rmtcall`. -/
def countRmtcall (rpcbproc prog vers proc : BitVec 32) (netid : CString) (failed : Bool) :
    List RpcbsRmtcall → Option (List RpcbsRmtcall)
  | [] => none
  | rl :: rest =>
      if rl.prog = prog ∧ rl.vers = vers ∧ rl.proc = proc ∧ rl.netid = netid then
        let rl := if failed then { rl with failure := rl.failure + 1 }
          else { rl with success := rl.success + 1 }
        let rl := if rpcbproc = rpcbprocIndirect then { rl with indirect := rl.indirect + 1 }
          else rl
        some (rl :: rest)
      else (countRmtcall rpcbproc prog vers proc netid failed rest).map fun rest => rl :: rest

/-- `rpcbs_rmtcall`, when its allocation succeeds. -/
def rpcbsRmtcall (env : RpcbindEnv) (rtype : Fin rpcbversStat)
    (rpcbproc prog vers proc : BitVec 32) (netid : CString) (rbl : Option Rpcb)
    (inf : RpcbStatByvers) : RpcbStatByvers :=
  let failed := !rbl.any fun rbl => decide (rbl.rVers = vers)
  match countRmtcall rpcbproc prog vers proc netid failed (inf rtype).rmtinfo with
  | some rmtinfo => inf.change rtype fun st => { st with rmtinfo := rmtinfo }
  | none =>
      match env.rpcbindGetConf netid with
      | none => inf
      | some nconf =>
          let rl : RpcbsRmtcall :=
            { prog := prog, vers := vers, proc := proc, netid := nconf.ncNetid
              failure := if failed then 1 else 0, success := if failed then 0 else 1
              indirect := 1 }
          inf.change rtype fun st => { st with rmtinfo := rl :: st.rmtinfo }

/-! ### What is counted can be sent -/

/-- All the netids are let through by the filters. -/
def Short (inf : RpcbStatByvers) : Prop := ∀ rtype, (inf rtype).Short

variable {env : RpcbindEnv} {inf : RpcbStatByvers} {rtype : Fin rpcbversStat}
  {prog vers proc rpcbproc : BitVec 32} {netid : CString}

theorem short_zero : zero.Short := fun _ =>
  ⟨fun _ hMem => (by cases hMem), fun _ hMem => (by cases hMem)⟩

theorem Short.change (h : inf.Short) {f : RpcbStat → RpcbStat}
    (hf : (inf rtype).Short → (f (inf rtype)).Short) : (inf.change rtype f).Short := by
  intro rtype'
  by_cases hSame : rtype' = rtype
  · subst hSame
    rw [RpcbStatByvers.change, Function.update_self]
    exact hf (h rtype')
  · rw [RpcbStatByvers.change, Function.update_of_ne hSame]
    exact h rtype'

theorem Short.rpcbsProcinfo (h : inf.Short) (rtype : Fin rpcbversStat) (proc : BitVec 32) :
    (inf.rpcbsProcinfo rtype proc).Short := by
  unfold RpcbStatByvers.rpcbsProcinfo
  split
  · exact h
  · exact h.change fun hHere => ⟨hHere.addrinfo, hHere.rmtinfo⟩

theorem Short.rpcbsSet (h : inf.Short) (rtype : Fin rpcbversStat) (success : Bool) :
    (inf.rpcbsSet rtype success).Short := by
  unfold RpcbStatByvers.rpcbsSet
  split
  · exact h
  · exact h.change fun hHere => ⟨hHere.addrinfo, hHere.rmtinfo⟩

theorem Short.rpcbsUnset (h : inf.Short) (rtype : Fin rpcbversStat) (success : Bool) :
    (inf.rpcbsUnset rtype success).Short := by
  unfold RpcbStatByvers.rpcbsUnset
  split
  · exact h
  · exact h.change fun hHere => ⟨hHere.addrinfo, hHere.rmtinfo⟩

/-- Counting up changes no netid. The induction is on the list. -/
theorem mem_countGetaddr {failed : Bool} {list counted : List RpcbsAddr}
    (h : countGetaddr prog vers netid failed list = some counted) {al : RpcbsAddr}
    (hMem : al ∈ counted) : ∃ al' ∈ list, al'.netid = al.netid := by
  induction list generalizing counted with
  | nil => cases h
  | cons first rest ih =>
      rw [countGetaddr] at h
      split at h
      · cases h
        rcases List.mem_cons.mp hMem with rfl | hRest
        · refine ⟨first, List.mem_cons_self, ?_⟩
          cases failed <;> rfl
        · exact ⟨al, List.mem_cons_of_mem first hRest, rfl⟩
      · obtain ⟨counted, hRest, rfl⟩ := Option.map_eq_some_iff.mp h
        rcases List.mem_cons.mp hMem with rfl | hMem
        · exact ⟨al, List.mem_cons_self, rfl⟩
        · obtain ⟨al', hMem', hSame⟩ := ih hRest hMem
          exact ⟨al', List.mem_cons_of_mem first hMem', hSame⟩

theorem mem_countRmtcall {failed : Bool} {list counted : List RpcbsRmtcall}
    (h : countRmtcall rpcbproc prog vers proc netid failed list = some counted)
    {rl : RpcbsRmtcall} (hMem : rl ∈ counted) : ∃ rl' ∈ list, rl'.netid = rl.netid := by
  induction list generalizing counted with
  | nil => cases h
  | cons first rest ih =>
      rw [countRmtcall] at h
      split at h
      · cases h
        rcases List.mem_cons.mp hMem with rfl | hRest
        · refine ⟨first, List.mem_cons_self, ?_⟩
          cases failed <;> by_cases hIndirect : rpcbproc = rpcbprocIndirect <;> simp [hIndirect]
        · exact ⟨rl, List.mem_cons_of_mem first hRest, rfl⟩
      · obtain ⟨counted, hRest, rfl⟩ := Option.map_eq_some_iff.mp h
        rcases List.mem_cons.mp hMem with rfl | hMem
        · exact ⟨rl, List.mem_cons_self, rfl⟩
        · obtain ⟨rl', hMem', hSame⟩ := ih hRest hMem
          exact ⟨rl', List.mem_cons_of_mem first hMem', hSame⟩

/-- A netid of `/etc/netconfig` is let through. -/
theorem short_ncNetid (nconf : NetconfigEnt) : CString.Short nconf.ncNetid := by
  have hShort := nconf.short.1
  unfold CString.Short rpcMaxdatasize
  omega

theorem Short.rpcbsGetaddr (h : inf.Short) (env : RpcbindEnv) (rtype : Fin rpcbversStat)
    (prog vers : BitVec 32) (netid : CString) (uaddr : Option CString) :
    (inf.rpcbsGetaddr env rtype prog vers netid uaddr).Short := by
  unfold RpcbStatByvers.rpcbsGetaddr
  dsimp only
  split
  · next addrinfo hCount =>
      refine h.change fun hHere => ⟨fun al hMem => ?_, hHere.rmtinfo⟩
      obtain ⟨al', hMem', hSame⟩ := mem_countGetaddr hCount hMem
      exact hSame ▸ hHere.addrinfo al' hMem'
  · split
    · exact h
    · next nconf hConf =>
        refine h.change fun hHere => ⟨fun al hMem => ?_, hHere.rmtinfo⟩
        rcases List.mem_cons.mp hMem with rfl | hMem
        · exact short_ncNetid nconf
        · exact hHere.addrinfo al hMem

theorem Short.rpcbsRmtcall (h : inf.Short) (env : RpcbindEnv) (rtype : Fin rpcbversStat)
    (rpcbproc prog vers proc : BitVec 32) (netid : CString) (rbl : Option Rpcb) :
    (inf.rpcbsRmtcall env rtype rpcbproc prog vers proc netid rbl).Short := by
  unfold RpcbStatByvers.rpcbsRmtcall
  dsimp only
  split
  · next rmtinfo hCount =>
      refine h.change fun hHere => ⟨hHere.addrinfo, fun rl hMem => ?_⟩
      obtain ⟨rl', hMem', hSame⟩ := mem_countRmtcall hCount hMem
      exact hSame ▸ hHere.rmtinfo rl' hMem'
  · split
    · exact h
    · next nconf hConf =>
        refine h.change fun hHere => ⟨hHere.addrinfo, fun rl hMem => ?_⟩
        rcases List.mem_cons.mp hMem with rfl | hMem
        · exact short_ncNetid nconf
        · exact hHere.rmtinfo rl hMem

/-- What rpcbind may have counted, whatever it has been asked. -/
inductive Gathered (env : RpcbindEnv) : RpcbStatByvers → Prop
  | zero : Gathered env zero
  | procinfo {inf : RpcbStatByvers} (rtype : Fin rpcbversStat) (proc : BitVec 32)
      (before : Gathered env inf) : Gathered env (inf.rpcbsProcinfo rtype proc)
  | set {inf : RpcbStatByvers} (rtype : Fin rpcbversStat) (success : Bool)
      (before : Gathered env inf) : Gathered env (inf.rpcbsSet rtype success)
  | unset {inf : RpcbStatByvers} (rtype : Fin rpcbversStat) (success : Bool)
      (before : Gathered env inf) : Gathered env (inf.rpcbsUnset rtype success)
  | getaddr {inf : RpcbStatByvers} (rtype : Fin rpcbversStat) (prog vers : BitVec 32)
      (netid : CString) (uaddr : Option CString) (before : Gathered env inf) :
      Gathered env (inf.rpcbsGetaddr env rtype prog vers netid uaddr)
  | rmtcall {inf : RpcbStatByvers} (rtype : Fin rpcbversStat)
      (rpcbproc prog vers proc : BitVec 32) (netid : CString) (rbl : Option Rpcb)
      (before : Gathered env inf) :
      Gathered env (inf.rpcbsRmtcall env rtype rpcbproc prog vers proc netid rbl)

theorem Gathered.short (h : Gathered env inf) : inf.Short := by
  induction h with
  | zero => exact short_zero
  | procinfo rtype proc before ih => exact ih.rpcbsProcinfo rtype proc
  | set rtype success before ih => exact ih.rpcbsSet rtype success
  | unset rtype success before ih => exact ih.rpcbsUnset rtype success
  | getaddr rtype prog vers netid uaddr before ih =>
      exact ih.rpcbsGetaddr env rtype prog vers netid uaddr
  | rmtcall rtype rpcbproc prog vers proc netid rbl before ih =>
      exact ih.rpcbsRmtcall env rtype rpcbproc prog vers proc netid rbl

end RpcbStatByvers
end OncRpc
