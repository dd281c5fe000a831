import Mathlib.Data.Set.Finite.Lemmas
import OncRpc.Base.CString
import OncRpc.Base.Heap
import OncRpc.Base.Timeval
import OncRpc.Svc.TableRun
import OncRpc.Svc.Vc

/-! `svc_vc.c`: the connections of a service, and how the idle ones are cleaned out. -/
namespace OncRpc

open Timeval

/-- `struct cf_conn`, with what `rendezvous_request` sets. -/
structure CfService extends CfConn where
  sendsize : BitVec 32
  recvsize : BitVec 32
  maxrec : BitVec 32
  lastRecvTime : Timeval

/-- The `xp_ops` of a transport, by their `xp_recv`, and what `xp_p1` is for them. -/
inductive XpOps where
  | rendezvousRequest
  | svcVcRecv (cd : CfService)
  | other

/-- `SVCXPRT`. -/
structure Svcxprt where
  xpFd : Int
  xpOps : Option XpOps
  xpNetid : Option CString := none
  xpRtaddr : Option (List UInt8) := none
  xpRaddr : List UInt8 := []
  xpAddrlen : Nat := 0

/-- The connection of a transport, if it is one. -/
def Svcxprt.conn : Svcxprt → Option CfService
  | { xpOps := some (.svcVcRecv cd), .. } => some cd
  | _ => none

/-- The transports of a service, and the sockets that are open. -/
structure SvcConns where
  table : SvcTable
  xprts : Heap Svcxprt
  sockets : List Int

namespace SvcConns

/-- `close`. -/
def close (fd : Int) (st : SvcConns) : SvcConns :=
  { st with sockets := st.sockets.filter (· ≠ fd) }

/-- `__xprt_unregister_unlocked` and then `__svc_vc_dodestroy`. There is no result when memory is
touched that was freed or is outside of the table. -/
def svcVcDodestroy (xprt : Nat) (st : SvcConns) : Option SvcConns := do
  let x ← st.xprts.read xprt
  let table ← st.table.xprtDoUnregister xprt x.xpFd
  let st := { st with table := table }
  let st := if x.xpFd ≠ -1 then st.close x.xpFd else st
  let xprts ← st.xprts.free xprt
  pure { st with xprts := xprts }

/-- `tmax`, `least_active` and `ncleaned`. -/
structure Cleaning where
  tmax : Timeval := zero
  leastActive : Option Nat := none
  ncleaned : Nat := 0

/-- The body of the loop of `__svc_clean_idle`. -/
def visit (tv : Timeval) (timeout : Int) (cleanblock : Bool) (i : Nat) (c : Cleaning)
    (st : SvcConns) : Option (Cleaning × SvcConns) :=
  let (isset, fds) := st.table.fds.svcFdsetIsset i
  let st := { st with table := { st.table with fds := fds } }
  if isset then do
    match ← st.table.load i with
    | none => pure (c, st)
    | some xprt => do
        let x ← st.xprts.read xprt
        match x.xpOps with
        | some (.svcVcRecv cd) =>
            if !cleanblock && !cd.nonblock then pure (c, st)
            else if timeout = 0 then
              let tdiff := timersub tv cd.lastRecvTime
              if timerless c.tmax tdiff then
                pure ({ c with tmax := tdiff, leastActive := some xprt }, st)
              else pure (c, st)
            else if timeout < tv.tvSec - cd.lastRecvTime.tvSec then do
              let st ← st.svcVcDodestroy xprt
              pure ({ c with ncleaned := c.ncleaned + 1 }, st)
            else pure (c, st)
        | _ => pure (c, st)
  else some (c, st)

/-- The loop of `__svc_clean_idle`, with a bound on its rounds. `*fdmax` is read anew in each. -/
def cleanFrom (tv : Timeval) (timeout : Int) (cleanblock : Bool) :
    Nat → Nat → Cleaning → SvcConns → Option (Cleaning × SvcConns)
  | 0, _, c, st => some (c, st)
  | n + 1, i, c, st =>
      if st.table.fds.fdmax < i then some (c, st)
      else do
        let (c, st) ← visit tv timeout cleanblock i c st
        cleanFrom tv timeout cleanblock n (i + 1) c st

/-- How `__svc_clean_idle` returns: what it returns, and whether `svc_fd_lock` is held then. -/
structure Cleaned where
  rv : Bool
  held : Bool
  conns : SvcConns

/-- `__svc_clean_idle`. `mem` tells whether the calling thread has its descriptors, or there is
memory for them: without, `svc_fdset_getmax` returns NULL. -/
def svcCleanIdle (mem : Bool) (tv : Timeval) (timeout : Int) (cleanblock : Bool) (st : SvcConns) :
    Option Cleaned :=
  if mem = false then some { rv := false, held := true, conns := st }
  else do
    let (fdmax, fds) := st.table.fds.svcFdsetGetmax
    let st := { st with table := { st.table with fds := fds } }
    let (c, st) ← cleanFrom tv timeout cleanblock (fdmax + 1).toNat 0 {} st
    match c.leastActive with
    | some xprt =>
        if timeout = 0 then do
          let st ← st.svcVcDodestroy xprt
          pure { rv := decide (0 < c.ncleaned + 1), held := false, conns := st }
        else pure { rv := decide (0 < c.ncleaned), held := false, conns := st }
    | none => pure { rv := decide (0 < c.ncleaned), held := false, conns := st }

/-! ### What it is meant to do -/

/-- The connection at a descriptor. -/
def connAt (st : SvcConns) (i : Nat) : Option CfService :=
  (st.table.xports[i]?.join.bind st.xprts.read).bind Svcxprt.conn

/-- The table leads to live transports, each at its own descriptor, and covers the descriptors that
are waited for. The clock has microseconds below a million. -/
structure Valid (st : SvcConns) : Prop where
  inside : ∀ i ∈ st.table.fds.fdset, i < st.table.xports.length
  live : ∀ {i p : Nat}, st.table.xports[i]? = some (some p) →
    ∃ x, st.xprts.read p = some x ∧ x.xpFd = i
  nodup : st.table.fds.fdset.Nodup
  times : ∀ {i cd}, st.connAt i = some cd → cd.lastRecvTime.Normal

/-- The descriptor is that of a registered stream connection which may be cleaned out. -/
structure Eligible (cleanblock : Bool) (st : SvcConns) (i : Nat) (cd : CfService) : Prop where
  waited : i ∈ st.table.fds.fdset
  conn : st.connAt i = some cd
  mode : cleanblock = true ∨ cd.nonblock = true

/-- For how long nothing was received, in microseconds. -/
def idle (tv : Timeval) (cd : CfService) : Int := tv.micros - cd.lastRecvTime.micros

/-- The transports of some descriptors are destroyed, and nothing else changes. -/
structure Destroys (gone : Nat → Prop) (st st' : SvcConns) : Prop where
  registered : ∀ {i}, gone i → ∃ p, st.table.xports[i]? = some (some p)
  taken : ∀ {i p : Nat}, gone i → st.table.xports[i]? = some (some p) →
    st'.table.xports[i]? = some none ∧ st'.xprts.read p = none
  kept : ∀ i, ¬ gone i → st'.table.xports[i]? = st.table.xports[i]?
  waited : ∀ i, i ∈ st'.table.fds.fdset ↔ i ∈ st.table.fds.fdset ∧ ¬ gone i
  xprts : ∀ {p x}, st.xprts.read p = some x →
    (∀ i, gone i → st.table.xports[i]? ≠ some (some p)) → st'.xprts.read p = some x
  freed : ∀ {p}, st.xprts.read p = none → st'.xprts.read p = none
  sockets : ∀ fd : Int, fd ∈ st'.sockets ↔ fd ∈ st.sockets ∧ ∀ i : Nat, gone i → fd ≠ i
  raw : st'.table.raw = st.table.raw
  nodup : st.table.fds.fdset.Nodup → st'.table.fds.fdset.Nodup

/-- With a timeout the connections go that have been idle for longer. -/
def GoneBy (tv : Timeval) (timeout : Int) (cleanblock : Bool) (st : SvcConns) (i : Nat) : Prop :=
  ∃ cd, st.Eligible cleanblock i cd ∧ timeout * 1000000 < idle tv cd

/-- Without, one of those goes that have been idle the longest, if any has been idle at all. -/
def LeastActive (tv : Timeval) (cleanblock : Bool) (st : SvcConns) (i : Nat) : Prop :=
  ∃ cd, st.Eligible cleanblock i cd ∧ 0 < idle tv cd ∧
    ∀ j cd', st.Eligible cleanblock j cd' → idle tv cd' ≤ idle tv cd

/-- `__svc_clean_idle` has done what it is for. -/
def CleansRight (tv : Timeval) (timeout : Int) (cleanblock : Bool) (st : SvcConns) :
    Option Cleaned → Prop
  | none => False
  | some r => r.held = false ∧ ∃ gone : Nat → Prop, Destroys gone st r.conns ∧
      (r.rv = true ↔ ∃ i, gone i) ∧
      if timeout = 0 then
        (∃ i, LeastActive tv cleanblock st i ∧ ∀ j, gone j ↔ j = i) ∨
          ((∀ i, ¬ LeastActive tv cleanblock st i) ∧ ∀ i, ¬ gone i)
      else ∀ i, gone i ↔ GoneBy tv timeout cleanblock st i

/-- The thread has its descriptors. No connection that is to go is above `fdmax`, and none has been
idle for more than the timeout by less than what the microseconds of the clock hide. -/
def CleansWhen (mem : Bool) (tv : Timeval) (timeout : Int) (cleanblock : Bool) (st : SvcConns) :
    Prop :=
  mem = true ∧
    if timeout = 0 then
      ∀ i cd, st.Eligible cleanblock i cd → 0 < idle tv cd →
        ∃ j cd', st.Eligible cleanblock j cd' ∧ (j : Int) ≤ st.table.fds.fdmax ∧
          idle tv cd ≤ idle tv cd'
    else
      ∀ i cd, st.Eligible cleanblock i cd → timeout * 1000000 < idle tv cd →
        (i : Int) ≤ st.table.fds.fdmax ∧ timeout < tv.tvSec - cd.lastRecvTime.tvSec

variable {tv : Timeval} {timeout : Int} {cleanblock : Bool} {st st' st'' : SvcConns}
  {gone gone' : Nat → Prop} {c : Cleaning} {cd : CfService} {i p : Nat}

/-! ### Destroying transports -/

namespace Destroys

theorem refl (st : SvcConns) : Destroys (fun _ => False) st st where
  registered := fun h => h.elim
  taken := fun h => h.elim
  kept := fun _ _ => rfl
  waited := fun _ => (and_iff_left not_false).symm
  xprts := fun h _ => h
  freed := id
  sockets := fun _ => (and_iff_left fun _ h => h.elim).symm
  raw := rfl
  nodup := id

theorem congr (h : Destroys gone st st') (hSame : ∀ i, gone' i ↔ gone i) :
    Destroys gone' st st' := by
  obtain rfl : gone' = gone := funext fun i => propext (hSame i)
  exact h

theorem not_twice (h : Destroys gone st st') (h' : Destroys gone' st' st'') (hi : gone i) :
    ¬ gone' i := by
  intro hAgain
  obtain ⟨p, hp⟩ := h.registered hi
  obtain ⟨q, hq⟩ := h'.registered hAgain
  rw [(h.taken hi hp).1] at hq
  cases hq

theorem trans (h : Destroys gone st st') (h' : Destroys gone' st' st'') :
    Destroys (fun i => gone i ∨ gone' i) st st'' where
  registered := by
    rintro i (hFirst | hSecond)
    · exact h.registered hFirst
    · obtain ⟨p, hp⟩ := h'.registered hSecond
      exact ⟨p, h.kept i (fun hFirst => h.not_twice h' hFirst hSecond) ▸ hp⟩
  taken := by
    rintro i p (hFirst | hSecond) hEntry
    · obtain ⟨hTaken, hFreed⟩ := h.taken hFirst hEntry
      exact ⟨(h'.kept i (h.not_twice h' hFirst)).trans hTaken, h'.freed hFreed⟩
    · refine h'.taken hSecond ?_
      rw [h.kept i fun hFirst => h.not_twice h' hFirst hSecond, hEntry]
  kept := by
    intro i hNot
    rw [not_or] at hNot
    rw [h'.kept i hNot.2, h.kept i hNot.1]
  waited := by
    intro i
    rw [h'.waited, h.waited, not_or, and_assoc]
  xprts := by
    intro p x hRead hOther
    refine h'.xprts (h.xprts hRead fun i hi => hOther i (Or.inl hi)) fun i hi => ?_
    rw [h.kept i fun hFirst => h.not_twice h' hFirst hi]
    exact hOther i (Or.inr hi)
  freed := fun hNone => h'.freed (h.freed hNone)
  sockets := by
    intro fd
    rw [h'.sockets, h.sockets, and_assoc]
    refine and_congr_right fun _ => ⟨fun hBoth i hi => hi.elim (hBoth.1 i) (hBoth.2 i),
      fun hAll => ⟨fun i hi => hAll i (Or.inl hi), fun i hi => hAll i (Or.inr hi)⟩⟩
  raw := h'.raw.trans h.raw
  nodup := fun hNodup => h'.nodup (h.nodup hNodup)

/-- What is destroyed can be told from the tables. -/
theorem gone_iff (h : Destroys gone st st') (i : Nat) :
    gone i ↔ (∃ p, st.table.xports[i]? = some (some p)) ∧ st'.table.xports[i]? = some none := by
  constructor
  · intro hi
    obtain ⟨p, hp⟩ := h.registered hi
    exact ⟨⟨p, hp⟩, (h.taken hi hp).1⟩
  · rintro ⟨⟨p, hp⟩, hTaken⟩
    by_contra hNot
    rw [h.kept i hNot, hp] at hTaken
    cases hTaken

theorem unique (h : Destroys gone st st') (h' : Destroys gone' st st') (i : Nat) :
    gone i ↔ gone' i := (h.gone_iff i).trans (h'.gone_iff i).symm

/-- The connections that are left are as they were. -/
theorem connAt_eq (h : Destroys gone st st') (hValid : st.Valid) (hi : ¬ gone i) :
    st'.connAt i = st.connAt i := by
  unfold connAt
  rw [h.kept i hi]
  cases hEntry : st.table.xports[i]? with
  | none => rfl
  | some entry =>
      cases entry with
      | none => rfl
      | some p =>
          obtain ⟨x, hRead, hFd⟩ := hValid.live hEntry
          have hOther : ∀ j, gone j → st.table.xports[j]? ≠ some (some p) := by
            intro j hj hSame
            obtain ⟨y, hRead', hFd'⟩ := hValid.live hSame
            obtain rfl := Option.some.inj (hRead.symm.trans hRead')
            obtain rfl : i = j := by omega
            exact hi hj
          have hKept := h.xprts hRead hOther
          simp only [Option.join_some, Option.bind_some, hRead, hKept]

theorem eligible_iff (h : Destroys gone st st') (hValid : st.Valid) (hi : ¬ gone i) :
    Eligible cleanblock st' i cd ↔ Eligible cleanblock st i cd := by
  have hConn := h.connAt_eq hValid hi
  have hWaited : i ∈ st'.table.fds.fdset ↔ i ∈ st.table.fds.fdset :=
    (h.waited i).trans (and_iff_left hi)
  exact ⟨fun hEl => ⟨hWaited.mp hEl.waited, hConn ▸ hEl.conn, hEl.mode⟩,
    fun hEl => ⟨hWaited.mpr hEl.waited, hConn.trans hEl.conn, hEl.mode⟩⟩

theorem valid (h : Destroys gone st st') (hValid : st.Valid) : st'.Valid := by
  have hLeft : ∀ {i p : Nat}, st'.table.xports[i]? = some (some p) → ¬ gone i := by
    intro i p hEntry hi
    obtain ⟨q, hq⟩ := h.registered hi
    rw [(h.taken hi hq).1] at hEntry
    cases hEntry
  refine ⟨fun i hi => ?_, fun {i p} hEntry => ?_, h.nodup hValid.nodup, fun {i cd} hConn => ?_⟩
  · obtain ⟨hWaited, hNot⟩ := (h.waited i).mp hi
    have hIn := List.getElem?_eq_getElem (hValid.inside i hWaited)
    rw [← h.kept i hNot] at hIn
    exact (List.getElem?_eq_some_iff.mp hIn).1
  · have hNot := hLeft hEntry
    rw [h.kept i hNot] at hEntry
    obtain ⟨x, hRead, hFd⟩ := hValid.live hEntry
    refine ⟨x, h.xprts hRead fun j hj hSame => ?_, hFd⟩
    obtain ⟨y, hRead', hFd'⟩ := hValid.live hSame
    obtain rfl := Option.some.inj (hRead.symm.trans hRead')
    obtain rfl : i = j := by omega
    exact hNot hj
  · have hNot : ¬ gone i := by
      unfold connAt at hConn
      cases hEntry : st'.table.xports[i]? with
      | none =>
          rw [hEntry] at hConn
          cases hConn
      | some entry =>
          cases entry with
          | none =>
              rw [hEntry] at hConn
              cases hConn
          | some p => exact hLeft hEntry
    rw [h.connAt_eq hValid hNot] at hConn
    exact hValid.times hConn

end Destroys

/-- A transport that is waited for is destroyed, and the maximum stays a member or is behind. -/
theorem svcVcDodestroy_eq (h : st.Valid) (hEntry : st.table.xports[i]? = some (some p))
    {m : Nat} (hMax : st.table.fds.fdmax = m) (hTop : m ∈ st.table.fds.fdset) (hLe : i ≤ m) :
    ∃ st', st.svcVcDodestroy p = some st' ∧ Destroys (· = i) st st' ∧
      (i < m → st'.table.fds.fdmax = m ∧ m ∈ st'.table.fds.fdset) := by
  obtain ⟨x, hRead, hFd⟩ := h.live hEntry
  obtain ⟨fdmax, hLowered, hUnregister⟩ := SvcTable.xprtDoUnregister_of_listed hEntry
  obtain ⟨xprts, hFree, hFreed⟩ := Heap.free_of_read hRead
  obtain ⟨hGetmax, hSame, -, -, -⟩ := SvcXprts.svcFdsetGetmax_spec st.table.fds
  have hStays : st.table.fds.svcFdsetGetmax.1 = m :=
    SvcFdset.fdmax_svcFdsetSanitize_of_mem hMax hTop
  have hRaw : (i : Int) ≠ -1 := by omega
  have hRange : i < st.table.xports.length := (List.getElem?_eq_some_iff.mp hEntry).1
  refine ⟨{ table :=
              { xports := st.table.xports.set i none
                fds := ({ st.table.fds.svcFdsetGetmax.2 with fdmax := fdmax }.svcFdsetClr i).2
                raw := st.table.raw }
            xprts := xprts
            sockets := st.sockets.filter (· ≠ (i : Int)) }, ?_, ?_, fun hLt => ?_⟩
  · simp only [svcVcDodestroy, hRead, hFd, hUnregister, hFree, if_pos hRaw, close,
      Option.bind_eq_bind, Option.bind_some]
    rfl
  · have hSet : ∀ j, j ∈ (SvcFdset.svcFdsetClr i
        { st.table.fds.svcFdsetGetmax.2 with fdmax := fdmax }).2.fdset ↔
        j ∈ st.table.fds.fdset.erase i := by
      intro j
      rw [SvcFdset.fdset_svcFdsetClr]
      exact iff_of_eq (congrArg (fun l => j ∈ List.erase l i) hSame)
    refine ⟨?_, ?_, fun j hj => List.getElem?_set_ne (Ne.symm hj), fun j => ?_, ?_, ?_, ?_, rfl, ?_⟩
    · rintro j rfl
      exact ⟨p, hEntry⟩
    · rintro j q rfl hq
      obtain rfl : p = q := Option.some.inj (Option.some.inj (hEntry.symm.trans hq))
      refine ⟨List.getElem?_set_self hRange, ?_⟩
      show xprts.read p = none
      rw [hFreed.read, if_pos rfl]
    · rw [hSet, h.nodup.mem_erase_iff, and_comm]
    · intro q y hq hOther
      have hNe : q ≠ p := by
        rintro rfl
        exact hOther i rfl hEntry
      show xprts.read q = some y
      rw [hFreed.read, if_neg hNe, hq]
    · intro q hq
      show xprts.read q = none
      rw [hFreed.read]
      split
      · rfl
      · exact hq
    · intro fd
      rw [List.mem_filter, decide_eq_true_eq]
      exact and_congr_right fun _ => ⟨fun hNe j hj => hj ▸ hNe, fun hAll => hAll i rfl⟩
    · intro _
      show (SvcFdset.svcFdsetClr i _).2.fdset.Nodup
      rw [SvcFdset.fdset_svcFdsetClr]
      exact (hSame ▸ h.nodup).erase i
  · rw [hStays, if_pos (Int.ofNat_lt.mpr hLt)] at hLowered
    have hMem : m ∈ st.table.fds.svcFdsetGetmax.2.fdset.erase i := by
      rw [hSame, h.nodup.mem_erase_iff]
      exact ⟨Nat.ne_of_gt hLt, hTop⟩
    refine ⟨SvcFdset.fdmax_svcFdsetClr_of_mem hLowered hMem, ?_⟩
    show m ∈ (SvcFdset.svcFdsetClr i _).2.fdset
    rw [SvcFdset.fdset_svcFdsetClr]
    exact hMem

/-! ### One round of the loop -/

/-- What `svc_fdset_isset` leaves behind. -/
def looked (i : Nat) (st : SvcConns) : SvcConns :=
  { st with table := { st.table with fds := st.table.fds.svcFdsetAlloc i } }

theorem destroys_looked (i : Nat) (st : SvcConns) : Destroys (fun _ => False) st (st.looked i) :=
  { Destroys.refl st with }

/-- An entry that may not be cleaned out is passed over. -/
theorem visit_of_not_eligible (h : st.Valid) (hNot : ∀ cd, ¬ Eligible cleanblock st i cd) :
    visit tv timeout cleanblock i c st = some (c, st.looked i) := by
  unfold visit SvcFdset.svcFdsetIsset
  by_cases hWaited : i ∈ st.table.fds.fdset
  · have hIn := h.inside i hWaited
    have hEntry := List.getElem?_eq_getElem hIn
    simp only [hWaited, decide_true, if_true, SvcTable.load_natCast, Option.bind_eq_bind]
    cases hXprt : st.table.xports[i] with
    | none =>
        rw [hXprt] at hEntry
        rw [hEntry]
        rfl
    | some p =>
        rw [hXprt] at hEntry
        obtain ⟨x, hRead, -⟩ := h.live hEntry
        have hConn : st.connAt i = x.conn := by
          rw [connAt, hEntry, Option.join_some, Option.bind_some, hRead, Option.bind_some]
        simp only [hEntry, Option.bind_some, hRead]
        obtain ⟨xpFd, xpOps⟩ := x
        rcases xpOps with _ | (_ | cd | _)
        · rfl
        · rfl
        · have hMode : ¬ (cleanblock = true ∨ cd.nonblock = true) := fun hMode =>
            hNot cd ⟨hWaited, hConn, hMode⟩
          have hTest : (!cleanblock && !cd.nonblock) = true := by simpa using hMode
          simp only [hTest, if_true]
          rfl
        · rfl
  · simp only [hWaited, decide_false]
    rfl

/-- A connection that may be cleaned out is the least active one so far, or has been idle for too
long, or is passed over. -/
theorem visit_of_eligible (tv : Timeval) (timeout : Int) (c : Cleaning)
    (h : Eligible cleanblock st i cd) :
    ∃ p, st.table.xports[i]? = some (some p) ∧ visit tv timeout cleanblock i c st =
      if timeout = 0 then
        if timerless c.tmax (timersub tv cd.lastRecvTime) then
          some ({ c with tmax := timersub tv cd.lastRecvTime, leastActive := some p }, st.looked i)
        else some (c, st.looked i)
      else if timeout < tv.tvSec - cd.lastRecvTime.tvSec then
        ((st.looked i).svcVcDodestroy p).map fun st => ({ c with ncleaned := c.ncleaned + 1 }, st)
      else some (c, st.looked i) := by
  obtain ⟨x, hFound, hConn⟩ := Option.bind_eq_some_iff.mp h.conn
  obtain ⟨p, hEntry, hRead⟩ := Option.bind_eq_some_iff.mp hFound
  have hEntry : st.table.xports[i]? = some (some p) := Option.join_eq_some_iff.mp hEntry
  refine ⟨p, hEntry, ?_⟩
  have hTest : (!cleanblock && !cd.nonblock) = false := by
    rcases h.mode with hMode | hMode <;> simp [hMode]
  obtain ⟨xpFd, xpOps⟩ := x
  rcases xpOps with _ | (_ | cd' | _)
  · cases hConn
  · cases hConn
  · obtain rfl : cd' = cd := Option.some.inj hConn
    unfold visit SvcFdset.svcFdsetIsset
    simp only [h.waited, decide_true, if_true, SvcTable.load_natCast, Option.bind_eq_bind, hEntry,
      Option.bind_some, hRead, hTest, Bool.false_eq_true, if_false]
    split
    · split <;> rfl
    · split
      · rw [Option.map_eq_bind]
        rfl
      · rfl
  · cases hConn

/-! ### The loop with a timeout -/

/-- By the seconds alone the connection has been idle for longer than the timeout. -/
def Stale (tv : Timeval) (timeout : Int) (cleanblock : Bool) (st : SvcConns) (i : Nat) : Prop :=
  ∃ cd, Eligible cleanblock st i cd ∧ timeout < tv.tvSec - cd.lastRecvTime.tvSec

/-- The stale connections below `i` have been destroyed. -/
structure Swept (tv : Timeval) (timeout : Int) (cleanblock : Bool) (st : SvcConns) (m i : Nat)
    (c : Cleaning) (st' : SvcConns) : Prop where
  destroys : Destroys (fun j => j < i ∧ Stale tv timeout cleanblock st j) st st'
  top : i ≤ m → st'.table.fds.fdmax = m ∧ m ∈ st'.table.fds.fdset
  cleaned : 0 < c.ncleaned ↔ ∃ j < i, Stale tv timeout cleanblock st j
  least : c.leastActive = none

theorem Eligible.unique {cd' : CfService} (h : Eligible cleanblock st i cd)
    (h' : Eligible cleanblock st i cd') : cd = cd' := Option.some.inj (h.conn.symm.trans h'.conn)

/-- A round sweeps one entry more. -/
theorem Swept.visit {m : Nat} (h : Swept tv timeout cleanblock st m i c st') (hValid : st.Valid)
    (hTimeout : timeout ≠ 0) (hLe : i ≤ m) :
    ∃ c' st'', visit tv timeout cleanblock i c st' = some (c', st'') ∧
      Swept tv timeout cleanblock st m (i + 1) c' st'' := by
  obtain ⟨hMax, hTop⟩ := h.top hLe
  have hStill : st'.Valid := h.destroys.valid hValid
  have hEligible : ∀ cd, Eligible cleanblock st' i cd ↔ Eligible cleanblock st i cd := fun cd =>
    h.destroys.eligible_iff hValid fun hGone => Nat.lt_irrefl i hGone.1
  have hPassed : ¬ Stale tv timeout cleanblock st i →
      Swept tv timeout cleanblock st m (i + 1) c (st'.looked i) := by
    intro hNot
    have hSame : ∀ j, j < i + 1 ∧ Stale tv timeout cleanblock st j ↔
        j < i ∧ Stale tv timeout cleanblock st j := fun j =>
      ⟨fun ⟨hj, hStale⟩ => ⟨Nat.lt_of_le_of_ne (Nat.le_of_lt_succ hj) fun hji =>
        hNot (hji ▸ hStale), hStale⟩, fun ⟨hj, hStale⟩ => ⟨Nat.lt_succ_of_lt hj, hStale⟩⟩
    refine ⟨(h.destroys.trans (destroys_looked i st')).congr fun j => ?_, fun _ => ⟨hMax, hTop⟩, ?_,
      h.least⟩
    · rw [or_false, hSame j]
    · rw [h.cleaned]
      exact exists_congr fun j => (hSame j).symm
  by_cases hSome : ∃ cd, Eligible cleanblock st' i cd
  · obtain ⟨cd, hEl⟩ := hSome
    obtain ⟨p, hEntry, hVisit⟩ := visit_of_eligible tv timeout c hEl
    rw [if_neg hTimeout] at hVisit
    by_cases hLong : timeout < tv.tvSec - cd.lastRecvTime.tvSec
    · have hStale : Stale tv timeout cleanblock st i := ⟨cd, (hEligible cd).mp hEl, hLong⟩
      have hLooked := destroys_looked i st'
      obtain ⟨st'', hRun, hDestroys, hStays⟩ :=
        svcVcDodestroy_eq (hLooked.valid hStill) hEntry hMax hTop hLe
      rw [if_pos hLong, hRun] at hVisit
      refine ⟨_, st'', hVisit, ?_, fun hNext => hStays hNext, ?_, h.least⟩
      · refine ((h.destroys.trans hLooked).trans hDestroys).congr fun j => ?_
        constructor
        · rintro ⟨hj, hStale'⟩
          rcases Nat.lt_succ_iff_lt_or_eq.mp hj with hLt | rfl
          · exact Or.inl (Or.inl ⟨hLt, hStale'⟩)
          · exact Or.inr rfl
        · rintro ((⟨hj, hStale'⟩ | hNone) | rfl)
          · exact ⟨Nat.lt_succ_of_lt hj, hStale'⟩
          · exact hNone.elim
          · exact ⟨Nat.lt_succ_self j, hStale⟩
      · exact ⟨fun _ => ⟨i, Nat.lt_succ_self i, hStale⟩, fun _ => Nat.succ_pos _⟩
    · rw [if_neg hLong] at hVisit
      refine ⟨c, _, hVisit, hPassed ?_⟩
      rintro ⟨cd', hEl', hLong'⟩
      obtain rfl := hEl'.unique ((hEligible cd).mp hEl)
      exact hLong hLong'
  · have hNone : ∀ cd, ¬ Eligible cleanblock st' i cd := fun cd hEl => hSome ⟨cd, hEl⟩
    refine ⟨c, _, visit_of_not_eligible hStill hNone, hPassed ?_⟩
    rintro ⟨cd, hEl, -⟩
    exact hNone cd ((hEligible cd).mpr hEl)

/-- The loop sweeps all entries up to the maximum. -/
theorem Swept.cleanFrom {m n : Nat} (h : Swept tv timeout cleanblock st m i c st')
    (hValid : st.Valid) (hTimeout : timeout ≠ 0) (hFuel : i + n = m + 1) :
    ∃ c' st'', cleanFrom tv timeout cleanblock n i c st' = some (c', st'') ∧
      Swept tv timeout cleanblock st m (m + 1) c' st'' := by
  induction n generalizing i c st' with
  | zero =>
      obtain rfl : i = m + 1 := hFuel
      exact ⟨c, st', rfl, h⟩
  | succ n ih =>
      have hLe : i ≤ m := by omega
      obtain ⟨c', st₁, hVisit, hNext⟩ := h.visit hValid hTimeout hLe
      obtain ⟨c'', st₂, hRest, hAll⟩ := ih hNext (by omega)
      refine ⟨c'', st₂, ?_, hAll⟩
      have hGoesOn : ¬ st'.table.fds.fdmax < i := by
        rw [(h.top hLe).1]
        omega
      rw [SvcConns.cleanFrom, if_neg hGoesOn, hVisit]
      exact hRest

/-! ### The loop without a timeout -/

/-- `tmax` is the longest idle time below `i`, and `least_active` is a connection that has it. -/
structure Sought (tv : Timeval) (cleanblock : Bool) (st : SvcConns) (m i : Nat) (c : Cleaning)
    (st' : SvcConns) : Prop where
  same : Destroys (fun _ => False) st st'
  top : st'.table.fds.fdmax = m ∧ m ∈ st'.table.fds.fdset
  cleaned : c.ncleaned = 0
  normal : c.tmax.Normal
  longest : ∀ j < i, ∀ cd, Eligible cleanblock st j cd → idle tv cd ≤ c.tmax.micros
  none : c.leastActive = none → c.tmax.micros = 0
  least : ∀ p, c.leastActive = some p → 0 < c.tmax.micros ∧ ∃ j < i, ∃ cd,
    st.table.xports[j]? = some (some p) ∧ Eligible cleanblock st j cd ∧ idle tv cd = c.tmax.micros

/-- A round looks at one entry more. -/
theorem Sought.visit {m : Nat} (h : Sought tv cleanblock st m i c st') (hValid : st.Valid)
    (hTv : tv.Normal) :
    ∃ c' st'', visit tv 0 cleanblock i c st' = some (c', st'') ∧
      Sought tv cleanblock st m (i + 1) c' st'' := by
  have hStill : st'.Valid := h.same.valid hValid
  have hEligible : ∀ cd, Eligible cleanblock st' i cd ↔ Eligible cleanblock st i cd := fun cd =>
    h.same.eligible_iff hValid not_false
  have hSame : Destroys (fun _ => False) st (st'.looked i) :=
    (h.same.trans (destroys_looked i st')).congr fun _ => (or_self_iff).symm
  have hPassed : (∀ cd, Eligible cleanblock st i cd → idle tv cd ≤ c.tmax.micros) →
      Sought tv cleanblock st m (i + 1) c (st'.looked i) := by
    intro hShort
    refine ⟨hSame, h.top, h.cleaned, h.normal, fun j hj => ?_, h.none, fun p hp => ?_⟩
    · rcases Nat.lt_succ_iff_lt_or_eq.mp hj with hLt | rfl
      · exact h.longest j hLt
      · exact hShort
    · obtain ⟨hPos, j, hj, hLeast⟩ := h.least p hp
      exact ⟨hPos, j, Nat.lt_succ_of_lt hj, hLeast⟩
  by_cases hSome : ∃ cd, Eligible cleanblock st' i cd
  · obtain ⟨cd, hEl⟩ := hSome
    have hEl' := (hEligible cd).mp hEl
    obtain ⟨p, hEntry, hVisit⟩ := visit_of_eligible tv 0 c hEl
    have hDiff : (timersub tv cd.lastRecvTime).Normal := hTv.timersub (hValid.times hEl'.conn)
    have hIdle : (timersub tv cd.lastRecvTime).micros = idle tv cd := micros_timersub _ _
    have hTest := timerless_iff h.normal hDiff
    rw [hIdle] at hTest
    rw [if_pos rfl] at hVisit
    by_cases hLonger : c.tmax.micros < idle tv cd
    · have hPos : 0 ≤ c.tmax.micros := by
        cases hLeast : c.leastActive with
        | none => exact (h.none hLeast).ge
        | some p => exact (h.least p hLeast).1.le
      rw [if_pos (hTest.mpr hLonger)] at hVisit
      refine ⟨_, _, hVisit, hSame, h.top, h.cleaned, hDiff, fun j hj cd' hEl'' => ?_,
        fun hNone => (nomatch hNone), fun q hq => ?_⟩
      · rw [hIdle]
        rcases Nat.lt_succ_iff_lt_or_eq.mp hj with hLt | rfl
        · exact (h.longest j hLt cd' hEl'').trans hLonger.le
        · rw [hEl'.unique hEl'']
      · obtain rfl : p = q := Option.some.inj hq
        rw [hIdle]
        have hEntry' : st.table.xports[i]? = some (some p) :=
          (h.same.kept i not_false).symm.trans hEntry
        exact ⟨hPos.trans_lt hLonger, i, Nat.lt_succ_self i, cd, hEntry', hEl', rfl⟩
    · rw [if_neg (fun hTrue => hLonger (hTest.mp hTrue))] at hVisit
      refine ⟨c, _, hVisit, hPassed fun cd' hEl'' => ?_⟩
      obtain rfl := hEl'.unique hEl''
      exact Int.not_lt.mp hLonger
  · have hNone : ∀ cd, ¬ Eligible cleanblock st' i cd := fun cd hEl => hSome ⟨cd, hEl⟩
    exact ⟨c, _, visit_of_not_eligible hStill hNone,
      hPassed fun cd hEl => absurd ((hEligible cd).mpr hEl) (hNone cd)⟩

/-- The loop looks at all entries up to the maximum. -/
theorem Sought.cleanFrom {m n : Nat} (h : Sought tv cleanblock st m i c st') (hValid : st.Valid)
    (hTv : tv.Normal) (hFuel : i + n = m + 1) :
    ∃ c' st'', cleanFrom tv 0 cleanblock n i c st' = some (c', st'') ∧
      Sought tv cleanblock st m (m + 1) c' st'' := by
  induction n generalizing i c st' with
  | zero =>
      obtain rfl : i = m + 1 := hFuel
      exact ⟨c, st', rfl, h⟩
  | succ n ih =>
      obtain ⟨c', st₁, hVisit, hNext⟩ := h.visit hValid hTv
      obtain ⟨c'', st₂, hRest, hAll⟩ := ih hNext (by omega)
      refine ⟨c'', st₂, ?_, hAll⟩
      have hGoesOn : ¬ st'.table.fds.fdmax < i := by
        rw [h.top.1]
        omega
      rw [SvcConns.cleanFrom, if_neg hGoesOn, hVisit]
      exact hRest

/-! ### The whole call -/

/-- What `svc_fdset_getmax` leaves behind. -/
def measured (st : SvcConns) : SvcConns :=
  { st with table := { st.table with fds := st.table.fds.svcFdsetGetmax.2 } }

theorem destroys_measured (st : SvcConns) : Destroys (fun _ => False) st st.measured := by
  have hSame := (SvcXprts.svcFdsetGetmax_spec st.table.fds).2.1
  refine { Destroys.refl st with waited := fun i => ?_, nodup := fun h => ?_ }
  · show i ∈ st.table.fds.svcFdsetGetmax.2.fdset ↔ _
    rw [hSame, not_false_eq_true, and_true]
  · show st.table.fds.svcFdsetGetmax.2.fdset.Nodup
    rwa [hSame]

/-- `svc_fdset_getmax` passes over no member. -/
theorem le_getmax_iff {fds : SvcFdset} (h : i ∈ fds.fdset) :
    (i : Int) ≤ fds.svcFdsetGetmax.1 ↔ (i : Int) ≤ fds.fdmax := by
  have hSpec := SvcXprts.svcFdsetGetmax_spec fds
  refine ⟨fun hLe => hLe.trans hSpec.2.2.1, fun hLe => ?_⟩
  have hPos : ¬ (fds.svcFdsetAlloc 0).fdmax < 0 := by
    show ¬ fds.fdmax < 0
    omega
  show (i : Int) ≤ (SvcFdset.svcFdsetSanitize _).fdmax
  rw [SvcFdset.svcFdsetSanitize, if_neg hPos]
  refine (SvcFdset.sanitizeFrom_spec fds.fdset _).2 i h ?_
  show i < fds.fdmax.toNat + 1
  omega

/-- The maximum is a member, or negative. -/
theorem getmax_cases (st : SvcConns) :
    st.table.fds.svcFdsetGetmax.1 < 0 ∨ ∃ m : Nat, st.table.fds.svcFdsetGetmax.1 = m ∧
      st.measured.table.fds.fdmax = m ∧ m ∈ st.measured.table.fds.fdset := by
  obtain ⟨hMax, hSame, -, -, hMember⟩ := SvcXprts.svcFdsetGetmax_spec st.table.fds
  rcases lt_or_ge st.table.fds.svcFdsetGetmax.1 0 with hNeg | hPos
  · exact Or.inl hNeg
  · obtain ⟨m, hm⟩ := Int.eq_ofNat_of_zero_le hPos
    refine Or.inr ⟨m, hm, hMax.symm.trans hm, ?_⟩
    show m ∈ st.table.fds.svcFdsetGetmax.2.fdset
    rw [hSame]
    exact hMember m hm

/-- With a timeout the stale connections up to the maximum are destroyed. -/
theorem svcCleanIdle_timeout (tv : Timeval) (cleanblock : Bool) (hValid : st.Valid)
    (hTimeout : timeout ≠ 0) :
    ∃ r, svcCleanIdle true tv timeout cleanblock st = some r ∧ r.held = false ∧
      Destroys (fun j => (j : Int) ≤ st.table.fds.svcFdsetGetmax.1 ∧
        Stale tv timeout cleanblock st j) st r.conns ∧
      (r.rv = true ↔ ∃ j : Nat, (j : Int) ≤ st.table.fds.svcFdsetGetmax.1 ∧
        Stale tv timeout cleanblock st j) := by
  have hMeasured := destroys_measured st
  rcases getmax_cases st with hNeg | ⟨m, hMax, hTop⟩
  · have hNone : ∀ j : Nat, ¬ (j : Int) ≤ st.table.fds.svcFdsetGetmax.1 := fun j => by omega
    have hFuel : (st.table.fds.svcFdsetGetmax.1 + 1).toNat = 0 := by omega
    refine ⟨⟨false, false, st.measured⟩, ?_, rfl,
      hMeasured.congr fun j => iff_of_false (fun h => hNone j h.1) id,
      iff_of_false Bool.false_ne_true fun ⟨j, h⟩ => hNone j h.1⟩
    rw [svcCleanIdle, if_neg (by decide)]
    simp only [hFuel]
    rfl
  · have hStart : Swept tv timeout cleanblock st m 0 {} st.measured :=
      ⟨hMeasured.congr fun j => iff_of_false (fun h => Nat.not_lt_zero j h.1) id, fun _ => hTop,
        iff_of_false (Nat.lt_irrefl 0) fun ⟨j, h, _⟩ => Nat.not_lt_zero j h, rfl⟩
    obtain ⟨c, st', hRun, hSwept⟩ := hStart.cleanFrom (n := m + 1) hValid hTimeout (Nat.zero_add _)
    have hFuel : (st.table.fds.svcFdsetGetmax.1 + 1).toNat = m + 1 := by omega
    have hLe : ∀ j : Nat, j < m + 1 ↔ (j : Int) ≤ st.table.fds.svcFdsetGetmax.1 := fun j => by omega
    refine ⟨⟨decide (0 < c.ncleaned), false, st'⟩, ?_, rfl,
      hSwept.destroys.congr fun j => by rw [hLe], ?_⟩
    · rw [svcCleanIdle, if_neg (by decide)]
      simp only [hFuel]
      rw [measured] at hRun
      simp only [hRun, Option.bind_eq_bind, Option.bind_some, hSwept.least]
      rfl
    · rw [decide_eq_true_eq, hSwept.cleaned]
      exact exists_congr fun j => by rw [hLe]

/-- Without, a connection up to the maximum that has been idle the longest of these. -/
theorem svcCleanIdle_zero (cleanblock : Bool) (hValid : st.Valid) (hTv : tv.Normal) :
    ∃ r, svcCleanIdle true tv 0 cleanblock st = some r ∧ r.held = false ∧
      ((∃ (i : Nat) (cd : CfService), (i : Int) ≤ st.table.fds.svcFdsetGetmax.1 ∧
          Eligible cleanblock st i cd ∧ 0 < idle tv cd ∧ Destroys (· = i) st r.conns ∧ r.rv = true ∧
          ∀ j : Nat, (j : Int) ≤ st.table.fds.svcFdsetGetmax.1 → ∀ cd',
            Eligible cleanblock st j cd' → idle tv cd' ≤ idle tv cd) ∨
        (Destroys (fun _ => False) st r.conns ∧ r.rv = false ∧
          ∀ j : Nat, (j : Int) ≤ st.table.fds.svcFdsetGetmax.1 → ∀ cd',
            Eligible cleanblock st j cd' → idle tv cd' ≤ 0)) := by
  have hMeasured := destroys_measured st
  rcases getmax_cases st with hNeg | ⟨m, hMax, hTop⟩
  · have hFuel : (st.table.fds.svcFdsetGetmax.1 + 1).toNat = 0 := by omega
    refine ⟨⟨false, false, st.measured⟩, ?_, rfl, Or.inr ⟨hMeasured, rfl, fun j hj => ?_⟩⟩
    · rw [svcCleanIdle, if_neg (by decide)]
      simp only [hFuel]
      rfl
    · exact absurd hj (by omega)
  · have hStart : Sought tv cleanblock st m 0 {} st.measured :=
      ⟨hMeasured, hTop, rfl, normal_zero, fun j hj => absurd hj (Nat.not_lt_zero j), fun _ => rfl,
        fun p hp => (nomatch hp)⟩
    obtain ⟨c, st', hRun, hSought⟩ := hStart.cleanFrom (n := m + 1) hValid hTv (Nat.zero_add _)
    have hFuel : (st.table.fds.svcFdsetGetmax.1 + 1).toNat = m + 1 := by omega
    have hLe : ∀ j : Nat, (j : Int) ≤ st.table.fds.svcFdsetGetmax.1 → j < m + 1 := fun j => by
      omega
    rw [measured] at hRun
    cases hLeast : c.leastActive with
    | none =>
        refine ⟨⟨false, false, st'⟩, ?_, rfl, Or.inr ⟨hSought.same, rfl, fun j hj cd' hEl => ?_⟩⟩
        · rw [svcCleanIdle, if_neg (by decide)]
          simp only [hFuel, hRun, Option.bind_eq_bind, Option.bind_some, hLeast, hSought.cleaned]
          rfl
        · exact (hSought.longest j (hLe j hj) cd' hEl).trans (hSought.none hLeast).le
    | some p =>
        obtain ⟨hPos, i, hi, cd, hEntry, hEl, hIdle⟩ := hSought.least p hLeast
        have hEntry' : st'.table.xports[i]? = some (some p) :=
          (hSought.same.kept i not_false).trans hEntry
        obtain ⟨st'', hDestroy, hDestroys, -⟩ := svcVcDodestroy_eq (hSought.same.valid hValid)
          hEntry' hSought.top.1 hSought.top.2 (Nat.le_of_lt_succ hi)
        refine ⟨⟨true, false, st''⟩, ?_, rfl, Or.inl ⟨i, cd, by omega, hEl, hIdle ▸ hPos,
          (hSought.same.trans hDestroys).congr fun j => by rw [false_or], rfl,
          fun j hj cd' hEl' => ?_⟩⟩
        · rw [svcCleanIdle, if_neg (by decide)]
          simp only [hFuel, hRun, Option.bind_eq_bind, Option.bind_some, hLeast, if_true, hDestroy,
            hSought.cleaned]
          rfl
        · rw [hIdle]
          exact hSought.longest j (hLe j hj) cd' hEl'

/-- Among the connections that have been idle there is one that has been idle the longest. -/
theorem exists_leastActive (hEl : Eligible cleanblock st i cd) (hPos : 0 < idle tv cd) :
    ∃ j, LeastActive tv cleanblock st j := by
  have hFinite : Set.Finite {j | ∃ cd, Eligible cleanblock st j cd} :=
    (List.finite_toSet st.table.fds.fdset).subset fun j ⟨_, hj⟩ => hj.waited
  obtain ⟨j, ⟨cd', hj⟩, hMax⟩ := Set.exists_max_image _
    (fun j => (st.connAt j).elim 0 (idle tv)) hFinite ⟨i, cd, hEl⟩
  have hLongest : ∀ k cd'', Eligible cleanblock st k cd'' → idle tv cd'' ≤ idle tv cd' := by
    intro k cd'' hk
    have hLe := hMax k ⟨cd'', hk⟩
    rwa [hk.conn, hj.conn] at hLe
  exact ⟨j, cd', hj, hPos.trans_le (hLongest i cd hEl), hLongest⟩

theorem goneBy_of_stale (hValid : st.Valid) (hTv : tv.Normal)
    (h : Stale tv timeout cleanblock st i) : GoneBy tv timeout cleanblock st i := by
  obtain ⟨cd, hEl, hLong⟩ := h
  obtain ⟨hLow, hHigh⟩ := hTv
  obtain ⟨hLow', hHigh'⟩ := hValid.times hEl.conn
  refine ⟨cd, hEl, ?_⟩
  unfold idle micros
  omega

/-- The right connections are destroyed and the lock is released exactly when the thread has its
descriptors, no connection is hidden above the maximum, and no idle time is past the timeout by
its microseconds alone. -/
theorem cleansRight_iff (hValid : st.Valid) (hTv : tv.Normal) (mem : Bool) (timeout : Int)
    (cleanblock : Bool) :
    CleansRight tv timeout cleanblock st (svcCleanIdle mem tv timeout cleanblock st) ↔
      CleansWhen mem tv timeout cleanblock st := by
  cases mem with
  | false => exact iff_of_false (fun h => Bool.false_ne_true h.1.symm) fun h =>
      Bool.false_ne_true h.1
  | true =>
      rw [CleansWhen, and_iff_right rfl]
      by_cases hTimeout : timeout = 0
      · subst hTimeout
        obtain ⟨r, hRun, hHeld, hCases⟩ := svcCleanIdle_zero cleanblock hValid hTv
        simp only [hRun, CleansRight, if_true, and_iff_right hHeld]
        rcases hCases with ⟨i, cd, hLe, hEl, hPos, hDestroys, hRv, hLongest⟩ |
          ⟨hDestroys, hRv, hNone⟩
        · constructor
          · rintro ⟨gone, hGone, -, ⟨j, ⟨cd', hEl', -, hAll⟩, hOnly⟩ | ⟨-, hNever⟩⟩ k cdk hk hkPos
            · obtain rfl : i = j := (hOnly i).mp ((hGone.unique hDestroys i).mpr rfl)
              obtain rfl := hEl.unique hEl'
              exact ⟨i, cd, hEl, (le_getmax_iff hEl.waited).mp hLe, hAll k cdk hk⟩
            · exact absurd ((hGone.unique hDestroys i).mpr rfl) (hNever i)
          · intro hWithin
            refine ⟨(· = i), hDestroys, iff_of_true hRv ⟨i, rfl⟩, Or.inl ⟨i, ⟨cd, hEl, hPos, ?_⟩,
              fun j => Iff.rfl⟩⟩
            intro j cd' hEl'
            rcases Int.lt_or_le 0 (idle tv cd') with hIdle | hIdle
            · obtain ⟨k, cdk, hk, hkLe, hShorter⟩ := hWithin j cd' hEl' hIdle
              exact hShorter.trans (hLongest k ((le_getmax_iff hk.waited).mpr hkLe) cdk hk)
            · exact hIdle.trans hPos.le
        · constructor
          · rintro ⟨gone, hGone, -, ⟨j, -, hOnly⟩ | ⟨hNever, -⟩⟩ k cdk hk hkPos
            · exact ((hGone.unique hDestroys j).mp ((hOnly j).mpr rfl)).elim
            · obtain ⟨j, hj⟩ := exists_leastActive hk hkPos
              exact absurd hj (hNever j)
          · intro hWithin
            refine ⟨fun _ => False, hDestroys, iff_of_false (by rw [hRv]; decide) (by simp),
              Or.inr ⟨?_, fun _ => id⟩⟩
            rintro i ⟨cd, hEl, hPos, -⟩
            obtain ⟨k, cdk, hk, hkLe, hShorter⟩ := hWithin i cd hEl hPos
            have hShort := hNone k ((le_getmax_iff hk.waited).mpr hkLe) cdk hk
            omega
      · obtain ⟨r, hRun, hHeld, hDestroys, hRv⟩ :=
          svcCleanIdle_timeout tv cleanblock hValid hTimeout
        simp only [hRun, CleansRight, if_neg hTimeout, and_iff_right hHeld]
        constructor
        · rintro ⟨gone, hGone, -, hRight⟩ i cd hEl hLong
          obtain ⟨hLe, cd', hEl', hSeconds⟩ :=
            (hGone.unique hDestroys i).mp ((hRight i).mpr ⟨cd, hEl, hLong⟩)
          obtain rfl := hEl.unique hEl'
          exact ⟨(le_getmax_iff hEl.waited).mp hLe, hSeconds⟩
        · intro hWithin
          refine ⟨_, hDestroys, hRv, fun i =>
            ⟨fun hStale => goneBy_of_stale hValid hTv hStale.2, ?_⟩⟩
          rintro ⟨cd, hEl, hLong⟩
          obtain ⟨hLe, hSeconds⟩ := hWithin i cd hEl hLong
          exact ⟨(le_getmax_iff hEl.waited).mpr hLe, cd, hEl, hSeconds⟩

/-- A thread that has no descriptors yet and gets no memory for them returns with the lock. -/
theorem not_cleansRight : ¬ ∀ (st : SvcConns), st.Valid → ∀ tv : Timeval, tv.Normal →
    ∀ (mem : Bool) (timeout : Int) (cleanblock : Bool), 0 ≤ timeout →
      CleansRight tv timeout cleanblock st (svcCleanIdle mem tv timeout cleanblock st) := by
  intro h
  have hValid : Valid ⟨{}, Heap.empty, []⟩ :=
    ⟨fun i hi => absurd hi List.not_mem_nil, fun hEntry => (nomatch hEntry), List.nodup_nil,
      fun hConn => (nomatch hConn)⟩
  have hHeld := (h _ hValid zero normal_zero false 30 false (by decide)).1
  cases hHeld

/-- A connection without blocking that was last heard of at 9.9 seconds. -/
def quietConn : CfService where
  strmStat := .idle
  xId := 0
  xdrs := RecStrm.xdrrecCreate 100 100 { junk := fun _ => 0, reallocs := fun _ => true }
    { arrivals := [], written := [], nonblock := true, writable := true }
  nonblock := true
  sendsize := 100
  recvsize := 100
  maxrec := 1000
  lastRecvTime := ⟨9, 900000⟩

/-- It has the descriptor 1, behind the raw socket of a rendezvous at 0. -/
def quietConns : SvcConns where
  table :=
    { xports := [some 0, some 1]
      fds := { fdset := [0, 1], fdmax := 1, fdsize := 64, fdp := [some 0, some 1], fdused := 2 } }
  xprts := ⟨[some { xpFd := 0, xpOps := some .rendezvousRequest },
    some { xpFd := 1, xpOps := some (.svcVcRecv quietConn) }]⟩
  sockets := [0, 1]

/-- After thirty seconds and more it is cleaned out. -/
theorem cleansRight_quietConns :
    CleansRight ⟨41, 0⟩ 30 false quietConns (svcCleanIdle true ⟨41, 0⟩ 30 false quietConns) := by
  have hConn : ∀ {i cd}, quietConns.connAt i = some cd → i = 1 ∧ cd = quietConn := by
    intro i cd hConn
    match i with
    | 0 => cases hConn
    | 1 => exact ⟨rfl, (Option.some.inj hConn).symm⟩
    | i + 2 => cases hConn
  have hValid : quietConns.Valid := by
    refine ⟨by decide, fun {i p} hEntry => ?_, by decide,
      fun h => (hConn h).2 ▸ ⟨by decide, by decide⟩⟩
    match i with
    | 0 =>
        obtain rfl : 0 = p := Option.some.inj (Option.some.inj hEntry)
        exact ⟨_, rfl, rfl⟩
    | 1 =>
        obtain rfl : 1 = p := Option.some.inj (Option.some.inj hEntry)
        exact ⟨_, rfl, rfl⟩
    | i + 2 => cases hEntry
  refine (cleansRight_iff hValid ⟨by decide, by decide⟩ true 30 false).mpr ⟨rfl, ?_⟩
  rw [if_neg (by decide)]
  intro i cd hEl _
  obtain ⟨rfl, rfl⟩ := hConn hEl.conn
  exact ⟨by decide, by decide⟩

end SvcConns
end OncRpc
