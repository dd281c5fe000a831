import Mathlib.Algebra.Ring.Int.Defs
import Mathlib.Algebra.Ring.Nat
import OncRpc.Svc.Xprt

/-! `xprt_register` with all that can fail in it, and the entries of `__svc_xports` that are
touched. What leaves the table is `none`. -/
namespace OncRpc

namespace SvcFdset

/-- `svc_pollfd_add`. SpareMemory is asked for when no entry is free. -/
def svcPollfdAddIf (mem : Bool) (fd : Nat) (fds : SvcFdset) : Option SvcFdset :=
  if none ∉ fds.fdp ∧ mem = false then none else some (fds.svcPollfdAdd fd)

/-- `svc_fdset_set`, and whether it returns 0. -/
def svcFdsetSetIf (mem : Bool) (fd : Nat) (fds : SvcFdset) : Bool × SvcFdset :=
  let fds := fds.svcFdsetAlloc fd
  if fdSetsize ≤ fds.fdset.length then (false, fds)
  else
    let fds := { fds with
      fdset := fdSet fd fds.fdset
      fdmax := if fds.fdmax < fd then (fd : Int) else fds.fdmax }
    match fds.svcPollfdAddIf mem fd with
    | some added => (true, added.svcFdsetSanitize)
    | none => (false, fds.svcFdsetSanitize)

variable {fds : SvcFdset} {mem : Bool} {fd : Nat}

/-- With a free entry or with memory it is what it is when all allocations succeed. -/
theorem svcFdsetSetIf_of_free (h : none ∈ fds.fdp ∨ mem = true) :
    fds.svcFdsetSetIf mem fd = fds.svcFdsetSet fd := by
  have hAdd : ∀ fds' : SvcFdset, fds'.fdp = fds.fdp →
      fds'.svcPollfdAddIf mem fd = some (fds'.svcPollfdAdd fd) := by
    intro fds' hSame
    rw [← hSame] at h
    apply if_neg
    rintro ⟨hNone, hMem⟩
    rcases h with h | h
    · exact hNone h
    · rw [hMem] at h
      cases h
  unfold svcFdsetSetIf svcFdsetSet
  dsimp only
  split
  · rfl
  · rw [hAdd]
    rfl

/-- Without, the descriptor is a member all the same. -/
theorem svcFdsetSetIf_of_full (h : none ∉ fds.fdp ∧ mem = false) :
    (fds.svcFdsetSetIf mem fd).1 = false ∧ (fds.svcFdsetSetIf mem fd).2.fdset =
      if fdSetsize ≤ fds.fdset.length then fds.fdset else fdSet fd fds.fdset := by
  by_cases hFull : fdSetsize ≤ fds.fdset.length
  · have hFull' : fdSetsize ≤ (fds.svcFdsetAlloc fd).fdset.length := hFull
    rw [svcFdsetSetIf, if_pos hFull', if_pos hFull]
    exact ⟨rfl, rfl⟩
  · have hRoom : ¬ fdSetsize ≤ (fds.svcFdsetAlloc fd).fdset.length := hFull
    have hAdd : ∀ fds' : SvcFdset, fds'.fdp = fds.fdp → fds'.svcPollfdAddIf mem fd = none :=
      fun fds' hSame => if_pos (hSame ▸ h)
    rw [svcFdsetSetIf, if_neg hRoom, if_neg hFull]
    dsimp only
    rw [hAdd]
    · exact ⟨rfl, fdset_svcFdsetSanitize⟩
    · rfl

theorem svcFdsetSetIf_fst : (fds.svcFdsetSetIf mem fd).1 = true ↔
    fds.fdset.length < fdSetsize ∧ (none ∈ fds.fdp ∨ mem = true) := by
  by_cases hFree : none ∈ fds.fdp ∨ mem = true
  · rw [svcFdsetSetIf_of_free hFree, and_iff_left hFree]
    refine ⟨room_of_svcFdsetSet, fun hRoom => ?_⟩
    have hNot : ¬ fdSetsize ≤ (fds.svcFdsetAlloc fd).fdset.length := Nat.not_le.mpr hRoom
    rw [svcFdsetSet, if_neg hNot]
  · have hFull : none ∉ fds.fdp ∧ mem = false := by simpa using hFree
    rw [(svcFdsetSetIf_of_full hFull).1]
    simp [hFree]

theorem fdset_svcFdsetSetIf : (fds.svcFdsetSetIf mem fd).2.fdset =
    if fdSetsize ≤ fds.fdset.length then fds.fdset else fdSet fd fds.fdset := by
  by_cases hFree : none ∈ fds.fdp ∨ mem = true
  · rw [svcFdsetSetIf_of_free hFree, fdset_svcFdsetSet]
  · have hFull : none ∉ fds.fdp ∧ mem = false := by simpa using hFree
    exact (svcFdsetSetIf_of_full hFull).2

/-- A descriptor that has been set is a member. -/
theorem mem_svcFdsetSetIf (h : (fds.svcFdsetSetIf mem fd).1 = true) :
    fd ∈ (fds.svcFdsetSetIf mem fd).2.fdset := by
  have hRoom := (svcFdsetSetIf_fst.mp h).1
  rw [fdset_svcFdsetSetIf, if_neg (Nat.not_le.mpr hRoom), mem_fdSet hRoom]
  exact Or.inl rfl

end SvcFdset

/-- `__svc_xports` with its entry for -1, and the descriptors. -/
structure SvcTable extends SvcXprts where
  raw : Option Nat := none
  deriving DecidableEq, Repr

/-- Whether there is memory for a larger table, and for a larger array for `poll`. -/
structure SpareMemory where
  table : Bool
  pollfd : Bool

/-- How `xprt_register` returns: what it returns, and whether `svc_fd_lock` is held then. -/
structure Registration where
  rv : Bool
  held : Bool
  table : SvcTable

namespace SvcTable

/-- `xprt_alloc`, behind the increment of `sock`. -/
def grow (mem : Bool) (sock : Nat) (st : SvcTable) : Bool × SvcTable :=
  let fds := st.fds.svcFdsetAlloc sock
  let newmaxxports := fds.fdsize
  if st.xports ≠ [] ∧ newmaxxports < st.xports.length then (true, { st with fds := fds })
  else if mem then
    (true, { st with
      xports := st.xports ++ List.replicate (newmaxxports - st.xports.length) none
      fds := fds })
  else (false, { st with fds := fds })

/-- `xprt_alloc`. An increment that overflows yields a negative number. -/
def xprtAlloc (mem : Bool) (sock : Int) (st : SvcTable) : Bool × SvcTable :=
  if sock + 1 < 0 ∨ 2 ^ 31 ≤ sock + 1 then (false, st) else st.grow mem (sock + 1).toNat

/-- `__svc_xports[sock] = xprt`. -/
def store (sock : Int) (xprt : Option Nat) (st : SvcTable) : Option SvcTable :=
  if sock = -1 ∧ st.xports ≠ [] then some { st with raw := xprt }
  else if 0 ≤ sock ∧ sock < st.xports.length then
    some { st with xports := st.xports.set sock.toNat xprt }
  else none

/-- `__svc_xports[sock]`. -/
def load (sock : Int) (st : SvcTable) : Option (Option Nat) :=
  if sock = -1 ∧ st.xports ≠ [] then some st.raw
  else if 0 ≤ sock then st.xports[sock.toNat]?
  else none

/-- `xprt_register`. When `svc_fdset_set` fails it returns without `rwlock_unlock`. -/
def xprtRegister (mem : SpareMemory) (xprt : Nat) (sock : Int) (st : SvcTable) :
    Option Registration :=
  match st.xprtAlloc mem.table sock with
  | (false, st) => some { rv := false, held := false, table := st }
  | (true, st) => do
      let st ← st.store sock (some xprt)
      if sock = -1 then pure { rv := true, held := false, table := st }
      else
        let (ok, fds) := st.fds.svcFdsetSetIf mem.pollfd sock.toNat
        pure { rv := ok, held := !ok, table := { st with fds := fds } }

variable {st : SvcTable} {mem : SpareMemory} {xprt : Nat} {sock : Int}

/-! ### What a failure leaves behind -/

/-- The table, the `fd_set` with its maximum, and the array for `poll` are the same. -/
structure Same (st st' : SvcTable) : Prop where
  xports : st'.xports = st.xports
  raw : st'.raw = st.raw
  fdset : st'.fds.fdset = st.fds.fdset
  fdmax : st'.fds.fdmax = st.fds.fdmax
  fdp : st'.fds.fdp = st.fds.fdp
  fdused : st'.fds.fdused = st.fds.fdused

/-- The transport is in the table, and its descriptor, if it has one, is waited for. -/
structure InTable (xprt : Nat) (sock : Int) (st : SvcTable) : Prop where
  entry : st.load sock = some (some xprt)
  waited : sock ≠ -1 → sock.toNat ∈ st.fds.fdset

/-- A registration either succeeds, or leaves no trace. -/
def AllOrNothing (xprt : Nat) (sock : Int) (st : SvcTable) : Option Registration → Prop
  | none => False
  | some r =>
      if r.rv then InTable xprt sock r.table
      else Same st r.table ∧ r.held = false

/-- The table can be made large enough, as far as `xprt_alloc` can tell. -/
def Allocates (mem : Bool) (sock : Int) (st : SvcTable) : Prop :=
  -1 ≤ sock ∧ sock + 1 < 2 ^ 31 ∧
    (mem = true ∨ st.xports ≠ [] ∧
      (st.fds.svcFdsetAlloc (sock + 1).toNat).fdsize < st.xports.length)

/-- There is an entry for the descriptor then. The first allocation of an `fd_set` does not look
at it. -/
def HasEntry (sock : Int) (st : SvcTable) : Prop :=
  sock < st.xports.length ∨ (st.fds.fdsize = 0 → sock < fdSetsize)

/-- `svc_fdset_set` succeeds. -/
def CanWait (mem : Bool) (st : SvcTable) : Prop :=
  st.fds.fdset.length < fdSetsize ∧ (none ∈ st.fds.fdp ∨ mem = true)

/-- The table is not allocated, or there is no descriptor to wait for, or all succeeds. -/
def RegisterMeets (mem : SpareMemory) (sock : Int) (st : SvcTable) : Prop :=
  st.Allocates mem.table sock → sock ≠ -1 → st.HasEntry sock ∧ st.CanWait mem.pollfd

theorem xprtAlloc_fst : (st.xprtAlloc mem.table sock).1 = true ↔ st.Allocates mem.table sock := by
  unfold xprtAlloc Allocates
  by_cases hRange : sock + 1 < 0 ∨ 2 ^ 31 ≤ sock + 1
  · rw [if_pos hRange]
    simp only [Bool.false_eq_true, false_iff]
    omega
  · obtain ⟨hLow, hHigh⟩ : -1 ≤ sock ∧ sock + 1 < 2 ^ 31 := by omega
    rw [if_neg hRange, and_iff_right hLow, and_iff_right hHigh]
    unfold grow
    dsimp only
    split_ifs with hLarge hMem
    · simp [hLarge]
    · simp [hMem]
    · simp [hLarge, hMem]

/-- The entries that there were are kept, the others are NULL, and nothing else changes. -/
structure Grown (st st' : SvcTable) : Prop where
  xports : ∃ n, st'.xports = st.xports ++ List.replicate n none
  raw : st'.raw = st.raw
  fdset : st'.fds.fdset = st.fds.fdset
  fdmax : st'.fds.fdmax = st.fds.fdmax
  fdp : st'.fds.fdp = st.fds.fdp
  fdused : st'.fds.fdused = st.fds.fdused

theorem grown_xprtAlloc (mem : Bool) (sock : Int) (st : SvcTable) :
    Grown st (st.xprtAlloc mem sock).2 := by
  unfold xprtAlloc
  split
  · exact ⟨⟨0, (List.append_nil _).symm⟩, rfl, rfl, rfl, rfl, rfl⟩
  · unfold grow
    dsimp only
    split
    · exact ⟨⟨0, (List.append_nil _).symm⟩, rfl, rfl, rfl, rfl, rfl⟩
    · split
      · exact ⟨⟨_, rfl⟩, rfl, rfl, rfl, rfl, rfl⟩
      · exact ⟨⟨0, (List.append_nil _).symm⟩, rfl, rfl, rfl, rfl, rfl⟩

/-- When `xprt_alloc` fails, the table is left alone. -/
theorem same_xprtAlloc (h : (st.xprtAlloc mem.table sock).1 = false) :
    Same st (st.xprtAlloc mem.table sock).2 := by
  have hGrown := grown_xprtAlloc mem.table sock st
  refine ⟨?_, hGrown.raw, hGrown.fdset, hGrown.fdmax, hGrown.fdp, hGrown.fdused⟩
  revert h
  unfold xprtAlloc
  split
  · exact fun _ => rfl
  · unfold grow
    dsimp only
    split
    · exact fun _ => rfl
    · split
      · nofun
      · exact fun _ => rfl

/-- The length of the table when `xprt_alloc` succeeds. -/
theorem length_xprtAlloc (h : st.Allocates mem.table sock) :
    (st.xprtAlloc mem.table sock).2.xports.length =
      max st.xports.length (st.fds.svcFdsetAlloc (sock + 1).toNat).fdsize := by
  obtain ⟨hLow, hHigh, hMem⟩ := h
  have hRange : ¬ (sock + 1 < 0 ∨ 2 ^ 31 ≤ sock + 1) := by omega
  unfold xprtAlloc
  rw [if_neg hRange]
  unfold grow
  dsimp only
  split_ifs with hLarge hTable
  · exact (Nat.max_eq_left (Nat.le_of_lt hLarge.2)).symm
  · rw [List.length_append, List.length_replicate]
    omega
  · exact absurd (hMem.resolve_left hTable) hLarge

theorem xports_xprtAlloc_ne_nil (h : st.Allocates mem.table sock) :
    (st.xprtAlloc mem.table sock).2.xports ≠ [] := by
  have hLength := length_xprtAlloc h
  unfold SvcFdset.svcFdsetAlloc fdSetsize at hLength
  dsimp only at hLength
  intro hNil
  rw [hNil, List.length_nil] at hLength
  split at hLength <;> omega

/-- Whether there is an entry for the descriptor then. -/
theorem hasEntry_iff (h : st.Allocates mem.table sock) (hSock : sock ≠ -1) :
    0 ≤ sock ∧ sock < (st.xprtAlloc mem.table sock).2.xports.length ↔ st.HasEntry sock := by
  have hLow := h.1
  rw [length_xprtAlloc h, HasEntry]
  unfold SvcFdset.svcFdsetAlloc fdSetsize
  dsimp only
  split <;> omega

theorem store_eq_none (hSock : sock ≠ -1) : st.store sock (some xprt) = none ↔
    ¬ (0 ≤ sock ∧ sock < st.xports.length) := by
  unfold store
  rw [if_neg fun h => hSock h.1]
  split <;> simp [*]

theorem store_eq_some {stored : SvcTable} (hSock : sock ≠ -1)
    (h : st.store sock (some xprt) = some stored) : (0 ≤ sock ∧ sock < st.xports.length) ∧
      stored = { st with xports := st.xports.set sock.toNat (some xprt) } := by
  unfold store at h
  rw [if_neg fun h => hSock h.1] at h
  split at h
  · cases h
    exact ⟨‹_›, rfl⟩
  · cases h

/-- What is stored can be loaded. -/
theorem load_set (h : 0 ≤ sock ∧ sock < st.xports.length) :
    load sock { st with xports := st.xports.set sock.toNat (some xprt) } = some (some xprt) := by
  unfold load
  rw [if_neg (by omega), if_pos h.1]
  exact List.getElem?_set_self (by omega)

/-- `xprt_register` either succeeds or leaves no trace exactly when nothing behind `xprt_alloc`
can fail. -/
theorem register_allOrNothing_iff (mem : SpareMemory) (xprt : Nat) (sock : Int) (st : SvcTable) :
    AllOrNothing xprt sock st (st.xprtRegister mem xprt sock) ↔ st.RegisterMeets mem sock := by
  unfold xprtRegister
  by_cases hAlloc : st.Allocates mem.table sock
  · have hOk := xprtAlloc_fst.mpr hAlloc
    have hEntry := hasEntry_iff hAlloc
    have hGrown := grown_xprtAlloc mem.table sock st
    have hTable := xports_xprtAlloc_ne_nil hAlloc
    rw [RegisterMeets, forall_prop_of_true hAlloc]
    revert hOk hEntry hGrown hTable
    generalize st.xprtAlloc mem.table sock = r
    obtain ⟨ok, grown⟩ := r
    rintro rfl hEntry hGrown hTable
    by_cases hRaw : sock = -1
    · refine iff_of_true ?_ fun h => absurd hRaw h
      subst hRaw
      have hStore : grown.store (-1) (some xprt) = some { grown with raw := some xprt } :=
        if_pos ⟨rfl, hTable⟩
      dsimp only
      rw [hStore]
      exact ⟨if_pos ⟨rfl, hTable⟩, fun h => absurd rfl h⟩
    · rw [forall_prop_of_true hRaw, ← hEntry hRaw]
      dsimp only
      cases hStore : grown.store sock (some xprt) with
      | none =>
          have hOutside := (store_eq_none hRaw).mp hStore
          exact iff_of_false id fun h => hOutside h.1
      | some stored =>
          obtain ⟨hInside, rfl⟩ := store_eq_some hRaw hStore
          have hFd : (grown.fds.svcFdsetSetIf mem.pollfd sock.toNat).1 = true ↔ _ :=
            SvcFdset.svcFdsetSetIf_fst
          rw [and_iff_right hInside, CanWait, ← hGrown.fdset, ← hGrown.fdp,
            ← hFd]
          simp only [Option.bind_eq_bind, Option.bind_some, if_neg hRaw]
          cases hSet : (grown.fds.svcFdsetSetIf mem.pollfd sock.toNat).1 with
          | true =>
              refine iff_of_true ?_ rfl
              exact ⟨load_set hInside, fun _ => SvcFdset.mem_svcFdsetSetIf hSet⟩
          | false =>
              -- the lock is held
              refine iff_of_false ?_ Bool.false_ne_true
              rintro ⟨-, hHeld⟩
              cases hHeld
  · have hFails : (st.xprtAlloc mem.table sock).1 = false := by
      rw [← Bool.not_eq_true, xprtAlloc_fst]
      exact hAlloc
    have hSame := same_xprtAlloc hFails
    refine iff_of_true ?_ fun h => absurd h hAlloc
    revert hFails hSame
    generalize st.xprtAlloc mem.table sock = r
    obtain ⟨ok, grown⟩ := r
    rintro rfl hSame
    exact ⟨hSame, rfl⟩

/-- Where nothing leaves the table and there is memory for the array, this is the registration of
`SvcXprts`. -/
theorem xprtRegister_of_fits {sock : Nat} {table : Bool} (hRange : sock + 1 < 2 ^ 31)
    (hFits : st.toSvcXprts.Fits sock) :
    (st.xprtRegister ⟨table, true⟩ xprt sock).map (fun r => (r.rv, r.table.toSvcXprts)) =
      some (st.toSvcXprts.xprtRegister table xprt sock) := by
  have hAlloc : st.xprtAlloc table sock = ((st.toSvcXprts.xprtAlloc table sock).1,
      { toSvcXprts := (st.toSvcXprts.xprtAlloc table sock).2, raw := st.raw }) := by
    have hInt : ¬ ((sock : Int) + 1 < 0 ∨ 2 ^ 31 ≤ (sock : Int) + 1) := by omega
    have hNat : ((sock : Int) + 1).toNat = sock + 1 := by omega
    rw [xprtAlloc, if_neg hInt, hNat]
    unfold grow SvcXprts.xprtAlloc
    dsimp only
    split_ifs <;> rfl
  have hRoom := (@SvcXprts.xprtAlloc_spec st.toSvcXprts table sock hFits).2.2.2
  unfold xprtRegister SvcXprts.xprtRegister
  rw [hAlloc]
  revert hRoom
  generalize st.toSvcXprts.xprtAlloc table sock = r
  obtain ⟨ok, grown⟩ := r
  intro hRoom
  cases ok with
  | false => rfl
  | true =>
      have hRaw : (sock : Int) ≠ -1 := by omega
      have hInside : 0 ≤ (sock : Int) ∧ (sock : Int) < grown.xports.length :=
        ⟨Int.natCast_nonneg _, Int.ofNat_lt.mpr (hRoom rfl)⟩
      have hStore : store sock (some xprt) { toSvcXprts := grown, raw := st.raw } =
          some { xports := grown.xports.set sock (some xprt), fds := grown.fds, raw := st.raw } := by
        unfold store
        rw [if_neg fun h => hRaw h.1, if_pos hInside]
        rfl
      simp [hStore, hRaw, SvcFdset.svcFdsetSetIf_of_free]

/-- The descriptors 32 to 95 have been registered, as many as an `fd_set` can hold. -/
def fullTable : SvcTable where
  xports := (List.range 128).map fun fd => if 32 ≤ fd ∧ fd < 96 then some fd else none
  fds :=
    { fdset := List.range' 32 64, fdmax := 95, fdsize := 128
      fdp := (List.range' 32 64).map some, fdused := 64 }

/-- The transport stays in the table, and the lock stays held. -/
theorem not_allOrNothing_fullTable :
    ((fullTable.xprtRegister ⟨true, true⟩ 96 96).map fun r =>
      (r.rv, r.held, r.table.load 96)) = some (false, true, some (some 96)) ∧
      ¬ AllOrNothing 96 96 fullTable (fullTable.xprtRegister ⟨true, true⟩ 96 96) := by
  have hRun : ((fullTable.xprtRegister ⟨true, true⟩ 96 96).map fun r =>
      (r.rv, r.held, r.table.load 96)) = some (false, true, some (some 96)) := by
    decide +kernel
  refine ⟨hRun, ?_⟩
  obtain ⟨r, hReg, hValues⟩ := Option.map_eq_some_iff.mp hRun
  obtain ⟨hRv, hHeld, -⟩ : r.rv = false ∧ r.held = true ∧ r.table.load 96 = some (some 96) := by
    simpa using hValues
  rw [hReg, AllOrNothing, hRv]
  rintro ⟨-, hFree⟩
  rw [hHeld] at hFree
  cases hFree

end SvcTable
end OncRpc
