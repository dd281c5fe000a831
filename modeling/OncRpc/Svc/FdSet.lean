import Mathlib.Data.List.Nodup
import OncRpc.Base.Slots

/-! `svc_fdset.c`: the descriptors that a server waits for, as an `fd_set` and as an array for
`poll`. -/
namespace OncRpc

/-- `FD_SETSIZE`. -/
def fdSetsize : Nat := 64

/-- `struct svc_fdset`. An `fd_set` lists its members, and `none` in the array for `poll`
stands for -1; the array is empty until it is allocated. `fdsize` is 0 until there is an
`fd_set`. -/
structure SvcFdset where
  fdset : List Nat := []
  fdmax : Int := 0
  fdsize : Nat := 0
  fdp : List (Option Nat) := []
  fdused : Nat := 0
  deriving DecidableEq, Repr

namespace SvcFdset

/-- `FD_SET`. -/
def fdSet (fd : Nat) (fdset : List Nat) : List Nat :=
  if fd ∈ fdset then fdset
  else if fdset.length < fdSetsize then fdset ++ [fd]
  else fdset

/-- The loop of `svc_fdset_sanitize`, for `fdmax + 1`. -/
def sanitizeFrom (fdset : List Nat) : Nat → Int
  | 0 => -1
  | n + 1 => if n ∈ fdset then n else sanitizeFrom fdset n

/-- `svc_fdset_sanitize`. -/
def svcFdsetSanitize (fds : SvcFdset) : SvcFdset :=
  if fds.fdmax < 0 then fds
  else { fds with fdmax := sanitizeFrom fds.fdset (fds.fdmax.toNat + 1) }

/-- `svc_fdset_alloc` and `svc_fdset_resize`, which returns from the first allocation whatever
the descriptor. -/
def svcFdsetAlloc (fd : Nat) (fds : SvcFdset) : SvcFdset :=
  { fds with
    fdsize :=
      if fds.fdsize = 0 then fdSetsize
      else fds.fdsize + (fd - fds.fdsize + (fdSetsize - 1)) / fdSetsize * fdSetsize }

/-- `svc_pollfd_alloc`. -/
def svcPollfdAlloc (fds : SvcFdset) : SvcFdset :=
  if fds.fdp = [] then { fds with fdp := List.replicate fdSetsize none } else fds

/-- `svc_pollfd_add`, when its allocations succeed. -/
def svcPollfdAdd (fd : Nat) (fds : SvcFdset) : SvcFdset :=
  let fds := fds.svcPollfdAlloc
  match fds.fdp.findIdx? (· == none) with
  | some i =>
      { fds with
        fdp := fds.fdp.set i (some fd)
        fdused := if fds.fdused ≤ i then i + 1 else fds.fdused }
  | none =>
      { fds with
        fdp := fds.fdp ++ some fd :: List.replicate (fdSetsize - 1) none
        fdused := fds.fdp.length + 1 }

/-- `svc_pollfd_del`, and whether it finds the descriptor. -/
def svcPollfdDel (fd : Nat) (fds : SvcFdset) : Bool × SvcFdset :=
  let fds := fds.svcPollfdAlloc
  match fds.fdp.findIdx? (· == some fd) with
  | some i =>
      let fdp := fds.fdp.set i none
      (true, { fds with
        fdp := fdp
        fdused := if i + 1 = fds.fdused then Slots.usedUpTo fdp (i + 1) else fds.fdused })
  | none => (false, fds)

/-- `svc_fdset_zero`. -/
def svcFdsetZero (fds : SvcFdset) : SvcFdset :=
  { fds.svcFdsetAlloc 0 with fdset := [], fdmax := -1, fdp := [], fdused := 0 }

/-- `svc_fdset_set`, and whether it returns 0. -/
def svcFdsetSet (fd : Nat) (fds : SvcFdset) : Bool × SvcFdset :=
  let fds := fds.svcFdsetAlloc fd
  if fdSetsize ≤ fds.fdset.length then (false, fds)
  else
    let fds := { fds with
      fdset := fdSet fd fds.fdset
      fdmax := if fds.fdmax < fd then (fd : Int) else fds.fdmax }
    (true, (fds.svcPollfdAdd fd).svcFdsetSanitize)

/-- `svc_fdset_isset`. -/
def svcFdsetIsset (fd : Nat) (fds : SvcFdset) : Bool × SvcFdset :=
  (decide (fd ∈ fds.fdset), fds.svcFdsetAlloc fd)

/-- `svc_fdset_clr`, and whether it returns 0. -/
def svcFdsetClr (fd : Nat) (fds : SvcFdset) : Bool × SvcFdset :=
  let (rv, fds) := svcPollfdDel fd { fds.svcFdsetAlloc fd with fdset := fds.fdset.erase fd }
  (rv, fds.svcFdsetSanitize)

/-- `svc_fdset_getmax`, and what it leaves behind. -/
def svcFdsetGetmax (fds : SvcFdset) : Int × SvcFdset :=
  let fds := (fds.svcFdsetAlloc 0).svcFdsetSanitize
  (fds.fdmax, fds)

/-- `svc_pollfd_getmax`. -/
def svcPollfdGetmax (fds : SvcFdset) : Nat := fds.fdused

/-- The descriptors that the array for `poll` names. -/
def polled (fds : SvcFdset) : List Nat := (fds.fdp.take fds.svcPollfdGetmax).reduceOption

/-- Both views have the same descriptors, and the array names each of them once. -/
structure ViewsAgree (fds : SvcFdset) : Prop where
  mem_iff : ∀ fd, fd ∈ fds.polled ↔ fd ∈ fds.fdset
  once : fds.polled.Nodup

/-! ### The calls that change the views -/

variable {fds : SvcFdset} {fd : Nat}

@[simp] theorem fdset_svcFdsetSanitize : fds.svcFdsetSanitize.fdset = fds.fdset := by
  unfold svcFdsetSanitize
  split <;> rfl

@[simp] theorem fdp_svcFdsetSanitize : fds.svcFdsetSanitize.fdp = fds.fdp := by
  unfold svcFdsetSanitize
  split <;> rfl

@[simp] theorem fdused_svcFdsetSanitize : fds.svcFdsetSanitize.fdused = fds.fdused := by
  unfold svcFdsetSanitize
  split <;> rfl

theorem mem_fdSet {n : Nat} {fdset : List Nat} (hRoom : fdset.length < fdSetsize) :
    n ∈ fdSet fd fdset ↔ n = fd ∨ n ∈ fdset := by
  unfold fdSet
  by_cases hMem : fd ∈ fdset
  · rw [if_pos hMem]
    exact ⟨Or.inr, fun h => h.elim (fun hSame => hSame ▸ hMem) id⟩
  · rw [if_neg hMem, if_pos hRoom, List.mem_append, List.mem_singleton, or_comm]

theorem nodup_fdSet {fdset : List Nat} (h : fdset.Nodup) : (fdSet fd fdset).Nodup := by
  unfold fdSet
  split
  · exact h
  · next hNew =>
      split
      · rw [← List.concat_eq_append]
        exact h.concat hNew
      · exact h

/-- Nothing is in the array behind the part that is used. -/
abbrev Tight (fds : SvcFdset) : Prop := Slots.Tight fds.fdp fds.fdused

theorem Tight.polled (h : fds.Tight) : fds.polled = fds.fdp.reduceOption := Slots.Tight.held_take h

theorem svcPollfdAlloc_same : fds.svcPollfdAlloc.fdset = fds.fdset ∧
    fds.svcPollfdAlloc.fdmax = fds.fdmax ∧ fds.svcPollfdAlloc.fdused = fds.fdused ∧
    fds.svcPollfdAlloc.fdp.reduceOption = fds.fdp.reduceOption := by
  unfold svcPollfdAlloc
  split
  · next hNil => exact ⟨rfl, rfl, rfl, by rw [hNil, List.reduceOption_replicate_none]; rfl⟩
  · exact ⟨rfl, rfl, rfl, rfl⟩

theorem Tight.alloc (h : fds.Tight) : fds.svcPollfdAlloc.Tight := by
  unfold svcPollfdAlloc
  split
  · intro i _ fd hi
    rw [List.getElem?_replicate] at hi
    split at hi <;> cases hi
  · exact h

theorem svcPollfdAdd_same (fd : Nat) (fds : SvcFdset) :
    (fds.svcPollfdAdd fd).fdset = fds.fdset ∧ (fds.svcPollfdAdd fd).fdmax = fds.fdmax := by
  obtain ⟨hSet, hMax, -, -⟩ := @svcPollfdAlloc_same fds
  rw [← hSet, ← hMax]
  unfold svcPollfdAdd
  dsimp only
  split <;> exact ⟨rfl, rfl⟩

theorem svcPollfdDel_same (fd : Nat) (fds : SvcFdset) :
    (fds.svcPollfdDel fd).2.fdset = fds.fdset ∧ (fds.svcPollfdDel fd).2.fdmax = fds.fdmax := by
  obtain ⟨hSet, hMax, -, -⟩ := @svcPollfdAlloc_same fds
  rw [← hSet, ← hMax]
  unfold svcPollfdDel
  dsimp only
  split <;> exact ⟨rfl, rfl⟩

/-- `svc_pollfd_add` puts its descriptor into the array, whether it is there or not. -/
theorem Tight.add (h : fds.Tight) (fd : Nat) : (fds.svcPollfdAdd fd).Tight ∧
    (fds.svcPollfdAdd fd).polled.Perm (fd :: fds.polled) := by
  obtain ⟨-, -, -, hHeld⟩ := @svcPollfdAlloc_same fds
  have hAlloc := h.alloc
  have hTight : (fds.svcPollfdAdd fd).Tight ∧
      (fds.svcPollfdAdd fd).fdp.reduceOption.Perm (fd :: fds.fdp.reduceOption) := by
    rw [← hHeld]
    unfold svcPollfdAdd
    dsimp only
    split
    · next i hFree =>
        obtain ⟨hLt, hNone, -⟩ := List.findIdx?_eq_some_iff_getElem.mp hFree
        have hSlot : fds.svcPollfdAlloc.fdp[i]? = some none := by
          rw [List.getElem?_eq_getElem hLt, beq_iff_eq.mp hNone]
        exact ⟨Slots.Tight.set_some hAlloc i fd, Slots.held_set_some hSlot fd⟩
    · exact ⟨Slots.tight_grow fd _, Slots.held_grow fd _⟩
  refine ⟨hTight.1, ?_⟩
  rw [hTight.1.polled, h.polled]
  exact hTight.2

/-- `svc_pollfd_del` takes its descriptor out of the array once. -/
theorem Tight.del (h : fds.Tight) (fd : Nat) : (fds.svcPollfdDel fd).2.Tight ∧
    (fds.svcPollfdDel fd).2.polled.Perm (fds.polled.erase fd) ∧
    (fds.svcPollfdDel fd).1 = decide (fd ∈ fds.polled) := by
  obtain ⟨-, -, -, hHeld⟩ := @svcPollfdAlloc_same fds
  have hAlloc := h.alloc
  rw [h.polled, ← hHeld]
  unfold svcPollfdDel
  dsimp only
  split
  · next i hFound =>
      obtain ⟨hLt, hHere, -⟩ := List.findIdx?_eq_some_iff_getElem.mp hFound
      have hSlot : fds.svcPollfdAlloc.fdp[i]? = some (some fd) := by
        rw [List.getElem?_eq_getElem hLt, beq_iff_eq.mp hHere]
      have hFreed := Slots.held_set_none hSlot
      have hKept : Slots.Tight (fds.svcPollfdAlloc.fdp.set i none) (
          if i + 1 = fds.svcPollfdAlloc.fdused then
            Slots.usedUpTo (fds.svcPollfdAlloc.fdp.set i none) (i + 1)
          else fds.svcPollfdAlloc.fdused) := by
        have hNone := Slots.Tight.set_none hAlloc i
        split
        · next hLast =>
            rw [← hLast] at hNone
            exact hNone.usedUpTo
        · exact hNone
      refine ⟨hKept, ?_, ?_⟩
      · rw [Tight.polled hKept]
        have hErased := (hFreed.erase fd).symm
        rwa [List.erase_cons_head] at hErased
      · rw [eq_comm, decide_eq_true_eq]
        exact hFreed.mem_iff.mpr List.mem_cons_self
  · next hNot =>
      have hMiss : fd ∉ fds.svcPollfdAlloc.fdp.reduceOption := by
        rw [List.reduceOption_mem_iff]
        intro hMem
        exact absurd (List.findIdx?_eq_none_iff.mp hNot _ hMem) (by simp)
      refine ⟨hAlloc, ?_, ?_⟩
      · rw [hAlloc.polled, List.erase_of_not_mem hMiss]
      · exact (decide_eq_false hMiss).symm

theorem room_of_svcFdsetSet (h : (fds.svcFdsetSet fd).1 = true) : fds.fdset.length < fdSetsize := by
  by_contra hFull
  have hRoom : fdSetsize ≤ (fds.svcFdsetAlloc fd).fdset.length := Nat.not_lt.mp hFull
  rw [svcFdsetSet, if_pos hRoom] at h
  cases h

theorem svcFdsetSet_of_room (h : fds.Tight) (hRoom : fds.fdset.length < fdSetsize) (fd : Nat) :
    (fds.svcFdsetSet fd).1 = true ∧ (fds.svcFdsetSet fd).2.Tight ∧
    (fds.svcFdsetSet fd).2.polled.Perm (fd :: fds.polled) ∧
    (fds.svcFdsetSet fd).2.fdset = fdSet fd fds.fdset := by
  obtain ⟨hTight, hPolled⟩ := @Tight.add { fds.svcFdsetAlloc fd with
    fdset := fdSet fd fds.fdset
    fdmax := if fds.fdmax < fd then (fd : Int) else fds.fdmax } h fd
  have hNot : ¬ fdSetsize ≤ (fds.svcFdsetAlloc fd).fdset.length := Nat.not_le.mpr hRoom
  unfold svcFdsetSet
  rw [if_neg hNot]
  refine ⟨rfl, ?_, ?_, ?_⟩
  · show Slots.Tight _ _
    rw [fdp_svcFdsetSanitize, fdused_svcFdsetSanitize]
    exact hTight
  · rw [SvcFdset.polled, svcPollfdGetmax, fdp_svcFdsetSanitize, fdused_svcFdsetSanitize]
    exact hPolled
  · rw [fdset_svcFdsetSanitize]
    exact (svcPollfdAdd_same fd _).1

theorem svcFdsetClr_same (h : fds.Tight) (fd : Nat) :
    (fds.svcFdsetClr fd).1 = decide (fd ∈ fds.polled) ∧ (fds.svcFdsetClr fd).2.Tight ∧
    (fds.svcFdsetClr fd).2.polled.Perm (fds.polled.erase fd) ∧
    (fds.svcFdsetClr fd).2.fdset = fds.fdset.erase fd := by
  obtain ⟨hTight, hPolled, hFound⟩ :=
    @Tight.del { fds.svcFdsetAlloc fd with fdset := fds.fdset.erase fd } h fd
  unfold svcFdsetClr
  refine ⟨hFound, ?_, ?_, ?_⟩
  · show Slots.Tight _ _
    rw [fdp_svcFdsetSanitize, fdused_svcFdsetSanitize]
    exact hTight
  · rw [SvcFdset.polled, svcPollfdGetmax, fdp_svcFdsetSanitize, fdused_svcFdsetSanitize]
    exact hPolled
  · rw [fdset_svcFdsetSanitize]
    exact (svcPollfdDel_same fd _).1

/-! ### The largest descriptor -/

/-- No member is above `fdmax`. -/
def Below (fds : SvcFdset) : Prop := ∀ fd ∈ fds.fdset, (fd : Int) ≤ fds.fdmax

theorem sanitizeFrom_spec (fdset : List Nat) (n : Nat) : sanitizeFrom fdset n ≤ (n : Int) - 1 ∧
    ∀ fd ∈ fdset, fd < n → (fd : Int) ≤ sanitizeFrom fdset n := by
  induction n with
  | zero => exact ⟨Int.le_refl _, fun fd _ hLt => absurd hLt (Nat.not_lt_zero fd)⟩
  | succ n ih =>
      unfold sanitizeFrom
      split
      · refine ⟨by omega, fun fd _ hLt => by omega⟩
      · next hNot =>
          obtain ⟨hLe, hAbove⟩ := ih
          refine ⟨by omega, fun fd hMem hLt => hAbove fd hMem ?_⟩
          have hNe : fd ≠ n := fun hSame => hNot (hSame ▸ hMem)
          omega

/-- `svc_fdset_sanitize` lowers `fdmax` to a member. -/
theorem sanitizeFrom_mem {fdset : List Nat} {n m : Nat} (h : sanitizeFrom fdset n = m) :
    m ∈ fdset := by
  induction n with
  | zero =>
      have hNeg : (-1 : Int) = m := h
      omega
  | succ n ih =>
      unfold sanitizeFrom at h
      split at h
      · next hMem => rwa [← Int.ofNat_inj.mp h]
      · exact ih h

theorem fdmax_svcFdsetSanitize_le : fds.svcFdsetSanitize.fdmax ≤ fds.fdmax := by
  unfold svcFdsetSanitize
  split
  · exact Int.le_refl _
  · have hLe := (sanitizeFrom_spec fds.fdset (fds.fdmax.toNat + 1)).1
    dsimp only
    omega

/-- A member stays the maximum. -/
theorem fdmax_svcFdsetSanitize_of_mem {m : Nat} (hMax : fds.fdmax = m) (hMem : m ∈ fds.fdset) :
    fds.svcFdsetSanitize.fdmax = m := by
  have hPos : ¬ fds.fdmax < 0 := by omega
  have hFuel : fds.fdmax.toNat + 1 = m + 1 := by omega
  rw [svcFdsetSanitize, if_neg hPos]
  show sanitizeFrom fds.fdset (fds.fdmax.toNat + 1) = m
  rw [hFuel, sanitizeFrom, if_pos hMem]

@[simp] theorem below_svcFdsetSanitize : fds.svcFdsetSanitize.Below ↔ fds.Below := by
  constructor
  · intro h fd hMem
    have hMem' : fd ∈ fds.svcFdsetSanitize.fdset := by rwa [fdset_svcFdsetSanitize]
    exact Int.le_trans (h fd hMem') fdmax_svcFdsetSanitize_le
  · intro h fd hMem
    rw [fdset_svcFdsetSanitize] at hMem
    have hLe := h fd hMem
    unfold svcFdsetSanitize
    split
    · exact hLe
    · apply (sanitizeFrom_spec fds.fdset (fds.fdmax.toNat + 1)).2 fd hMem
      omega

theorem below_svcPollfdAdd : (fds.svcPollfdAdd fd).Below ↔ fds.Below := by
  obtain ⟨hSet, hMax⟩ := svcPollfdAdd_same fd fds
  rw [Below, hSet, hMax, Below]

theorem below_svcPollfdDel : (fds.svcPollfdDel fd).2.Below ↔ fds.Below := by
  obtain ⟨hSet, hMax⟩ := svcPollfdDel_same fd fds
  rw [Below, hSet, hMax, Below]

theorem mem_of_mem_fdSet {n : Nat} {fdset : List Nat} (h : n ∈ fdSet fd fdset) :
    n = fd ∨ n ∈ fdset := by
  unfold fdSet at h
  split at h
  · exact Or.inr h
  · split at h
    · rw [List.mem_append, List.mem_singleton] at h
      exact h.symm
    · exact Or.inr h

/-- Setting a descriptor raises `fdmax` to it. -/
theorem Below.set (h : fds.Below) (fd : Nat) : (fds.svcFdsetSet fd).2.Below := by
  unfold svcFdsetSet
  dsimp only
  split
  · exact h
  · show (svcFdsetSanitize _).Below
    rw [below_svcFdsetSanitize, below_svcPollfdAdd]
    intro n hMem
    show (n : Int) ≤ if fds.fdmax < fd then (fd : Int) else fds.fdmax
    rcases mem_of_mem_fdSet hMem with rfl | hOld
    · split <;> omega
    · have hLe := h n hOld
      split <;> omega

/-- Clearing one does not lower it under what is left. -/
theorem below_svcFdsetClr : (fds.svcFdsetClr fd).2.Below ↔
    ∀ n ∈ fds.fdset.erase fd, (n : Int) ≤ fds.fdmax := by
  show (svcFdsetSanitize (svcPollfdDel fd
    { fds.svcFdsetAlloc fd with fdset := fds.fdset.erase fd }).2).Below ↔ _
  rw [below_svcFdsetSanitize, below_svcPollfdDel]
  exact Iff.rfl

theorem fdmax_svcFdsetClr_of_mem {m : Nat} (hMax : fds.fdmax = m) (hMem : m ∈ fds.fdset.erase fd) :
    (fds.svcFdsetClr fd).2.fdmax = m := by
  have hSame := svcPollfdDel_same fd { fds.svcFdsetAlloc fd with fdset := fds.fdset.erase fd }
  exact fdmax_svcFdsetSanitize_of_mem (hSame.2.trans hMax) (hSame.1 ▸ hMem)

theorem fdset_svcFdsetClr : (fds.svcFdsetClr fd).2.fdset = fds.fdset.erase fd := by
  show (svcFdsetSanitize _).fdset = _
  rw [fdset_svcFdsetSanitize]
  exact (svcPollfdDel_same fd _).1

theorem fdset_svcFdsetSet : (fds.svcFdsetSet fd).2.fdset =
    if fdSetsize ≤ fds.fdset.length then fds.fdset else fdSet fd fds.fdset := by
  by_cases hFull : fdSetsize ≤ fds.fdset.length
  · have hFull' : fdSetsize ≤ (fds.svcFdsetAlloc fd).fdset.length := hFull
    rw [svcFdsetSet, if_pos hFull', if_pos hFull]
    rfl
  · have hRoom : ¬ fdSetsize ≤ (fds.svcFdsetAlloc fd).fdset.length := hFull
    rw [svcFdsetSet, if_neg hRoom, if_neg hFull]
    show (svcFdsetSanitize _).fdset = _
    rw [fdset_svcFdsetSanitize]
    exact (svcPollfdAdd_same fd _).1

/-! ### Runs of calls -/

/-- The calls that change the descriptors. -/
inductive FdsetCall where
  | set (fd : Nat)
  | clr (fd : Nat)
  | zero
  deriving DecidableEq, Repr

/-- What a call does, and whether it succeeds. -/
def call (fds : SvcFdset) : FdsetCall → Bool × SvcFdset
  | .set fd => fds.svcFdsetSet fd
  | .clr fd => fds.svcFdsetClr fd
  | .zero => (true, fds.svcFdsetZero)

/-- Every call succeeds where it comes. -/
def AllSucceed (fds : SvcFdset) : List FdsetCall → Prop
  | [] => True
  | c :: rest => (fds.call c).1 = true ∧ AllSucceed (fds.call c).2 rest

/-- The views agree before every call and behind the last, and a descriptor that has just
been cleared is in neither. -/
def AgreeThroughout (fds : SvcFdset) : List FdsetCall → Prop
  | [] => fds.ViewsAgree
  | c :: rest =>
      fds.ViewsAgree ∧
      (∀ fd, c = .clr fd → fd ∉ (fds.call c).2.fdset ∧ fd ∉ (fds.call c).2.polled) ∧
      AgreeThroughout (fds.call c).2 rest

/-- No descriptor is set while it is a member. -/
def SetsNew (fds : SvcFdset) : List FdsetCall → Prop
  | [] => True
  | c :: rest => (∀ fd, c = .set fd → fd ∉ fds.fdset) ∧ SetsNew (fds.call c).2 rest

/-- The views agree, and nothing is behind the used part of the array. -/
structure Sound (fds : SvcFdset) : Prop where
  tight : fds.Tight
  agree : fds.ViewsAgree
  nodup : fds.fdset.Nodup

theorem AgreeThroughout.agree {calls : List FdsetCall} (h : AgreeThroughout fds calls) :
    fds.ViewsAgree := by
  cases calls with
  | nil => exact h
  | cons c rest => exact h.1

theorem Sound.set (h : fds.Sound) (hSuccess : (fds.svcFdsetSet fd).1 = true) (hNew : fd ∉ fds.fdset) :
    (fds.svcFdsetSet fd).2.Sound := by
  have hRoom := room_of_svcFdsetSet hSuccess
  obtain ⟨-, hTight, hPolled, hSet⟩ := svcFdsetSet_of_room h.tight hRoom fd
  refine { tight := hTight, agree := ⟨fun n => ?_, ?_⟩, nodup := hSet ▸ nodup_fdSet h.nodup }
  · rw [hPolled.mem_iff, hSet, mem_fdSet hRoom, List.mem_cons, h.agree.mem_iff]
  · rw [hPolled.nodup_iff, List.nodup_cons, h.agree.mem_iff]
    exact ⟨hNew, h.agree.once⟩

theorem Sound.clr (h : fds.Sound) (fd : Nat) : (fds.svcFdsetClr fd).2.Sound ∧
    fd ∉ (fds.svcFdsetClr fd).2.fdset ∧ fd ∉ (fds.svcFdsetClr fd).2.polled := by
  obtain ⟨-, hTight, hPolled, hSet⟩ := svcFdsetClr_same h.tight fd
  have hGone : fd ∉ (fds.svcFdsetClr fd).2.fdset := by
    rw [hSet]
    exact h.nodup.not_mem_erase
  have hAgree : (fds.svcFdsetClr fd).2.ViewsAgree := by
    constructor
    · intro n
      rw [hPolled.mem_iff, hSet, h.agree.once.mem_erase_iff, h.nodup.mem_erase_iff,
        h.agree.mem_iff]
    · exact hPolled.nodup_iff.mpr (h.agree.once.erase fd)
  refine ⟨{ tight := hTight, agree := hAgree, nodup := hSet ▸ h.nodup.erase fd }, hGone, ?_⟩
  rw [hAgree.mem_iff]
  exact hGone

theorem sound_of_nil {fdmax : Int} {fdsize : Nat} :
    ({ fdset := [], fdmax := fdmax, fdsize := fdsize, fdp := [], fdused := 0 } : SvcFdset).Sound where
  tight := Slots.tight_length
  agree := ⟨fun _ => Iff.rfl, List.nodup_nil⟩
  nodup := List.nodup_nil

/-- A member that is set again is in the array twice. -/
theorem Sound.set_member (h : fds.Sound) (hSuccess : (fds.svcFdsetSet fd).1 = true)
    (hMem : fd ∈ fds.fdset) : ¬ (fds.svcFdsetSet fd).2.ViewsAgree := by
  have hRoom := room_of_svcFdsetSet hSuccess
  obtain ⟨-, -, hPolled, -⟩ := svcFdsetSet_of_room h.tight hRoom fd
  intro hAgree
  have hOnce := hPolled.nodup_iff.mp hAgree.once
  exact (List.nodup_cons.mp hOnce).1 ((h.agree.mem_iff fd).mpr hMem)

theorem Sound.call (h : fds.Sound) {c : FdsetCall} (hSuccess : (fds.call c).1 = true)
    (hNew : ∀ fd, c = .set fd → fd ∉ fds.fdset) : (fds.call c).2.Sound := by
  cases c with
  | set fd => exact h.set hSuccess (hNew fd rfl)
  | clr fd => exact (h.clr fd).1
  | zero => exact sound_of_nil

/-- The induction is on the calls, from views that agree. -/
theorem Sound.agreeThroughout_iff (calls : List FdsetCall) {fds : SvcFdset} (h : fds.Sound)
    (hSuccess : AllSucceed fds calls) : AgreeThroughout fds calls ↔ SetsNew fds calls := by
  induction calls generalizing fds with
  | nil => exact ⟨fun _ => trivial, fun _ => h.agree⟩
  | cons c rest ih =>
      obtain ⟨hHere, hRest⟩ := hSuccess
      constructor
      · rintro ⟨-, -, hLater⟩
        have hNew : ∀ fd, c = .set fd → fd ∉ fds.fdset := by
          rintro fd rfl hMem
          exact h.set_member hHere hMem hLater.agree
        exact ⟨hNew, (ih (h.call hHere hNew) hRest).mp hLater⟩
      · rintro ⟨hNew, hLater⟩
        refine ⟨h.agree, ?_, (ih (h.call hHere hNew) hRest).mpr hLater⟩
        rintro fd rfl
        exact (h.clr fd).2

/-- In a run of calls that all succeed, the two views agree throughout exactly when no
descriptor is set while it is a member. -/
theorem fdset_pollfd_agree_iff {calls : List FdsetCall} (h : AllSucceed {} calls) :
    AgreeThroughout {} calls ↔ SetsNew {} calls :=
  sound_of_nil.agreeThroughout_iff calls h

theorem fdset_pollfd_agree_iff_reuse :
    AgreeThroughout {} [.set 5, .set 6, .clr 5, .set 5] ↔
      SetsNew {} [.set 5, .set 6, .clr 5, .set 5] :=
  fdset_pollfd_agree_iff (by
    refine ⟨?_, ?_, ?_, ?_, trivial⟩ <;> decide)

/-- A transport registers a descriptor, `create_rmtcall_fd` sets it again, and it is polled
twice. -/
theorem not_fdset_pollfd_agree_twice :
    ¬ ∀ calls, AllSucceed {} calls → AgreeThroughout {} calls := by
  intro h
  have hAgree := h [.set 5, .set 5] (by refine ⟨?_, ?_, trivial⟩ <;> decide)
  exact absurd hAgree.2.2.2.2.once (by decide)

end SvcFdset
end OncRpc
