import OncRpc.Svc.FdSet

/-! `svc.c`: the table of the transports, next to the descriptors that are waited for. -/
namespace OncRpc

/-- `__svc_xports`, empty until it is allocated and without its entry for -1, and the
descriptors. A transport is known by its address. -/
structure SvcXprts where
  xports : List (Option Nat) := []
  fds : SvcFdset := {}
  deriving DecidableEq, Repr

namespace SvcXprts

/-- `xprt_alloc`. `mem` says whether the table can be allocated. -/
def xprtAlloc (mem : Bool) (sock : Nat) (st : SvcXprts) : Bool × SvcXprts :=
  let fds := st.fds.svcFdsetAlloc (sock + 1)
  let newmaxxports := fds.fdsize
  if st.xports ≠ [] ∧ newmaxxports < st.xports.length then (true, { st with fds := fds })
  else if mem then
    (true, {
      xports := st.xports ++ List.replicate (newmaxxports - st.xports.length) none
      fds := fds })
  else (false, { st with fds := fds })

/-- `xprt_register`. -/
def xprtRegister (mem : Bool) (xprt sock : Nat) (st : SvcXprts) : Bool × SvcXprts :=
  match st.xprtAlloc mem sock with
  | (false, st) => (false, st)
  | (true, st) =>
      let (ok, fds) := st.fds.svcFdsetSet sock
      (ok, { xports := st.xports.set sock (some xprt), fds := fds })

/-- The loop of `__xprt_do_unregister`, for `*fdmax`. -/
def maxBelow (xports : List (Option Nat)) : Nat → Int
  | 0 => -1
  | n + 1 =>
      match xports[n]? with
      | some (some _) => n
      | _ => maxBelow xports n

/-- `__xprt_do_unregister`. -/
def xprtDoUnregister (xprt sock : Nat) (st : SvcXprts) : SvcXprts :=
  if st.xports[sock]? ≠ some (some xprt) then st
  else
    let xports := st.xports.set sock none
    let (max, fds) := st.fds.svcFdsetGetmax
    let fds :=
      if (sock : Int) < max then fds
      else { fds with fdmax := if max ≤ 0 then max - 1 else maxBelow xports max.toNat }
    { xports := xports, fds := (fds.svcFdsetClr sock).2 }

/-- Each descriptor that is waited for has a transport. -/
def Covered (st : SvcXprts) : Prop := ∀ fd ∈ st.fds.fdset, ∃ xprt, st.xports[fd]? = some (some xprt)

/-- The table and the descriptors are in order. -/
structure Sound (st : SvcXprts) : Prop where
  below : st.fds.Below
  covered : st.Covered
  nodup : st.fds.fdset.Nodup

/-- The table is large enough for a descriptor that is registered. Only the first allocation
of an `fd_set` does not look at the descriptor. -/
def Fits (sock : Nat) (st : SvcXprts) : Prop := st.fds.fdsize = 0 → sock < fdSetsize

/-- A transport that is in the table is waited for, or it is not the last one. -/
def Listed (xprt sock : Nat) (st : SvcXprts) : Prop := st.xports[sock]? = some (some xprt) →
  sock ∈ st.fds.fdset ∨ (sock : Int) < st.fds.svcFdsetGetmax.1 ∨ st.fds.fdset = []

variable {st : SvcXprts} {mem : Bool} {xprt sock : Nat}

theorem fdsize_svcFdsetAlloc (h : st.Fits sock) :
    sock < (st.fds.svcFdsetAlloc (sock + 1)).fdsize := by
  unfold SvcFdset.svcFdsetAlloc
  unfold Fits at h
  dsimp only
  unfold fdSetsize at *
  split <;> omega

/-- The table has a place for the descriptor, and what was in it is kept. -/
theorem xprtAlloc_spec (h : st.Fits sock) : (st.xprtAlloc mem sock).2.fds.fdset = st.fds.fdset ∧
    (st.xprtAlloc mem sock).2.fds.fdmax = st.fds.fdmax ∧
    (∀ fd p : Nat, st.xports[fd]? = some (some p) →
      (st.xprtAlloc mem sock).2.xports[fd]? = some (some p)) ∧
    ((st.xprtAlloc mem sock).1 = true → sock < (st.xprtAlloc mem sock).2.xports.length) := by
  have hSize := fdsize_svcFdsetAlloc h
  unfold xprtAlloc
  dsimp only
  split
  · next hLarge => exact ⟨rfl, rfl, fun _ _ hOld => hOld, fun _ => Nat.lt_trans hSize hLarge.2⟩
  · split
    · refine ⟨rfl, rfl, fun fd xprt hOld => ?_, fun _ => ?_⟩
      · have hLt := (List.getElem?_eq_some_iff.mp hOld).1
        rw [List.getElem?_append_left hLt, hOld]
      · rw [List.length_append, List.length_replicate]
        omega
    · exact ⟨rfl, rfl, fun _ _ hOld => hOld, fun hFalse => (by cases hFalse)⟩

theorem nodup_svcFdsetSet {fds : SvcFdset} (h : fds.fdset.Nodup) (fd : Nat) :
    (fds.svcFdsetSet fd).2.fdset.Nodup := by
  rw [SvcFdset.fdset_svcFdsetSet]
  split
  · exact h
  · exact SvcFdset.nodup_fdSet h

theorem mem_svcFdsetSet {fds : SvcFdset} {fd n : Nat} (h : n ∈ (fds.svcFdsetSet fd).2.fdset) :
    n = fd ∨ n ∈ fds.fdset := by
  rw [SvcFdset.fdset_svcFdsetSet] at h
  split at h
  · exact Or.inr h
  · exact SvcFdset.mem_of_mem_fdSet h

/-- Registering a transport keeps all in order. -/
theorem Sound.register (h : st.Sound) (hFits : st.Fits sock) :
    (st.xprtRegister mem xprt sock).2.Sound := by
  obtain ⟨hSet, hMax, hKept, hRoom⟩ := @xprtAlloc_spec st mem sock hFits
  have hBelow : (st.xprtAlloc mem sock).2.fds.Below := by
    intro fd hMem
    rw [hSet] at hMem
    rw [hMax]
    exact h.below fd hMem
  unfold xprtRegister
  split
  · next st' hRun =>
      rw [hRun] at hSet hKept hBelow
      refine ⟨hBelow, fun fd hMem => ?_, ?_⟩
      · rw [hSet] at hMem
        obtain ⟨p, hp⟩ := h.covered fd hMem
        exact ⟨p, hKept fd p hp⟩
      · rw [hSet]
        exact h.nodup
  · next st' hRun =>
      rw [hRun] at hSet hKept hRoom hBelow
      refine ⟨hBelow.set sock, fun fd hMem => ?_, ?_⟩
      · show ∃ p, (st'.xports.set sock (some xprt))[fd]? = some (some p)
        by_cases hSame : fd = sock
        · subst hSame
          exact ⟨xprt, List.getElem?_set_self (hRoom rfl)⟩
        · rw [List.getElem?_set_ne (Ne.symm hSame)]
          rcases mem_svcFdsetSet hMem with hBad | hOld
          · exact absurd hBad hSame
          · rw [hSet] at hOld
            obtain ⟨p, hp⟩ := h.covered fd hOld
            exact ⟨p, hKept fd p hp⟩
      · exact nodup_svcFdsetSet (hSet ▸ h.nodup) sock

/-- A transport that is registered is waited for. -/
theorem mem_of_xprtRegister (h : (st.xprtRegister mem xprt sock).1 = true) :
    sock ∈ (st.xprtRegister mem xprt sock).2.fds.fdset := by
  unfold xprtRegister at h ⊢
  split at h
  · cases h
  · next st' hRun =>
      have hRoom := SvcFdset.room_of_svcFdsetSet h
      show sock ∈ (st'.fds.svcFdsetSet sock).2.fdset
      rw [SvcFdset.fdset_svcFdsetSet, if_neg (Nat.not_le.mpr hRoom), SvcFdset.mem_fdSet hRoom]
      exact Or.inl rfl

/-- The loop stops at the last transport below. -/
theorem le_maxBelow {xports : List (Option Nat)} {n fd : Nat} (hLt : fd < n)
    (hXprt : xports[fd]? = some (some xprt)) : (fd : Int) ≤ maxBelow xports n := by
  induction n with
  | zero => exact absurd hLt (Nat.not_lt_zero fd)
  | succ n ih =>
      unfold maxBelow
      split
      · omega
      · next hNot =>
          apply ih
          have hNe : fd ≠ n := fun hSame => hNot xprt (hSame ▸ hXprt)
          omega

theorem maxBelow_lt (xports : List (Option Nat)) (n : Nat) : maxBelow xports n < (n : Int) := by
  induction n with
  | zero =>
      show (-1 : Int) < 0
      decide
  | succ n ih =>
      unfold maxBelow
      split <;> omega

/-- `svc_fdset_getmax` finds a member, or there is none that is small enough. -/
theorem svcFdsetGetmax_spec (fds : SvcFdset) : fds.svcFdsetGetmax.1 = fds.svcFdsetGetmax.2.fdmax ∧
    fds.svcFdsetGetmax.2.fdset = fds.fdset ∧ fds.svcFdsetGetmax.1 ≤ fds.fdmax ∧
    (fds.svcFdsetGetmax.2.Below ↔ fds.Below) ∧
    ∀ m : Nat, fds.svcFdsetGetmax.1 = m → m ∈ fds.fdset := by
  refine ⟨rfl, ?_, ?_, ?_, fun m hm => ?_⟩
  · show (SvcFdset.svcFdsetSanitize _).fdset = _
    rw [SvcFdset.fdset_svcFdsetSanitize]
    rfl
  · exact SvcFdset.fdmax_svcFdsetSanitize_le
  · show (SvcFdset.svcFdsetSanitize _).Below ↔ _
    rw [SvcFdset.below_svcFdsetSanitize]
    exact Iff.rfl
  · change (SvcFdset.svcFdsetSanitize _).fdmax = _ at hm
    unfold SvcFdset.svcFdsetSanitize at hm
    split at hm
    · next hNeg =>
        rw [hm] at hNeg
        omega
    · exact SvcFdset.sanitizeFrom_mem hm

/-- What `__xprt_do_unregister` makes of `*fdmax`. -/
def loweredMax (sock : Nat) (st : SvcXprts) : Int :=
  let max := st.fds.svcFdsetGetmax.1
  if (sock : Int) < max then max
  else if max ≤ 0 then max - 1
  else maxBelow (st.xports.set sock none) max.toNat

theorem xprtDoUnregister_of_listed (hXprt : st.xports[sock]? = some (some xprt)) :
    st.xprtDoUnregister xprt sock =
      { xports := st.xports.set sock none
        fds := ({ st.fds.svcFdsetGetmax.2 with fdmax := st.loweredMax sock }.svcFdsetClr
          sock).2 } := by
  unfold xprtDoUnregister loweredMax
  rw [if_neg (not_not.mpr hXprt)]
  dsimp only
  split <;> rfl

theorem fdset_xprtDoUnregister (hXprt : st.xports[sock]? = some (some xprt)) :
    (st.xprtDoUnregister xprt sock).fds.fdset = st.fds.fdset.erase sock := by
  rw [xprtDoUnregister_of_listed hXprt]
  show (SvcFdset.svcFdsetClr sock _).2.fdset = _
  rw [SvcFdset.fdset_svcFdsetClr]
  exact congrArg (fun l => List.erase l sock) (svcFdsetGetmax_spec st.fds).2.1

theorem below_xprtDoUnregister (hXprt : st.xports[sock]? = some (some xprt)) :
    (st.xprtDoUnregister xprt sock).fds.Below ↔
      ∀ n ∈ st.fds.fdset.erase sock, (n : Int) ≤ st.loweredMax sock := by
  rw [xprtDoUnregister_of_listed hXprt]
  show (SvcFdset.svcFdsetClr sock _).2.Below ↔ _
  rw [SvcFdset.below_svcFdsetClr]
  simp only [(svcFdsetGetmax_spec st.fds).2.1]

theorem Sound.le_getmax (h : st.Sound) {n : Nat} (hMem : n ∈ st.fds.fdset) :
    (n : Int) ≤ st.fds.svcFdsetGetmax.1 := by
  obtain ⟨-, hSet, -, hBelow, -⟩ := svcFdsetGetmax_spec st.fds
  exact (hBelow.mpr h.below) n (hSet ▸ hMem)

/-- No member is left above `fdmax` exactly when the transport that is taken off is waited
for, or is not the last one. -/
theorem Sound.below_unregister_iff (h : st.Sound) :
    (st.xprtDoUnregister xprt sock).fds.Below ↔ st.Listed xprt sock := by
  by_cases hXprt : st.xports[sock]? = some (some xprt)
  · rw [below_xprtDoUnregister hXprt]
    constructor
    · intro hLowered _
      by_contra hNot
      simp only [not_or, Int.not_lt] at hNot
      obtain ⟨hMiss, hLe, hSome⟩ := hNot
      obtain ⟨n, hn⟩ := List.exists_mem_of_ne_nil _ hSome
      obtain ⟨m, hm⟩ := Int.eq_ofNat_of_zero_le
        (Int.le_trans (Int.natCast_nonneg n) (h.le_getmax hn))
      have hUnder := hLowered m (by
        rw [List.erase_of_not_mem hMiss]
        exact (svcFdsetGetmax_spec st.fds).2.2.2.2 m hm)
      have hLt := maxBelow_lt (st.xports.set sock none) st.fds.svcFdsetGetmax.1.toNat
      unfold loweredMax at hUnder
      rw [if_neg (Int.not_lt.mpr hLe)] at hUnder
      split at hUnder <;> omega
    · intro hListed n hMem
      obtain ⟨hNe, hOld⟩ := h.nodup.mem_erase_iff.mp hMem
      have hLe := h.le_getmax hOld
      unfold loweredMax
      dsimp only
      split
      · exact hLe
      · next hLast =>
          rcases hListed hXprt with hIn | hBad | hNil
          · have hSock := h.le_getmax hIn
            have hLt : n < st.fds.svcFdsetGetmax.1.toNat := by omega
            rw [if_neg (by omega)]
            obtain ⟨p, hp⟩ := h.covered n hOld
            apply le_maxBelow hLt
            rw [List.getElem?_set_ne (Ne.symm hNe)]
            exact hp
          · exact absurd hBad hLast
          · rw [hNil] at hOld
            cases hOld
  · have hSame : st.xprtDoUnregister xprt sock = st := by
      unfold xprtDoUnregister
      rw [if_pos hXprt]
    rw [hSame]
    exact ⟨fun _ hBad => absurd hBad hXprt, fun _ => h.below⟩

/-- Taking such a transport off keeps all in order. -/
theorem Sound.unregister (h : st.Sound) (hListed : st.Listed xprt sock) :
    (st.xprtDoUnregister xprt sock).Sound := by
  by_cases hXprt : st.xports[sock]? = some (some xprt)
  · refine ⟨h.below_unregister_iff.mpr hListed, fun fd hMem => ?_, ?_⟩
    · rw [fdset_xprtDoUnregister hXprt] at hMem
      obtain ⟨hNe, hOld⟩ := h.nodup.mem_erase_iff.mp hMem
      obtain ⟨p, hp⟩ := h.covered fd hOld
      refine ⟨p, ?_⟩
      rw [xprtDoUnregister_of_listed hXprt]
      show (st.xports.set sock none)[fd]? = some (some p)
      rw [List.getElem?_set_ne (Ne.symm hNe), hp]
    · rw [fdset_xprtDoUnregister hXprt]
      exact h.nodup.erase sock
  · unfold xprtDoUnregister
    rw [if_pos hXprt]
    exact h

end SvcXprts
end OncRpc
