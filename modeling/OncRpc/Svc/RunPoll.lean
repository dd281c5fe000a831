import OncRpc.Svc.FdSet

/-! `svc_run_poll`: the private copy of the array for `poll`. What leaves an array is `none`. -/
namespace OncRpc

/-- `memcpy` of the first `n` entries of an array. -/
def copyEntries {α : Type} (dst src : List α) (n : Nat) : Option (List α) :=
  if n ≤ dst.length ∧ n ≤ src.length then some (src.take n ++ dst.drop n) else none

/-- The variables of `svc_run_poll`, and the descriptors. An array that is not allocated is
empty in `fds.fdp`, and `none` in `pfd`. -/
structure RunPoll where
  pfd : Option (List (Option Nat)) := none
  fdsize : Nat := 0
  fds : SvcFdset := {}
  deriving DecidableEq, Repr

namespace SvcFdset

/-- `svc_fdset_getsize (0)`. -/
def svcFdsetGetsize (fds : SvcFdset) : Nat := (fds.svcFdsetAlloc 0).fdsize

/-- `svc_pollfd_getsize (0)`. -/
def svcPollfdGetsize (fds : SvcFdset) : Nat := fds.fdp.length

/-- `svc_pollfd_copy` of `svc_pollfd_get ()`. The new entries are zeros. -/
def svcPollfdCopy (fds : SvcFdset) : Option (List (Option Nat)) :=
  let size := fds.svcFdsetGetsize
  let copy := List.replicate size (some 0)
  if fds.fdp = [] then some copy else copyEntries copy fds.fdp size

end SvcFdset

namespace RunPoll

/-- Whether `svc_run_poll` makes a new copy. -/
def Renews (r : RunPoll) : Prop := r.pfd = none ∨ r.fdsize ≠ r.fds.svcPollfdGetsize

instance (r : RunPoll) : Decidable r.Renews := inferInstanceAs (Decidable (_ ∨ _))

/-- A round of `svc_run_poll`, up to `rwlock_unlock`. -/
def round (r : RunPoll) : Option RunPoll :=
  let fds := r.fds.svcFdsetAlloc 0
  if r.Renews then
    fds.svcPollfdCopy.map fun pfd => { pfd := some pfd, fdsize := fds.svcFdsetGetsize, fds := fds }
  else
    (copyEntries (r.pfd.getD []) fds.fdp fds.svcPollfdGetmax).map fun pfd =>
      { r with pfd := some pfd, fds := fds }

/-- The private array begins with the entries that `rpc_poll` is asked to examine. -/
def Copied (r : RunPoll) : Prop :=
  ∃ pfd, r.pfd = some pfd ∧ r.fds.svcPollfdGetmax ≤ pfd.length ∧
    pfd.take r.fds.svcPollfdGetmax = r.fds.fdp.take r.fds.svcPollfdGetmax

/-- What happens to the descriptors while a server runs: they are set and cleared, the size of
the `fd_set` is asked for, or there is a round. -/
inductive Event where
  | call (c : SvcFdset.FdsetCall)
  | getsize (fd : Nat)
  | round
  deriving DecidableEq, Repr

def step (r : RunPoll) : Event → Option RunPoll
  | .call c => some { r with fds := (r.fds.call c).2 }
  | .getsize fd => some { r with fds := r.fds.svcFdsetAlloc fd }
  | .round => r.round

/-- Every round of a run stays inside of the arrays, and copies what will be examined. -/
def CopiedThroughout (r : RunPoll) : List Event → Prop
  | [] => True
  | e :: rest =>
      match r.step e with
      | none => False
      | some r' => (e = .round → r'.Copied) ∧ CopiedThroughout r' rest

/-- A new copy is made of an array that is not allocated, or one that is at least as large as the
`fd_set`, which in turn has room for the used entries. -/
def CopyFits (r : RunPoll) : Prop :=
  r.Renews → r.fds.fdp ≠ [] →
    r.fds.svcPollfdGetmax ≤ r.fds.svcFdsetGetsize ∧ r.fds.svcFdsetGetsize ≤ r.fds.svcPollfdGetsize

/-- In a run, every round that is reached finds the sizes so. -/
def RoundsFit (r : RunPoll) : List Event → Prop
  | [] => True
  | e :: rest => (e = .round → r.CopyFits) ∧ ∀ r', r.step e = some r' → RoundsFit r' rest

variable {r : RunPoll}

/-! ### What all states have in common -/

/-- The used entries are in the array, and the private array has the size that was noted. -/
structure Sized (r : RunPoll) : Prop where
  used : r.fds.fdused ≤ r.fds.fdp.length
  noted : ∀ pfd, r.pfd = some pfd → pfd.length = r.fdsize

end RunPoll

namespace SvcFdset

variable {fds : SvcFdset}

theorem usedUpTo_le {α : Type} (l : List (Option α)) (n : Nat) : Slots.usedUpTo l n ≤ n := by
  induction n with
  | zero => exact Nat.le_refl 0
  | succ n ih =>
      unfold Slots.usedUpTo
      split
      · exact Nat.le_refl _
      · exact Nat.le_succ_of_le ih

theorem used_svcPollfdAlloc (h : fds.fdused ≤ fds.fdp.length) :
    fds.svcPollfdAlloc.fdused ≤ fds.svcPollfdAlloc.fdp.length := by
  unfold svcPollfdAlloc
  split
  · rename_i hNil
    rw [hNil] at h
    exact Nat.le_trans h (Nat.zero_le _)
  · exact h

theorem used_svcPollfdAdd (h : fds.fdused ≤ fds.fdp.length) (fd : Nat) :
    (fds.svcPollfdAdd fd).fdused ≤ (fds.svcPollfdAdd fd).fdp.length := by
  have hAlloc := used_svcPollfdAlloc h
  unfold svcPollfdAdd
  dsimp only
  split
  · rename_i i hFree
    obtain ⟨hLt, -, -⟩ := List.findIdx?_eq_some_iff_getElem.mp hFree
    simp only [List.length_set]
    split <;> omega
  · simp only [List.length_append, List.length_cons]
    omega

theorem used_svcPollfdDel (h : fds.fdused ≤ fds.fdp.length) (fd : Nat) :
    (fds.svcPollfdDel fd).2.fdused ≤ (fds.svcPollfdDel fd).2.fdp.length := by
  have hAlloc := used_svcPollfdAlloc h
  unfold svcPollfdDel
  dsimp only
  split
  · rename_i i hFound
    obtain ⟨hLt, -, -⟩ := List.findIdx?_eq_some_iff_getElem.mp hFound
    simp only [List.length_set]
    split
    · exact Nat.le_trans (usedUpTo_le _ _) hLt
    · exact hAlloc
  · exact hAlloc

theorem used_call (h : fds.fdused ≤ fds.fdp.length) (c : FdsetCall) :
    (fds.call c).2.fdused ≤ (fds.call c).2.fdp.length := by
  cases c with
  | set fd =>
      show (fds.svcFdsetSet fd).2.fdused ≤ (fds.svcFdsetSet fd).2.fdp.length
      unfold svcFdsetSet
      dsimp only
      split
      · exact h
      · rw [fdused_svcFdsetSanitize, fdp_svcFdsetSanitize]
        apply used_svcPollfdAdd
        exact h
  | clr fd =>
      show (svcFdsetSanitize _).fdused ≤ (svcFdsetSanitize _).fdp.length
      rw [fdused_svcFdsetSanitize, fdp_svcFdsetSanitize]
      apply used_svcPollfdDel
      exact h
  | zero => exact Nat.le_refl 0

end SvcFdset

namespace RunPoll

/-! ### Rounds -/

variable {r : RunPoll}

theorem length_copyEntries {α : Type} {dst src copy : List α} {n : Nat}
    (h : copyEntries dst src n = some copy) : copy.length = dst.length := by
  unfold copyEntries at h
  split at h
  · rename_i hInside
    cases h
    simp
    omega
  · cases h

theorem take_copyEntries {α : Type} {dst src copy : List α} {n : Nat}
    (h : copyEntries dst src n = some copy) {m : Nat} (hLe : m ≤ n) :
    copy.take m = src.take m := by
  unfold copyEntries at h
  split at h
  · rename_i hInside
    cases h
    rw [List.take_append_of_le_length (by rw [List.length_take]; omega), List.take_take,
      Nat.min_eq_left hLe]
  · cases h

theorem svcFdsetGetsize_alloc (fds : SvcFdset) :
    (fds.svcFdsetAlloc 0).svcFdsetGetsize = fds.svcFdsetGetsize := by
  have hAgain : ∀ n, n ≠ 0 → n + (0 - n + (fdSetsize - 1)) / fdSetsize * fdSetsize = n := by
    unfold fdSetsize
    omega
  unfold SvcFdset.svcFdsetGetsize SvcFdset.svcFdsetAlloc
  dsimp only
  by_cases hZero : fds.fdsize = 0
  · rw [if_pos hZero]
    rfl
  · rw [if_neg hZero, hAgain _ hZero, if_neg hZero, hAgain _ hZero]

/-- A round that makes a new copy. -/
theorem round_of_renews (hRenews : r.Renews) : r.round =
    (r.fds.svcFdsetAlloc 0).svcPollfdCopy.map fun pfd =>
      { pfd := some pfd, fdsize := r.fds.svcFdsetGetsize, fds := r.fds.svcFdsetAlloc 0 } := by
  unfold round
  dsimp only
  rw [if_pos hRenews, svcFdsetGetsize_alloc]

/-- From a state that is in order, a round succeeds and copies what is examined when the sizes
fit, and only then. -/
theorem Sized.round_iff (h : r.Sized) :
    (∃ r', r.round = some r' ∧ r'.Copied) ↔ r.CopyFits := by
  by_cases hRenews : r.Renews
  · rw [CopyFits, forall_prop_of_true hRenews, round_of_renews hRenews, SvcFdset.svcPollfdCopy,
      svcFdsetGetsize_alloc, show (r.fds.svcFdsetAlloc 0).fdp = r.fds.fdp from rfl]
    by_cases hNil : r.fds.fdp = []
    · have hUsed := h.used
      rw [hNil, List.length_nil, Nat.le_zero] at hUsed
      rw [if_pos hNil]
      refine iff_of_true ⟨_, rfl, _, rfl, ?_, ?_⟩ fun hSome => absurd hNil hSome
      · show r.fds.fdused ≤ _
        rw [hUsed]
        exact Nat.zero_le _
      · show List.take r.fds.fdused _ = List.take r.fds.fdused _
        rw [hUsed, List.take_zero, List.take_zero]
    · rw [forall_prop_of_true hNil, if_neg hNil]
      cases hCopy : copyEntries (List.replicate r.fds.svcFdsetGetsize (some 0))
          r.fds.fdp r.fds.svcFdsetGetsize with
      | none =>
          refine iff_of_false (fun hRound => ?_) fun hFits => ?_
          · obtain ⟨r', hRun, -⟩ := hRound
            cases hRun
          · have hInside : r.fds.svcFdsetGetsize ≤ (List.replicate r.fds.svcFdsetGetsize
                (some 0 : Option Nat)).length ∧ r.fds.svcFdsetGetsize ≤ r.fds.fdp.length :=
              ⟨Nat.le_of_eq List.length_replicate.symm, hFits.2⟩
            rw [copyEntries, if_pos hInside] at hCopy
            cases hCopy
      | some copy =>
          have hLength := length_copyEntries hCopy
          rw [List.length_replicate] at hLength
          have hInside : r.fds.svcFdsetGetsize ≤ r.fds.fdp.length := by
            unfold copyEntries at hCopy
            split at hCopy
            · rename_i hBoth
              exact hBoth.2
            · cases hCopy
          constructor
          · rintro ⟨r', hRun, pfd, hPfd, hRoom, -⟩
            cases hRun
            cases hPfd
            rw [hLength] at hRoom
            exact ⟨hRoom, hInside⟩
          · rintro ⟨hRoom, -⟩
            exact ⟨_, rfl, copy, rfl, hLength ▸ hRoom, take_copyEntries hCopy hRoom⟩
  · refine iff_of_true ?_ fun h => absurd h hRenews
    obtain ⟨hSome, hSame⟩ := not_or.mp hRenews
    obtain ⟨pfd, hPfd⟩ := Option.ne_none_iff_exists'.mp hSome
    have hLength : pfd.length = r.fds.fdp.length := (h.noted pfd hPfd).trans (not_not.mp hSame)
    have hInside : r.fds.fdused ≤ pfd.length ∧ r.fds.fdused ≤ r.fds.fdp.length :=
      ⟨hLength ▸ h.used, h.used⟩
    let copy := r.fds.fdp.take r.fds.fdused ++ pfd.drop r.fds.fdused
    have hCopy : copyEntries pfd (r.fds.svcFdsetAlloc 0).fdp
        (r.fds.svcFdsetAlloc 0).svcPollfdGetmax = some copy := if_pos hInside
    refine ⟨{ r with pfd := some copy, fds := r.fds.svcFdsetAlloc 0 }, ?_, copy, rfl, ?_,
      take_copyEntries hCopy (Nat.le_refl _)⟩
    · unfold round
      rw [if_neg hRenews, hPfd]
      dsimp only [Option.getD_some]
      rw [hCopy]
      rfl
    · rw [length_copyEntries hCopy]
      exact hInside.1

/-- What happens keeps a state in order. -/
theorem Sized.step {r' : RunPoll} (h : r.Sized) {e : Event} (hStep : r.step e = some r') :
    r'.Sized := by
  cases e with
  | call c =>
      cases hStep
      exact ⟨SvcFdset.used_call h.used c, h.noted⟩
  | getsize fd =>
      cases hStep
      exact ⟨h.used, h.noted⟩
  | round =>
      change r.round = some r' at hStep
      by_cases hRenews : r.Renews
      · rw [round_of_renews hRenews] at hStep
        obtain ⟨pfd, hCopy, rfl⟩ := Option.map_eq_some_iff.mp hStep
        refine ⟨h.used, ?_⟩
        rintro pfd' ⟨⟩
        unfold SvcFdset.svcPollfdCopy at hCopy
        rw [svcFdsetGetsize_alloc] at hCopy
        dsimp only at hCopy
        split at hCopy
        · cases hCopy
          exact List.length_replicate
        · rw [length_copyEntries hCopy, List.length_replicate]
      · unfold RunPoll.round at hStep
        rw [if_neg hRenews] at hStep
        obtain ⟨pfd, hCopy, rfl⟩ := Option.map_eq_some_iff.mp hStep
        refine ⟨h.used, ?_⟩
        rintro pfd' ⟨⟩
        obtain ⟨old, hOld⟩ := Option.ne_none_iff_exists'.mp (not_or.mp hRenews).1
        rw [hOld, Option.getD_some] at hCopy
        rw [length_copyEntries hCopy]
        exact h.noted old hOld

theorem copiedThroughout_cons {r' : RunPoll} {e : Event} {rest : List Event}
    (hStep : r.step e = some r') : CopiedThroughout r (e :: rest) ↔
      (e = .round → r'.Copied) ∧ CopiedThroughout r' rest := by
  rw [CopiedThroughout, hStep]

theorem not_copiedThroughout_cons {e : Event} {rest : List Event} (hStep : r.step e = none) :
    ¬ CopiedThroughout r (e :: rest) := by
  rw [CopiedThroughout, hStep]
  exact id

/-- The rounds of a run copy what they should exactly as far as the sizes fit. The induction is on
the events. -/
theorem Sized.copies_iff (events : List Event) {r : RunPoll} (h : r.Sized) :
    CopiedThroughout r events ↔ RoundsFit r events := by
  induction events generalizing r with
  | nil => exact Iff.rfl
  | cons e rest ih =>
      rw [RoundsFit]
      cases hStep : r.step e with
      | none =>
          refine iff_of_false (not_copiedThroughout_cons hStep) fun hFits => ?_
          cases e with
          | round =>
              obtain ⟨r', hRun, -⟩ := h.round_iff.mpr (hFits.1 rfl)
              change r.round = none at hStep
              rw [hRun] at hStep
              cases hStep
          | call c => cases hStep
          | getsize fd => cases hStep
      | some r' =>
          have hRest := ih (h.step hStep)
          rw [copiedThroughout_cons hStep]
          constructor
          · rintro ⟨hCopied, hLater⟩
            refine ⟨?_, ?_⟩
            · rintro rfl
              exact h.round_iff.mp ⟨r', hStep, hCopied rfl⟩
            · rintro r'' ⟨⟩
              exact hRest.mp hLater
          · rintro ⟨hFits, hLater⟩
            refine ⟨?_, hRest.mpr (hLater r' rfl)⟩
            rintro rfl
            obtain ⟨r'', hRun, hCopied⟩ := h.round_iff.mpr (hFits rfl)
            change r.round = some r' at hStep
            rw [hRun] at hStep
            cases hStep
            exact hCopied

/-- In a run from the start, the copies of `svc_run_poll` are right exactly as far as the sizes
fit. -/
theorem copiedThroughout_iff (events : List Event) :
    CopiedThroughout {} events ↔ RoundsFit {} events :=
  Sized.copies_iff events ⟨Nat.le_refl 0, nofun⟩

/-- Transports with the descriptors 32 and 64 have been registered. -/
def twoTransports : SvcFdset :=
  ((((({} : SvcFdset).svcFdsetAlloc 33).call (.set 32)).2.svcFdsetAlloc 65).call (.set 64)).2

/-- The copy is one of 128 entries, from an array of 64. -/
theorem not_copiedThroughout_twoTransports :
    twoTransports.svcFdsetGetsize = 128 ∧ twoTransports.svcPollfdGetsize = 64 ∧
      ¬ CopiedThroughout {}
        [.getsize 33, .call (.set 32), .getsize 65, .call (.set 64), .round] := by
  refine ⟨by decide, by decide, ?_⟩
  have hGetsize : ∀ (fds : SvcFdset) (fd : Nat),
      step { fds := fds } (.getsize fd) = some { fds := fds.svcFdsetAlloc fd } := fun _ _ => rfl
  have hCall : ∀ (fds : SvcFdset) (c : SvcFdset.FdsetCall),
      step { fds := fds } (.call c) = some { fds := (fds.call c).2 } := fun _ _ => rfl
  have hRound : ¬ CopiedThroughout { fds := twoTransports } [.round] :=
    not_copiedThroughout_cons (by decide +kernel)
  rw [copiedThroughout_cons (hGetsize _ _), copiedThroughout_cons (hCall _ _),
    copiedThroughout_cons (hGetsize _ _), copiedThroughout_cons (hCall _ _), ← twoTransports]
  rw [eq_false hRound]
  exact fun h => h.2.2.2.2

end RunPoll
end OncRpc
