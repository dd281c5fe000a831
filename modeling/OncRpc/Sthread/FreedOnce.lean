import OncRpc.Sthread.Instance

/-! When the descriptors of threads are freed once and not used any more then. -/
namespace OncRpc.Sthread

open Runs

/-- The thread has not looked yet whether it is detached. -/
def ThreadPc.undecided : ThreadPc → Bool
  | .routine => true
  | .returned => true
  | .exiting _ => true
  | _ => false

/-- There is no call, or it has returned. -/
def CallPc.over : CallPc → Bool
  | .none => true
  | .done _ => true
  | _ => false

/-- The call is a `pthread_join`. -/
def CallPc.joins : CallPc → Bool
  | .none => false
  | .detachBegun => false
  | .detachClearing => false
  | .done _ => false
  | _ => true

namespace PthreadRun

/-- The condition on a step: a thread looks whether it is detached when `pthread_create` has stored
the handle for good and nobody is about to detach it or to join it in vain, and the call for a
thread comes when the handle is stored, a `pthread_detach` before the thread has looked, and a
`pthread_join` of a detached thread too. -/
def Meets (r : PthreadRun) : PthreadOp → Prop
  | .exit => r.self.undecided = true → r.creator = .done ∧
      (r.caller.over = true ∨ r.caller.joins = true ∧ r.detached = false)
  | .pthreadJoin => r.mayCall = true →
      r.creator = .done ∧ (r.self.undecided = true ∨ r.detached = false)
  | .pthreadDetach => r.mayCall = true → r.creator = .done ∧ r.self.undecided = true
  | _ => True

/-- The join of a thread returns what it has exited with, and where the thread has come to its end
and was detached, from the beginning or by a call, or joined, its descriptor is freed. -/
structure Sound (heap : Heap PthreadInstance) (r : PthreadRun) : Prop where
  result : ∀ res, r.caller = .done res → r.detached = false →
    res = .detached ∨ ∃ v, res = .joined v ∧ r.value = some v
  freed : r.creator = .done → r.self = .finished → r.detached = true ∨ r.caller ≠ .none →
    r.caller.over = true → heap.read r.thread = none

end PthreadRun

namespace Pthreads

/-- The condition on an event. -/
def Meets (s : Pthreads) : PthreadEvent → Prop
  | .create _ started => started = true
  | .op i op => ∀ r, s.runs[i]? = some r → r.Meets op

def Sound (s : Pthreads) : Prop := ∀ r ∈ s.runs, r.Sound s.heap

end Pthreads

/-! ### What a descriptor says -/

/-- The call holds the lock of the descriptor. -/
def CallPc.locks : CallPc → Bool
  | .joinLocked => true
  | .joinWaiting => true
  | .joinBlocked => true
  | .joinFailed => true
  | .joinEnded => true
  | .joinTaking => true
  | .joinFreeing _ => true
  | _ => false

/-- Where a call may be as long as the thread has not looked. -/
def CallPc.Open (detached : Bool) : CallPc → Prop
  | .none => True
  | .joinBegun => True
  | .joinLocked => True
  | .joinWaiting => True
  | .detachBegun => True
  | .joinBlocked => detached = false
  | .detachClearing => detached = false
  | .joinFailed => detached = true
  | .done .detached => detached = false
  | .done .noThread => detached = true
  | .done .invalid => detached = true
  | _ => False

/-- Where the join of a thread may be before the thread has ended. -/
def CallPc.waits : CallPc → Bool
  | .none => true
  | .joinBegun => true
  | .joinLocked => true
  | .joinWaiting => true
  | .joinBlocked => true
  | _ => false

namespace CallPc

variable {c : CallPc}

theorem locks_of_over (h : c.over = true) : c.locks = false := by
  cases c with
  | none => rfl
  | done result => rfl
  | _ => cases h

theorem eq_none_of_waits (hWaits : c.waits = true) (hOver : c.over = true) : c = .none := by
  cases c with
  | none => rfl
  | done result => cases hWaits
  | _ => cases hOver

theorem over_of_detached (h : c = .done .detached) : c.over = true := by
  rw [h]
  rfl

/-- A join that is not in vain waits for the thread. -/
theorem waits_of_open (hOpen : c.Open false) (hCall : c.over = true ∨ c.joins = true)
    (hNot : c ≠ .done .detached) : c.waits = true := by
  cases c with
  | done result =>
      cases result with
      | detached => exact absurd rfl hNot
      | _ => cases hOpen
  | detachBegun => rcases hCall with h | h <;> cases h
  | detachClearing => rcases hCall with h | h <;> cases h
  | joinFailed => cases hOpen
  | joinEnded => cases hOpen
  | joinTaking => cases hOpen
  | joinFreeing value => cases hOpen
  | _ => rfl

end CallPc

namespace PthreadRun

/-- The thread is to be joined. -/
def attached (r : PthreadRun) : Bool := !r.detached && r.caller != .done .detached

/-- What a thread that has not looked yet has stored, or has still to store. -/
def Before (r : PthreadRun) (ret : Nat) : Prop :=
  r.self = .routine ∨ r.self = .returned ∧ r.value = some ret ∨
    ∃ v, r.self = .exiting v ∧ r.value = some v

/-- The same of one that has looked and is to be joined. -/
def Leaving (r : PthreadRun) (ret : Nat) : Prop :=
  (∃ v, (r.self = .notJoined v ∨ r.self = .storing v) ∧ r.value = some v) ∨
    r.self = .cleanup ∧ r.value = some ret

/-- A descriptor, if it is there, and its thread. -/
inductive Fits : Option PthreadInstance → PthreadRun → Prop where
  | creating {r : PthreadRun} {inst : PthreadInstance} (hStarted : r.started = true)
      (hCreator : r.creator ≠ .done) (hCaller : r.caller = .none) (hSelf : r.Before inst.ret)
      (hHandle : inst.handle = decide (r.creator = .stored)) (hJoining : inst.joining = false) :
      Fits (some inst) r
  | within {r : PthreadRun} {inst : PthreadInstance} (hCreator : r.creator = .done)
      (hCaller : r.caller.Open r.detached) (hSelf : r.Before inst.ret)
      (hHandle : inst.handle = r.attached) (hJoining : inst.joining = r.caller.locks) :
      Fits (some inst) r
  | leavingDetached {r : PthreadRun} {inst : PthreadInstance} (hCreator : r.creator = .done)
      (hDetached : r.attached = false) (hCaller : r.caller.Open r.detached)
      (hOver : r.caller.over = true)
      (hSelf : r.self = .unhandled ∨ (∃ v, r.self = .notJoined v) ∨ r.self = .freeing)
      (hHandle : inst.handle = false) (hJoining : inst.joining = false) : Fits (some inst) r
  | leaving {r : PthreadRun} {inst : PthreadInstance} (hCreator : r.creator = .done)
      (hDetached : r.detached = false) (hCaller : r.caller.waits = true)
      (hSelf : r.Leaving inst.ret) (hHandle : inst.handle = true)
      (hJoining : inst.joining = r.caller.locks) : Fits (some inst) r
  | ended {r : PthreadRun} {inst : PthreadInstance} (hCreator : r.creator = .done)
      (hDetached : r.detached = false)
      (hCaller : r.caller.waits = true ∨ r.caller = .joinEnded ∨ r.caller = .joinTaking ∨
        r.caller = .joinFreeing (some inst.ret))
      (hSelf : r.self = .finished) (hValue : r.value = some inst.ret)
      (hHandle : inst.handle = true) (hJoining : inst.joining = r.caller.locks) :
      Fits (some inst) r
  | freed {r : PthreadRun} (hCreator : r.creator = .done) (hDetached : r.attached = false)
      (hCaller : r.caller.Open r.detached) (hOver : r.caller.over = true)
      (hSelf : r.self = .finished) : Fits none r
  | joined {r : PthreadRun} {v : Nat} (hCreator : r.creator = .done)
      (hDetached : r.detached = false) (hCaller : r.caller = .done (.joined v))
      (hSelf : r.self = .finished) (hValue : r.value = some v) : Fits none r

/-- A step that fits goes from descriptors that fit to such ones. -/
def Keeps (cell : Option PthreadInstance) : PthreadStep → Prop
  | .own r => Fits cell r
  | .uses f => ∃ inst, cell = some inst ∧ Fits (f inst).1 (f inst).2

variable {cell : Option PthreadInstance} {r : PthreadRun}

theorem Fits.creator_done (h : Fits cell r) : r.creator = .done ∨ ∃ inst, cell = some inst ∧
    r.started = true ∧ r.caller = .none ∧ r.Before inst.ret ∧
      inst.handle = decide (r.creator = .stored) ∧ inst.joining = false := by
  cases h with
  | creating hStarted hCreator hCaller hSelf hHandle hJoining =>
      exact Or.inr ⟨_, rfl, hStarted, hCaller, hSelf, hHandle, hJoining⟩
  | _ => exact Or.inl ‹_›

/-- `pthread_create` stores the handle of a thread that has not looked at it. -/
theorem Fits.createStep (h : Fits cell r) : Keeps cell r.createStep := by
  rcases h.creator_done with hDone | ⟨inst, rfl, hStarted, hCaller, hSelf, hHandle, hJoining⟩
  · rw [PthreadRun.createStep, hDone]
    exact h
  · unfold PthreadRun.createStep
    cases hPc : r.creator with
    | begun => exact ⟨inst, rfl, .creating hStarted nofun hCaller hSelf hStarted hJoining⟩
    | stored =>
        have hOpen : r.caller.Open r.detached := by
          rw [hCaller]
          trivial
        have hLocks : inst.joining = r.caller.locks := by
          rw [hJoining, hCaller]
          rfl
        have hAttached : r.attached = !r.detached := by
          rw [attached, hCaller]
          exact Bool.and_true _
        dsimp only
        by_cases hDetached : r.detached = true
        · have hHandle' : r.attached = false := by
            rw [hAttached, hDetached]
            rfl
          rw [if_pos hDetached]
          exact ⟨inst, rfl, .within rfl hOpen hSelf hHandle'.symm hLocks⟩
        · have hHandle' : r.attached = true := by
            rw [hAttached, Bool.eq_false_iff.mpr hDetached]
            rfl
          rw [if_neg hDetached]
          refine .within rfl hOpen hSelf ?_ hLocks
          rw [hHandle, hPc]
          exact hHandle'.symm
    | done => exact h

/-- A thread that has not ended has its descriptor. -/
theorem Fits.exists_of_self (h : Fits cell r) (hSelf : r.self ≠ .finished) :
    ∃ inst, cell = some inst := by
  cases h with
  | freed _ _ _ _ hEnd => exact absurd hEnd hSelf
  | joined _ _ _ hEnd _ => exact absurd hEnd hSelf
  | _ => exact ⟨_, rfl⟩

theorem Fits.pthreadSelf (h : Fits cell r) : Keeps cell (r.step .pthreadSelf) := by
  unfold PthreadRun.step
  dsimp only
  by_cases hRuns : r.self = .routine ∨ r.self = .returned ∨ r.self = .cleanup
  · have hSelf : r.self ≠ .finished := by
      intro hEnd
      rw [hEnd] at hRuns
      simp at hRuns
    obtain ⟨inst, rfl⟩ := h.exists_of_self hSelf
    rw [if_pos hRuns]
    exact ⟨inst, rfl, h⟩
  · rw [if_neg hRuns]
    exact h

/-- Until a thread looks, only its own state and the value it leaves make a difference to it. -/
theorem Fits.before (h : Fits cell r) (hSelf : r.self.undecided = true) :
    ∃ inst, cell = some inst ∧ ∀ self value ret,
      Before { r with self := self, value := value } ret →
        Fits (some { inst with ret := ret }) { r with self := self, value := value } := by
  cases h with
  | @creating _ inst hStarted hCreator hCaller _ hHandle hJoining =>
      exact ⟨inst, rfl, fun self value ret hBefore =>
        .creating hStarted hCreator hCaller hBefore hHandle hJoining⟩
  | @within _ inst hCreator hCaller _ hHandle hJoining =>
      exact ⟨inst, rfl, fun self value ret hBefore =>
        .within hCreator hCaller hBefore hHandle hJoining⟩
  | leavingDetached _ _ _ _ hLater => rcases hLater with hPc | ⟨v, hPc⟩ | hPc <;>
      rw [hPc] at hSelf <;> cases hSelf
  | leaving _ _ _ hLater => rcases hLater with ⟨v, hPc | hPc, -⟩ | ⟨hPc, -⟩ <;>
      rw [hPc] at hSelf <;> cases hSelf
  | ended _ _ _ hEnd => rw [hEnd] at hSelf; cases hSelf
  | freed _ _ _ _ hEnd => rw [hEnd] at hSelf; cases hSelf
  | joined _ _ _ hEnd => rw [hEnd] at hSelf; cases hSelf

theorem Fits.ret (h : Fits cell r) (v : Nat) : Keeps cell (r.step (.ret v)) := by
  unfold PthreadRun.step
  dsimp only
  by_cases hRoutine : r.self = .routine
  · rw [if_pos hRoutine]
    obtain ⟨inst, rfl, hNext⟩ := h.before (by rw [hRoutine]; rfl)
    exact ⟨inst, rfl, hNext .returned (some v) v (Or.inr (Or.inl ⟨rfl, rfl⟩))⟩
  · rw [if_neg hRoutine]
    exact h

theorem Fits.pthreadExit (h : Fits cell r) (v : Nat) : Keeps cell (r.step (.pthreadExit v)) := by
  unfold PthreadRun.step
  dsimp only
  by_cases hRoutine : r.self = .routine
  · rw [if_pos hRoutine]
    obtain ⟨inst, rfl, hNext⟩ := h.before (by rw [hRoutine]; rfl)
    exact ⟨inst, rfl, hNext (.exiting v) (some v) inst.ret (Or.inr (Or.inr ⟨v, rfl, rfl⟩))⟩
  · rw [if_neg hRoutine]
    exact h

/-! ### The end of a thread -/

/-- A thread looks whether it is to be joined, with the handle stored for good. -/
theorem Fits.exit_undecided (h : Fits cell r) (hSelf : r.self.undecided = true)
    (hMeets : r.Meets .exit) : Keeps cell r.exitStep := by
  obtain ⟨hDone, hCall⟩ := hMeets hSelf
  cases h with
  | @creating _ inst hStarted hCreator => exact absurd hDone hCreator
  | @within _ inst hCreator hCaller hBefore hHandle hJoining =>
      have hDetached : r.attached = false → r.caller.over = true := by
        intro hNot
        rcases hCall with hOver | ⟨hJoins, hFlag⟩
        · exact hOver
        · rw [attached, hFlag] at hNot
          exact CallPc.over_of_detached (by simpa using hNot)
      have hAttached : r.attached = true → r.detached = false ∧ r.caller.waits = true := by
        intro hIs
        rw [attached, Bool.and_eq_true, Bool.not_eq_true', bne_iff_ne] at hIs
        refine ⟨hIs.1, CallPc.waits_of_open (hIs.1 ▸ hCaller) ?_ hIs.2⟩
        exact hCall.imp_right And.left
      unfold PthreadRun.exitStep
      rcases hBefore with hPc | ⟨hPc, hValue⟩ | ⟨v, hPc, hValue⟩
      · rw [hPc]
        exact .within hCreator hCaller (Or.inl hPc) hHandle hJoining
      · rw [hPc]
        refine ⟨inst, rfl, ?_⟩
        dsimp only
        cases hIs : r.attached with
        | true =>
            obtain ⟨hFlag, hWaits⟩ := hAttached hIs
            rw [hHandle, hIs, if_pos rfl]
            exact .ended hCreator hFlag (Or.inl hWaits) rfl hValue (hHandle.trans hIs) hJoining
        | false =>
            have hOver := hDetached hIs
            rw [hHandle, hIs, if_neg Bool.false_ne_true]
            exact .leavingDetached hCreator hIs hCaller hOver (Or.inl rfl) (hHandle.trans hIs)
              (hJoining.trans (CallPc.locks_of_over hOver))
      · rw [hPc]
        refine ⟨inst, rfl, ?_⟩
        dsimp only
        cases hIs : r.attached with
        | true =>
            obtain ⟨hFlag, hWaits⟩ := hAttached hIs
            refine .leaving hCreator hFlag hWaits (Or.inl ⟨v, ?_, hValue⟩) (hHandle.trans hIs)
              hJoining
            show (if inst.joining = true then ThreadPc.storing v else .notJoined v) = _ ∨ _
            split
            · exact Or.inr rfl
            · exact Or.inl rfl
        | false =>
            have hOver := hDetached hIs
            have hFree := hJoining.trans (CallPc.locks_of_over hOver)
            rw [hFree, if_neg Bool.false_ne_true]
            exact .leavingDetached hCreator hIs hCaller hOver (Or.inr (Or.inl ⟨v, rfl⟩))
              (hHandle.trans hIs) hFree
  | leavingDetached _ _ _ _ hLater => rcases hLater with hPc | ⟨v, hPc⟩ | hPc <;>
      rw [hPc] at hSelf <;> cases hSelf
  | leaving _ _ _ hLater => rcases hLater with ⟨v, hPc | hPc, -⟩ | ⟨hPc, -⟩ <;>
      rw [hPc] at hSelf <;> cases hSelf
  | ended _ _ _ hEnd => rw [hEnd] at hSelf; cases hSelf
  | freed _ _ _ _ hEnd => rw [hEnd] at hSelf; cases hSelf
  | joined _ _ _ hEnd => rw [hEnd] at hSelf; cases hSelf

theorem Fits.exitStep (h : Fits cell r) (hMeets : r.Meets .exit) : Keeps cell r.exitStep := by
  by_cases hSelf : r.self.undecided = true
  · exact h.exit_undecided hSelf hMeets
  · cases h with
    | @leavingDetached _ inst hCreator hDetached hCaller hOver hLater hHandle hJoining =>
        unfold PthreadRun.exitStep
        rcases hLater with hPc | ⟨v, hPc⟩ | hPc
        · rw [hPc]
          refine ⟨inst, rfl, ?_⟩
          dsimp only
          rw [hJoining, if_neg Bool.false_ne_true]
          exact .leavingDetached hCreator hDetached hCaller hOver (Or.inr (Or.inr rfl)) hHandle
            hJoining
        · rw [hPc]
          refine ⟨inst, rfl, ?_⟩
          dsimp only
          rw [hHandle, if_neg Bool.false_ne_true]
          exact .leavingDetached hCreator hDetached hCaller hOver (Or.inr (Or.inr rfl)) hHandle
            hJoining
        · rw [hPc]
          exact ⟨inst, rfl, .freed hCreator hDetached hCaller hOver rfl⟩
    | @leaving _ inst hCreator hDetached hCaller hLater hHandle hJoining =>
        unfold PthreadRun.exitStep
        rcases hLater with ⟨v, hPc | hPc, hValue⟩ | ⟨hPc, hValue⟩
        · rw [hPc]
          refine ⟨inst, rfl, ?_⟩
          dsimp only
          rw [hHandle, if_pos rfl]
          exact .leaving hCreator hDetached hCaller (Or.inl ⟨v, Or.inr rfl, hValue⟩) hHandle
            hJoining
        · rw [hPc]
          exact ⟨inst, rfl, .leaving hCreator hDetached hCaller (Or.inr ⟨rfl, hValue⟩) hHandle
            hJoining⟩
        · rw [hPc]
          exact .ended hCreator hDetached (Or.inl hCaller) rfl hValue hHandle hJoining
    | creating _ _ _ hBefore =>
        rcases hBefore with hPc | ⟨hPc, -⟩ | ⟨v, hPc, -⟩ <;> rw [hPc] at hSelf <;>
          exact absurd rfl hSelf
    | within _ _ hBefore =>
        rcases hBefore with hPc | ⟨hPc, -⟩ | ⟨v, hPc, -⟩ <;> rw [hPc] at hSelf <;>
          exact absurd rfl hSelf
    | ended hCreator hDetached hCaller hEnd hValue hHandle hJoining =>
        unfold PthreadRun.exitStep
        rw [hEnd]
        exact .ended hCreator hDetached hCaller hEnd hValue hHandle hJoining
    | freed hCreator hDetached hCaller hOver hEnd =>
        unfold PthreadRun.exitStep
        rw [hEnd]
        exact .freed hCreator hDetached hCaller hOver hEnd
    | joined hCreator hDetached hCaller hEnd hValue =>
        unfold PthreadRun.exitStep
        rw [hEnd]
        exact .joined hCreator hDetached hCaller hEnd hValue

/-! ### The call for a thread -/

/-- A call that begins changes nothing yet. -/
theorem Fits.begin (h : Fits cell r) {c : CallPc} (hCall : r.mayCall = true)
    (hDone : r.creator = .done) (hBegins : c = .joinBegun ∨ c = .detachBegun)
    (hMeets : r.self.undecided = true ∨ c = .joinBegun ∧ r.detached = false) :
    ∃ inst, cell = some inst ∧ Fits (some inst) { r with caller := c } := by
  rw [mayCall, Bool.and_eq_true, beq_iff_eq] at hCall
  have hNone := hCall.1
  have hDetached : r.attached = false → r.detached = true := by
    intro hNot
    rw [attached, hNone] at hNot
    simpa using hNot
  have hAttached : ({ r with caller := c } : PthreadRun).attached = r.attached := by
    rw [attached, attached, hNone]
    rcases hBegins with rfl | rfl <;> rfl
  have hLocks : c.locks = r.caller.locks := by
    rw [hNone]
    rcases hBegins with rfl | rfl <;> rfl
  cases h with
  | creating _ hCreator => exact absurd hDone hCreator
  | @within _ inst hCreator hCaller hBefore hHandle hJoining =>
      refine ⟨inst, rfl, .within hCreator ?_ hBefore (hHandle.trans hAttached.symm)
        (hJoining.trans hLocks.symm)⟩
      rcases hBegins with rfl | rfl <;> trivial
  | leavingDetached hCreator hNot _ _ hLater =>
      rcases hMeets with hSelf | ⟨-, hFlag⟩
      · rcases hLater with hPc | ⟨v, hPc⟩ | hPc <;> rw [hPc] at hSelf <;> cases hSelf
      · rw [hDetached hNot] at hFlag
        cases hFlag
  | @leaving _ inst hCreator hFlag hCaller hLater hHandle hJoining =>
      rcases hMeets with hSelf | ⟨rfl, -⟩
      · rcases hLater with ⟨v, hPc | hPc, -⟩ | ⟨hPc, -⟩ <;> rw [hPc] at hSelf <;> cases hSelf
      · exact ⟨inst, rfl, .leaving hCreator hFlag rfl hLater hHandle (hJoining.trans hLocks.symm)⟩
  | @ended _ inst hCreator hFlag hCaller hEnd hValue hHandle hJoining =>
      rcases hMeets with hSelf | ⟨rfl, -⟩
      · rw [hEnd] at hSelf
        cases hSelf
      · exact ⟨inst, rfl, .ended hCreator hFlag (Or.inl rfl) hEnd hValue hHandle
          (hJoining.trans hLocks.symm)⟩
  | freed hCreator hNot _ _ hEnd =>
      rcases hMeets with hSelf | ⟨-, hFlag⟩
      · rw [hEnd] at hSelf
        cases hSelf
      · rw [hDetached hNot] at hFlag
        cases hFlag
  | joined _ _ hCaller => rw [hNone] at hCaller; cases hCaller

theorem Fits.pthreadJoin (h : Fits cell r) (hMeets : r.Meets .pthreadJoin) :
    Keeps cell (r.step .pthreadJoin) := by
  unfold PthreadRun.step
  dsimp only
  by_cases hCall : r.mayCall = true
  · obtain ⟨hDone, hWhen⟩ := hMeets hCall
    rw [if_pos hCall]
    exact h.begin hCall hDone (Or.inl rfl) (hWhen.imp_right fun hFlag => ⟨rfl, hFlag⟩)
  · rw [if_neg hCall]
    exact h

theorem Fits.pthreadDetach (h : Fits cell r) (hMeets : r.Meets .pthreadDetach) :
    Keeps cell (r.step .pthreadDetach) := by
  unfold PthreadRun.step
  dsimp only
  by_cases hCall : r.mayCall = true
  · obtain ⟨hDone, hSelf⟩ := hMeets hCall
    rw [if_pos hCall]
    exact h.begin hCall hDone (Or.inr rfl) (Or.inl hSelf)
  · rw [if_neg hCall]
    exact h

/-- A call that is over does nothing. -/
theorem callStep_of_over (h : r.caller.over = true) : r.callStep = .own r := by
  unfold PthreadRun.callStep
  cases hPc : r.caller with
  | none => rfl
  | done result => rfl
  | _ => rw [hPc] at h; cases h

/-- A call while the thread has not looked. -/
theorem callStep_within {inst : PthreadInstance} (hCreator : r.creator = .done)
    (hCaller : r.caller.Open r.detached) (hBefore : r.Before inst.ret)
    (hHandle : inst.handle = r.attached) (hJoining : inst.joining = r.caller.locks) :
    Keeps (some inst) r.callStep := by
  have hSelf : r.self ≠ .finished := by
    rcases hBefore with hPc | ⟨hPc, -⟩ | ⟨v, hPc, -⟩ <;> rw [hPc] <;> exact nofun
  have hKeep : Fits (some inst) r := .within hCreator hCaller hBefore hHandle hJoining
  have hFlag : r.caller ≠ .done .detached → inst.handle = !r.detached := by
    intro hNot
    rw [hHandle, attached, bne_iff_ne.mpr hNot, Bool.and_true]
  have hNext : ∀ (c : CallPc) (joining : Bool), inst.handle = !r.detached → c ≠ .done .detached →
      c.Open r.detached → joining = c.locks →
        Fits (some { inst with joining }) { r with caller := c } := by
    intro c joining hIs hNot hOpen hLocks
    refine .within hCreator hOpen hBefore ?_ hLocks
    rw [attached, bne_iff_ne.mpr hNot, Bool.and_true]
    exact hIs
  unfold PthreadRun.callStep
  cases hPc : r.caller <;> rw [hPc] at hCaller hJoining hFlag
  case none => exact hKeep
  case done => exact hKeep
  case joinBegun =>
    have hFree : inst.joining = false := hJoining
    refine ⟨inst, rfl, ?_⟩
    dsimp only
    rw [hFree, if_neg Bool.false_ne_true]
    exact hNext .joinLocked true (hFlag nofun) nofun trivial rfl
  case joinLocked =>
    exact ⟨inst, rfl, hNext .joinWaiting inst.joining (hFlag nofun) nofun trivial hJoining⟩
  case joinWaiting =>
    have hIs := hFlag nofun
    refine ⟨inst, rfl, ?_⟩
    dsimp only
    cases hHas : inst.handle with
    | true =>
        have hOpen : r.detached = false := by rw [← Bool.not_eq_true', ← hIs, hHas]
        exact hNext .joinBlocked inst.joining hIs nofun hOpen hJoining
    | false =>
        have hOpen : r.detached = true := by rw [← Bool.not_eq_false', ← hIs, hHas]
        exact hNext .joinFailed inst.joining hIs nofun hOpen hJoining
  case joinBlocked =>
    dsimp only
    rw [if_neg hSelf]
    exact hKeep
  case joinFailed =>
    exact ⟨inst, rfl, hNext (.done .noThread) false (hFlag nofun) nofun hCaller rfl⟩
  case detachBegun =>
    have hIs := hFlag nofun
    refine ⟨inst, rfl, ?_⟩
    dsimp only
    cases hHas : inst.handle with
    | true =>
        have hOpen : r.detached = false := by rw [← Bool.not_eq_true', ← hIs, hHas]
        exact hNext .detachClearing inst.joining hIs nofun hOpen hJoining
    | false =>
        have hOpen : r.detached = true := by rw [← Bool.not_eq_false', ← hIs, hHas]
        exact hNext (.done .invalid) inst.joining hIs nofun hOpen hJoining
  case detachClearing =>
    exact ⟨inst, rfl, .within hCreator hCaller hBefore (Bool.and_false _).symm hJoining⟩
  all_goals exact hCaller.elim

/-- A join of a thread that has looked, and waits for it. -/
theorem callStep_waits {inst : PthreadInstance} (hCaller : r.caller.waits = true)
    (hHandle : inst.handle = true) (hJoining : inst.joining = r.caller.locks)
    (hNext : ∀ (c : CallPc) (joining : Bool), c.waits = true → joining = c.locks →
      Fits (some { inst with joining }) { r with caller := c })
    (hEnd : r.self = .finished → r.caller = .joinBlocked →
      Fits (some inst) { r with caller := .joinEnded }) : Keeps (some inst) r.callStep := by
  have hKeep : Fits (some inst) r := hNext r.caller inst.joining hCaller hJoining
  unfold PthreadRun.callStep
  cases hPc : r.caller <;> rw [hPc] at hCaller hJoining
  case none => exact hKeep
  case joinBegun =>
    refine ⟨inst, rfl, ?_⟩
    dsimp only
    have hFree : inst.joining = false := hJoining
    rw [hFree, if_neg Bool.false_ne_true]
    exact hNext .joinLocked true rfl rfl
  case joinLocked => exact ⟨inst, rfl, hNext .joinWaiting inst.joining rfl hJoining⟩
  case joinWaiting =>
    refine ⟨inst, rfl, ?_⟩
    dsimp only
    rw [hHandle, if_pos rfl]
    have hBlocked := hNext .joinBlocked inst.joining rfl hJoining
    exact hBlocked
  case joinBlocked =>
    dsimp only
    split
    · next hFinished => exact hEnd hFinished hPc
    · exact hKeep
  all_goals cases hCaller

theorem Fits.callStep (h : Fits cell r) : Keeps cell r.callStep := by
  have hKeep := h
  cases h with
  | creating _ _ hCaller =>
      rw [callStep_of_over (by rw [hCaller]; rfl)]
      exact hKeep
  | within hCreator hCaller hBefore hHandle hJoining =>
      exact callStep_within hCreator hCaller hBefore hHandle hJoining
  | leavingDetached _ _ _ hOver =>
      rw [callStep_of_over hOver]
      exact hKeep
  | leaving hCreator hFlag hCaller hLater hHandle hJoining =>
      refine callStep_waits hCaller hHandle hJoining ?_ ?_
      · exact fun c joining hWaits hLocks => .leaving hCreator hFlag hWaits hLater hHandle hLocks
      · intro hFinished _
        rcases hLater with ⟨v, hPc | hPc, -⟩ | ⟨hPc, -⟩ <;> rw [hPc] at hFinished <;>
          cases hFinished
  | @ended _ inst hCreator hFlag hCaller hEnd hValue hHandle hJoining =>
      rcases hCaller with hWaits | hPc | hPc | hPc
      · refine callStep_waits hWaits hHandle hJoining ?_ ?_
        · exact fun c joining hWaits hLocks =>
            .ended hCreator hFlag (Or.inl hWaits) hEnd hValue hHandle hLocks
        · intro _ hBlocked
          rw [hBlocked] at hJoining
          exact .ended hCreator hFlag (Or.inr (Or.inl rfl)) hEnd hValue hHandle hJoining
      · rw [hPc] at hJoining
        rw [PthreadRun.callStep, hPc]
        refine ⟨inst, rfl, ?_⟩
        dsimp only
        rw [hHandle, if_pos rfl]
        exact .ended hCreator hFlag (Or.inr (Or.inr (Or.inl rfl))) hEnd hValue hHandle hJoining
      · rw [hPc] at hJoining
        rw [PthreadRun.callStep, hPc]
        exact ⟨inst, rfl, .ended hCreator hFlag (Or.inr (Or.inr (Or.inr rfl))) hEnd hValue hHandle
          hJoining⟩
      · rw [PthreadRun.callStep, hPc]
        exact ⟨inst, rfl, .joined hCreator hFlag rfl hEnd hValue⟩
  | freed _ _ _ hOver =>
      rw [callStep_of_over hOver]
      exact hKeep
  | joined _ _ hCaller =>
      rw [callStep_of_over (by rw [hCaller]; rfl)]
      exact hKeep

/-! ### All threads -/

/-- What a party does keeps the descriptor and its thread fitting. -/
theorem Fits.step (h : Fits cell r) {op : PthreadOp} (hMeets : r.Meets op) :
    Keeps cell (r.step op) := by
  cases op with
  | create => exact h.createStep
  | pthreadSelf => exact h.pthreadSelf
  | ret v => exact h.ret v
  | pthreadExit v => exact h.pthreadExit v
  | exit => exact h.exitStep hMeets
  | pthreadJoin => exact h.pthreadJoin hMeets
  | pthreadDetach => exact h.pthreadDetach hMeets
  | call => exact h.callStep

/-- A thread that fits is as it should be. -/
theorem Fits.sound {heap : Heap PthreadInstance} (h : Fits (heap.read r.thread) r) :
    r.Sound heap := by
  generalize hCell : heap.read r.thread = cell at h
  have hOpen : r.caller.Open r.detached → ∀ res, r.caller = .done res → r.detached = false →
      res = .detached := by
    intro hCaller res hPc hFlag
    rw [hPc, hFlag] at hCaller
    cases res with
    | detached => rfl
    | joined v => exact hCaller.elim
    | noThread => cases hCaller
    | invalid => cases hCaller
  cases h with
  | creating _ hCreator hCaller =>
      refine ⟨fun res hPc => ?_, fun hDone => absurd hDone hCreator⟩
      rw [hCaller] at hPc
      cases hPc
  | within _ hCaller hBefore =>
      refine ⟨fun res hPc hFlag => Or.inl (hOpen hCaller res hPc hFlag), fun _ hEnd => ?_⟩
      rcases hBefore with hPc | ⟨hPc, -⟩ | ⟨v, hPc, -⟩ <;> rw [hPc] at hEnd <;> cases hEnd
  | leavingDetached _ _ hCaller _ hLater =>
      refine ⟨fun res hPc hFlag => Or.inl (hOpen hCaller res hPc hFlag), fun _ hEnd => ?_⟩
      rcases hLater with hPc | ⟨v, hPc⟩ | hPc <;> rw [hPc] at hEnd <;> cases hEnd
  | leaving _ _ hCaller hLater =>
      refine ⟨fun res hPc => ?_, fun _ hEnd => ?_⟩
      · rw [hPc] at hCaller
        cases hCaller
      · rcases hLater with ⟨v, hPc | hPc, -⟩ | ⟨hPc, -⟩ <;> rw [hPc] at hEnd <;> cases hEnd
  | ended _ hFlag hCaller =>
      constructor
      · intro res hPc
        rw [hPc] at hCaller
        rcases hCaller with hLater | hLater | hLater | hLater <;> cases hLater
      · intro _ _ hParted hOver
        have hCalled : r.caller ≠ .none := hParted.resolve_left (by rw [hFlag]; exact nofun)
        rcases hCaller with hWaits | hPc | hPc | hPc
        · exact absurd (CallPc.eq_none_of_waits hWaits hOver) hCalled
        · rw [hPc] at hOver
          cases hOver
        · rw [hPc] at hOver
          cases hOver
        · rw [hPc] at hOver
          cases hOver
  | freed _ _ hCaller =>
      exact ⟨fun res hPc hFlag => Or.inl (hOpen hCaller res hPc hFlag), fun _ _ _ _ => hCell⟩
  | @joined _ v _ _ hCaller _ hValue =>
      refine ⟨fun res hPc _ => Or.inr ⟨v, ?_, hValue⟩, fun _ _ _ _ => hCell⟩
      exact (CallPc.done.inj (hCaller.symm.trans hPc)).symm

end PthreadRun

/-- The run that a step leads to has the descriptor at `p`. -/
def PthreadStep.At (p : Nat) : PthreadStep → Prop
  | .own r => r.thread = p
  | .uses f => ∀ inst, (f inst).2.thread = p

/-- No step gives a thread another descriptor. -/
theorem PthreadRun.step_at (r : PthreadRun) (op : PthreadOp) : (r.step op).At r.thread := by
  cases op with
  | create =>
      unfold PthreadRun.step createStep
      dsimp only
      split
      · exact fun inst => rfl
      · split
        · exact fun inst => rfl
        · rfl
      · rfl
  | exit =>
      unfold PthreadRun.step exitStep
      dsimp only
      split <;> first | rfl | exact fun inst => rfl
  | call =>
      unfold PthreadRun.step callStep
      dsimp only
      split
      case h_4 =>
        show (if _ then _ else r : PthreadRun).thread = r.thread
        split <;> rfl
      all_goals first | rfl | exact fun inst => rfl
  | _ =>
      unfold PthreadRun.step
      dsimp only
      split
      · exact fun inst => rfl
      · rfl

namespace Pthreads

/-- Every descriptor fits its thread, and no two threads have the same. -/
structure Inv (s : Pthreads) : Prop where
  fits : ∀ (i : Nat) (r : PthreadRun), s.runs[i]? = some r → r.Fits (s.heap.read r.thread)
  handed : ∀ (i : Nat) (r : PthreadRun), s.runs[i]? = some r → r.thread < s.heap.brk
  apart : ∀ (i j : Nat) (r r' : PthreadRun), s.runs[i]? = some r → s.runs[j]? = some r' →
    r.thread = r'.thread → i = j

variable {s : Pthreads}

theorem inv_init : init.Inv := by
  have hNone : ∀ (i : Nat) (r : PthreadRun), init.runs[i]? ≠ some r := fun _ _ => nofun
  constructor
  · exact fun i r hi => absurd hi (hNone i r)
  · exact fun i r hi => absurd hi (hNone i r)
  · exact fun i _ r _ hi => absurd hi (hNone i r)

theorem Inv.sound (h : s.Inv) : s.Sound := by
  intro r hr
  obtain ⟨i, hi⟩ := List.mem_iff_getElem?.mp hr
  exact (h.fits i r hi).sound

/-- A new thread has a descriptor of its own. -/
theorem Inv.create (h : s.Inv) {r : PthreadRun} {inst : PthreadInstance}
    (hNew : r.thread = s.heap.brk) (hFits : r.Fits (some inst)) :
    Inv ⟨(s.heap.malloc inst).2, s.runs ++ [r]⟩ := by
  have hOld : ∀ {i : Nat} {r' : PthreadRun}, (s.runs ++ [r])[i]? = some r' →
      s.runs[i]? = some r' ∨ i = s.runs.length ∧ r' = r := by
    intro i r' hi
    rw [List.getElem?_append] at hi
    split at hi
    · exact Or.inl hi
    · rw [List.getElem?_singleton] at hi
      split at hi
      · exact Or.inr ⟨by omega, (Option.some.inj hi).symm⟩
      · cases hi
  constructor
  · intro i r' hi
    rw [Heap.read_malloc]
    rcases hOld hi with hi | ⟨-, rfl⟩
    · rw [if_neg (Nat.ne_of_lt (h.handed i r' hi))]
      exact h.fits i r' hi
    · rw [if_pos hNew]
      exact hFits
  · intro i r' hi
    rw [Heap.brk_malloc]
    rcases hOld hi with hi | ⟨-, rfl⟩
    · exact Nat.lt_succ_of_lt (h.handed i r' hi)
    · rw [hNew]
      exact Nat.lt_succ_self _
  · intro i j r₁ r₂ hi hj hSame
    rcases hOld hi with hi₁ | ⟨hi₁, rfl⟩ <;> rcases hOld hj with hj₁ | ⟨hj₁, rfl⟩
    · exact h.apart i j r₁ r₂ hi₁ hj₁ hSame
    · exact absurd (hSame.trans hNew) (Nat.ne_of_lt (h.handed i r₁ hi₁))
    · exact absurd (hSame.symm.trans hNew) (Nat.ne_of_lt (h.handed j r₂ hj₁))
    · exact hi₁.trans hj₁.symm

/-- What one thread does to its descriptor, the others do not notice. -/
theorem Inv.set (h : s.Inv) {i : Nat} {r r' : PthreadRun} (hRun : s.runs[i]? = some r)
    {heap : Heap PthreadInstance} (hSame : r'.thread = r.thread) (hBrk : heap.brk = s.heap.brk)
    (hOther : ∀ q, q ≠ r.thread → heap.read q = s.heap.read q)
    (hFits : r'.Fits (heap.read r.thread)) : Inv ⟨heap, s.runs.set i r'⟩ := by
  have hSet : ∀ {j : Nat} {r'' : PthreadRun}, (s.runs.set i r')[j]? = some r'' →
      j = i ∧ r'' = r' ∨ s.runs[j]? = some r'' ∧ r''.thread ≠ r.thread := by
    intro j r'' hj
    rw [List.getElem?_set] at hj
    split at hj
    · split at hj
      · exact Or.inl ⟨by omega, (Option.some.inj hj).symm⟩
      · cases hj
    · next hApart => exact Or.inr ⟨hj, fun hEq => hApart (h.apart j i r'' r hj hRun hEq).symm⟩
  constructor
  · intro j r'' hj
    rcases hSet hj with ⟨-, rfl⟩ | ⟨hj, hNe⟩
    · rw [hSame]
      exact hFits
    · show r''.Fits (heap.read r''.thread)
      rw [hOther _ hNe]
      exact h.fits j r'' hj
  · intro j r'' hj
    show r''.thread < heap.brk
    rw [hBrk]
    rcases hSet hj with ⟨-, rfl⟩ | ⟨hj, -⟩
    · rw [hSame]
      exact h.handed i r hRun
    · exact h.handed j r'' hj
  · intro j k r₁ r₂ hj hk hEq
    rcases hSet hj with ⟨rfl, rfl⟩ | ⟨hj, hNe⟩ <;> rcases hSet hk with ⟨rfl, rfl⟩ | ⟨hk, hNe'⟩
    · rfl
    · exact absurd (hEq.symm.trans hSame) hNe'
    · exact absurd (hEq.trans hSame) hNe
    · exact h.apart j k r₁ r₂ hj hk hEq

theorem Inv.step (h : s.Inv) {e : PthreadEvent} (hMeets : s.Meets e) :
    ∃ s', s.step e = some s' ∧ s'.Inv := by
  cases e with
  | create detached started =>
      obtain rfl : started = true := hMeets
      exact ⟨_, rfl, h.create rfl (.creating rfl nofun rfl (Or.inl rfl) rfl rfl)⟩
  | op i op =>
      cases hRun : s.runs[i]? with
      | none => exact ⟨s, by simp only [Pthreads.step, hRun], h⟩
      | some r =>
          have hKeeps := (h.fits i r hRun).step (hMeets r hRun)
          have hAt := r.step_at op
          cases hStep : r.step op with
          | own r' =>
              rw [hStep] at hKeeps hAt
              refine ⟨_, by simp only [Pthreads.step, hRun, hStep]; rfl, ?_⟩
              exact h.set hRun hAt rfl (fun _ _ => rfl) hKeeps
          | uses f =>
              rw [hStep] at hKeeps hAt
              obtain ⟨inst, hCell, hFits⟩ := hKeeps
              obtain ⟨heap, hReplace, hUpdated⟩ := Heap.replace_of_read hCell (f inst).1
              refine ⟨⟨heap, s.runs.set i (f inst).2⟩, ?_, h.set hRun (hAt inst) hUpdated.brk ?_ ?_⟩
              · simp only [Pthreads.step, hRun, hStep, hCell, Option.bind_eq_bind,
                  Option.bind_some, hReplace]
              · intro q hNe
                rw [hUpdated.read, if_neg hNe]
              · rw [hUpdated.read, if_pos rfl]
                exact hFits

end Pthreads

/-- In every run whose steps meet the condition no descriptor is used when it is freed, each is
freed once its thread has ended and is joined or detached, and a join returns what the thread has
exited with. -/
theorem instances_freed_once (events : List PthreadEvent) :
    Runs.SafeWhile Pthreads.step Pthreads.Meets Pthreads.Sound Pthreads.init events :=
  Runs.safeWhile_of_step Pthreads.Inv (fun _ hInv => hInv.sound)
    (fun _ _ hInv hMeets => hInv.step hMeets) events _ Pthreads.inv_init

/-- A thread that ends before `pthread_create` has stored its handle frees the descriptor that the
handle is stored to. -/
theorem not_instances_freed_once :
    ¬ ∀ events, Runs.SafeWhile Pthreads.step (fun _ _ => True) Pthreads.Sound Pthreads.init
      events := by
  intro h
  obtain ⟨s, hRun, -⟩ := (h [.create false true, .op 0 (.ret 7), .op 0 .exit, .op 0 .exit,
    .op 0 .exit, .op 0 .create]).run
  cases hRun

end OncRpc.Sthread
