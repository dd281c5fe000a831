import Mathlib.Data.Int.Init
import Mathlib.Data.BitVec

/-! `condition.c` of libsthread: the wait for a condition with a deadline. -/
namespace OncRpc.Sthread

def mutexMagic : BitVec 32 := 0xBABEFAC1

def condMagic : BitVec 32 := 0xBABEFAC2

/-- `INFINITE`. -/
def infinite : BitVec 32 := 0xFFFFFFFF

/-- `struct timespec`, with a `time_t` of 64 bits. -/
structure Timespec where
  sec : BitVec 64
  nsec : Int
  deriving DecidableEq, Repr

/-- A time with its nanoseconds within the second. -/
abbrev Instant := { t : Timespec // 0 ≤ t.nsec ∧ t.nsec < 1000000000 }

/-- A mutex: what `pthread_mutex_t` has of it, and its critical section with the thread that has
entered it and how often. -/
structure CsMutex where
  flag : BitVec 32
  nest : BitVec 32
  owner : Option Nat
  count : Nat
  deriving DecidableEq, Repr

/-- `pthread_cond_t`. -/
structure CondVar where
  lock : Int
  flag : BitVec 32
  deriving DecidableEq, Repr

/-- What other threads do to a mutex. -/
inductive MutexOp where
  | lock (t : Nat)
  | unlock (t : Nat)
  deriving DecidableEq, Repr

inductive WaitResult where
  | ok
  | etimedout
  | einval
  deriving DecidableEq, Repr

/-- How a sleep ends, and what other threads do to the mutex meanwhile. -/
structure CondSleep where
  result : WaitResult
  others : List MutexOp

inductive WaitOutcome where
  /-- An assertion fails. -/
  | asserts
  /-- The result, the time that was slept for if it came to that, and the mutex then. -/
  | returns (result : WaitResult) (slept : Option (BitVec 32)) (mutex : CsMutex)
  /-- The mutex is not left to the sleeper. -/
  | blocked (slept : BitVec 32)
  deriving DecidableEq, Repr

namespace CsMutex

/-- `EnterCriticalSection`, of a thread that may. -/
def enter (m : CsMutex) (t : Nat) : CsMutex := { m with owner := some t, count := m.count + 1 }

/-- `LeaveCriticalSection`. -/
def leave (m : CsMutex) : CsMutex :=
  { m with owner := if m.count = 1 then none else m.owner, count := m.count - 1 }

/-- `pthread_mutex_lock` of a thread that does not have to wait, and `pthread_mutex_unlock` of one
that has the mutex. -/
def op (m : CsMutex) : MutexOp → CsMutex
  | .lock t =>
      if m.owner = none ∨ m.owner = some t then { m.enter t with nest := m.nest + 1 } else m
  | .unlock t => if m.owner = some t then { m.leave with nest := m.nest - 1 } else m

/-- `SleepConditionVariableCS` between the two changes of `nest`. -/
def sleep (m : CsMutex) (caller : Nat) (env : CondSleep) (msec : BitVec 32) : WaitOutcome :=
  let m := env.others.foldl op { m.leave with nest := m.nest - 1 }
  if m.owner = none then .returns env.result (some msec) { m.enter caller with nest := m.nest + 1 }
  else .blocked msec

end CsMutex

/-- `timespec_to_msec`. -/
def timespecToMsec (a : Timespec) : BitVec 32 :=
  (a.sec * 1000).setWidth 32 + BitVec.ofInt 32 (a.nsec.tdiv 1000000)

/-- The time from now to the deadline. -/
def Timespec.from (exptime now : Timespec) : Timespec :=
  let nsec := exptime.nsec - now.nsec
  let sec := exptime.sec - now.sec
  if nsec < 0 then ⟨sec - 1, nsec + 1000000000⟩ else ⟨sec, nsec⟩

/-- The deadline has passed. The seconds are looked at as an `int`. -/
def Timespec.passed (left : Timespec) : Bool :=
  (left.sec.setWidth 32).toInt < 0 || (left.sec == 0 && left.nsec == 0)

/-- `condition_init_once`, or nothing where its assertion fails. -/
def CondVar.initOnce (cond : CondVar) (ndebug : Bool) : Option CondVar :=
  if !ndebug && !(cond.lock == 0 || cond.lock == 1) then none
  else if cond.flag = condMagic then some cond
  else some ⟨0, condMagic⟩

/-- The end of `condition_wait`, in all its branches. -/
def conditionSleep (ndebug : Bool) (caller : Nat) (env : CondSleep) (mutex : CsMutex)
    (msec : BitVec 32) : WaitOutcome :=
  if !ndebug && !(mutex.flag == condMagic && mutex.nest == 1) then .asserts
  else if mutex.flag ≠ mutexMagic ∨ mutex.nest ≠ 1 then .returns .einval none mutex
  else mutex.sleep caller env msec

/-- `condition_wait`, with or without assertions. -/
def conditionWait (ndebug : Bool) (caller : Nat) (env : CondSleep) (now : Timespec)
    (cond : CondVar) (mutex : CsMutex) (exptime : Option Timespec) (isrelative : Bool) :
    WaitOutcome :=
  match cond.initOnce ndebug, exptime with
  | none, _ => .asserts
  | some _, some exptime =>
      let left := if isrelative then exptime else exptime.from now
      if !isrelative && left.passed then .returns .etimedout none mutex
      else conditionSleep ndebug caller env mutex (timespecToMsec left)
  | some _, none => conditionSleep ndebug caller env mutex infinite

/-! ### What it should do -/

/-- The nanoseconds from the epoch. -/
def Timespec.total (t : Timespec) : Int := t.sec.toInt * 1000000000 + t.nsec

/-- The mutex is initialised, and held once by the caller. -/
structure CsMutex.HeldOnce (m : CsMutex) (caller : Nat) : Prop where
  flag : m.flag = mutexMagic
  owner : m.owner = some caller
  count : m.count = 1
  nest : m.nest = 1

/-- The condition variable is initialised, or will be. -/
structure CondVar.Initialised (c : CondVar) : Prop where
  flag : c.flag = condMagic ∨ c.flag = 0
  lock : c.lock = 0

/-- After so many milliseconds the deadline is reached, and not one too late. -/
structure Reaches (left : Int) (msec : BitVec 32) : Prop where
  finite : msec ≠ infinite
  reached : left ≤ msec.toNat * 1000000
  soon : msec.toNat * 1000000 < left + 1000000

/-- The outcome of a wait for a deadline that is `left` nanoseconds ahead. -/
def WaitOutcome.Right (caller : Nat) (left : Int) : WaitOutcome → Prop
  | .asserts => False
  | .returns result slept mutex =>
      mutex.HeldOnce caller ∧ (result = .etimedout ∧ slept = none ↔ left ≤ 0) ∧
        (0 < left → ∃ msec, slept = some msec ∧ Reaches left msec)
  | .blocked msec => 0 < left ∧ Reaches left msec

/-- The condition: the deadline is now, or past with seconds that are negative as an `int`; or,
without assertions, it is a whole number of milliseconds ahead, fewer than `INFINITE`. -/
def Awaitable (ndebug : Bool) (left : Int) : Prop :=
  left = 0 ∨ (left < 0 ∧ 2 ^ 31 ≤ left / 1000000000 % 2 ^ 32) ∨
    (ndebug = true ∧ 0 < left ∧ 1000000 ∣ left ∧ left / 1000000 < 2 ^ 32 - 1)

/-! ### The time that is left -/

theorem toNat_sub_eq_emod (x y : BitVec 64) :
    ((x - y).toNat : Int) = ((x.toNat : Int) - y.toNat) % 2 ^ 64 := by
  have hx := x.isLt
  have hy := y.isLt
  rw [BitVec.toNat_sub]
  omega

/-- The difference has the seconds of the true one, up to what fits, and its nanoseconds. -/
theorem Timespec.from_eq (exptime now : Instant) :
    ((exptime.val.from now.val).sec.toNat : Int) =
        (exptime.val.total - now.val.total) / 1000000000 % 2 ^ 64 ∧
      (exptime.val.from now.val).nsec = (exptime.val.total - now.val.total) % 1000000000 := by
  obtain ⟨⟨es, en⟩, hE⟩ := exptime
  obtain ⟨⟨ns, nn⟩, hN⟩ := now
  dsimp only at hE hN
  have hEs : ∃ k : Int, es.toInt = es.toNat + k * 2 ^ 64 := by
    rw [BitVec.toInt_eq_toNat_cond]
    split
    · exact ⟨0, by omega⟩
    · exact ⟨-1, by omega⟩
  have hNs : ∃ k : Int, ns.toInt = ns.toNat + k * 2 ^ 64 := by
    rw [BitVec.toInt_eq_toNat_cond]
    split
    · exact ⟨0, by omega⟩
    · exact ⟨-1, by omega⟩
  obtain ⟨k, hk⟩ := hEs
  obtain ⟨m, hm⟩ := hNs
  unfold Timespec.from
  dsimp only [Timespec.total]
  rw [hk, hm]
  split
  · have hSub := toNat_sub_eq_emod (es - ns) 1
    rw [toNat_sub_eq_emod es ns, show (1 : BitVec 64).toNat = 1 from rfl] at hSub
    dsimp only
    rw [hSub]
    omega
  · dsimp only
    rw [toNat_sub_eq_emod es ns]
    omega

section Left

variable (exptime now : Instant)

/-- The nanoseconds that are left. -/
def timeLeft : Int := exptime.val.total - now.val.total

theorem timeLeft_bounds :
    -(2 ^ 64 * 1000000000) < timeLeft exptime now ∧
      timeLeft exptime now < 2 ^ 64 * 1000000000 := by
  have hE := exptime.property
  have hN := now.property
  have hEs := BitVec.toInt_lt (x := exptime.val.sec)
  have hEs' := BitVec.le_toInt exptime.val.sec
  have hNs := BitVec.toInt_lt (x := now.val.sec)
  have hNs' := BitVec.le_toInt now.val.sec
  unfold timeLeft Timespec.total
  omega

/-- The deadline is taken to have passed when there is nothing left, or the low word of the seconds
is negative. -/
theorem passed_from_iff :
    (exptime.val.from now.val).passed = true ↔
      timeLeft exptime now = 0 ∨ 2 ^ 31 ≤ timeLeft exptime now / 1000000000 % 2 ^ 32 := by
  obtain ⟨hSec, hNsec⟩ := Timespec.from_eq exptime now
  obtain ⟨hLow, hHigh⟩ := timeLeft_bounds exptime now
  rw [← timeLeft] at hSec hNsec
  unfold Timespec.passed
  rw [Bool.or_eq_true, decide_eq_true_iff, Bool.and_eq_true, beq_iff_eq, beq_iff_eq,
    BitVec.toInt_neg_iff, BitVec.toNat_setWidth, ← BitVec.toNat_inj,
    show (0 : BitVec 64).toNat = 0 from rfl, hNsec]
  omega

/-- The time that is slept for, up to what fits. -/
theorem timespecToMsec_from :
    ((timespecToMsec (exptime.val.from now.val)).toNat : Int) =
      timeLeft exptime now / 1000000 % 2 ^ 32 := by
  obtain ⟨hSec, hNsec⟩ := Timespec.from_eq exptime now
  rw [← timeLeft] at hSec hNsec
  have hTdiv : (exptime.val.from now.val).nsec.tdiv 1000000 =
      timeLeft exptime now % 1000000000 / 1000000 := by
    rw [hNsec]
    exact Int.tdiv_eq_ediv_of_nonneg (Int.emod_nonneg _ (by decide))
  unfold timespecToMsec
  rw [BitVec.toNat_add, BitVec.toNat_setWidth, BitVec.toNat_mul, BitVec.toNat_ofInt, hTdiv,
    show (1000 : BitVec 64).toNat = 1000 from rfl]
  omega

end Left

/-! ### The mutex -/

/-- The recursion is counted twice. -/
structure CsMutex.Counted (m : CsMutex) : Prop where
  nest : m.nest = BitVec.ofNat 32 m.count
  owner : m.owner = none → m.count = 0
  held : m.owner ≠ none → 0 < m.count

theorem CsMutex.Counted.op {m : CsMutex} (h : m.Counted) (o : MutexOp) : (m.op o).Counted := by
  have hLess : 0 < m.count → m.nest - 1 = BitVec.ofNat 32 (m.count - 1) := by
    intro hPos
    obtain ⟨n, hn⟩ := Nat.exists_eq_succ_of_ne_zero (Nat.ne_of_gt hPos)
    rw [h.nest, hn, Nat.succ_sub_one, Nat.succ_eq_add_one, BitVec.ofNat_add]
    exact BitVec.add_sub_cancel _ _
  cases o with
  | lock t =>
      unfold CsMutex.op
      dsimp only
      split
      · refine ⟨?_, nofun, fun _ => Nat.zero_lt_succ _⟩
        show m.nest + 1 = BitVec.ofNat 32 (m.count + 1)
        rw [h.nest, BitVec.ofNat_add]
        rfl
      · exact h
  | unlock t =>
      unfold CsMutex.op
      dsimp only
      split
      · next hOwner =>
          have hPos := h.held (by rw [hOwner]; exact nofun)
          refine ⟨hLess hPos, ?_, ?_⟩
          · intro hNone
            show m.count - 1 = 0
            unfold CsMutex.leave at hNone
            dsimp only at hNone
            split at hNone
            · omega
            · rw [hOwner] at hNone
              cases hNone
          · intro hSome
            show 0 < m.count - 1
            unfold CsMutex.leave at hSome
            dsimp only at hSome
            split at hSome
            · exact absurd rfl hSome
            · omega
      · exact h

theorem CsMutex.Counted.foldl {m : CsMutex} (h : m.Counted) (ops : List MutexOp) :
    (ops.foldl CsMutex.op m).Counted := by
  induction ops generalizing m with
  | nil => exact h
  | cons o ops ih => exact ih (h.op o)

theorem CsMutex.flag_foldl (ops : List MutexOp) (m : CsMutex) :
    (ops.foldl CsMutex.op m).flag = m.flag := by
  induction ops generalizing m with
  | nil => rfl
  | cons o ops ih =>
      rw [List.foldl_cons, ih]
      cases o <;> (unfold CsMutex.op; dsimp only; split <;> rfl)

/-- A sleeper gets the mutex back as it gave it away. -/
theorem CsMutex.sleep_right {m : CsMutex} {caller : Nat} (h : m.HeldOnce caller) (env : CondSleep)
    (msec : BitVec 32) :
    (∃ m', m.sleep caller env msec = .returns env.result (some msec) m' ∧ m'.HeldOnce caller) ∨
      m.sleep caller env msec = .blocked msec := by
  have hLeft : CsMutex.Counted { m.leave with nest := m.nest - 1 } := by
    unfold CsMutex.leave
    rw [h.count, h.nest]
    have hNest : (1 : BitVec 32) - 1 = BitVec.ofNat 32 0 := by decide
    exact ⟨hNest, fun _ => rfl, fun hSome => absurd rfl hSome⟩
  unfold CsMutex.sleep
  dsimp only
  split
  · next hFree =>
      have hAfter := hLeft.foldl env.others
      have hZero := hAfter.owner hFree
      refine Or.inl ⟨_, rfl, ?_, rfl, ?_, ?_⟩
      · exact (CsMutex.flag_foldl env.others _).trans h.flag
      · exact congrArg (· + 1) hZero
      · show CsMutex.nest _ + 1 = 1
        rw [hAfter.nest, hZero]
        rfl
  · exact Or.inr rfl

/-! ### The wait -/

theorem CondVar.Initialised.initOnce {c : CondVar} (h : c.Initialised) (ndebug : Bool) :
    ∃ c', c.initOnce ndebug = some c' := by
  unfold CondVar.initOnce
  rw [h.lock, if_neg (by cases ndebug <;> decide)]
  split <;> exact ⟨_, rfl⟩

/-- The two assertions before a sleep compare the flag of the mutex with that of a condition. -/
theorem conditionSleep_eq {m : CsMutex} {caller : Nat} (h : m.HeldOnce caller) (ndebug : Bool)
    (env : CondSleep) (msec : BitVec 32) :
    conditionSleep ndebug caller env m msec =
      if ndebug = true then m.sleep caller env msec else .asserts := by
  have hFlag : (m.flag == condMagic && m.nest == 1) = false := by
    rw [h.flag]
    rfl
  unfold conditionSleep
  rw [hFlag]
  cases ndebug with
  | false => rfl
  | true =>
      have hPasses : ¬ (m.flag ≠ mutexMagic ∨ m.nest ≠ 1) := by
        rw [h.flag, h.nest]
        simp
      exact if_neg hPasses

section Wait

variable {caller : Nat} {m : CsMutex} {exptime now : Instant}

/-- The time slept for is right just if it is a whole number of milliseconds that fits. -/
theorem reaches_iff (hLeft : 0 < timeLeft exptime now) :
    Reaches (timeLeft exptime now) (timespecToMsec (exptime.val.from now.val)) ↔
      1000000 ∣ timeLeft exptime now ∧ timeLeft exptime now / 1000000 < 2 ^ 32 - 1 := by
  have hMsec := timespecToMsec_from exptime now
  have hFinite : timespecToMsec (exptime.val.from now.val) ≠ infinite ↔
      (timespecToMsec (exptime.val.from now.val)).toNat ≠ 2 ^ 32 - 1 := by
    rw [ne_eq, ← BitVec.toNat_inj]
    rfl
  constructor
  · rintro ⟨hNot, hReached, hSoon⟩
    rw [hFinite] at hNot
    omega
  · rintro ⟨hWhole, hFits⟩
    exact ⟨hFinite.mpr (by omega), by omega, by omega⟩

/-- A deadline that has passed is told so. -/
theorem right_of_passed (hHeld : m.HeldOnce caller) :
    WaitOutcome.Right caller (timeLeft exptime now) (.returns .etimedout none m) ↔
      timeLeft exptime now ≤ 0 := by
  constructor
  · rintro ⟨-, hTimed, -⟩
    exact hTimed.mp ⟨rfl, rfl⟩
  · intro hPast
    exact ⟨hHeld, iff_of_true ⟨rfl, rfl⟩ hPast, fun hAhead => absurd hPast (not_le.mpr hAhead)⟩

/-- A sleep is right for a deadline that is ahead, and for the right time. -/
theorem right_of_sleep (hHeld : m.HeldOnce caller) (env : CondSleep) (msec : BitVec 32)
    (left : Int) :
    WaitOutcome.Right caller left (m.sleep caller env msec) ↔ 0 < left ∧ Reaches left msec := by
  rcases m.sleep_right hHeld env msec with ⟨m', hSleep, hHeld'⟩ | hSleep
  · rw [hSleep]
    constructor
    · rintro ⟨-, hTimed, hSlept⟩
      have hAhead : 0 < left := by
        by_contra hPast
        cases (hTimed.mpr (not_lt.mp hPast)).2
      obtain ⟨msec', hEq, hReaches⟩ := hSlept hAhead
      cases hEq
      exact ⟨hAhead, hReaches⟩
    · rintro ⟨hAhead, hReaches⟩
      exact ⟨hHeld', iff_of_false (fun hNone => nomatch hNone.2) (not_le.mpr hAhead),
        fun _ => ⟨msec, rfl, hReaches⟩⟩
  · rw [hSleep]
    exact Iff.rfl

end Wait

/-- A wait for a deadline is right just under the condition. -/
theorem conditionWait_right_iff (ndebug : Bool) (caller : Nat) (env : CondSleep)
    (exptime now : Instant) (cond : CondVar) (m : CsMutex) (hCond : cond.Initialised)
    (hHeld : m.HeldOnce caller) :
    WaitOutcome.Right caller (timeLeft exptime now)
        (conditionWait ndebug caller env now.val cond m (some exptime.val) false) ↔
      Awaitable ndebug (timeLeft exptime now) := by
  obtain ⟨cond', hInit⟩ := hCond.initOnce ndebug
  have hPassed := passed_from_iff exptime now
  unfold conditionWait Awaitable
  rw [hInit]
  dsimp only
  rw [if_neg Bool.false_ne_true, Bool.not_false, Bool.true_and]
  by_cases hNow : (exptime.val.from now.val).passed = true
  · rw [if_pos hNow, right_of_passed hHeld]
    have hEither := hPassed.mp hNow
    constructor
    · intro hPast
      rcases hEither with hZero | hLow
      · exact Or.inl hZero
      · rcases lt_or_eq_of_le hPast with hLess | hZero
        · exact Or.inr (Or.inl ⟨hLess, hLow⟩)
        · exact Or.inl hZero
    · rintro (hZero | ⟨hLess, -⟩ | ⟨-, hAhead, hWhole, hFits⟩)
      · exact le_of_eq hZero
      · exact le_of_lt hLess
      · omega
  · rw [if_neg hNow, conditionSleep_eq hHeld]
    rw [hPassed, not_or] at hNow
    cases ndebug with
    | false =>
        refine iff_of_false id ?_
        rintro (hZero | ⟨-, hLow⟩ | ⟨hNever, -⟩)
        · exact hNow.1 hZero
        · exact hNow.2 hLow
        · cases hNever
    | true =>
        rw [if_pos rfl, right_of_sleep hHeld]
        constructor
        · rintro ⟨hAhead, hReaches⟩
          exact Or.inr (Or.inr ⟨rfl, hAhead, (reaches_iff hAhead).mp hReaches⟩)
        · rintro (hZero | ⟨-, hLow⟩ | ⟨-, hAhead, hFits⟩)
          · exact absurd hZero hNow.1
          · exact absurd hLow hNow.2
          · exact ⟨hAhead, (reaches_iff hAhead).mpr hFits⟩

/-- With assertions, the wait for a deadline that is one second past. -/
theorem conditionWait_right_iff_past :
    WaitOutcome.Right 1 (timeLeft ⟨⟨41, 0⟩, by decide⟩ ⟨⟨42, 0⟩, by decide⟩)
        (conditionWait false 1 ⟨.ok, []⟩ ⟨42, 0⟩ ⟨0, condMagic⟩ ⟨mutexMagic, 1, some 1, 1⟩
          (some ⟨41, 0⟩) false) ↔
      Awaitable false (timeLeft ⟨⟨41, 0⟩, by decide⟩ ⟨⟨42, 0⟩, by decide⟩) :=
  conditionWait_right_iff false 1 ⟨.ok, []⟩ ⟨⟨41, 0⟩, by decide⟩ ⟨⟨42, 0⟩, by decide⟩
    ⟨0, condMagic⟩ ⟨mutexMagic, 1, some 1, 1⟩ ⟨Or.inl rfl, rfl⟩ ⟨rfl, rfl, rfl, rfl⟩

/-- With assertions there is no wait: the flag of the mutex is not that of a condition. -/
theorem not_conditionWait_right :
    ¬ ∀ (ndebug : Bool) (caller : Nat) (env : CondSleep) (exptime now : Instant) (cond : CondVar)
      (m : CsMutex), cond.Initialised → m.HeldOnce caller →
        WaitOutcome.Right caller (timeLeft exptime now)
          (conditionWait ndebug caller env now.val cond m (some exptime.val) false) := by
  intro h
  have hRight := h false 1 ⟨.ok, []⟩ ⟨⟨43, 0⟩, by decide⟩ ⟨⟨42, 0⟩, by decide⟩ ⟨0, condMagic⟩
    ⟨mutexMagic, 1, some 1, 1⟩ ⟨Or.inl rfl, rfl⟩ ⟨rfl, rfl, rfl, rfl⟩
  have hAsserts : conditionWait false 1 ⟨.ok, []⟩ ⟨42, 0⟩ ⟨0, condMagic⟩
      ⟨mutexMagic, 1, some 1, 1⟩ (some ⟨43, 0⟩) false = .asserts := by decide
  rw [hAsserts] at hRight
  exact hRight

end OncRpc.Sthread
