import Mathlib.Data.Int.Basic

/-! Times as seconds and microseconds, with the macros that compute with them. -/

/-- `struct timeval`. -/
structure Timeval where
  tvSec : Int
  tvUsec : Int
  deriving DecidableEq, Repr

namespace Timeval

/-- No time. -/
def zero : Timeval := ⟨0, 0⟩

/-- `timeradd`. -/
def timeradd (tv uv : Timeval) : Timeval :=
  let sec := tv.tvSec + uv.tvSec
  let usec := tv.tvUsec + uv.tvUsec
  if 1000000 ≤ usec then ⟨sec + 1, usec - 1000000⟩ else ⟨sec, usec⟩

/-- `timersub`. -/
def timersub (tv uv : Timeval) : Timeval :=
  let sec := tv.tvSec - uv.tvSec
  let usec := tv.tvUsec - uv.tvUsec
  if usec < 0 then ⟨sec - 1, usec + 1000000⟩ else ⟨sec, usec⟩

/-- `timercmp` with `<`, and with `>` the other way round. -/
def timerless (tv uv : Timeval) : Bool :=
  if tv.tvSec = uv.tvSec then decide (tv.tvUsec < uv.tvUsec) else decide (tv.tvSec < uv.tvSec)

/-- A time in microseconds. -/
def micros (tv : Timeval) : Int := tv.tvSec * 1000000 + tv.tvUsec

/-- The microseconds are those of a second. -/
structure Normal (tv : Timeval) : Prop where
  nonneg : 0 ≤ tv.tvUsec
  lt : tv.tvUsec < 1000000

variable {tv uv : Timeval}

theorem normal_zero : Normal zero := ⟨by decide, by decide⟩

@[simp] theorem micros_timeradd (tv uv : Timeval) :
    (timeradd tv uv).micros = tv.micros + uv.micros := by
  simp only [timeradd, micros]
  split <;> (dsimp only; omega)

@[simp] theorem micros_timersub (tv uv : Timeval) :
    (timersub tv uv).micros = tv.micros - uv.micros := by
  simp only [timersub, micros]
  split <;> (dsimp only; omega)

theorem Normal.timersub (h : Normal tv) (h' : Normal uv) : Normal (timersub tv uv) := by
  obtain ⟨hLow, hHigh⟩ := h
  obtain ⟨hLow', hHigh'⟩ := h'
  unfold Timeval.timersub
  dsimp only
  split <;> constructor <;> dsimp only <;> omega

/-- Normal times are compared as microseconds. -/
theorem timerless_iff (h : Normal tv) (h' : Normal uv) :
    timerless tv uv = true ↔ tv.micros < uv.micros := by
  obtain ⟨hLow, hHigh⟩ := h
  obtain ⟨hLow', hHigh'⟩ := h'
  unfold timerless micros
  split <;> (rw [decide_eq_true_eq]; omega)

/-! ### Times that are over -/

/-- The microseconds are at most a million, and a million only if those of `w` are. -/
structure Within (w tv : Timeval) : Prop where
  nonneg : 0 ≤ tv.tvUsec
  le : tv.tvUsec ≤ 1000000
  lt : w.tvUsec ≠ 1000000 → tv.tvUsec < 1000000

/-- A time is over that was given as `tv`. With a million microseconds it is so when it is
reached. -/
def Over (tv : Timeval) (due waited : Int) : Prop :=
  due < waited ∨ tv.tvUsec = 1000000 ∧ due ≤ waited

variable {w now : Timeval} {due waited waited' : Int}

theorem Within.self (hLow : 0 ≤ w.tvUsec) (hHigh : w.tvUsec ≤ 1000000) : Within w w :=
  ⟨hLow, hHigh, fun hNe => by omega⟩

theorem Within.timeradd (h : Within w tv) (h' : Within w uv) :
    Within w (timeradd tv uv) := by
  obtain ⟨hLow, hHigh, hLt⟩ := h
  obtain ⟨hLow', hHigh', hLt'⟩ := h'
  unfold Timeval.timeradd
  dsimp only
  split
  · refine ⟨?_, ?_, fun hUsec => ?_⟩ <;> dsimp only
    · omega
    · omega
    · have := hLt hUsec
      have := hLt' hUsec
      omega
  · refine ⟨?_, ?_, fun _ => ?_⟩ <;> dsimp only <;> omega

theorem Over.mono (h : Over tv due waited) (hLe : waited ≤ waited') :
    Over tv due waited' := by
  rcases h with hLt | ⟨hUsec, hReached⟩
  · exact Or.inl (by omega)
  · exact Or.inr ⟨hUsec, by omega⟩

theorem over_of_timerless (hUsec : tv.tvUsec ≤ 1000000) (hNow : now.Normal)
    (h : timerless tv now = true) : Over tv tv.micros now.micros := by
  obtain ⟨hLow, hHigh⟩ := hNow
  unfold timerless at h
  unfold Over micros
  split at h <;> (rw [decide_eq_true_eq] at h; omega)

/-- What the comparison of the code says about a sum of intervals. -/
theorem Within.over (h : Within w tv) (hNow : now.Normal) (hLess : timerless tv now = true)
    (hDue : due ≤ tv.micros) : Over w due now.micros := by
  rcases over_of_timerless h.le hNow hLess with hLt | ⟨hUsec, hLe⟩
  · exact Or.inl (by omega)
  · by_cases hWhole : w.tvUsec = 1000000
    · exact Or.inr ⟨hWhole, by omega⟩
    · exact absurd (h.lt hWhole) (by omega)

end Timeval
