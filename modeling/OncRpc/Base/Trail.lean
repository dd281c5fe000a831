import Mathlib.Data.Finset.Card
import Mathlib.Data.Fintype.Basic
import Mathlib.Tactic.Common

/-! Trails: what one thing leads to, and whether that comes to an end. The things are arbitrary. -/
namespace Trail

variable {α : Type*} {next : α → Option α} {a b : α} {m n : Nat}

/-- Where `n` steps lead, unless the trail has ended before. -/
def climb (next : α → Option α) : Nat → α → Option α
  | 0, a => some a
  | n + 1, a => (next a).bind (climb next n)

/-- No step is one of a circle. -/
def Acyclic (next : α → Option α) : Prop := ∀ a n, 0 < n → climb next n a ≠ some a

theorem climb_add (m n : Nat) (a : α) :
    climb next (m + n) a = (climb next m a).bind (climb next n) := by
  induction m generalizing a with
  | zero => rw [Nat.zero_add]; rfl
  | succ m ih =>
      rw [Nat.succ_add, climb, climb, Option.bind_assoc]
      exact congrArg (next a).bind (funext ih)

theorem climb_one (a : α) : climb next 1 a = next a := Option.bind_fun_some _

/-- The last step of a trail. -/
theorem climb_succ (n : Nat) (a : α) : climb next (n + 1) a = (climb next n a).bind next := by
  rw [climb_add]
  exact congrArg _ (funext climb_one)

/-- A trail that has ended does not go on. -/
theorem climb_eq_none_of_le (h : climb next m a = none) (hLe : m ≤ n) : climb next n a = none := by
  obtain ⟨k, rfl⟩ := Nat.exists_eq_add_of_le hLe
  rw [climb_add, h]
  rfl

/-- Round and round a circle. -/
theorem climb_mul (h : climb next n a = some a) (k : Nat) : climb next (k * n) a = some a := by
  induction k with
  | zero => rw [Nat.zero_mul]; rfl
  | succ k ih =>
      rw [Nat.succ_mul, climb_add, ih]
      exact h

/-- On a circle there is no end. -/
theorem climb_ne_none_of_circle (hPos : 0 < n) (h : climb next n a = some a) (m : Nat) :
    climb next m a ≠ none := by
  intro hEnd
  have hFar : climb next (m * n) a = none :=
    climb_eq_none_of_le hEnd (Nat.le_mul_of_pos_right m hPos)
  rw [climb_mul h] at hFar
  cases hFar

/-- Where every trail ends there is no circle. -/
theorem acyclic_of_ends (h : ∀ a, ∃ n, climb next n a = none) : Acyclic next := by
  intro a n hPos hCircle
  obtain ⟨m, hEnd⟩ := h a
  exact climb_ne_none_of_circle hPos hCircle m hEnd

/-- A trail that is longer than the list of the things that lead anywhere is on a circle. -/
theorem circle_of_climb {l : List α} (hFrom : ∀ a b, next a = some b → a ∈ l)
    (h : climb next (l.length + 1) a ≠ none) :
    ∃ i d b, climb next i a = some b ∧ 0 < d ∧ climb next d b = some b := by
  classical
  have hOn : ∀ i ∈ Finset.range (l.length + 1), climb next i a ∈ (l.map some).toFinset := by
    intro i hi
    have hNext : climb next (i + 1) a ≠ none :=
      fun hEnd => h (climb_eq_none_of_le hEnd (Finset.mem_range.mp hi))
    rw [climb_succ] at hNext
    cases hAt : climb next i a with
    | none => exact absurd (by rw [hAt]; rfl) hNext
    | some b =>
        rw [hAt] at hNext
        obtain ⟨c, hStep⟩ := Option.ne_none_iff_exists'.mp hNext
        exact List.mem_toFinset.mpr (List.mem_map_of_mem (hFrom b c hStep))
  have hCard : (l.map some).toFinset.card < (Finset.range (l.length + 1)).card := by
    have hLe := (l.map some).toFinset_card_le
    rw [List.length_map] at hLe
    rw [Finset.card_range]
    omega
  obtain ⟨i, hi, j, hj, hNe, hSame⟩ := Finset.exists_ne_map_eq_of_card_lt_of_maps_to hCard hOn
  have hLt : ∀ {i j : Nat}, i ∈ Finset.range (l.length + 1) → i < j →
      climb next i a = climb next j a →
      ∃ i d b, climb next i a = some b ∧ 0 < d ∧ climb next d b = some b := by
    intro i j hi hLt hSame
    obtain ⟨b, -, hAt⟩ := List.mem_map.mp (List.mem_toFinset.mp (hOn i hi))
    obtain ⟨d, rfl⟩ := Nat.exists_eq_add_of_lt hLt
    refine ⟨i, d + 1, b, hAt.symm, Nat.succ_pos d, ?_⟩
    rw [Nat.add_assoc, climb_add, ← hAt] at hSame
    exact hSame.symm
  rcases Nat.lt_or_gt_of_ne hNe with hBefore | hBehind
  · exact hLt hi hBefore hSame
  · exact hLt hj hBehind hSame.symm

/-- A trail that ends does so once each of those things has been passed. -/
theorem climb_length_eq_none {l : List α} (hFrom : ∀ a b, next a = some b → a ∈ l)
    (h : ∃ n, climb next n a = none) : climb next (l.length + 1) a = none := by
  by_contra hOn
  obtain ⟨i, d, b, hAt, hPos, hCircle⟩ := circle_of_climb hFrom hOn
  obtain ⟨n, hEnd⟩ := h
  have hFar : climb next (i + n) a = none := climb_eq_none_of_le hEnd (Nat.le_add_left n i)
  rw [climb_add, hAt] at hFar
  exact climb_ne_none_of_circle hPos hCircle n hFar

/-- Where few things lead anywhere, every trail ends if there is no circle. -/
theorem ends_of_acyclic {l : List α} (hFrom : ∀ a b, next a = some b → a ∈ l)
    (h : Acyclic next) (a : α) : climb next (l.length + 1) a = none := by
  by_contra hOn
  obtain ⟨i, d, b, -, hPos, hCircle⟩ := circle_of_climb hFrom hOn
  exact h b d hPos hCircle

end Trail
