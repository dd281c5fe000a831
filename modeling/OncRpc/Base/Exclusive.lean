import Mathlib.Logic.Function.Basic

/-! Resources that at most one party has at a time, and the parties, one of which goes on. -/
namespace Exclusive

variable {ι κ γ : Type*}

/-- No two parties have the same. -/
def Held (f : ι → Option κ) : Prop := ∀ i j k, f i = some k → f j = some k → i = j

variable {f g : ι → Option κ}

/-- What nobody has more of, nobody shares. -/
theorem Held.of_le (h : Held f) (hLe : ∀ i k, g i = some k → f i = some k) : Held g :=
  fun i j k hi hj => h i j k (hLe i k hi) (hLe j k hj)

section Update

variable [DecidableEq ι] {parties : ι → γ} {i : ι} {c : γ}

/-- What holds of the party that goes on, and of all others as they were. -/
theorem forall_update {P : ι → γ → Prop} (hSelf : P i c)
    (hOther : ∀ j, j ≠ i → P j (parties j)) (j : ι) : P j (Function.update parties i c j) :=
  (Function.forall_update_iff parties P).mpr ⟨hSelf, hOther⟩ j

/-- A party comes to have what nobody else has. -/
theorem Held.update (view : γ → Option κ) (h : Held fun j => view (parties j))
    (hNew : ∀ k, view c = some k → ∀ j, j ≠ i → view (parties j) ≠ some k) :
    Held fun j => view (Function.update parties i c j) := by
  intro j j' k hj hj'
  dsimp only at hj hj'
  rcases eq_or_ne j i with hSelf | hNe <;> rcases eq_or_ne j' i with hSelf' | hNe'
  · rw [hSelf, hSelf']
  · rw [hSelf, Function.update_self] at hj
    rw [Function.update_of_ne hNe'] at hj'
    exact absurd hj' (hNew k hj j' hNe')
  · rw [hSelf', Function.update_self] at hj'
    rw [Function.update_of_ne hNe] at hj
    exact absurd hj (hNew k hj' j hNe)
  · rw [Function.update_of_ne hNe] at hj
    rw [Function.update_of_ne hNe'] at hj'
    exact h j j' k hj hj'

end Update

/-! ### Things handed out by number -/

/-- Everything that was handed out is with one party, or has been put down in one place. -/
structure Accounted (handedOut : Nat) (placed : List Nat) (held : ι → Option Nat) : Prop where
  nodup : placed.Nodup
  apart : ∀ i k, held i = some k → k ∉ placed
  exclusive : Held held
  all : ∀ k, k < handedOut ↔ k ∈ placed ∨ ∃ i, held i = some k

namespace Accounted

variable {handedOut : Nat} {placed placed' : List Nat} {held : ι → Option Nat}

theorem empty : Accounted 0 [] fun _ : ι => none where
  nodup := List.nodup_nil
  apart := fun _ _ h => nomatch h
  exclusive := fun _ _ _ h => nomatch h
  all k := ⟨fun h => absurd h (Nat.not_lt_zero k), by
    rintro (h | ⟨i, h⟩)
    · exact nomatch h
    · exact nomatch h⟩

/-- It does not matter in which order the places are looked at. -/
theorem perm (h : Accounted handedOut placed held) (hPerm : placed.Perm placed') :
    Accounted handedOut placed' held where
  nodup := hPerm.nodup_iff.mp h.nodup
  apart i k hk hMem := h.apart i k hk (hPerm.mem_iff.mpr hMem)
  exclusive := h.exclusive
  all k := by rw [h.all, hPerm.mem_iff]

variable [DecidableEq ι] {i : ι}

/-- A party that has nothing is handed something new. -/
theorem handOut (h : Accounted handedOut placed held) (hNone : held i = none) :
    Accounted (handedOut + 1) placed (Function.update held i (some handedOut)) where
  nodup := h.nodup
  apart j k hk hMem := by
    by_cases hSelf : j = i
    · rw [hSelf, Function.update_self] at hk
      rw [← Option.some.inj hk] at hMem
      exact absurd ((h.all handedOut).mpr (.inl hMem)) (Nat.lt_irrefl _)
    · rw [Function.update_of_ne hSelf] at hk
      exact h.apart j k hk hMem
  exclusive := by
    refine Held.update (fun k => k) h.exclusive ?_
    intro k hk j _ hj
    rw [← Option.some.inj hk] at hj
    exact absurd ((h.all handedOut).mpr (.inr ⟨j, hj⟩)) (Nat.lt_irrefl _)
  all k := by
    rw [Nat.lt_succ_iff_lt_or_eq, h.all]
    constructor
    · rintro ((hPlaced | ⟨j, hj⟩) | rfl)
      · exact .inl hPlaced
      · have hOther : j ≠ i := by
          rintro rfl
          rw [hNone] at hj
          exact nomatch hj
        exact .inr ⟨j, (Function.update_of_ne hOther _ _).trans hj⟩
      · exact .inr ⟨i, Function.update_self ..⟩
    · rintro (hPlaced | ⟨j, hj⟩)
      · exact .inl (.inl hPlaced)
      · by_cases hSelf : j = i
        · rw [hSelf, Function.update_self] at hj
          exact .inr (Option.some.inj hj).symm
        · rw [Function.update_of_ne hSelf] at hj
          exact .inl (.inr ⟨j, hj⟩)

/-- A party puts down what it has. -/
theorem place {k : Nat} (h : Accounted handedOut placed held) (hHeld : held i = some k) :
    Accounted handedOut (placed ++ [k]) (Function.update held i none) where
  nodup := by
    rw [List.nodup_append]
    refine ⟨h.nodup, List.pairwise_singleton _ k, ?_⟩
    rintro a ha b hb rfl
    rw [List.mem_singleton.mp hb] at ha
    exact h.apart i k hHeld ha
  apart j l hl hMem := by
    by_cases hSelf : j = i
    · rw [hSelf, Function.update_self] at hl
      exact nomatch hl
    · rw [Function.update_of_ne hSelf] at hl
      rcases List.mem_append.mp hMem with hPlaced | hNew
      · exact h.apart j l hl hPlaced
      · rw [List.mem_singleton.mp hNew] at hl
        exact hSelf (h.exclusive j i k hl hHeld)
  exclusive := by
    refine h.exclusive.of_le fun j l hl => ?_
    by_cases hSelf : j = i
    · rw [hSelf, Function.update_self] at hl
      exact nomatch hl
    · rwa [Function.update_of_ne hSelf] at hl
  all l := by
    rw [h.all, List.mem_append, List.mem_singleton]
    constructor
    · rintro (hPlaced | ⟨j, hj⟩)
      · exact .inl (.inl hPlaced)
      · by_cases hSelf : j = i
        · rw [hSelf, hHeld] at hj
          exact .inl (.inr (Option.some.inj hj).symm)
        · exact .inr ⟨j, (Function.update_of_ne hSelf _ _).trans hj⟩
    · rintro ((hPlaced | rfl) | ⟨j, hj⟩)
      · exact .inl hPlaced
      · exact .inr ⟨i, hHeld⟩
      · by_cases hSelf : j = i
        · rw [hSelf, Function.update_self] at hj
          exact nomatch hj
        · rw [Function.update_of_ne hSelf] at hj
          exact .inr ⟨j, hj⟩

end Accounted
end Exclusive
