import Mathlib.Data.List.ReduceOption
import Mathlib.Data.List.Perm.Basic

/-! Arrays of slots that are free or hold a value, and the part of them that is in use. -/
namespace OncRpc.Slots

variable {α : Type} {l : List (Option α)} {used i : Nat} {a : α}

/-- Nothing is held behind the used part. -/
def Tight (l : List (Option α)) (used : Nat) : Prop :=
  ∀ i, used ≤ i → ∀ a, l[i]? ≠ some (some a)

/-- The used part of `n` slots ends behind the last one that holds something. -/
def usedUpTo (l : List (Option α)) : Nat → Nat
  | 0 => 0
  | n + 1 =>
      match l[n]? with
      | some (some _) => n + 1
      | _ => usedUpTo l n

theorem reduceOption_eq_nil (h : Tight l 0) : l.reduceOption = [] := by
  rw [List.eq_nil_iff_forall_not_mem]
  intro a hMem
  obtain ⟨i, hi⟩ := List.mem_iff_getElem?.mp (List.reduceOption_mem_iff.mp hMem)
  exact h i (Nat.zero_le i) a hi

/-- The used part holds all that is held. -/
theorem Tight.held_take (h : Tight l used) : (l.take used).reduceOption = l.reduceOption := by
  have hRest : Tight (l.drop used) 0 := by
    intro i _ a hi
    rw [List.getElem?_drop] at hi
    exact h (used + i) (Nat.le_add_right used i) a hi
  have hSplit : l.reduceOption = (l.take used ++ l.drop used).reduceOption := by
    rw [List.take_append_drop]
  rw [hSplit, List.reduceOption_append, reduceOption_eq_nil hRest, List.append_nil]

theorem eq_append_of_getElem? {x : Option α} (h : l[i]? = some x) :
    l = l.take i ++ x :: l.drop (i + 1) ∧
      ∀ y, l.set i y = l.take i ++ y :: l.drop (i + 1) := by
  obtain ⟨hLt, rfl⟩ := List.getElem?_eq_some_iff.mp h
  constructor
  · rw [← List.drop_eq_getElem_cons hLt, List.take_append_drop]
  · intro y
    exact List.set_eq_take_append_cons_drop.trans (if_pos hLt)

/-- A free slot is taken. -/
theorem held_set_some (h : l[i]? = some none) (a : α) :
    (l.set i (some a)).reduceOption.Perm (a :: l.reduceOption) := by
  obtain ⟨hSplit, hSet⟩ := eq_append_of_getElem? h
  have hHeld : l.reduceOption = (l.take i).reduceOption ++ (l.drop (i + 1)).reduceOption := by
    conv_lhs => rw [hSplit]
    rw [List.reduceOption_append, List.reduceOption_cons_of_none]
  rw [hSet, List.reduceOption_append, List.reduceOption_cons_of_some, hHeld]
  exact List.perm_middle

/-- A slot is freed. -/
theorem held_set_none (h : l[i]? = some (some a)) :
    l.reduceOption.Perm (a :: (l.set i none).reduceOption) := by
  obtain ⟨hSplit, hSet⟩ := eq_append_of_getElem? h
  have hHeld : l.reduceOption =
      (l.take i).reduceOption ++ a :: (l.drop (i + 1)).reduceOption := by
    conv_lhs => rw [hSplit]
    rw [List.reduceOption_append, List.reduceOption_cons_of_some]
  rw [hSet, List.reduceOption_append, List.reduceOption_cons_of_none, hHeld]
  exact List.perm_middle

/-- The used part reaches as far as a slot that is taken. -/
theorem Tight.set_some (h : Tight l used) (i : Nat) (a : α) :
    Tight (l.set i (some a)) (if used ≤ i then i + 1 else used) := by
  intro j hj b hHeld
  have hApart : i ≠ j := by
    split at hj <;> omega
  rw [List.getElem?_set_ne hApart] at hHeld
  refine h j ?_ b hHeld
  split at hj <;> omega

theorem Tight.set_none (h : Tight l used) (i : Nat) : Tight (l.set i none) used := by
  intro j hj b hHeld
  rw [List.getElem?_set] at hHeld
  split at hHeld
  · split at hHeld <;> cases hHeld
  · exact h j hj b hHeld

theorem Tight.usedUpTo (h : Tight l used) : Tight l (usedUpTo l used) := by
  induction used with
  | zero => exact h
  | succ n ih =>
      unfold Slots.usedUpTo
      split
      · exact h
      · next hFree =>
          apply ih
          intro j hj b hHeld
          rcases Nat.eq_or_lt_of_le hj with rfl | hLt
          · exact hFree b hHeld
          · exact h j hLt b hHeld

/-- New slots at the end, of which the first is taken. -/
theorem tight_grow (a : α) (n : Nat) :
    Tight (l ++ some a :: List.replicate n none) (l.length + 1) := by
  intro j hj b hHeld
  rw [List.getElem?_append_right (by omega)] at hHeld
  obtain ⟨k, hk⟩ : ∃ k, j - l.length = k + 1 := ⟨j - l.length - 1, by omega⟩
  rw [hk, List.getElem?_cons_succ, List.getElem?_replicate] at hHeld
  split at hHeld <;> cases hHeld

theorem held_grow (a : α) (n : Nat) :
    (l ++ some a :: List.replicate n none).reduceOption.Perm (a :: l.reduceOption) := by
  have hNone : (List.replicate n (none : Option α)).reduceOption = [] := by
    rw [List.reduceOption_replicate_none]
  rw [List.reduceOption_append, List.reduceOption_cons_of_some, hNone]
  exact List.perm_append_singleton a _

theorem tight_length : Tight l l.length := by
  intro j hj b hHeld
  rw [List.getElem?_eq_none hj] at hHeld
  cases hHeld

end OncRpc.Slots
