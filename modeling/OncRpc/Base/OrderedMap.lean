import Mathlib.Data.List.Nodup
import Mathlib.Data.List.Sort

/-! Maps over keys that a three-way comparison orders, where keys that compare as equal are one.
An entry comes in where it belongs, unless its key is there. -/
namespace OrderedMap

variable {κ μ α : Type} (cmp : κ → κ → Int)

/-- What a key leads to. -/
def find (m : List (κ × α)) (k : κ) : Option α :=
  (m.find? fun e => decide (cmp e.1 k = 0)).map Prod.snd

/-- A new entry, if the key is not there. -/
def insert (m : List (κ × α)) (k : κ) (a : α) : List (κ × α) :=
  if (find cmp m k).isSome then m else m.orderedInsert (fun e e' => cmp e.1 e'.1 < 0) (k, a)

/-- What a key leads to is changed. -/
def modify (m : List (κ × α)) (k : κ) (f : α → α) : List (κ × α) :=
  m.map fun e => if cmp e.1 k = 0 then (e.1, f e.2) else e

/-- The keys that compare as equal are those that are folded to the same. -/
def Folds (fold : κ → μ) : Prop := ∀ k k', cmp k k' = 0 ↔ fold k = fold k'

/-- No two keys are folded to the same. -/
def Distinct (fold : κ → μ) (m : List (κ × α)) : Prop := (m.map fun e => fold e.1).Nodup

variable {cmp} {fold : κ → μ} {m : List (κ × α)}

@[simp] theorem find_nil (k : κ) : find cmp ([] : List (κ × α)) k = none := rfl

theorem distinct_nil : Distinct fold ([] : List (κ × α)) := List.nodup_nil

theorem mem_of_find (hFold : Folds cmp fold) {k : κ} {a : α} (h : find cmp m k = some a) :
    ∃ k', (k', a) ∈ m ∧ fold k' = fold k := by
  obtain ⟨⟨k', a'⟩, hFind, rfl⟩ := Option.map_eq_some_iff.mp h
  refine ⟨k', List.mem_of_find?_eq_some hFind, (hFold k' k).mp ?_⟩
  simpa using List.find?_some hFind

theorem find_eq_none (hFold : Folds cmp fold) {k : κ} :
    find cmp m k = none ↔ ∀ e ∈ m, fold e.1 ≠ fold k := by
  simp [find, hFold _ _]

/-- An entry is what its key leads to. -/
theorem Distinct.find_eq_some (h : Distinct fold m) (hFold : Folds cmp fold) {k : κ} {a : α} :
    find cmp m k = some a ↔ ∃ k', (k', a) ∈ m ∧ fold k' = fold k := by
  refine ⟨mem_of_find hFold, ?_⟩
  rintro ⟨k', hMem, hSame⟩
  cases hFind : find cmp m k with
  | none => exact absurd hSame ((find_eq_none hFold).mp hFind _ hMem)
  | some a' =>
      obtain ⟨k'', hMem', hSame'⟩ := mem_of_find hFold hFind
      have hEntry := List.inj_on_of_nodup_map h hMem' hMem (hSame'.trans hSame.symm)
      rw [(Prod.mk.inj hEntry).2]

theorem Distinct.insert (h : Distinct fold m) (hFold : Folds cmp fold) (k : κ) (a : α) :
    Distinct fold (insert cmp m k a) := by
  unfold OrderedMap.insert
  split
  · exact h
  · next hNew =>
      have hNone := Option.not_isSome_iff_eq_none.mp hNew
      have hPerm := (List.perm_orderedInsert (fun e e' : κ × α => cmp e.1 e'.1 < 0) (k, a) m).map
        fun e => fold e.1
      refine hPerm.nodup_iff.mpr (List.nodup_cons.mpr ⟨?_, h⟩)
      intro hMem
      obtain ⟨e, he, hSame⟩ := List.mem_map.mp hMem
      exact (find_eq_none hFold).mp hNone e he hSame

/-- A key leads to what it did, and if there was nothing, to what was inserted under the same. -/
theorem Distinct.find_insert [DecidableEq μ] (h : Distinct fold m) (hFold : Folds cmp fold)
    (k : κ) (a : α) (k' : κ) :
    find cmp (OrderedMap.insert cmp m k a) k' =
      (find cmp m k').or (if fold k = fold k' then some a else none) := by
  have hSameFind : ∀ k'', fold k'' = fold k' → find cmp m k'' = find cmp m k' := by
    intro k'' hSame
    ext b
    rw [h.find_eq_some hFold, h.find_eq_some hFold, hSame]
  by_cases hThere : (find cmp m k).isSome = true
  · rw [OrderedMap.insert, if_pos hThere]
    by_cases hSame : fold k = fold k'
    · rw [hSameFind k hSame] at hThere
      obtain ⟨b, hb⟩ := Option.isSome_iff_exists.mp hThere
      rw [hb, Option.some_or]
    · rw [if_neg hSame, Option.or_none]
  · have hNew := h.insert hFold k a
    have hNone := Option.not_isSome_iff_eq_none.mp hThere
    ext b
    rw [hNew.find_eq_some hFold, OrderedMap.insert, if_neg hThere]
    simp only [List.mem_orderedInsert, Prod.mk.injEq]
    constructor
    · rintro ⟨k'', ⟨rfl, rfl⟩ | hMem, hSame⟩
      · rw [← hSameFind k'' hSame, hNone, Option.none_or, if_pos hSame]
      · rw [(h.find_eq_some hFold).mpr ⟨k'', hMem, hSame⟩, Option.some_or]
    · intro hb
      cases hFind : find cmp m k' with
      | some b' =>
          rw [hFind, Option.some_or] at hb
          obtain ⟨k'', hMem, hSame⟩ := mem_of_find hFold (hFind.trans hb)
          exact ⟨k'', Or.inr hMem, hSame⟩
      | none =>
          rw [hFind, Option.none_or] at hb
          split at hb
          · next hSame => exact ⟨k, Or.inl ⟨rfl, (Option.some.inj hb).symm⟩, hSame⟩
          · cases hb

theorem Distinct.modify (h : Distinct fold m) (k : κ) (f : α → α) :
    Distinct fold (modify cmp m k f) := by
  have hKeys : (OrderedMap.modify cmp m k f).map (fun e => fold e.1) = m.map fun e => fold e.1 := by
    rw [OrderedMap.modify, List.map_map]
    apply List.map_congr_left
    intro e _
    show fold (if cmp e.1 k = 0 then (e.1, f e.2) else e).1 = fold e.1
    split <;> rfl
  rw [Distinct, hKeys]
  exact h

/-- What leads to the changed entry leads to it as before. -/
theorem find_modify [DecidableEq μ] (hFold : Folds cmp fold) (k : κ) (f : α → α) (k' : κ) :
    find cmp (modify cmp m k f) k' =
      if fold k = fold k' then (find cmp m k').map f else find cmp m k' := by
  induction m with
  | nil => simp [modify]
  | cons e m ih =>
      have hKey : ∀ e' : κ × α, (if cmp e'.1 k = 0 then (e'.1, f e'.2) else e').1 = e'.1 := by
        intro e'
        split <;> rfl
      rw [modify, List.map_cons, find, List.find?_cons, hKey, ← modify, find, List.find?_cons]
      rw [find, find] at ih
      by_cases hHere : cmp e.1 k' = 0
      · simp only [hHere, decide_true]
        have hSame := (hFold e.1 k').mp hHere
        by_cases hCur : cmp e.1 k = 0
        · rw [if_pos hCur, if_pos (((hFold e.1 k).mp hCur).symm.trans hSame)]
          rfl
        · rw [if_neg hCur, if_neg]
          exact fun hFold' => hCur ((hFold e.1 k).mpr (hSame.trans hFold'.symm))
      · simp only [hHere, decide_false]
        exact ih

end OrderedMap
