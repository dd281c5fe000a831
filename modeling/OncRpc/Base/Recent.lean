import OncRpc.Base.Keyed

/-! What is kept of a history of records, newest first: of a key no more than its last record. -/
namespace OncRpc.Recent

open Keyed

variable {α κ : Type} [DecidableEq κ] {key : α → κ} {history kept : List α} {r : α}

/-- How many records there have been since the last one of a key. -/
def age (key : α → κ) (history : List α) (k : κ) : Nat :=
  history.findIdx fun r => decide (key r = k)

@[simp] theorem age_cons_self (r : α) (history : List α) : age key (r :: history) (key r) = 0 := by
  simp [age, List.findIdx_cons]

theorem age_cons_of_ne {k : κ} (h : key r ≠ k) (history : List α) :
    age key (r :: history) k = age key history k + 1 := by
  simp [age, List.findIdx_cons, h]

/-- The records that are kept are the last ones of their keys, the newest first. -/
structure Keeps (key : α → κ) (history kept : List α) : Prop where
  ordered : kept.Pairwise fun r r' => age key history (key r) < age key history (key r')
  last : ∀ r ∈ kept, lookup key history (key r) = some r

theorem keeps_nil (history : List α) : Keeps key history [] :=
  ⟨List.Pairwise.nil, fun _ hMem => absurd hMem List.not_mem_nil⟩

/-- Records may be forgotten. -/
theorem Keeps.sublist {rest : List α} (h : Keeps key history kept) (hRest : rest.Sublist kept) :
    Keeps key history rest :=
  ⟨h.ordered.sublist hRest, fun r hMem => h.last r (hRest.subset hMem)⟩

theorem Keeps.distinct (h : Keeps key history kept) : Distinct key kept := by
  rw [Distinct, List.Nodup, List.pairwise_map]
  apply h.ordered.imp
  intro r r' hOlder hSame
  rw [hSame] at hOlder
  exact Nat.lt_irrefl _ hOlder

/-- A new record is kept before the others, of which none has its key. -/
theorem Keeps.record (h : Keeps key history kept) (hNew : ∀ r' ∈ kept, key r' ≠ key r) :
    Keeps key (r :: history) (r :: kept) := by
  have hAge : ∀ r' ∈ kept, age key (r :: history) (key r') = age key history (key r') + 1 :=
    fun r' hMem => age_cons_of_ne (hNew r' hMem).symm history
  constructor
  · rw [List.pairwise_cons]
    constructor
    · intro r' hMem
      rw [age_cons_self, hAge r' hMem]
      exact Nat.succ_pos _
    · apply h.ordered.imp_of_mem
      intro r₁ r₂ hFirst hSecond hOlder
      rw [hAge r₁ hFirst, hAge r₂ hSecond]
      exact Nat.succ_lt_succ hOlder
  · intro r' hMem
    rw [lookup_cons]
    rcases List.mem_cons.mp hMem with rfl | hOld
    · exact Function.update_self ..
    · rw [Function.update_of_ne (hNew r' hOld)]
      exact h.last r' hOld

/-- What a key leads to is its last record. -/
theorem Keeps.lookup {k : κ} (h : Keeps key history kept)
    (hFound : Keyed.lookup key kept k = some r) : Keyed.lookup key history k = some r := by
  obtain ⟨hMem, rfl⟩ := mem_of_lookup hFound
  exact h.last r hMem

end OncRpc.Recent
