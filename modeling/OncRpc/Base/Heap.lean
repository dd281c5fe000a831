import Mathlib.Data.List.Basic
import Mathlib.Data.List.Nodup
import Mathlib.Data.List.Perm.Subperm

/-! A heap that hands out each address once. What is read, stored to or freed has to be live, so
that a computation that gets through never touched anything that was freed, nor freed it again. -/

/-- The cells that were handed out, in order. A cell that was freed is empty. -/
structure Heap (α : Type*) where
  cells : List (Option α)

namespace Heap

variable {α : Type*}

def empty : Heap α := ⟨[]⟩

/-- What a live cell holds. -/
def read (h : Heap α) (p : Nat) : Option α := h.cells[p]?.join

/-- The address of a new cell, and the heap with it. -/
def malloc (h : Heap α) (a : α) : Nat × Heap α := (h.cells.length, ⟨h.cells ++ [some a]⟩)

/-- The contents of a live cell are replaced. -/
def replace (h : Heap α) (p : Nat) (c : Option α) : Option (Heap α) :=
  if (h.read p).isSome then some ⟨h.cells.set p c⟩ else none

/-- A store to a live cell. -/
def store (h : Heap α) (p : Nat) (a : α) : Option (Heap α) := h.replace p (some a)

/-- A live cell is given back. -/
def free (h : Heap α) (p : Nat) : Option (Heap α) := h.replace p none

/-- The first address that was not handed out. -/
def brk (h : Heap α) : Nat := h.cells.length

/-- How many cells are live. -/
def live (h : Heap α) : Nat := h.cells.countP Option.isSome

variable {h h' : Heap α} {p q : Nat} {a b : α}

theorem lt_brk_of_read (hRead : h.read p = some a) : p < h.brk := by
  by_contra hBehind
  rw [read, List.getElem?_eq_none (Nat.not_lt.mp hBehind)] at hRead
  cases hRead

theorem read_of_brk_le (hBehind : h.brk ≤ p) : h.read p = none := by
  rw [read, List.getElem?_eq_none hBehind]
  rfl

theorem read_brk (h : Heap α) : h.read h.brk = none := read_of_brk_le (Nat.le_refl _)

@[simp] theorem malloc_fst (h : Heap α) (a : α) : (h.malloc a).1 = h.brk := rfl

theorem read_malloc (h : Heap α) (a : α) (p : Nat) :
    (h.malloc a).2.read p = if p = h.brk then some a else h.read p := by
  show (h.cells ++ [some a])[p]?.join = if p = h.cells.length then some a else h.cells[p]?.join
  rcases Nat.lt_trichotomy p h.cells.length with hLt | hNew | hGt
  · rw [List.getElem?_append_left hLt, if_neg (Nat.ne_of_lt hLt)]
  · rw [if_pos hNew, hNew, List.getElem?_concat_length]
    rfl
  · have hLen : (h.cells ++ [some a]).length ≤ p := by
      rw [List.length_append]
      exact hGt
    rw [if_neg (Nat.ne_of_gt hGt), List.getElem?_eq_none hLen,
      List.getElem?_eq_none (Nat.le_of_lt hGt)]

theorem read_malloc_of_read (hRead : h.read p = some a) : (h.malloc b).2.read p = some a := by
  rw [read_malloc, if_neg (Nat.ne_of_lt (lt_brk_of_read hRead)), hRead]

@[simp] theorem brk_malloc (h : Heap α) (a : α) : (h.malloc a).2.brk = h.brk + 1 := by
  simp [brk, malloc]

@[simp] theorem live_malloc (h : Heap α) (a : α) : (h.malloc a).2.live = h.live + 1 := by
  simp [live, malloc]

/-- The live cell `p` holds `c` afterwards, and the other cells what they did. -/
structure Updated (h h' : Heap α) (p : Nat) (c : Option α) : Prop where
  read : ∀ q, h'.read q = if q = p then c else h.read q
  live : h'.live + 1 = h.live + if c.isSome then 1 else 0
  brk : h'.brk = h.brk

theorem replace_of_read (hRead : h.read p = some a) (c : Option α) :
    ∃ h', h.replace p c = some h' ∧ Updated h h' p c := by
  have hLt : p < h.cells.length := lt_brk_of_read hRead
  have hCell : h.cells[p] = some a := by
    rw [read, List.getElem?_eq_getElem hLt] at hRead
    exact hRead
  refine ⟨⟨h.cells.set p c⟩, if_pos (by rw [hRead]; rfl), ?_, ?_, List.length_set⟩
  · intro q
    show ((h.cells.set p c)[q]?).join = if q = p then c else (h.cells[q]?).join
    rw [List.getElem?_set]
    by_cases hq : q = p
    · subst hq
      simp [hLt]
    · rw [if_neg (Ne.symm hq), if_neg hq]
  · have hPos : 0 < h.cells.countP Option.isSome :=
      List.countP_pos_iff.mpr ⟨_, List.getElem_mem hLt, by rw [hCell]; rfl⟩
    have hCount := List.countP_set (p := Option.isSome) (a := c) hLt
    rw [hCell, if_pos (by rfl)] at hCount
    simp only [live]
    omega

theorem store_of_read (hRead : h.read p = some a) (b : α) :
    ∃ h', h.store p b = some h' ∧ Updated h h' p (some b) := replace_of_read hRead (some b)

theorem free_of_read (hRead : h.read p = some a) :
    ∃ h', h.free p = some h' ∧ Updated h h' p none := replace_of_read hRead none

/-- A cell that gets what it holds changes nothing. -/
theorem store_self (hRead : h.read p = some a) : h.store p a = some h := by
  have hLt : p < h.cells.length := lt_brk_of_read hRead
  have hCell : h.cells[p] = some a := by
    rw [read, List.getElem?_eq_getElem hLt] at hRead
    exact hRead
  have hSame : h.cells.set p (some a) = h.cells := by
    rw [← hCell, List.set_getElem_self]
  rw [store, replace, if_pos (by rw [hRead]; rfl), hSame]

/-- A store does not notice a cell that was handed out since. -/
theorem store_malloc (hStore : h.store p a = some h') (b : α) :
    (h.malloc b).2.store p a = some (h'.malloc b).2 := by
  rw [store, replace] at hStore ⊢
  split at hStore
  · next hLive =>
      obtain ⟨c, hRead⟩ := Option.isSome_iff_exists.mp hLive
      have hLt : p < h.cells.length := lt_brk_of_read hRead
      rw [if_pos (by rw [read_malloc_of_read hRead]; rfl), ← Option.some.inj hStore]
      simp only [malloc, List.set_append_left _ _ hLt]
  · cases hStore

theorem Updated.refl (hRead : h.read p = some a) : Updated h h p (some a) where
  read q := by
    split
    · next hq => rw [hq, hRead]
    · rfl
  live := rfl
  brk := rfl

theorem Updated.trans {h₁ : Heap α} {c : Option α} (hFirst : Updated h h₁ p (some a))
    (hSecond : Updated h₁ h' p c) : Updated h h' p c where
  read q := by
    rw [hSecond.read, hFirst.read]
    split <;> rfl
  live := by
    have hSame := hFirst.live
    rw [hSecond.live, Nat.succ.inj hSame]
  brk := hSecond.brk.trans hFirst.brk

theorem Updated.live_eq (hSome : Updated h h' p (some a)) : h'.live = h.live :=
  Nat.succ.inj hSome.live

/-- Without live cells there is nothing to read. -/
theorem read_eq_none_of_live (hLive : h.live = 0) (p : Nat) : h.read p = none := by
  have hNone := List.countP_eq_zero.mp hLive
  rw [read]
  cases hCell : h.cells[p]? with
  | none => rfl
  | some c =>
      have hMem : c ∈ h.cells := List.mem_of_getElem? hCell
      cases c with
      | none => rfl
      | some a => exact absurd rfl (hNone _ hMem)

theorem live_pos_of_read (hRead : h.read p = some a) : 0 < h.live := by
  by_contra hZero
  rw [read_eq_none_of_live (by omega)] at hRead
  cases hRead

/-! ### Pointers that may be null -/

/-- What is behind a pointer. There is nothing to tell of a cell that is not live. -/
def held (h : Heap α) : Option Nat → Option (Option α)
  | none => some none
  | some p => (h.read p).map some

/-- Contents come behind a pointer, or none: in its own cell, or else in a new one. -/
def place (h : Heap α) (p : Option Nat) (c : Option α) (moves : Bool) :
    Option (Option Nat × Heap α) :=
  match p, c with
  | none, none => some (none, h)
  | none, some a => some (some (h.malloc a).1, (h.malloc a).2)
  | some p, none => (h.free p).map fun h => (none, h)
  | some p, some a =>
      if moves then (h.free p).map fun h => (some (h.malloc a).1, (h.malloc a).2)
      else (h.store p a).map fun h => (some p, h)

/-- The contents are there then, and no other live cell is touched or handed out. -/
theorem place_of_held {p : Option Nat} {old : Option α} (hHeld : h.held p = some old)
    (c : Option α) (moves : Bool) :
    ∃ p' h', h.place p c moves = some (p', h') ∧ h'.held p' = some c ∧
      ∀ q a, p ≠ some q → h.read q = some a → h'.read q = some a ∧ p' ≠ some q := by
  have hNew : ∀ (h : Heap α) (a : α), (h.malloc a).2.held (some (h.malloc a).1) = some (some a) := by
    intro h a
    rw [held, malloc_fst, read_malloc, if_pos rfl, Option.map_some]
  have hFresh : ∀ (h : Heap α) (a : α) q b, h.read q = some b →
      (h.malloc a).2.read q = some b ∧ some (h.malloc a).1 ≠ some q := by
    intro h a q b hRead
    refine ⟨read_malloc_of_read hRead, fun hSame => ?_⟩
    exact Nat.ne_of_gt (lt_brk_of_read hRead) (Option.some.inj hSame)
  rcases p with - | p
  · rcases c with - | a
    · exact ⟨none, h, rfl, rfl, fun q a _ hRead => ⟨hRead, nofun⟩⟩
    · exact ⟨_, _, rfl, hNew h a, fun q b _ hRead => hFresh h a q b hRead⟩
  · obtain ⟨b, hRead, -⟩ := Option.map_eq_some_iff.mp hHeld
    obtain ⟨h₁, hFree, hFreed⟩ := free_of_read hRead
    have hOther : ∀ q a, some p ≠ some q → h.read q = some a → h₁.read q = some a := by
      intro q a hNe hq
      rw [hFreed.read, if_neg fun hSame => hNe (congrArg some hSame.symm), hq]
    rcases c with - | a
    · refine ⟨none, h₁, ?_, rfl, fun q a hNe hq => ⟨hOther q a hNe hq, nofun⟩⟩
      rw [place, hFree, Option.map_some]
    · rcases moves with - | -
      · obtain ⟨h₂, hStore, hStored⟩ := store_of_read hRead a
        refine ⟨some p, h₂, ?_, ?_, fun q b hNe hq => ⟨?_, hNe⟩⟩
        · rw [place, if_neg Bool.false_ne_true, hStore, Option.map_some]
        · rw [held, hStored.read, if_pos rfl, Option.map_some]
        · rw [hStored.read, if_neg fun hSame => hNe (congrArg some hSame.symm), hq]
      · refine ⟨_, _, ?_, hNew h₁ a, fun q b hNe hq => hFresh h₁ a q b (hOther q b hNe hq)⟩
        rw [place, if_pos rfl, hFree, Option.map_some]

/-- A pointer that is apart from the one that moves keeps what is behind it. -/
theorem held_of_untouched {p p' b : Option Nat} {c : Option α} (hHeld : h.held b = some c)
    (hApart : ∀ q, p = some q → b ≠ some q)
    (hOther : ∀ q a, p ≠ some q → h.read q = some a → h'.read q = some a ∧ p' ≠ some q) :
    h'.held b = h.held b ∧ ∀ q, p' = some q → b ≠ some q := by
  rcases b with - | q
  · exact ⟨rfl, nofun⟩
  · obtain ⟨a, hRead, -⟩ := Option.map_eq_some_iff.mp hHeld
    obtain ⟨hSame, hNew⟩ := hOther q a (fun hp => hApart q hp rfl) hRead
    refine ⟨by rw [held, held, hSame, hRead], ?_⟩
    intro r hr hqr
    exact hNew (hr.trans hqr.symm)

/-! ### Several cells -/

/-- Every live cell still holds what it held. -/
def Kept (h h' : Heap α) : Prop := ∀ p a, h.read p = some a → h'.read p = some a

theorem Kept.refl (h : Heap α) : Kept h h := fun _ _ hRead => hRead

theorem Kept.trans {h₁ : Heap α} (hFirst : Kept h h₁) (hSecond : Kept h₁ h') : Kept h h' :=
  fun p a hRead => hSecond p a (hFirst p a hRead)

theorem kept_malloc (h : Heap α) (a : α) : Kept h (h.malloc a).2 :=
  fun _ _ hRead => read_malloc_of_read hRead

theorem read_malloc_brk (h : Heap α) (a : α) : (h.malloc a).2.read h.brk = some a := by
  rw [read_malloc, if_pos rfl]

/-- A cell that was handed out since is given back. -/
theorem Kept.free {h₁ : Heap α} (hKept : Kept h h₁) (hNew : h.read p = none)
    (hRead : h₁.read p = some a) : ∃ h', h₁.free p = some h' ∧ Kept h h' ∧ Updated h₁ h' p none := by
  obtain ⟨h', hFree, hFreed⟩ := free_of_read hRead
  refine ⟨h', hFree, fun q b hq => ?_, hFreed⟩
  have hNe : q ≠ p := by
    rintro rfl
    rw [hNew] at hq
    cases hq
  rw [hFreed.read, if_neg hNe, hKept q b hq]

/-- `n` new cells. -/
def mallocs (a : α) : Nat → Heap α → List Nat × Heap α
  | 0, h => ([], h)
  | n + 1, h =>
      let r := mallocs a n (h.malloc a).2
      (h.brk :: r.1, r.2)

/-- All cells of a list are given back, one after another. -/
def frees : List Nat → Heap α → Option (Heap α)
  | [], h => some h
  | p :: ps, h => (h.free p).bind (frees ps)

theorem mallocs_fst (a : α) (n : Nat) : ∀ h : Heap α, (h.mallocs a n).1 = List.range' h.brk n := by
  induction n with
  | zero => exact fun _ => rfl
  | succ n ih =>
      intro h
      rw [mallocs, ih, brk_malloc]
      rfl

theorem read_mallocs (a : α) (n q : Nat) : ∀ h : Heap α,
    (h.mallocs a n).2.read q = if q ∈ (h.mallocs a n).1 then some a else h.read q := by
  induction n with
  | zero => exact fun _ => rfl
  | succ n ih =>
      intro h
      rw [mallocs]
      show (mallocs a n (h.malloc a).2).2.read q =
        if q ∈ h.brk :: (mallocs a n (h.malloc a).2).1 then some a else h.read q
      rw [ih, read_malloc]
      by_cases hq : q = h.brk
      · simp [hq]
      · simp [hq]

/-- Distinct live cells can be given back, and nothing else is. -/
theorem frees_eq {ps : List Nat} (hNodup : ps.Nodup) :
    ∀ {h : Heap α}, (∀ p ∈ ps, (h.read p).isSome) →
      ∃ h', h.frees ps = some h' ∧ ∀ q, h'.read q = if q ∈ ps then none else h.read q := by
  induction ps with
  | nil => exact fun {h} _ => ⟨h, rfl, fun _ => rfl⟩
  | cons p ps ih =>
      intro h hLive
      obtain ⟨hNew, hNodup'⟩ := List.nodup_cons.mp hNodup
      obtain ⟨a, hRead⟩ := Option.isSome_iff_exists.mp (hLive p List.mem_cons_self)
      obtain ⟨h₁, hFree, hFreed⟩ := free_of_read hRead
      have hRest : ∀ q ∈ ps, (h₁.read q).isSome := by
        intro q hq
        have hNe : q ≠ p := by
          rintro rfl
          exact hNew hq
        rw [hFreed.read, if_neg hNe]
        exact hLive q (List.mem_cons_of_mem p hq)
      obtain ⟨h', hRun, hAfter⟩ := ih hNodup' hRest
      refine ⟨h', ?_, fun q => ?_⟩
      · rw [frees, hFree]
        exact hRun
      · rw [hAfter, hFreed.read]
        by_cases hq : q = p
        · simp [hq]
        · simp [hq]

/-! ### Chains of cells -/

section Chain

variable (next : α → Option Nat)

/-- From `p` the links lead through exactly the cells `ps`. -/
def Linked (h : Heap α) : Option Nat → List Nat → Prop
  | p, [] => p = none
  | p, q :: ps => p = some q ∧ ∃ a, h.read q = some a ∧ Linked h (next a) ps

/-- Give back all cells of a chain, with a bound on their number. The link of a cell is read
before it is freed. -/
def freeChain : Nat → Option Nat → Heap α → Option (Heap α)
  | _, none, h => some h
  | 0, some _, _ => none
  | n + 1, some p, h => do
      let a ← h.read p
      let h ← h.free p
      freeChain n (next a) h

variable {next} {ps : List Nat} {link : Option Nat}

/-- A chain is where its cells are. -/
theorem Linked.congr (hLinked : Linked next h link ps)
    (hSame : ∀ q ∈ ps, h'.read q = h.read q) : Linked next h' link ps := by
  induction ps generalizing link with
  | nil => exact hLinked
  | cons q ps ih =>
      obtain ⟨hLink, a, hRead, hRest⟩ := hLinked
      have hTail := ih hRest fun r hr => hSame r (List.mem_cons_of_mem q hr)
      exact ⟨hLink, a, (hSame q List.mem_cons_self).trans hRead, hTail⟩

/-- The links lead one way only. -/
theorem Linked.unique {qs : List Nat} (hLinked : Linked next h link ps)
    (hLinked' : Linked next h link qs) : ps = qs := by
  induction ps generalizing link qs with
  | nil =>
      obtain rfl : link = none := hLinked
      cases qs with
      | nil => rfl
      | cons q qs => cases hLinked'.1
  | cons p ps ih =>
      obtain ⟨rfl, a, hRead, hRest⟩ := hLinked
      cases qs with
      | nil => cases hLinked'
      | cons q qs =>
          obtain ⟨hSame, b, hRead', hRest'⟩ := hLinked'
          obtain rfl := Option.some.inj hSame
          obtain rfl := Option.some.inj (hRead.symm.trans hRead')
          rw [ih hRest hRest']

theorem Linked.lt_brk (hLinked : Linked next h link ps) : ∀ q ∈ ps, q < h.brk := by
  induction ps generalizing link with
  | nil =>
      intro q hq
      cases hq
  | cons p ps ih =>
      obtain ⟨-, a, hRead, hRest⟩ := hLinked
      intro q hq
      rcases List.mem_cons.mp hq with rfl | hLater
      · exact lt_brk_of_read hRead
      · exact ih hRest q hLater

/-- There are not more cells in a chain than there are. -/
theorem Linked.length_le (hLinked : Linked next h link ps) (hNodup : ps.Nodup) :
    ps.length ≤ h.brk := by
  have hSubset : ps ⊆ List.range h.brk := fun q hq => List.mem_range.mpr (hLinked.lt_brk q hq)
  simpa using (hNodup.subperm hSubset).length_le

/-- A chain of distinct cells is freed cell by cell, and nothing else is. -/
theorem freeChain_eq {n : Nat} (hLinked : Linked next h link ps) (hNodup : ps.Nodup)
    (hFuel : ps.length ≤ n) :
    ∃ h', freeChain next n link h = some h' ∧
      ∀ q, h'.read q = if q ∈ ps then none else h.read q := by
  induction ps generalizing n link h with
  | nil =>
      obtain rfl : link = none := hLinked
      exact ⟨h, by cases n <;> rfl, fun q => rfl⟩
  | cons p ps ih =>
      obtain ⟨rfl, a, hRead, hRest⟩ := hLinked
      obtain ⟨n, rfl⟩ := Nat.exists_eq_succ_of_ne_zero (Nat.ne_of_gt (Nat.zero_lt_of_lt hFuel))
      obtain ⟨hNew, hNodup'⟩ := List.nodup_cons.mp hNodup
      obtain ⟨h₁, hFree, hFreed⟩ := free_of_read hRead
      have hLeft : Linked next h₁ (next a) ps := hRest.congr fun q hq => by
        rw [hFreed.read, if_neg]
        rintro rfl
        exact hNew hq
      obtain ⟨h', hRun, hAfter⟩ := ih hLeft hNodup' (Nat.le_of_succ_le_succ hFuel)
      refine ⟨h', ?_, ?_⟩
      · simp only [freeChain, hRead, hFree, Option.bind_eq_bind, Option.bind_some]
        exact hRun
      · intro q
        rw [hAfter, hFreed.read]
        by_cases hq : q = p
        · simp [hq]
        · simp [hq]

end Chain
end Heap
