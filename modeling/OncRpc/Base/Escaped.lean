import Mathlib.Data.List.Basic
import Mathlib.Data.List.Infix

/-! Texts with separators and escapes. An escape takes the special meaning from the
symbol behind it, so that a text is cut at the separators that an even number of escapes
stands before, and an escape that takes no meaning from any symbol is an ordinary one. -/
namespace Escaped

variable {α : Type*} [DecidableEq α] (esc sep : α)

/-- Each symbol that is escaped stands for itself. -/
def unescape : List α → List α
  | [] => []
  | [c] => [c]
  | c :: d :: s => if c = esc then d :: unescape s else c :: unescape (d :: s)

/-- How many escapes stand at the end of `before`. -/
def run (before : List α) : Nat := before.foldl (fun n c => if c = esc then n + 1 else 0) 0

/-- The rest of a text, cut at its separators, when `before` is the token so far. -/
def cut : List α → List α → List (List α)
  | before, [] => [before]
  | before, c :: s =>
      if c = sep ∧ run esc before % 2 = 0 then before :: cut [] s else cut (before ++ [c]) s

/-- The tokens of a text. -/
def tokens (s : List α) : List (List α) := (cut esc sep [] s).map (unescape esc)

/-! ### Runs of escapes -/

section Run

variable {esc}

@[simp] theorem run_concat (s : List α) (c : α) :
    run esc (s ++ [c]) = if c = esc then run esc s + 1 else 0 := by
  simp [run]

theorem run_append_of_run_eq_zero {p : List α} (h : run esc p = 0) (q : List α) :
    run esc (p ++ q) = run esc q := by
  unfold run at h ⊢
  rw [List.foldl_append, h]

theorem run_cons_of_ne {c : α} (h : c ≠ esc) (s : List α) : run esc (c :: s) = run esc s := by
  simp [run, h]

/-- The parity of the run at the end depends on the parity that it starts with. -/
theorem foldl_mod_two {m n : Nat} (h : m % 2 = n % 2) (s : List α) :
    s.foldl (fun n c => if c = esc then n + 1 else 0) m % 2 =
      s.foldl (fun n c => if c = esc then n + 1 else 0) n % 2 := by
  induction s generalizing m n with
  | nil => exact h
  | cons c s ih =>
      rw [List.foldl_cons, List.foldl_cons]
      by_cases hc : c = esc
      · rw [if_pos hc, if_pos hc]
        exact ih (by omega)
      · rw [if_neg hc, if_neg hc]

/-- An escape and what it escapes leave the parity of the run. -/
theorem run_escaped_mod_two (d : α) (s : List α) :
    run esc (esc :: d :: s) % 2 = run esc s % 2 := by
  unfold run
  rw [List.foldl_cons, List.foldl_cons, if_pos rfl]
  apply foldl_mod_two
  split <;> rfl

theorem run_replicate (k : Nat) : run esc (List.replicate k esc) = k := by
  induction k with
  | zero => rfl
  | succ k ih => rw [List.replicate_succ', run_concat, if_pos rfl, ih]

/-- Where the run is not empty, the text ends with an escape. -/
theorem eq_concat_of_run_pos {s : List α} (h : 0 < run esc s) : ∃ w, s = w ++ [esc] := by
  induction s using List.reverseRecOn with
  | nil => cases h
  | append_singleton w c _ =>
      rw [run_concat] at h
      split at h
      · exact ⟨w, by simp [*]⟩
      · cases h

theorem run_eq_zero {s : List α} (h : s.getLast? ≠ some esc) : run esc s = 0 := by
  rcases Nat.eq_zero_or_pos (run esc s) with hZero | hPos
  · exact hZero
  · obtain ⟨w, rfl⟩ := eq_concat_of_run_pos hPos
    simp at h

end Run

/-! ### Symbols that stand for themselves -/

section Unescape

variable {esc}

theorem unescape_cons_of_ne {c : α} (h : c ≠ esc) (s : List α) :
    unescape esc (c :: s) = c :: unescape esc s := by
  cases s with
  | nil => rfl
  | cons d s => rw [unescape, if_neg h]

theorem unescape_escaped (d : α) (s : List α) :
    unescape esc (esc :: d :: s) = d :: unescape esc s := by
  rw [unescape, if_pos rfl]

/-- Where no escape is pending the two halves of a text are independent. -/
theorem unescape_append {x : List α} (h : run esc x % 2 = 0) (y : List α) :
    unescape esc (x ++ y) = unescape esc x ++ unescape esc y := by
  induction x using unescape.induct esc with
  | case1 => rfl
  | case2 c =>
      have hc : c ≠ esc := by
        rintro rfl
        simp [run] at h
      exact unescape_cons_of_ne hc y
  | case3 d s ih =>
      rw [List.cons_append, List.cons_append, unescape_escaped, unescape_escaped,
        ih (by rwa [run_escaped_mod_two] at h), List.cons_append]
  | case4 c d s hc ih =>
      rw [run_cons_of_ne hc] at h
      rw [List.cons_append, unescape_cons_of_ne hc, unescape_cons_of_ne hc, ih h,
        List.cons_append]

theorem mem_of_mem_unescape {c : α} {s : List α} (h : c ∈ unescape esc s) : c ∈ s := by
  induction s using unescape.induct esc with
  | case1 => exact h
  | case2 => exact h
  | case3 d s ih =>
      rw [unescape_escaped] at h
      rcases List.mem_cons.mp h with rfl | hMem
      · simp
      · simp [ih hMem]
  | case4 d e s hd ih =>
      rw [unescape_cons_of_ne hd] at h
      rcases List.mem_cons.mp h with rfl | hMem
      · simp
      · exact List.mem_cons_of_mem d (ih hMem)

theorem length_unescape_le (s : List α) : (unescape esc s).length ≤ s.length := by
  induction s using unescape.induct esc with
  | case1 => exact le_refl _
  | case2 => exact le_refl _
  | case3 d s ih =>
      rw [unescape_escaped, List.length_cons, List.length_cons, List.length_cons]
      omega
  | case4 c d s hc ih =>
      rw [unescape_cons_of_ne hc, List.length_cons, List.length_cons]
      omega

/-- A text that stands for itself has no escape but perhaps at its end. -/
theorem unescape_eq_self_iff {s : List α} : unescape esc s = s ↔ esc ∉ s.dropLast := by
  induction s using unescape.induct esc with
  | case1 => simp [unescape]
  | case2 => simp [unescape]
  | case3 d s ih =>
      constructor
      · intro hSame
        have hLen := congrArg List.length hSame
        rw [unescape_escaped, List.length_cons, List.length_cons, List.length_cons] at hLen
        have hLe := @length_unescape_le α _ esc s
        omega
      · intro hNot
        exact absurd List.mem_cons_self hNot
  | case4 c d s hc ih =>
      rw [unescape_cons_of_ne hc, List.cons.injEq, ih, List.dropLast_cons_cons, List.mem_cons,
        not_or]
      exact and_congr_left fun _ => ⟨fun _ => Ne.symm hc, fun _ => rfl⟩

/-- A run of escapes in front of another symbol. -/
theorem unescape_replicate_append (k : Nat) {x : α} (hx : x ≠ esc) (s : List α) :
    unescape esc (List.replicate k esc ++ x :: s) =
      List.replicate (k / 2) esc ++ x :: unescape esc s := by
  induction k using Nat.twoStepInduction with
  | zero => exact unescape_cons_of_ne hx s
  | one => exact unescape_escaped x s
  | more k ih _ =>
      have hHalf : (k + 2) / 2 = k / 2 + 1 := by omega
      rw [hHalf, List.replicate_succ, List.replicate_succ, List.replicate_succ, List.cons_append,
        List.cons_append, unescape_escaped, ih, List.cons_append]

theorem unescape_replicate {k : Nat} (h : k % 2 = 0) :
    unescape esc (List.replicate k esc) = List.replicate (k / 2) esc := by
  induction k using Nat.twoStepInduction with
  | zero => rfl
  | one => cases h
  | more k ih _ =>
      have hHalf : (k + 2) / 2 = k / 2 + 1 := by omega
      rw [hHalf, List.replicate_succ, List.replicate_succ, List.replicate_succ, unescape_escaped,
        ih (by omega)]

end Unescape

/-! ### Tokens -/

section Tokens

variable {esc sep}

/-- What stands before a symbol that is no escape is only carried along. -/
theorem cut_append {p : List α} (h : run esc p = 0) (q s : List α) :
    cut esc sep (p ++ q) s = (cut esc sep q s).modifyHead (p ++ ·) := by
  induction s generalizing q with
  | nil => rfl
  | cons c s ih =>
      rw [cut, cut, run_append_of_run_eq_zero h]
      split
      · rfl
      · rw [List.append_assoc, ih]

theorem cut_of_not_mem {b : List α} (hb : sep ∉ b) (p s : List α) :
    cut esc sep p (b ++ s) = cut esc sep (p ++ b) s := by
  induction b generalizing p with
  | nil => rw [List.nil_append, List.append_nil]
  | cons c b ih =>
      obtain ⟨hc, hb⟩ := not_or.mp (fun h => hb (List.mem_cons.mpr h))
      rw [List.cons_append, cut, if_neg fun hCut => hc hCut.1.symm, ih hb, List.append_assoc,
        List.singleton_append]

theorem cut_ne_nil (p s : List α) : cut esc sep p s ≠ [] := by
  induction s generalizing p with
  | nil => exact List.cons_ne_nil p []
  | cons c s ih =>
      rw [cut]
      split
      · exact List.cons_ne_nil _ _
      · exact ih _

theorem tokens_ne_nil (s : List α) : tokens esc sep s ≠ [] :=
  fun h => cut_ne_nil [] s (List.map_eq_nil_iff.mp h)

/-- A text without separators is one token. -/
theorem tokens_of_not_mem {b : List α} (hb : sep ∉ b) : tokens esc sep b = [unescape esc b] := by
  have hCut := @cut_of_not_mem _ _ esc _ _ hb [] []
  rw [List.append_nil] at hCut
  rw [tokens, hCut]
  rfl

/-- A separator that is not escaped ends the token before it. -/
theorem tokens_of_even {b : List α} (hb : sep ∉ b) (hEven : run esc b % 2 = 0) (s : List α) :
    tokens esc sep (b ++ sep :: s) = unescape esc b :: tokens esc sep s := by
  rw [tokens, cut_of_not_mem hb, List.nil_append, cut, if_pos ⟨rfl, hEven⟩]
  rfl

/-- A separator that is escaped belongs to its token. -/
theorem tokens_of_odd (hApart : sep ≠ esc) {w : List α} (hw : sep ∉ w)
    (hEven : run esc w % 2 = 0) (s : List α) :
    tokens esc sep (w ++ [esc] ++ sep :: s) =
      (tokens esc sep s).modifyHead ((unescape esc w ++ [sep]) ++ ·) := by
  have hb : sep ∉ w ++ [esc] := by simp [hw, hApart]
  have hOdd : ¬ run esc (w ++ [esc]) % 2 = 0 := by
    rw [run_concat, if_pos rfl]
    omega
  have hZero : run esc (w ++ [esc] ++ [sep]) = 0 := by rw [run_concat, if_neg hApart]
  rw [tokens, cut_of_not_mem hb, List.nil_append, cut, if_neg fun h => hOdd h.2,
    ← List.append_nil (w ++ [esc] ++ [sep]), cut_append hZero, tokens]
  obtain ⟨t, ts, hCut⟩ := List.exists_cons_of_ne_nil (@cut_ne_nil _ _ esc sep [] s)
  rw [hCut]
  show unescape esc (w ++ [esc] ++ [sep] ++ t) :: ts.map _ = _ :: ts.map _
  rw [List.append_assoc, List.append_assoc, unescape_append hEven]
  show (unescape esc w ++ unescape esc (esc :: sep :: t)) :: _ = _
  rw [unescape_escaped]
  simp

end Tokens

end Escaped
