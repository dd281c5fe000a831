import OncRpc.Base.Lookahead

/-! Where a reader of symbols fails: the calls and the rounds that it comes to before. -/
namespace OncRpc.Lookahead

open Reader

variable {τ ε α β : Type} {p : Reader τ ε α} {f : α → Reader τ ε β} {s : Pushback τ} {e : ε}

/-- The reader never fails like this. -/
def Spares (e : ε) (p : Reader τ ε α) : Prop := ∀ s, p s ≠ .error e

theorem bind_eq_error_iff :
    (p >>= f) s = .error e ↔
      p s = .error e ∨ ∃ a s', p s = .ok (a, s') ∧ f a s' = .error e := by
  cases hRun : p s with
  | error e' =>
      rw [bind_error hRun]
      simp
  | ok r =>
      obtain ⟨a, s'⟩ := r
      rw [bind_ok hRun]
      constructor
      · exact fun h => Or.inr ⟨a, s', rfl, h⟩
      · rintro (h | ⟨a', s'', hSame, h⟩)
        · cases h
        · cases hSame
          exact h

theorem bind_eq_ok_iff {r : β × Pushback τ} :
    (p >>= f) s = .ok r ↔ ∃ a s', p s = .ok (a, s') ∧ f a s' = .ok r := by
  cases hRun : p s with
  | error e =>
      rw [bind_error hRun]
      simp
  | ok q =>
      obtain ⟨a, s'⟩ := q
      rw [bind_ok hRun]
      refine ⟨fun h => ⟨a, s', rfl, h⟩, ?_⟩
      rintro ⟨a', s'', hSame, h⟩
      cases hSame
      exact h

/-- A failure of the second reader only. -/
theorem Spares.bind_eq_error_iff (h : Spares e p) :
    (p >>= f) s = .error e ↔ ∃ a s', p s = .ok (a, s') ∧ f a s' = .error e := by
  rw [Lookahead.bind_eq_error_iff]
  exact or_iff_right (h s)

/-- A failure of the first reader only. -/
theorem bind_eq_error_iff_left (h : ∀ a, Spares e (f a)) :
    (p >>= f) s = .error e ↔ p s = .error e := by
  rw [bind_eq_error_iff]
  refine or_iff_left ?_
  rintro ⟨a, s', -, hFail⟩
  exact h a s' hFail

theorem Spares.pure (a : α) : Spares e (Pure.pure a : Reader τ ε α) := nofun

theorem Spares.fail {e' : ε} (h : e' ≠ e) : Spares e (Reader.fail e' : Reader τ ε α) :=
  fun _ hFail => h (Except.error.inj hFail)

theorem Spares.bind (h : Spares e p) (h' : ∀ a, Spares e (f a)) : Spares e (p >>= f) :=
  fun s hFail => h s ((bind_eq_error_iff_left h').mp hFail)

theorem Spares.ite {c : Prop} [Decidable c] {q : Reader τ ε α} (h : Spares e p)
    (h' : Spares e q) : Spares e (if c then p else q) := by
  split
  · exact h
  · exact h'

theorem spares_next (eof : τ) : Spares e (Reader.next eof : Reader τ ε τ) := by
  rintro ⟨_ | t, _ | ⟨u, input⟩⟩ <;> exact nofun

theorem spares_unget (t : τ) : Spares e (Reader.unget t : Reader τ ε Unit) := nofun

/-! ### Loops -/

variable {dry : ε} {body : α → Reader τ ε (α × Bool)} {a : α} {n : Nat}

/-- So many rounds after which the loop goes on. -/
inductive Rounds (body : α → Reader τ ε (α × Bool)) :
    Nat → α → Pushback τ → α → Pushback τ → Prop where
  | zero (a : α) (s : Pushback τ) : Rounds body 0 a s a s
  | succ {n : Nat} {a a₁ a' : α} {s s₁ s' : Pushback τ} (first : body a s = .ok ((a₁, true), s₁))
      (rest : Rounds body n a₁ s₁ a' s') : Rounds body (n + 1) a s a' s'

/-- The loop comes to a round that starts from `s'`, in as many rounds as there are symbols. -/
def Comes (body : α → Reader τ ε (α × Bool)) (a : α) (s : Pushback τ) (a' : α)
    (s' : Pushback τ) : Prop :=
  ∃ n ≤ s.view.length, Rounds body n a s a' s'

theorem rounds_eq_error_iff (hDry : dry ≠ e) :
    rounds dry body n a s = .error e ↔
      ∃ m < n, ∃ a' s', Rounds body m a s a' s' ∧ body a' s' = .error e := by
  induction n generalizing a s with
  | zero =>
      refine iff_of_false (fun hFail => hDry (Except.error.inj hFail)) ?_
      rintro ⟨m, hLess, -⟩
      exact absurd hLess (Nat.not_lt_zero m)
  | succ n ih =>
      rw [rounds, bind_eq_error_iff]
      constructor
      · rintro (hFail | ⟨⟨a₁, more⟩, s₁, hRound, hFail⟩)
        · exact ⟨0, Nat.succ_pos n, a, s, Rounds.zero a s, hFail⟩
        · cases more with
          | false => cases hFail
          | true =>
              obtain ⟨m, hLess, a', s', hRounds, hBody⟩ := ih.mp hFail
              exact ⟨m + 1, Nat.succ_lt_succ hLess, a', s', hRounds.succ hRound, hBody⟩
      · rintro ⟨m, hLess, a', s', hRounds, hBody⟩
        cases hRounds with
        | zero => exact Or.inl hBody
        | @succ m _ a₁ _ _ s₁ _ hRound hRest =>
            exact Or.inr ⟨(a₁, true), s₁, hRound,
              ih.mpr ⟨m, Nat.lt_of_succ_lt_succ hLess, a', s', hRest, hBody⟩⟩

/-- A loop fails in one of the rounds it comes to. -/
theorem repeating_eq_error_iff (hDry : dry ≠ e) :
    repeating dry body a s = .error e ↔
      ∃ a' s', Comes body a s a' s' ∧ body a' s' = .error e := by
  rw [repeating, rounds_eq_error_iff hDry]
  constructor
  · rintro ⟨n, hLess, a', s', hRounds, hBody⟩
    exact ⟨a', s', ⟨n, Nat.le_of_lt_succ hLess, hRounds⟩, hBody⟩
  · rintro ⟨a', s', ⟨n, hLe, hRounds⟩, hBody⟩
    exact ⟨n, Nat.lt_succ_of_le hLe, a', s', hRounds, hBody⟩

theorem Spares.repeating (hDry : dry ≠ e) (h : ∀ a, Spares e (body a)) (a : α) :
    Spares e (repeating dry body a) := by
  intro s hFail
  obtain ⟨a', s', -, hBody⟩ := (repeating_eq_error_iff hDry).mp hFail
  exact h a' s' hBody

end OncRpc.Lookahead
