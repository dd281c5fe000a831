import Mathlib.Data.List.Basic
import Mathlib.Tactic.Common

/-! Readers of symbols that can push one symbol back, and may fail for good.

`Reads` says that a reader takes some symbols, whatever comes behind them as long as it cannot be
mistaken for more of the same; `Fails` says that it fails on them. -/
namespace OncRpc.Lookahead

variable {τ ε α β ι : Type}

/-- The symbol that was pushed back, if there is one, and the symbols that were not read yet. -/
structure Pushback (τ : Type) where
  pushed : Option τ
  input : List τ

/-- The symbols that are still to come. -/
def Pushback.view (s : Pushback τ) : List τ := s.pushed.toList ++ s.input

def Reader (τ ε α : Type) : Type := Pushback τ → Except ε (α × Pushback τ)

namespace Reader

instance : Monad (Reader τ ε) where
  pure a := fun s => .ok (a, s)
  bind p f := fun s =>
    match p s with
    | .ok (a, s) => f a s
    | .error e => .error e

/-- Stop for good. -/
def fail (e : ε) : Reader τ ε α := fun _ => .error e

/-- Take the next symbol, which is `eof` at the end. -/
def next (eof : τ) : Reader τ ε τ := fun s =>
  match s.pushed, s.input with
  | some t, input => .ok (t, ⟨none, input⟩)
  | none, t :: input => .ok (t, ⟨none, input⟩)
  | none, [] => .ok (eof, ⟨none, []⟩)

/-- Push a symbol back. -/
def unget (t : τ) : Reader τ ε Unit := fun s => .ok ((), ⟨some t, s.input⟩)

/-- A loop that goes on as long as its body says so, for so many rounds. -/
def rounds (dry : ε) (body : α → Reader τ ε (α × Bool)) : Nat → α → Reader τ ε α
  | 0, _ => fail dry
  | n + 1, a => do
      let r ← body a
      if r.2 then rounds dry body n r.1 else pure r.1

/-- A loop each round of which takes a symbol. -/
def repeating (dry : ε) (body : α → Reader τ ε (α × Bool)) (a : α) : Reader τ ε α := fun s =>
  rounds dry body (s.view.length + 1) a s

theorem bind_ok {p : Reader τ ε α} {f : α → Reader τ ε β} {s s' : Pushback τ} {a : α}
    (h : p s = .ok (a, s')) : (p >>= f) s = f a s' := by
  show (match p s with | .ok (a, s) => f a s | .error e => .error e) = _
  rw [h]

theorem bind_error {p : Reader τ ε α} {f : α → Reader τ ε β} {s : Pushback τ} {e : ε}
    (h : p s = .error e) : (p >>= f) s = .error e := by
  show (match p s with | .ok (a, s) => f a s | .error e => .error e) = _
  rw [h]

end Reader

open Reader

/-- The reader takes exactly the symbols `ts`, and yields a result as described, if `stop` holds
of what follows them. -/
def Reads (p : Reader τ ε α) (ts : List τ) (stop : List τ → Prop) (post : α → Prop) : Prop :=
  ∀ s rest, s.view = ts ++ rest → stop rest →
    ∃ a s', p s = .ok (a, s') ∧ post a ∧ s'.view = rest

/-- The reader fails on the symbols `ts`. -/
def Fails (p : Reader τ ε α) (ts : List τ) (stop : List τ → Prop) (e : ε) : Prop :=
  ∀ s rest, s.view = ts ++ rest → stop rest → p s = .error e

/-- Nothing is asked of what follows. -/
abbrev Anything (_ : List τ) : Prop := True

section Rules

variable {p : Reader τ ε α} {f : α → Reader τ ε β} {ts w : List τ} {stop stop' : List τ → Prop}
  {post : α → Prop} {post' : β → Prop} {e : ε}

theorem Reads.pure {a : α} (h : post a) : Reads (Pure.pure a : Reader τ ε α) [] stop post :=
  fun s _ hView _ => ⟨a, s, rfl, h, hView⟩

theorem Reads.bind (h : Reads p ts stop post) (h' : ∀ a, post a → Reads (f a) w stop' post')
    (hStop : ∀ rest, stop' rest → stop (w ++ rest)) :
    Reads (p >>= f) (ts ++ w) stop' post' := by
  intro s rest hView hRest
  rw [List.append_assoc] at hView
  obtain ⟨a, s', hRun, ha, hView'⟩ := h s (w ++ rest) hView (hStop rest hRest)
  obtain ⟨b, s'', hRun', hb, hView''⟩ := h' a ha s' rest hView' hRest
  exact ⟨b, s'', by rw [bind_ok hRun, hRun'], hb, hView''⟩

theorem Reads.bind_nil (h : Reads p ts stop post)
    (h' : ∀ a, post a → Reads (f a) [] stop post') : Reads (p >>= f) ts stop post' := by
  have hBoth := h.bind h' fun rest hRest => hRest
  rwa [List.append_nil] at hBoth

theorem Reads.mono (h : Reads p ts stop post) (hStop : ∀ rest, stop' rest → stop rest)
    {post' : α → Prop} (hPost : ∀ a, post a → post' a) : Reads p ts stop' post' := by
  intro s rest hView hRest
  obtain ⟨a, s', hRun, ha, hView'⟩ := h s rest hView (hStop rest hRest)
  exact ⟨a, s', hRun, hPost a ha, hView'⟩

theorem Reads.anything (h : Reads p ts Anything post) : Reads p ts stop post :=
  h.mono (fun _ _ => trivial) fun _ => id

/-- A reader that takes what it takes whatever follows, and another one behind it. -/
theorem Reads.seq (h : Reads p ts Anything post)
    (h' : ∀ a, post a → Reads (f a) w stop post') : Reads (p >>= f) (ts ++ w) stop post' :=
  h.bind h' fun _ _ => trivial

theorem Reads.cons {t : τ} (h : Reads p [t] Anything post)
    (h' : ∀ a, post a → Reads (f a) w stop post') : Reads (p >>= f) (t :: w) stop post' :=
  h.seq h'

theorem Reads.skip (h : Reads p [] Anything post)
    (h' : ∀ a, post a → Reads (f a) w stop post') : Reads (p >>= f) w stop post' :=
  h.seq h'

theorem Reads.bind_fails (h : Reads p ts stop post) (h' : ∀ a, post a → Fails (f a) w stop' e)
    (hStop : ∀ rest, stop' rest → stop (w ++ rest)) : Fails (p >>= f) (ts ++ w) stop' e := by
  intro s rest hView hRest
  rw [List.append_assoc] at hView
  obtain ⟨a, s', hRun, ha, hView'⟩ := h s (w ++ rest) hView (hStop rest hRest)
  rw [bind_ok hRun]
  exact h' a ha s' rest hView' hRest

theorem Reads.cons_fails {t : τ} (h : Reads p [t] Anything post)
    (h' : ∀ a, post a → Fails (f a) w stop e) : Fails (p >>= f) (t :: w) stop e :=
  h.bind_fails h' fun _ _ => trivial

theorem Fails.bind_nil (h : Fails p ts stop e) : Fails (p >>= f) ts stop e :=
  fun s rest hView hRest => bind_error (h s rest hView hRest)

theorem Fails.bind (h : Fails p ts stop e) (hStop : ∀ rest, stop' rest → stop (w ++ rest)) :
    Fails (p >>= f) (ts ++ w) stop' e := by
  intro s rest hView hRest
  rw [List.append_assoc] at hView
  exact bind_error (h s (w ++ rest) hView (hStop rest hRest))

theorem reads_next (eof t : τ) :
    Reads (Reader.next eof : Reader τ ε τ) [t] Anything (· = t) := by
  rintro ⟨_ | u, input⟩ rest hView -
  · obtain rfl : input = t :: rest := hView
    exact ⟨t, ⟨none, rest⟩, rfl, rfl, rfl⟩
  · obtain ⟨rfl, rfl⟩ := List.cons.inj hView
    exact ⟨u, ⟨none, input⟩, rfl, rfl, rfl⟩

/-- A symbol that is pushed back at once is still to come. -/
theorem reads_peek (eof t : τ) :
    Reads (do let u ← Reader.next eof; Reader.unget u; Pure.pure u : Reader τ ε τ) []
      (fun rest => rest.head? = some t) (· = t) := by
  intro s rest hView hHead
  obtain ⟨more, rfl⟩ := List.head?_eq_some_iff.mp hHead
  obtain ⟨u, s', hRun, rfl, hView'⟩ := reads_next (ε := ε) eof t s more hView trivial
  have hNone : s'.pushed = none := by
    rcases s with ⟨_ | u', input⟩
    · obtain rfl : input = u :: more := hView
      cases hRun
      rfl
    · obtain ⟨rfl, rfl⟩ := List.cons.inj hView
      cases hRun
      rfl
  have hInput : s'.input = more := by
    rw [← hView', Pushback.view, hNone]
    rfl
  refine ⟨u, ⟨some u, s'.input⟩, ?_, rfl, ?_⟩
  · rw [bind_ok hRun]
    rfl
  · rw [Pushback.view, hInput]
    rfl

end Rules

/-! ### Loops -/

/-- The symbols of the pieces, each of which knows whether another one follows. -/
def joined (toks : Bool → ι → List τ) : List ι → List τ
  | [] => []
  | [x] => toks false x
  | x :: y :: xs => toks true x ++ joined toks (y :: xs)

theorem joined_const (toks : ι → List τ) (xs : List ι) :
    joined (fun _ => toks) xs = xs.flatMap toks := by
  induction xs with
  | nil => rfl
  | cons x xs ih =>
      cases xs with
      | nil => simp [joined]
      | cons y xs =>
          rw [joined, ih]
          rfl

/-- Where each piece is followed by `c`, and the last one by `t`, it may as well be preceded by
`c`. -/
theorem cons_joined (c t : τ) (toks : ι → List τ) {xs : List ι} (h : xs ≠ []) :
    c :: joined (fun more x => toks x ++ [if more then c else t]) xs =
      (xs.flatMap fun x => c :: toks x) ++ [t] := by
  induction xs with
  | nil => exact absurd rfl h
  | cons x xs ih =>
      cases xs with
      | nil => simp [joined]
      | cons y xs =>
          rw [joined, List.append_assoc, List.flatMap_cons, List.cons_append, List.append_assoc,
            ← ih (by simp)]
          rfl

section Loops

variable {dry : ε} {body : α → Reader τ ε (α × Bool)} {toks : Bool → ι → List τ}
  {stop : Bool → List τ → Prop} {inv : List ι → Bool → α → Prop}

theorem length_le_joined {xs : List ι} (h : ∀ x ∈ xs, ∀ b, toks b x ≠ []) :
    xs.length ≤ (joined toks xs).length := by
  induction xs with
  | nil => exact Nat.le_refl 0
  | cons x xs ih =>
      cases xs with
      | nil => exact List.length_pos_iff.mpr (h x List.mem_cons_self false)
      | cons y xs =>
          have hFirst := List.length_pos_iff.mpr (h x List.mem_cons_self true)
          have hRest := ih fun z hz => h z (List.mem_cons_of_mem x hz)
          rw [joined, List.length_append, List.length_cons]
          omega

/-- What comes behind a piece is the next piece. -/
theorem holds_joined {stop : List τ → Prop} {y : ι} {xs : List ι}
    (h : ∀ b rest, stop (toks b y ++ rest)) (rest : List τ) :
    stop (joined toks (y :: xs) ++ rest) := by
  cases xs with
  | nil => exact h false rest
  | cons z xs =>
      rw [joined, List.append_assoc]
      exact h true _

variable {all done xs : List ι} {a : α} {n : Nat} {e : ε} {bad : ι → Prop}

theorem reads_rounds (hAll : all = done ++ xs) (hSome : xs ≠ []) (hRounds : xs.length ≤ n)
    (hInv : inv done true a)
    (hBody : ∀ done x more b a, all = done ++ x :: more → inv done true a →
      Reads (body a) (toks b x) (stop b) fun r => inv (done ++ [x]) b r.1 ∧ r.2 = b)
    (hStop : ∀ x ∈ xs, ∀ b rest, stop true (toks b x ++ rest)) :
    Reads (rounds dry body n a) (joined toks xs) (stop false) (inv all false) := by
  induction xs generalizing done a n with
  | nil => exact absurd rfl hSome
  | cons x xs ih =>
      obtain ⟨n, rfl⟩ := Nat.exists_eq_succ_of_ne_zero (Nat.ne_of_gt (Nat.lt_of_lt_of_le
        (Nat.succ_pos _) hRounds))
      cases xs with
      | nil =>
          apply (hBody done x [] false a hAll hInv).bind_nil
          intro r hr
          rw [hr.2, hAll]
          exact Reads.pure hr.1
      | cons y xs =>
          have hLater : ∀ r : α × Bool, inv (done ++ [x]) true r.1 ∧ r.2 = true →
              Reads (if r.2 then rounds dry body n r.1 else pure r.1) (joined toks (y :: xs))
                (stop false) (inv all false) := by
            intro r hr
            rw [hr.2, if_pos rfl]
            exact ih (by simp [hAll]) (by simp) (Nat.le_of_succ_le_succ hRounds) hr.1
              (fun z hz => hStop z (List.mem_cons_of_mem x hz))
          exact (hBody done x (y :: xs) true a hAll hInv).bind hLater
            fun rest _ => holds_joined (hStop y (by simp)) rest

/-- A loop takes its pieces one after the other. -/
theorem reads_repeating (stop : Bool → List τ → Prop) (inv : List ι → Bool → α → Prop)
    (hSome : xs ≠ []) (hInv : inv [] true a) (hToks : ∀ x ∈ xs, ∀ b, toks b x ≠ [])
    (hBody : ∀ done x more b a, xs = done ++ x :: more → inv done true a →
      Reads (body a) (toks b x) (stop b) fun r => inv (done ++ [x]) b r.1 ∧ r.2 = b)
    (hStop : ∀ x ∈ xs, ∀ b rest, stop true (toks b x ++ rest)) :
    Reads (repeating dry body a) (joined toks xs) (stop false) (inv xs false) := by
  intro s rest hView hRest
  have hLength : xs.length ≤ s.view.length + 1 := by
    have hLe := length_le_joined hToks
    rw [hView, List.length_append]
    omega
  exact reads_rounds rfl hSome hLength hInv hBody hStop s rest hView hRest

/-- A loop fails at the first piece that its body fails on. -/
theorem fails_rounds (hAll : all = done ++ xs) (hBad : ∃ x ∈ xs, bad x) (hRounds : xs.length ≤ n)
    (hInv : inv done true a)
    (hBody : ∀ done x more b a, all = done ++ x :: more → ¬ bad x → inv done true a →
      Reads (body a) (toks b x) (stop b) fun r => inv (done ++ [x]) b r.1 ∧ r.2 = b)
    (hFails : ∀ done x more b a, all = done ++ x :: more → bad x → inv done true a →
      Fails (body a) (toks b x) (stop b) e)
    (hStop : ∀ x ∈ xs, ∀ b rest, stop true (toks b x ++ rest)) :
    Fails (rounds dry body n a) (joined toks xs) (stop false) e := by
  induction xs generalizing done a n with
  | nil => simp at hBad
  | cons x xs ih =>
      obtain ⟨n, rfl⟩ := Nat.exists_eq_succ_of_ne_zero (Nat.ne_of_gt (Nat.lt_of_lt_of_le
        (Nat.succ_pos _) hRounds))
      by_cases hx : bad x
      · cases xs with
        | nil => exact (hFails done x [] false a hAll hx hInv).bind_nil
        | cons y xs =>
            exact (hFails done x (y :: xs) true a hAll hx hInv).bind
              fun rest _ => holds_joined (hStop y (by simp)) rest
      · obtain ⟨z, hz, hBadz⟩ := hBad
        have hLater : ∃ z ∈ xs, bad z := by
          rcases List.mem_cons.mp hz with rfl | hMem
          · exact absurd hBadz hx
          · exact ⟨z, hMem, hBadz⟩
        cases xs with
        | nil => simp at hLater
        | cons y xs =>
            apply (hBody done x (y :: xs) true a hAll hx hInv).bind_fails
            · intro r hr
              rw [hr.2, if_pos rfl]
              exact ih (by simp [hAll]) hLater (Nat.le_of_succ_le_succ hRounds) hr.1
                (fun z hz => hStop z (List.mem_cons_of_mem x hz))
            · exact fun rest _ => holds_joined (hStop y (by simp)) rest

theorem fails_repeating (stop : Bool → List τ → Prop) (inv : List ι → Bool → α → Prop)
    (hBad : ∃ x ∈ xs, bad x) (hInv : inv [] true a) (hToks : ∀ x ∈ xs, ∀ b, toks b x ≠ [])
    (hBody : ∀ done x more b a, xs = done ++ x :: more → ¬ bad x → inv done true a →
      Reads (body a) (toks b x) (stop b) fun r => inv (done ++ [x]) b r.1 ∧ r.2 = b)
    (hFails : ∀ done x more b a, xs = done ++ x :: more → bad x → inv done true a →
      Fails (body a) (toks b x) (stop b) e)
    (hStop : ∀ x ∈ xs, ∀ b rest, stop true (toks b x ++ rest)) :
    Fails (repeating dry body a) (joined toks xs) (stop false) e := by
  intro s rest hView hRest
  have hLength : xs.length ≤ s.view.length + 1 := by
    have hLe := length_le_joined hToks
    rw [hView, List.length_append]
    omega
  exact fails_rounds rfl hBad hLength hInv hBody hFails hStop s rest hView hRest

end Loops

section Ends

variable {dry : ε} {body : α → Reader τ ε (α × Bool)} {toks : ι → List τ}
  {stop stopEnd : List τ → Prop} {inv : List ι → α → Prop} {all done xs : List ι} {a : α} {n : Nat}
  {e : ε} {bad : ι → Prop}

theorem length_le_flatMap {xs : List ι} (h : ∀ x ∈ xs, toks x ≠ []) :
    xs.length ≤ (xs.flatMap toks).length := by
  induction xs with
  | nil => exact Nat.le_refl 0
  | cons x xs ih =>
      have hFirst := List.length_pos_iff.mpr (h x List.mem_cons_self)
      have hRest := ih fun z hz => h z (List.mem_cons_of_mem x hz)
      rw [List.flatMap_cons, List.length_append, List.length_cons]
      omega

theorem holds_flatMap (hLast : ∀ rest, stopEnd rest → stop rest)
    (hStop : ∀ x ∈ xs, ∀ rest, stop (toks x ++ rest)) {rest : List τ} (hRest : stopEnd rest) :
    stop (xs.flatMap toks ++ rest) := by
  cases xs with
  | nil => exact hLast rest hRest
  | cons y xs =>
      rw [List.flatMap_cons, List.append_assoc]
      exact hStop y List.mem_cons_self _

theorem reads_rounds_end (hAll : all = done ++ xs) (hRounds : xs.length < n) (hInv : inv done a)
    (hBody : ∀ done x more a, all = done ++ x :: more → inv done a →
      Reads (body a) (toks x) stop fun r => inv (done ++ [x]) r.1 ∧ r.2 = true)
    (hEnd : ∀ a, inv all a → Reads (body a) [] stopEnd fun r => inv all r.1 ∧ r.2 = false)
    (hLast : ∀ rest, stopEnd rest → stop rest)
    (hStop : ∀ x ∈ xs, ∀ rest, stop (toks x ++ rest)) :
    Reads (rounds dry body n a) (xs.flatMap toks) stopEnd (inv all) := by
  induction xs generalizing done a n with
  | nil =>
      obtain ⟨n, rfl⟩ := Nat.exists_eq_succ_of_ne_zero (Nat.ne_of_gt hRounds)
      rw [List.append_nil] at hAll
      apply (hEnd a (hAll ▸ hInv)).bind_nil
      intro r hr
      rw [hr.2]
      exact Reads.pure hr.1
  | cons x xs ih =>
      obtain ⟨n, rfl⟩ := Nat.exists_eq_succ_of_ne_zero (Nat.ne_of_gt (Nat.lt_of_le_of_lt
        (Nat.zero_le _) hRounds))
      have hTail := fun z hz => hStop z (List.mem_cons_of_mem x hz)
      have hLater : ∀ r : α × Bool, inv (done ++ [x]) r.1 ∧ r.2 = true →
          Reads (if r.2 then rounds dry body n r.1 else pure r.1) (xs.flatMap toks) stopEnd
            (inv all) := by
        intro r hr
        rw [hr.2, if_pos rfl]
        exact ih (by simp [hAll]) (Nat.lt_of_succ_lt_succ hRounds) hr.1 hTail
      exact (hBody done x xs a hAll hInv).bind hLater fun rest hRest =>
        holds_flatMap hLast hTail hRest

/-- A loop that stops when no piece comes takes the pieces that there are. -/
theorem reads_repeating_end (stop : List τ → Prop) (inv : List ι → α → Prop)
    (hInv : inv [] a) (hToks : ∀ x ∈ xs, toks x ≠ [])
    (hBody : ∀ done x more a, xs = done ++ x :: more → inv done a →
      Reads (body a) (toks x) stop fun r => inv (done ++ [x]) r.1 ∧ r.2 = true)
    (hEnd : ∀ a, inv xs a → Reads (body a) [] stopEnd fun r => inv xs r.1 ∧ r.2 = false)
    (hLast : ∀ rest, stopEnd rest → stop rest)
    (hStop : ∀ x ∈ xs, ∀ rest, stop (toks x ++ rest)) :
    Reads (repeating dry body a) (xs.flatMap toks) stopEnd (inv xs) := by
  intro s rest hView hRest
  have hLength : xs.length < s.view.length + 1 := by
    have hLe := length_le_flatMap hToks
    rw [hView, List.length_append]
    omega
  exact reads_rounds_end rfl hLength hInv hBody hEnd hLast hStop s rest hView hRest

theorem fails_rounds_end (hAll : all = done ++ xs) (hBad : ∃ x ∈ xs, bad x)
    (hRounds : xs.length < n)
    (hInv : inv done a)
    (hBody : ∀ done x more a, all = done ++ x :: more → ¬ bad x → inv done a →
      Reads (body a) (toks x) stop fun r => inv (done ++ [x]) r.1 ∧ r.2 = true)
    (hFails : ∀ done x more a, all = done ++ x :: more → bad x → inv done a →
      Fails (body a) (toks x) stop e)
    (hLast : ∀ rest, stopEnd rest → stop rest)
    (hStop : ∀ x ∈ xs, ∀ rest, stop (toks x ++ rest)) :
    Fails (rounds dry body n a) (xs.flatMap toks) stopEnd e := by
  induction xs generalizing done a n with
  | nil => simp at hBad
  | cons x xs ih =>
      obtain ⟨n, rfl⟩ := Nat.exists_eq_succ_of_ne_zero (Nat.ne_of_gt (Nat.lt_of_le_of_lt
        (Nat.zero_le _) hRounds))
      have hTail := fun z hz => hStop z (List.mem_cons_of_mem x hz)
      by_cases hx : bad x
      · exact (hFails done x xs a hAll hx hInv).bind fun rest hRest =>
          holds_flatMap hLast hTail hRest
      · obtain ⟨z, hz, hBadz⟩ := hBad
        have hLater : ∃ z ∈ xs, bad z := by
          rcases List.mem_cons.mp hz with rfl | hMem
          · exact absurd hBadz hx
          · exact ⟨z, hMem, hBadz⟩
        apply (hBody done x xs a hAll hx hInv).bind_fails
        · intro r hr
          rw [hr.2, if_pos rfl]
          exact ih (by simp [hAll]) hLater (Nat.lt_of_succ_lt_succ hRounds) hr.1 hTail
        · exact fun rest hRest => holds_flatMap hLast hTail hRest

theorem fails_repeating_end (stop : List τ → Prop) (inv : List ι → α → Prop)
    (hBad : ∃ x ∈ xs, bad x) (hInv : inv [] a) (hToks : ∀ x ∈ xs, toks x ≠ [])
    (hBody : ∀ done x more a, xs = done ++ x :: more → ¬ bad x → inv done a →
      Reads (body a) (toks x) stop fun r => inv (done ++ [x]) r.1 ∧ r.2 = true)
    (hFails : ∀ done x more a, xs = done ++ x :: more → bad x → inv done a →
      Fails (body a) (toks x) stop e)
    (hLast : ∀ rest, stopEnd rest → stop rest)
    (hStop : ∀ x ∈ xs, ∀ rest, stop (toks x ++ rest)) :
    Fails (repeating dry body a) (xs.flatMap toks) stopEnd e := by
  intro s rest hView hRest
  have hLength : xs.length < s.view.length + 1 := by
    have hLe := length_le_flatMap hToks
    rw [hView, List.length_append]
    omega
  exact fails_rounds_end rfl hBad hLength hInv hBody hFails hLast hStop s rest hView hRest

end Ends

/-! ### What a reader yields

Of a reader that succeeds it can also be said what its result is like, when the symbols have
something in common. -/

def Yields (sym : τ → Prop) (p : Reader τ ε α) (post : α → Prop) : Prop :=
  ∀ s a s', (∀ t ∈ s.view, sym t) → p s = .ok (a, s') → post a ∧ ∀ t ∈ s'.view, sym t

section Results

variable {sym : τ → Prop} {p : Reader τ ε α} {f : α → Reader τ ε β} {post : α → Prop}
  {post' : β → Prop}

theorem Yields.pure {a : α} (h : post a) : Yields sym (Pure.pure a : Reader τ ε α) post := by
  intro s a' s' hSym hRun
  cases hRun
  exact ⟨h, hSym⟩

theorem Yields.fail (e : ε) : Yields sym (Reader.fail e : Reader τ ε α) post := nofun

theorem Yields.bind (h : Yields sym p post) (h' : ∀ a, post a → Yields sym (f a) post') :
    Yields sym (p >>= f) post' := by
  intro s b s'' hSym hRun
  cases hFirst : p s with
  | error e =>
      rw [bind_error hFirst] at hRun
      cases hRun
  | ok r =>
      obtain ⟨a, s'⟩ := r
      rw [bind_ok hFirst] at hRun
      obtain ⟨ha, hSym'⟩ := h s a s' hSym hFirst
      exact h' a ha s' b s'' hSym' hRun

theorem Yields.mono (h : Yields sym p post) {post' : α → Prop} (hPost : ∀ a, post a → post' a) :
    Yields sym p post' := by
  intro s a s' hSym hRun
  obtain ⟨ha, hSym'⟩ := h s a s' hSym hRun
  exact ⟨hPost a ha, hSym'⟩

theorem Yields.ite {c : Prop} [Decidable c] {q : Reader τ ε α} (h : c → Yields sym p post)
    (h' : ¬ c → Yields sym q post) : Yields sym (if c then p else q) post := by
  by_cases hc : c
  · rw [if_pos hc]
    exact h hc
  · rw [if_neg hc]
    exact h' hc

theorem yields_next {eof : τ} (hEof : sym eof) :
    Yields sym (Reader.next eof : Reader τ ε τ) sym := by
  rintro ⟨_ | t, _ | ⟨u, input⟩⟩ a s' hSym hRun <;> cases hRun
  · exact ⟨hEof, nofun⟩
  · exact ⟨hSym u (by simp [Pushback.view]), fun t ht => hSym t (by
      simp only [Pushback.view] at ht ⊢
      simp_all)⟩
  · exact ⟨hSym t (by simp [Pushback.view]), nofun⟩
  · exact ⟨hSym t (by simp [Pushback.view]), fun t ht => hSym t (by
      simp only [Pushback.view] at ht ⊢
      simp_all)⟩

theorem yields_unget {t : τ} (h : sym t) :
    Yields sym (Reader.unget t : Reader τ ε Unit) fun _ => True := by
  intro s a s' hSym hRun
  cases hRun
  refine ⟨trivial, fun u hu => ?_⟩
  rcases List.mem_cons.mp hu with rfl | hMem
  · exact h
  · exact hSym u (List.mem_append_right _ hMem)

/-- What every round brings about, and lets the next one start from, the loop brings about. -/
theorem Yields.repeating {dry : ε} {body : α → Reader τ ε (α × Bool)} (inv : α → Prop)
    {post : α → Prop} (hBody : ∀ a, inv a → Yields sym (body a) fun r => post r.1)
    (hInv : ∀ a, post a → inv a) {a : α} (hStart : inv a) : Yields sym (repeating dry body a) post := by
  have hRounds : ∀ n a, inv a → Yields sym (rounds dry body n a) post := by
    intro n
    induction n with
    | zero => exact fun _ _ => Yields.fail dry
    | succ n ih =>
        intro a ha
        apply (hBody a ha).bind
        intro r hr
        exact Yields.ite (fun _ => ih r.1 (hInv r.1 hr)) fun _ => Yields.pure hr
  exact fun s => hRounds _ a hStart s

end Results

end OncRpc.Lookahead
