import Mathlib.Logic.Relation

/-! Computations on a state that may fail and, failed or not, leave a state
behind. A failure stops the computation where it is: nothing is rolled back.

`Keeps` says that a computation fails or stays inside a set of states, `Stays` that it does
not leave the set even where it fails, `Yields` that it fails or answers from a set, and
`Alike` that two computations differ in no more than their answers.

`Refines` compares two such computations on different states. It asks for the
same answer, and for related states after every answer that is not a failure;
what is related before may differ from what is related after. -/

/-- A computation on `σ` that yields an `α` or fails. -/
def Fallible (σ α : Type) : Type := σ → Option α × σ

namespace Fallible

variable {σ τ α β : Type}

def run (m : Fallible σ α) (s : σ) : Option α × σ := m s

instance : Monad (Fallible σ) where
  pure a := fun s => (some a, s)
  bind m f := fun s =>
    match m s with
    | (some a, s') => f a s'
    | (none, s') => (none, s')

/-- Stop with a failure. -/
def fail : Fallible σ α := fun s => (none, s)

/-- Fail unless the condition holds. -/
def require (c : Prop) [Decidable c] : Fallible σ Unit :=
  fun s => (if c then some () else none, s)

/-- Read something off the state. -/
def gets (f : σ → α) : Fallible σ α := fun s => (some (f s), s)

/-- Change the state. -/
def modify (f : σ → σ) : Fallible σ Unit := fun s => (some (), f s)

@[simp] theorem run_pure (a : α) (s : σ) : (pure a : Fallible σ α).run s = (some a, s) := rfl

@[simp] theorem run_fail (s : σ) : (fail : Fallible σ α).run s = (none, s) := rfl

@[simp] theorem run_modify (f : σ → σ) (s : σ) : (modify f).run s = (some (), f s) := rfl

theorem run_require (c : Prop) [Decidable c] (s : σ) :
    (require c : Fallible σ Unit).run s = (if c then some () else none, s) := rfl

theorem run_bind (m : Fallible σ α) (f : α → Fallible σ β) (s : σ) :
    (m >>= f).run s =
      match m.run s with
      | (some a, s') => (f a).run s'
      | (none, s') => (none, s') := rfl

theorem run_bind_some {m : Fallible σ α} {f : α → Fallible σ β} {s s' : σ} {a : α}
    (h : m.run s = (some a, s')) : (m >>= f).run s = (f a).run s' := by
  rw [run_bind, h]

theorem run_bind_none {m : Fallible σ α} {f : α → Fallible σ β} {s s' : σ}
    (h : m.run s = (none, s')) : (m >>= f).run s = (none, s') := by
  rw [run_bind, h]

/-- A failure is final, whatever state it leaves. -/
theorem fst_run_bind {m : Fallible σ α} {f : α → Fallible σ β} {s : σ}
    (h : (m.run s).1 = none) : ((m >>= f).run s).1 = none := by
  rw [run_bind]
  rcases hRun : m.run s with ⟨_ | a, s'⟩
  · rfl
  · rw [hRun] at h
    cases h

/-- A sequence that succeeds has succeeded at each of its steps. -/
theorem exists_of_run_bind {m : Fallible σ α} {f : α → Fallible σ β} {s s' : σ} {b : β}
    (h : (m >>= f).run s = (some b, s')) :
    ∃ a s₁, m.run s = (some a, s₁) ∧ (f a).run s₁ = (some b, s') := by
  rw [run_bind] at h
  rcases hRun : m.run s with ⟨_ | a, s₁⟩
  · rw [hRun] at h
    cases h
  · rw [hRun] at h
    exact ⟨a, s₁, rfl, h⟩

@[simp] theorem run_bind_gets (f : σ → α) (g : α → Fallible σ β) (s : σ) :
    (gets f >>= g).run s = (g (f s)).run s := rfl

@[simp] theorem run_bind_modify (f : σ → σ) (g : Unit → Fallible σ β) (s : σ) :
    (modify f >>= g).run s = (g ()).run (f s) := rfl

@[simp] theorem run_bind_pure (a : α) (g : α → Fallible σ β) (s : σ) :
    (pure a >>= g).run s = (g a).run s := rfl

theorem run_bind_require (c : Prop) [Decidable c] (g : Unit → Fallible σ β) (s : σ) :
    (require c >>= g).run s = if c then (g ()).run s else (none, s) := by
  by_cases h : c <;> simp [run_bind, run_require, h]

theorem require_congr {c d : Prop} [Decidable c] [Decidable d] (h : c ↔ d) :
    (require c : Fallible σ Unit) = require d := by
  funext s
  simp only [require, h]

theorem ext {m p : Fallible σ α} (h : ∀ s, m.run s = p.run s) : m = p := funext h

instance : LawfulMonad (Fallible σ) := LawfulMonad.mk' _
  (by
    intro α m
    apply ext
    intro s
    show (m >>= fun a => pure (id a)).run s = m.run s
    rw [run_bind]
    rcases m.run s with ⟨_ | a, s'⟩ <;> rfl)
  (by
    intro α β a f
    rfl)
  (by
    intro α β γ m f g
    apply ext
    intro s
    simp only [run_bind]
    rcases m.run s with ⟨_ | a, s'⟩ <;> rfl)

/-- From a state in `P` the computation fails or ends in `P`. -/
def Keeps (P : σ → Prop) (m : Fallible σ α) : Prop :=
  ∀ s, P s → (m.run s).1 = none ∨ P (m.run s).2

namespace Keeps

variable {P : σ → Prop} {m : Fallible σ α}

theorem pure (a : α) : Keeps P (Pure.pure a : Fallible σ α) := fun _ h => Or.inr h

theorem modify {f : σ → σ} (h : ∀ s, P s → P (f s)) : Keeps P (Fallible.modify f) :=
  fun s hs => Or.inr (h s hs)

theorem bind {f : α → Fallible σ β} (hm : Keeps P m) (hf : ∀ a, Keeps P (f a)) :
    Keeps P (m >>= f) := by
  intro s hs
  have hFirst := hm s hs
  rcases hRun : m.run s with ⟨_ | a, s'⟩
  · exact Or.inl (by rw [run_bind_none hRun])
  · rw [run_bind_some hRun]
    rw [hRun] at hFirst
    rcases hFirst with hNone | hKept
    · cases hNone
    · exact hf a s' hKept

/-- The continuation may look at the state it starts from. -/
theorem bind_gets {g : σ → α} {f : α → Fallible σ β}
    (h : ∀ s, P s → ((f (g s)).run s).1 = none ∨ P ((f (g s)).run s).2) :
    Keeps P (gets g >>= f) := by
  intro s hs
  rw [run_bind_gets]
  exact h s hs

end Keeps

/-- From a state in `P` the computation ends in `P`, failed or not. -/
def Stays (P : σ → Prop) (m : Fallible σ α) : Prop := ∀ s, P s → P (m.run s).2

namespace Stays

variable {P : σ → Prop} {m : Fallible σ α}

theorem pure (a : α) : Stays P (Pure.pure a : Fallible σ α) := fun _ h => h

theorem fail : Stays P (Fallible.fail : Fallible σ α) := fun _ h => h

theorem require (c : Prop) [Decidable c] : Stays P (Fallible.require c) := fun _ h => h

theorem gets (f : σ → α) : Stays P (Fallible.gets f) := fun _ h => h

theorem modify {f : σ → σ} (h : ∀ s, P s → P (f s)) : Stays P (Fallible.modify f) := h

theorem bind {f : α → Fallible σ β} (hm : Stays P m) (hf : ∀ a, Stays P (f a)) :
    Stays P (m >>= f) := by
  intro s hs
  have hFirst := hm s hs
  rcases hRun : m.run s with ⟨_ | a, s'⟩
  · rw [run_bind_none hRun]
    rwa [hRun] at hFirst
  · rw [run_bind_some hRun]
    rw [hRun] at hFirst
    exact hf a s' hFirst

theorem ite {c : Prop} [Decidable c] {m' : Fallible σ α} (hm : Stays P m) (hm' : Stays P m') :
    Stays P (if c then m else m') := by
  split
  · exact hm
  · exact hm'

end Stays

/-- What the computation answers, if it does not fail, is in `P`. -/
def Yields (P : α → Prop) (m : Fallible σ α) : Prop := ∀ s a s', m.run s = (some a, s') → P a

namespace Yields

variable {P : α → Prop} {Q : β → Prop} {m : Fallible σ α}

theorem any (m : Fallible σ α) : Yields (fun _ => True) m := fun _ _ _ _ => trivial

theorem pure {a : α} (h : P a) : Yields P (Pure.pure a : Fallible σ α) := by
  intro s a' s' hRun
  cases hRun
  exact h

theorem bind {f : α → Fallible σ β} (hm : Yields P m) (hf : ∀ a, P a → Yields Q (f a)) :
    Yields Q (m >>= f) := by
  intro s b s'' hRun
  obtain ⟨a, s', hFirst, hRest⟩ := exists_of_run_bind hRun
  exact hf a (hm s a s' hFirst) s' b s'' hRest

theorem require {c : Prop} [Decidable c] {f : Unit → Fallible σ β} (hf : c → Yields Q (f ())) :
    Yields Q (Fallible.require c >>= f) := by
  intro s b s' hRun
  rw [run_bind_require] at hRun
  split at hRun
  · next hc => exact hf hc s b s' hRun
  · cases hRun

theorem ite {c : Prop} [Decidable c] {m' : Fallible σ α} (hm : Yields P m) (hm' : Yields P m') :
    Yields P (if c then m else m') := by
  split
  · exact hm
  · exact hm'

end Yields

/-- The two computations do the same to every state and give answers that `f` does not tell
apart. -/
def Alike {γ : Type} (f : α → γ) (m m' : Fallible σ α) : Prop :=
  ∀ s, (m.run s).1.map f = (m'.run s).1.map f ∧ (m.run s).2 = (m'.run s).2

namespace Alike

variable {γ δ : Type} {f : α → γ} {m m' : Fallible σ α}

theorem refl (f : α → γ) (m : Fallible σ α) : Alike f m m := fun _ => ⟨rfl, rfl⟩

theorem pure {a a' : α} (h : f a = f a') :
    Alike f (Pure.pure a : Fallible σ α) (Pure.pure a') :=
  fun _ => ⟨congrArg some h, rfl⟩

/-- The same computation first, then alike ones. -/
theorem bind_same {k k' : β → Fallible σ α} (n : Fallible σ β) (h : ∀ b, Alike f (k b) (k' b)) :
    Alike f (n >>= k) (n >>= k') := by
  intro s
  rw [run_bind, run_bind]
  rcases n.run s with ⟨_ | b, s'⟩
  · exact ⟨rfl, rfl⟩
  · exact h b s'

theorem bind {g : β → δ} {k k' : α → Fallible σ β} (hm : Alike f m m')
    (hk : ∀ a a', f a = f a' → Alike g (k a) (k' a')) : Alike g (m >>= k) (m' >>= k') := by
  intro s
  obtain ⟨hAns, hState⟩ := hm s
  rw [run_bind, run_bind]
  rcases hRun : m.run s with ⟨_ | a, s₁⟩
  · rcases hRun' : m'.run s with ⟨_ | a', s₂⟩
    · rw [hRun, hRun'] at hState
      exact ⟨rfl, hState⟩
    · rw [hRun, hRun'] at hAns
      cases hAns
  · rcases hRun' : m'.run s with ⟨_ | a', s₂⟩
    · rw [hRun, hRun'] at hAns
      cases hAns
    · rw [hRun, hRun'] at hAns hState
      obtain rfl : s₁ = s₂ := hState
      exact hk a a' (Option.some.inj hAns) s₁

end Alike

/-- From states related by `R` the first computation answers as the second does,
and unless both have failed it leads to states related by `S`. -/
def Refines (R S : σ → τ → Prop) (m : Fallible σ α) (p : Fallible τ α) : Prop :=
  ∀ s t, R s t → (m.run s).1 = (p.run t).1 ∧
    ((p.run t).1.isSome → S (m.run s).2 (p.run t).2)

namespace Refines

variable {R S T : σ → τ → Prop} {m : Fallible σ α} {p : Fallible τ α}

theorem pure (a : α) : Refines R R (Pure.pure a) (Pure.pure a) :=
  fun _ _ h => ⟨rfl, fun _ => h⟩

theorem fail : Refines R S (Fallible.fail : Fallible σ α) Fallible.fail :=
  fun _ _ _ => ⟨rfl, fun h => by simp at h⟩

theorem require (c : Prop) [Decidable c] :
    Refines R R (Fallible.require c) (Fallible.require c) :=
  fun _ _ h => ⟨rfl, fun _ => h⟩

/-- Sequencing keeps refinement; the continuations are only compared on the
value both sides have produced. -/
theorem bind {f : α → Fallible σ β} {g : α → Fallible τ β} (hm : Refines R S m p)
    (hf : ∀ a, Refines S T (f a) (g a)) : Refines R T (m >>= f) (p >>= g) := by
  intro s t hR
  obtain ⟨hAns, hKeep⟩ := hm s t hR
  simp only [run_bind]
  rcases hp : p.run t with ⟨_ | a, t'⟩
  · rcases hs : m.run s with ⟨_ | b, s'⟩
    · simp
    · simp [hp, hs] at hAns
  · rcases hs : m.run s with ⟨_ | b, s'⟩
    · simp [hp, hs] at hAns
    · have hEq : b = a := by simpa [hp, hs] using hAns
      subst hEq
      have hR' : S s' t' := by simpa [hp, hs] using hKeep
      exact hf b s' t' hR'

theorem ite {c : Prop} [Decidable c] {m' : Fallible σ α} {p' : Fallible τ α}
    (hm : Refines R S m p) (hm' : Refines R S m' p') :
    Refines R S (if c then m else m') (if c then p else p') := by
  split
  · exact hm
  · exact hm'

/-- A stronger relation before is enough. -/
theorem weaken {R' : σ → τ → Prop} (h : Refines R S m p) (hR : ∀ s t, R' s t → R s t) :
    Refines R' S m p :=
  fun s t hs => h s t (hR s t hs)

/-- A successful run of the specification is matched by the refinement. -/
theorem run_some {s : σ} {t t' : τ} {a : α} (h : Refines R S m p) (hR : R s t)
    (hp : p.run t = (some a, t')) : ∃ s', m.run s = (some a, s') ∧ S s' t' := by
  obtain ⟨hAns, hKeep⟩ := h s t hR
  rw [hp] at hAns hKeep
  exact ⟨(m.run s).2, Prod.ext hAns rfl, hKeep rfl⟩

end Refines
end Fallible
