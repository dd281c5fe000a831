/-! Runs of a machine that takes one event after another and may stop on one. -/
namespace OncRpc.Runs

variable {σ ε : Type} {next : σ → ε → Option σ}

/-- What holds of every event of a run and of the state it meets. The run ends with the first
event that has no outcome. -/
def Throughout (next : σ → ε → Option σ) (P : σ → ε → Prop) : σ → List ε → Prop
  | _, [] => True
  | s, e :: rest => P s e ∧ ∀ s', next s e = some s' → Throughout next P s' rest

variable {P Q : σ → ε → Prop}

/-- Two properties that agree under an invariant, which one of them keeps, hold throughout the
same runs. -/
theorem throughout_iff (Inv : σ → Prop) (hAgree : ∀ s e, Inv s → (P s e ↔ Q s e))
    (hKeep : ∀ s e s', Inv s → Q s e → next s e = some s' → Inv s') (events : List ε) :
    ∀ s, Inv s → (Throughout next P s events ↔ Throughout next Q s events) := by
  induction events with
  | nil => exact fun _ _ => Iff.rfl
  | cons e rest ih =>
      intro s hInv
      rw [Throughout, Throughout, hAgree s e hInv, and_congr_right_iff]
      intro hStep
      apply forall_congr'
      intro s'
      apply imp_congr_right
      intro hNext
      exact ih s' (hKeep s e s' hInv hStep hNext)

/-- Where every event has an outcome, what is asked of the events alone is asked of all of them. -/
theorem throughout_forall {R : ε → Prop} {step : σ → ε → σ}
    (hNext : ∀ s e, next s e = some (step s e)) {events : List ε} :
    ∀ {s}, Throughout next (fun _ e => R e) s events ↔ ∀ e ∈ events, R e := by
  induction events with
  | nil => exact ⟨fun _ _ h => (nomatch h), fun _ => trivial⟩
  | cons e rest ih =>
      intro s
      rw [List.forall_mem_cons, Throughout, and_congr_right_iff]
      intro _
      refine ⟨fun h => ih.mp (h _ (hNext s e)), fun h s' _ => ih.mpr h⟩

variable {γ : Type} {step : σ → ε → σ} {Meets : γ → σ → ε → Prop} {Right : γ → σ → ε → γ → Prop}

/-- As long as the events meet a condition, a run does what is right by a specification with
states of its own. -/
def FollowsWhile (step : σ → ε → σ) (Meets : γ → σ → ε → Prop) (Right : γ → σ → ε → γ → Prop) :
    γ → σ → List ε → Prop
  | _, _, [] => True
  | g, s, e :: rest => Meets g s e → (∃ g', Right g s e g') ∧
      ∀ g', Right g s e g' → FollowsWhile step Meets Right g' (step s e) rest

/-- A run follows when every step does, under an invariant that what is right keeps. -/
theorem followsWhile_of_step (Inv : γ → σ → Prop)
    (hRight : ∀ g s e, Inv g s → Meets g s e → ∃ g', Right g s e g')
    (hKeep : ∀ g s e g', Inv g s → Meets g s e → Right g s e g' → Inv g' (step s e))
    (events : List ε) : ∀ g s, Inv g s → FollowsWhile step Meets Right g s events := by
  induction events with
  | nil => exact fun _ _ _ => trivial
  | cons e rest ih =>
      intro g s hInv hMeets
      exact ⟨hRight g s e hInv hMeets, fun g' h => ih g' _ (hKeep g s e g' hInv hMeets h)⟩

/-- As long as the events meet a condition every event has an outcome, and something holds of every
state that is reached. -/
def SafeWhile (next : σ → ε → Option σ) (P : σ → ε → Prop) (Good : σ → Prop) : σ → List ε → Prop
  | s, [] => Good s
  | s, e :: rest =>
      Good s ∧ (P s e → ∃ s', next s e = some s' ∧ SafeWhile next P Good s' rest)

/-- A run is safe where every step keeps an invariant. -/
theorem safeWhile_of_step {Good : σ → Prop} (Inv : σ → Prop) (hGood : ∀ s, Inv s → Good s)
    (hStep : ∀ s e, Inv s → P s e → ∃ s', next s e = some s' ∧ Inv s') (events : List ε) :
    ∀ s, Inv s → SafeWhile next P Good s events := by
  induction events with
  | nil => exact hGood
  | cons e rest ih =>
      intro s hInv
      refine ⟨hGood s hInv, fun hMeets => ?_⟩
      obtain ⟨s', hNext, hInv'⟩ := hStep s e hInv hMeets
      exact ⟨s', hNext, ih s' hInv'⟩

/-- What has become of the state after some events. -/
def run (next : σ → ε → Option σ) (s : σ) (events : List ε) : Option σ := events.foldlM next s

/-- Where no condition is put on the events, a run that is safe comes to a good state. -/
theorem SafeWhile.run {Good : σ → Prop} {s : σ} {events : List ε}
    (h : SafeWhile next (fun _ _ => True) Good s events) :
    ∃ s', Runs.run next s events = some s' ∧ Good s' := by
  induction events generalizing s with
  | nil => exact ⟨s, rfl, h⟩
  | cons e rest ih =>
      obtain ⟨s₁, hNext, hRest⟩ := h.2 trivial
      obtain ⟨s', hRun, hGood⟩ := ih hRest
      refine ⟨s', ?_, hGood⟩
      rw [Runs.run, List.foldlM_cons, hNext]
      exact hRun

/-- A run whose first event has an outcome. -/
theorem Throughout.cons {s s₁ : σ} {e : ε} {rest : List ε} (hNext : next s e = some s₁)
    (hMeets : P s e) (hRest : Throughout next P s₁ rest) : Throughout next P s (e :: rest) := by
  refine ⟨hMeets, fun s' hNext' => ?_⟩
  rw [← Option.some.inj (hNext.symm.trans hNext')]
  exact hRest

/-- What every step keeps that meets a condition holds where such steps lead. -/
theorem run_of_step (Inv : σ → Prop)
    (hStep : ∀ s e s', Inv s → P s e → next s e = some s' → Inv s') (events : List ε) :
    ∀ s s', Inv s → Throughout next P s events → Runs.run next s events = some s' → Inv s' := by
  induction events with
  | nil =>
      intro s s' hInv _ hRun
      rwa [← Option.some.inj hRun]
  | cons e rest ih =>
      intro s s' hInv hMeets hRun
      rw [Runs.run, List.foldlM_cons] at hRun
      obtain ⟨s₁, hNext, hRest⟩ := Option.bind_eq_some_iff.mp hRun
      exact ih s₁ s' (hStep s e s₁ hInv hMeets.1 hNext) (hMeets.2 s₁ hNext) hRest

section Answers

universe u

variable {τ α : Type} {κ : Type u} {f : σ → κ → α × σ} {g : τ → κ → α × τ}

/-- What a machine answers to each event of a run, and the state that it comes to. -/
def answers (f : σ → κ → α × σ) : σ → List κ → List α × σ
  | s, [] => ([], s)
  | s, e :: rest =>
      let later := answers f (f s e).2 rest
      ((f s e).1 :: later.1, later.2)

/-- What is asked of every event holds where the event is met. -/
def Admits (f : σ → κ → α × σ) (P : σ → κ → Prop) : σ → List κ → Prop
  | _, [] => True
  | s, e :: rest => P s e ∧ Admits f P (f s e).2 rest

/-- Machines whose steps keep their states related, and answer the same, answer the same in a
run. -/
theorem answers_simulated {P : τ → κ → Prop} {R : σ → τ → Prop}
    (hStep : ∀ s t e, R s t → P t e →
      (f s e).1 = (g t e).1 ∧ R (f s e).2 (g t e).2) (events : List κ) :
    ∀ s t, R s t → Admits g P t events →
      (answers f s events).1 = (answers g t events).1 ∧
        R (answers f s events).2 (answers g t events).2 := by
  induction events with
  | nil => exact fun _ _ h _ => ⟨rfl, h⟩
  | cons e rest ih =>
      intro s t h hAdmits
      obtain ⟨hAnswer, hNext⟩ := hStep s t e h hAdmits.1
      obtain ⟨hLater, hEnd⟩ := ih _ _ hNext hAdmits.2
      refine ⟨?_, hEnd⟩
      rw [answers, answers, hAnswer, hLater]

/-- What is asked of the events alone. -/
theorem admits_of_forall {P : κ → Prop} {events : List κ} (h : ∀ e ∈ events, P e) (t : τ) :
    Admits g (fun _ e => P e) t events := by
  induction events generalizing t with
  | nil => trivial
  | cons e rest ih =>
      exact ⟨h e List.mem_cons_self, ih (fun e' he => h e' (List.mem_cons_of_mem e he)) _⟩

end Answers

end OncRpc.Runs
