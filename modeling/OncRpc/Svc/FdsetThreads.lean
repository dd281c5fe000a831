import OncRpc.Base.Heap
import OncRpc.Base.Runs
import OncRpc.Svc.FdSet

/-! `svc_fdset.c` with `SVC_FDSET_MT`: every thread has a structure of its own, which points to its
descriptors. -/
namespace OncRpc

/-- `struct svc_fdset`, with the pointers. `fdnum` is the length of the array. -/
structure FdsetPtrs where
  fdset : Option Nat
  fdmax : Int
  fdsize : Nat
  fdp : Option Nat
  fdused : Nat
  deriving DecidableEq, Repr

/-- What `calloc` leaves of it. -/
def FdsetPtrs.zero : FdsetPtrs where
  fdset := none
  fdmax := 0
  fdsize := 0
  fdp := none
  fdused := 0

/-- `__svc_fdset`, the structures that `thr_getspecific` returns to the threads, and what all of
them point to. -/
structure FdsetMemory where
  svcFdset : FdsetPtrs
  specific : Nat → Option FdsetPtrs
  sets : Heap (List Nat)
  polls : Heap (List (Option Nat))

/-- What a thread does. -/
inductive FdsetOp where
  /-- `svc_fdset_set`, `svc_fdset_clr` and `svc_fdset_zero`. -/
  | call (c : SvcFdset.FdsetCall)
  /-- `svc_fdset_isset`. -/
  | isset (fd : Nat)
  /-- `svc_fdset_get`. -/
  | get
  /-- `svc_pollfd_get`. -/
  | pollfdGet
  /-- The thread exits, and its structure is destroyed. -/
  | exit
  deriving DecidableEq, Repr

/-- What a thread is told. -/
inductive FdsetAnswer where
  | rv (ok : Bool)
  | fdset (fds : List Nat)
  | pollfd (fdp : List (Option Nat))
  | none
  deriving DecidableEq, Repr

/-- What an operation answers when its thread has these descriptors, and what it makes of them. -/
def SvcFdset.perform (fds : SvcFdset) : FdsetOp → FdsetAnswer × SvcFdset
  | .call c => (.rv (fds.call c).1, (fds.call c).2)
  | .isset fd => (.rv (fds.svcFdsetIsset fd).1, (fds.svcFdsetIsset fd).2)
  | .get =>
      let fds := (fds.svcFdsetAlloc 0).svcFdsetSanitize
      (.fdset fds.fdset, fds)
  | .pollfdGet =>
      let fds := fds.svcFdsetAlloc 0
      (.pollfd fds.fdp, fds)
  | .exit => (.none, fds)

namespace FdsetMemory

/-- What a structure shows. There is nothing to tell where it points to memory that is freed. -/
def view (m : FdsetMemory) (fds : FdsetPtrs) : Option SvcFdset := do
  let fdset ← m.sets.held fds.fdset
  let fdp ← m.polls.held fds.fdp
  some { fdset := fdset.getD [], fdmax := fds.fdmax, fdsize := fds.fdsize, fdp := fdp.getD []
         fdused := fds.fdused }

/-- `svc_fdset_alloc` up to `svc_fdset_resize`: a thread that has no structure gets one, a copy of
`__svc_fdset` where that has been used. -/
def svcFdsetAlloc (t : Nat) (m : FdsetMemory) : FdsetMemory :=
  match m.specific t with
  | some _ => m
  | none =>
      let fds := if m.svcFdset.fdsize ≠ 0 then m.svcFdset else .zero
      { m with specific := Function.update m.specific t (some fds) }

/-- The descriptors of a thread are what they have become: its `fd_set` stays where it is, and the
array for `poll` is allocated, moved where it has grown, or freed. -/
def store (t : Nat) (fds : FdsetPtrs) (old new : SvcFdset) (m : FdsetMemory) :
    Option FdsetMemory := do
  let (fdset, sets) ← m.sets.place fds.fdset (some new.fdset) false
  let (fdp, polls) ← m.polls.place fds.fdp (if new.fdp = [] then none else some new.fdp)
    (decide (new.fdp.length ≠ old.fdp.length))
  let fds := { fdset, fdmax := new.fdmax, fdsize := new.fdsize, fdp, fdused := new.fdused }
  some { m with sets, polls, specific := Function.update m.specific t (some fds) }

/-- `svc_fdset_free`, when the thread has a structure. -/
def exit (t : Nat) (m : FdsetMemory) : Option FdsetMemory :=
  match m.specific t with
  | none => some m
  | some fds => do
      let (_, polls) ← m.polls.place fds.fdp none false
      let (_, sets) ← m.sets.place fds.fdset none false
      some { m with sets, polls, specific := Function.update m.specific t none }

/-- An operation of a thread. Without a result it uses memory that is freed. -/
def step (m : FdsetMemory) (e : Nat × FdsetOp) : Option (FdsetAnswer × FdsetMemory) :=
  if e.2 = .exit then (m.exit e.1).map fun m => (.none, m)
  else do
    let m := m.svcFdsetAlloc e.1
    let fds ← m.specific e.1
    let old ← m.view fds
    let (answer, new) := old.perform e.2
    let m ← m.store e.1 fds old new
    some (answer, m)

/-- `svc_fdset_init(SVC_FDSET_MT)`, when the single structure has these descriptors. -/
def init (fds : SvcFdset) : FdsetMemory :=
  if fds.fdsize = 0 then
    { svcFdset := .zero, specific := fun _ => none, sets := .empty, polls := .empty }
  else
    let set := Heap.empty.malloc fds.fdset
    let poll := Heap.empty.malloc fds.fdp
    { svcFdset :=
        { fdset := some set.1, fdmax := fds.fdmax, fdsize := fds.fdsize
          fdp := if fds.fdp = [] then none else some poll.1, fdused := fds.fdused }
      specific := fun _ => none
      sets := set.2
      polls := if fds.fdp = [] then .empty else poll.2 }

/-- The thread gets the storage of `__svc_fdset`. -/
def Takes (m : FdsetMemory) (e : Nat × FdsetOp) : Prop :=
  m.specific e.1 = none ∧ e.2 ≠ .exit ∧ m.svcFdset.fdsize ≠ 0

instance (m : FdsetMemory) (e : Nat × FdsetOp) : Decidable (m.Takes e) :=
  inferInstanceAs (Decidable (_ ∧ _ ∧ _))

end FdsetMemory

/-! ### Threads with descriptors of their own -/

/-- The descriptors of each thread that has any, and whether a thread has got the storage of
`__svc_fdset`. -/
structure PrivateSets where
  sets : Nat → Option SvcFdset
  taken : Bool

/-- What a thread starts with, when `__svc_fdset` has these descriptors. -/
def SvcFdset.start (fds : SvcFdset) : SvcFdset := if fds.fdsize = 0 then {} else fds

namespace PrivateSets

/-- The descriptors of a thread before it does something. -/
def own (start : SvcFdset) (g : PrivateSets) (t : Nat) : SvcFdset := (g.sets t).getD start

/-- A thread changes its own descriptors. -/
def step (start : SvcFdset) (g : PrivateSets) (takes : Bool) (e : Nat × FdsetOp) : PrivateSets where
  sets :=
    Function.update g.sets e.1
      (if e.2 = .exit then none else some ((g.own start e.1).perform e.2).2)
  taken := g.taken || takes

end PrivateSets

namespace FdsetMemory

/-- A thread is told what its own descriptors are. Afterwards every thread has what it started
with, changed by its own operations, where it was. -/
structure StepPrivate (start : SvcFdset) (g : PrivateSets) (m : FdsetMemory) (e : Nat × FdsetOp)
    (g' : PrivateSets) : Prop where
  own : g' = g.step start (m.Takes e) e
  runs : ∃ m', m.step e = some (((g.own start e.1).perform e.2).1, m') ∧
    (∀ t, (m'.specific t).bind m'.view = g'.sets t) ∧
    ∀ t, t ≠ e.1 → m'.specific t = m.specific t

/-- No thread is to get the storage of `__svc_fdset` after another. -/
def TakesOnce (g : PrivateSets) (m : FdsetMemory) (e : Nat × FdsetOp) : Prop :=
  ¬ (m.Takes e ∧ g.taken = true)

end FdsetMemory

/-- Two structures point to different memory. -/
structure FdsetPtrs.Apart (a b : FdsetPtrs) : Prop where
  fdset : ∀ p, a.fdset = some p → b.fdset ≠ some p
  fdp : ∀ p, a.fdp = some p → b.fdp ≠ some p

theorem FdsetPtrs.Apart.symm {a b : FdsetPtrs} (h : a.Apart b) : b.Apart a where
  fdset p hb ha := h.fdset p ha hb
  fdp p hb ha := h.fdp p ha hb

namespace FdsetMemory

/-- The structure of a thread, or `__svc_fdset` as long as no thread has got its storage. -/
def owned (m : FdsetMemory) (taken : Bool) : Option Nat → Option FdsetPtrs
  | some t => m.specific t
  | none => if m.svcFdset.fdsize = 0 ∨ taken then none else some m.svcFdset

/-- What it is meant to show. -/
def meant (start : SvcFdset) (g : PrivateSets) : Option Nat → Option SvcFdset
  | some t => g.sets t
  | none => some start

/-- Every structure shows what it is meant to, in memory of its own. -/
structure Private (start : SvcFdset) (g : PrivateSets) (m : FdsetMemory) : Prop where
  shown : ∀ o fds, m.owned g.taken o = some fds → ∃ s, m.view fds = some s ∧
    meant start g o = some s
  idle : ∀ t, m.specific t = none → g.sets t = none
  apart : ∀ o o' a b, o ≠ o' → m.owned g.taken o = some a → m.owned g.taken o' = some b → a.Apart b
  unused : m.svcFdset.fdsize = 0 → start = {}

variable {start : SvcFdset} {g : PrivateSets} {m : FdsetMemory} {t : Nat}

/-- There is no array as long as nothing is in it. -/
theorem array_getD (fdp : List (Option Nat)) :
    (if fdp = [] then none else some fdp).getD [] = fdp := by
  split
  · next hNil => exact hNil.symm
  · rfl

/-- What is seen through a structure depends on its own memory only. -/
theorem view_eq_some {fds : FdsetPtrs} {s : SvcFdset} (hView : m.view fds = some s) :
    ∃ fdset fdp, m.sets.held fds.fdset = some fdset ∧ m.polls.held fds.fdp = some fdp ∧
      s = { fdset := fdset.getD [], fdmax := fds.fdmax, fdsize := fds.fdsize, fdp := fdp.getD []
            fdused := fds.fdused } := by
  obtain ⟨fdset, hSet, hRest⟩ := Option.bind_eq_some_iff.mp hView
  obtain ⟨fdp, hPoll, hSome⟩ := Option.bind_eq_some_iff.mp hRest
  exact ⟨fdset, fdp, hSet, hPoll, (Option.some.inj hSome).symm⟩

theorem Private.seen (h : Private start g m) (t : Nat) :
    (m.specific t).bind m.view = g.sets t := by
  cases hFds : m.specific t with
  | none => exact (h.idle t hFds).symm
  | some fds =>
      obtain ⟨s, hView, hMeant⟩ := h.shown (some t) fds hFds
      exact hView.trans hMeant.symm

/-- What is given to a thread comes behind its pointers, and what is behind those of the others
stays. -/
theorem Private.place (h : Private start g m) {fds : FdsetPtrs} {s : SvcFdset}
    (hFds : m.specific t = some fds) (hView : m.view fds = some s) (fdset : Option (List Nat))
    (fdp : Option (List (Option Nat))) (moves : Bool) :
    ∃ p sets q polls, m.sets.place fds.fdset fdset false = some (p, sets) ∧
      m.polls.place fds.fdp fdp moves = some (q, polls) ∧
      sets.held p = some fdset ∧ polls.held q = some fdp ∧
      ∀ o b, o ≠ some t → m.owned g.taken o = some b →
        (∀ r, p = some r → b.fdset ≠ some r) ∧ (∀ r, q = some r → b.fdp ≠ some r) ∧
        sets.held b.fdset = m.sets.held b.fdset ∧ polls.held b.fdp = m.polls.held b.fdp := by
  obtain ⟨oldSet, oldPoll, hSet, hPoll, -⟩ := view_eq_some hView
  obtain ⟨p, sets, hPlaceSet, hHeldSet, hOtherSet⟩ := Heap.place_of_held hSet fdset false
  obtain ⟨q, polls, hPlacePoll, hHeldPoll, hOtherPoll⟩ := Heap.place_of_held hPoll fdp moves
  refine ⟨p, sets, q, polls, hPlaceSet, hPlacePoll, hHeldSet, hHeldPoll, ?_⟩
  intro o b hOther hOwned
  obtain ⟨s', hView', -⟩ := h.shown o b hOwned
  obtain ⟨set', poll', hSet', hPoll', -⟩ := view_eq_some hView'
  have hApart := h.apart (some t) o fds b (Ne.symm hOther) hFds hOwned
  obtain ⟨hSetSame, hSetNew⟩ := Heap.held_of_untouched hSet' hApart.fdset hOtherSet
  obtain ⟨hPollSame, hPollNew⟩ := Heap.held_of_untouched hPoll' hApart.fdp hOtherPoll
  exact ⟨hSetNew, hPollNew, hSetSame, hPollSame⟩

/-- One thread gets a structure, or loses it. -/
theorem Private.update (h : Private start g m) {m' : FdsetMemory} {g' : PrivateSets}
    {c : Option FdsetPtrs} {v : Option SvcFdset}
    (hSpecific : m'.specific = Function.update m.specific t c)
    (hSets : g'.sets = Function.update g.sets t v) (hGlobal : m'.svcFdset = m.svcFdset)
    (hIdle : c = none → v = none)
    (hSelf : ∀ fds, c = some fds → ∃ s, m'.view fds = some s ∧ v = some s)
    (hOthers : ∀ o b, o ≠ some t → m'.owned g'.taken o = some b → m.owned g.taken o = some b ∧
      m'.view b = m.view b ∧ ∀ fds, c = some fds → fds.Apart b) : Private start g' m' := by
  have hOwn : m'.owned g'.taken (some t) = c := by
    rw [owned, hSpecific, Function.update_self]
  refine ⟨?_, ?_, ?_, hGlobal ▸ h.unused⟩
  · intro o fds hOwned
    by_cases ho : o = some t
    · subst ho
      obtain ⟨s, hView, hSet⟩ := hSelf fds (hOwn.symm.trans hOwned)
      refine ⟨s, hView, ?_⟩
      rw [meant, hSets, Function.update_self, hSet]
    · obtain ⟨hOld, hSame, -⟩ := hOthers o fds ho hOwned
      obtain ⟨s, hView, hMeant⟩ := h.shown o fds hOld
      refine ⟨s, hSame.trans hView, ?_⟩
      rcases o with - | u
      · exact hMeant
      · have hu : u ≠ t := fun hu => ho (congrArg some hu)
        rw [meant, hSets, Function.update_of_ne hu]
        exact hMeant
  · intro u hu
    rw [hSpecific] at hu
    rw [hSets]
    by_cases hut : u = t
    · subst hut
      rw [Function.update_self] at hu ⊢
      exact hIdle hu
    · rw [Function.update_of_ne hut] at hu ⊢
      exact h.idle u hu
  · intro o o' a b hNe ha hb
    by_cases ho : o = some t
    · subst ho
      exact (hOthers o' b (Ne.symm hNe) hb).2.2 a (hOwn.symm.trans ha)
    · obtain ⟨hOld, -, hApart⟩ := hOthers o a ho ha
      by_cases ho' : o' = some t
      · subst ho'
        exact (hApart b (hOwn.symm.trans hb)).symm
      · exact h.apart o o' a b hNe hOld (hOthers o' b ho' hb).1

/-- The structure of a thread that does something, after `svc_fdset_alloc`. -/
theorem Private.alloc (h : Private start g m) {op : FdsetOp} (hOp : op ≠ .exit)
    (hOnce : TakesOnce g m (t, op)) :
    ∃ fds, (m.svcFdsetAlloc t).specific = Function.update m.specific t (some fds) ∧
      (m.svcFdsetAlloc t).view fds = some (g.own start t) ∧
      Private start { sets := Function.update g.sets t (some (g.own start t))
                      taken := g.taken || decide (m.Takes (t, op)) } (m.svcFdsetAlloc t) := by
  cases hFds : m.specific t with
  | some fds =>
      have hAlloc : m.svcFdsetAlloc t = m := by rw [svcFdsetAlloc, hFds]
      have hTakes : ¬ m.Takes (t, op) := fun hTakes => by
        rw [Takes, hFds] at hTakes
        cases hTakes.1
      obtain ⟨s, hView, hMeant⟩ := h.shown (some t) fds hFds
      have hSet : g.sets t = some s := hMeant
      have hOwn : g.own start t = s := by rw [PrivateSets.own, hSet, Option.getD_some]
      have hSame : Function.update g.sets t (some s) = g.sets := by
        rw [← hSet, Function.update_eq_self]
      refine ⟨fds, ?_, ?_, ?_⟩
      · rw [hAlloc, ← hFds, Function.update_eq_self]
      · rw [hAlloc, hView, hOwn]
      · rw [hAlloc, hOwn, hSame, decide_eq_false hTakes, Bool.or_false]
        exact h
  | none =>
      have hOwn : g.own start t = start := by
        rw [PrivateSets.own, h.idle t hFds, Option.getD_none]
      rw [hOwn]
      by_cases hSize : m.svcFdset.fdsize = 0
      · -- The structure is what `calloc` returns.
        have hAlloc : m.svcFdsetAlloc t =
            { m with specific := Function.update m.specific t (some .zero) } := by
          simp only [svcFdsetAlloc, hFds, hSize, ne_eq, not_true_eq_false, if_false]
        have hView : (m.svcFdsetAlloc t).view .zero = some start := by
          rw [h.unused hSize]
          rfl
        have hTakes : ¬ m.Takes (t, op) := fun hTakes => hTakes.2.2 hSize
        refine ⟨.zero, by rw [hAlloc], hView,
          h.update (c := some .zero) (by rw [hAlloc]) rfl (by rw [hAlloc]) nofun ?_ ?_⟩
        · intro fds hSome
          obtain rfl := Option.some.inj hSome
          exact ⟨start, hView, rfl⟩
        · intro o b ho hOwned
          rw [decide_eq_false hTakes, Bool.or_false, hAlloc] at hOwned
          refine ⟨?_, by rw [hAlloc]; rfl, ?_⟩
          · rcases o with - | u
            · exact hOwned
            · have hu : u ≠ t := fun hu => ho (congrArg some hu)
              change Function.update m.specific t (some .zero) u = some b at hOwned
              rwa [Function.update_of_ne hu] at hOwned
          · intro fds hSome
            obtain rfl := Option.some.inj hSome
            exact ⟨nofun, nofun⟩
      · -- The storage of `__svc_fdset` goes to this thread.
        have hAlloc : m.svcFdsetAlloc t =
            { m with specific := Function.update m.specific t (some m.svcFdset) } := by
          simp only [svcFdsetAlloc, hFds, ne_eq, hSize, not_false_eq_true, if_true]
        have hTakes : m.Takes (t, op) := ⟨hFds, hOp, hSize⟩
        have hFree : m.owned g.taken none = some m.svcFdset :=
          if_neg fun hGone => hGone.elim hSize fun hTaken => hOnce ⟨hTakes, hTaken⟩
        obtain ⟨s, hView, hMeant⟩ := h.shown none m.svcFdset hFree
        obtain rfl : start = s := Option.some.inj hMeant
        refine ⟨m.svcFdset, by rw [hAlloc], by rw [hAlloc]; exact hView,
          h.update (c := some m.svcFdset) (by rw [hAlloc]) rfl (by rw [hAlloc]) nofun ?_ ?_⟩
        · intro fds hSome
          obtain rfl := Option.some.inj hSome
          exact ⟨start, by rw [hAlloc]; exact hView, rfl⟩
        · intro o b ho hOwned
          rw [decide_eq_true hTakes, Bool.or_true, hAlloc] at hOwned
          rcases o with - | u
          · rw [owned, if_pos (Or.inr rfl)] at hOwned
            cases hOwned
          · have hu : u ≠ t := fun hu => ho (congrArg some hu)
            change Function.update m.specific t (some m.svcFdset) u = some b at hOwned
            rw [Function.update_of_ne hu] at hOwned
            refine ⟨hOwned, by rw [hAlloc]; rfl, ?_⟩
            intro fds hSome
            obtain rfl := Option.some.inj hSome
            exact h.apart none (some u) _ b nofun hFree hOwned

/-- What belongs to others does not change with the structure of a thread. -/
theorem owned_update (taken : Bool) (c : Option FdsetPtrs) (sets : Heap (List Nat))
    (polls : Heap (List (Option Nat))) {o : Option Nat} (ho : o ≠ some t) :
    owned { m with sets, polls, specific := Function.update m.specific t c } taken o =
      m.owned taken o := by
  rcases o with - | u
  · rfl
  · have hu : u ≠ t := fun hu => ho (congrArg some hu)
    exact Function.update_of_ne hu c m.specific

/-- A thread changes what it has. -/
theorem Private.store (h : Private start g m) {fds : FdsetPtrs} {old : SvcFdset}
    (hFds : m.specific t = some fds) (hView : m.view fds = some old) (new : SvcFdset) :
    ∃ m' fds', m.store t fds old new = some m' ∧
      m'.specific = Function.update m.specific t (some fds') ∧
      Private start { g with sets := Function.update g.sets t (some new) } m' := by
  obtain ⟨p, sets, q, polls, hSet, hPoll, hHeldSet, hHeldPoll, hOthers⟩ :=
    h.place hFds hView (some new.fdset) (if new.fdp = [] then none else some new.fdp)
      (decide (new.fdp.length ≠ old.fdp.length))
  let fds' : FdsetPtrs :=
    { fdset := p, fdmax := new.fdmax, fdsize := new.fdsize, fdp := q, fdused := new.fdused }
  let m' : FdsetMemory :=
    { m with sets, polls, specific := Function.update m.specific t (some fds') }
  have hShown : m'.view fds' = some new := by
    simp only [view, m', fds', hHeldSet, hHeldPoll, Option.bind_eq_bind, Option.bind_some,
      Option.getD_some, array_getD]
  refine ⟨m', fds', ?_, rfl, h.update (c := some fds') rfl rfl rfl nofun ?_ ?_⟩
  · simp only [FdsetMemory.store, hSet, hPoll, Option.bind_eq_bind, Option.bind_some]
    rfl
  · intro _ hSome
    obtain rfl := Option.some.inj hSome
    exact ⟨new, hShown, rfl⟩
  · intro o b ho hOwned
    have hOld : m.owned g.taken o = some b := (owned_update _ _ _ _ ho).symm.trans hOwned
    obtain ⟨hApartSet, hApartPoll, hSameSet, hSamePoll⟩ := hOthers o b ho hOld
    refine ⟨hOld, ?_, ?_⟩
    · simp only [view, m', hSameSet, hSamePoll]
    · intro _ hSome
      obtain rfl := Option.some.inj hSome
      exact ⟨hApartSet, hApartPoll⟩

/-- A thread exits. -/
theorem Private.exit (h : Private start g m) (t : Nat) :
    ∃ m', m.exit t = some m' ∧ m'.specific = Function.update m.specific t none ∧
      Private start { g with sets := Function.update g.sets t none } m' := by
  cases hFds : m.specific t with
  | none =>
      have hSame : Function.update g.sets t none = g.sets := by
        rw [← h.idle t hFds, Function.update_eq_self]
      refine ⟨m, by rw [FdsetMemory.exit, hFds], ?_, ?_⟩
      · rw [← hFds, Function.update_eq_self]
      · rw [hSame]
        exact h
  | some fds =>
      obtain ⟨s, hView, -⟩ := h.shown (some t) fds hFds
      obtain ⟨p, sets, q, polls, hSet, hPoll, -, -, hOthers⟩ := h.place hFds hView none none false
      refine ⟨{ m with sets, polls, specific := Function.update m.specific t none }, ?_, rfl,
        h.update (c := none) rfl rfl rfl (fun _ => rfl) nofun ?_⟩
      · simp only [FdsetMemory.exit, hFds, hSet, hPoll, Option.bind_eq_bind, Option.bind_some]
      · intro o b ho hOwned
        have hOld : m.owned g.taken o = some b := (owned_update _ _ _ _ ho).symm.trans hOwned
        obtain ⟨-, -, hSameSet, hSamePoll⟩ := hOthers o b ho hOld
        refine ⟨hOld, ?_, nofun⟩
        simp only [view, hSameSet, hSamePoll]

/-- Whatever a thread does, the others keep what they have. -/
theorem Private.step (h : Private start g m) {e : Nat × FdsetOp} (hOnce : TakesOnce g m e) :
    ∃ m', m.step e = some (((g.own start e.1).perform e.2).1, m') ∧
      (∀ t, t ≠ e.1 → m'.specific t = m.specific t) ∧
      Private start (g.step start (m.Takes e) e) m' := by
  obtain ⟨t, op⟩ := e
  by_cases hOp : op = .exit
  · subst hOp
    obtain ⟨m', hExit, hSpecific, hPrivate⟩ := h.exit t
    have hTakes : ¬ m.Takes (t, .exit) := fun hTakes => hTakes.2.1 rfl
    refine ⟨m', ?_, ?_, ?_⟩
    · rw [FdsetMemory.step, if_pos rfl, hExit, Option.map_some]
      rfl
    · intro u hu
      rw [hSpecific, Function.update_of_ne hu]
    · rw [PrivateSets.step, if_pos rfl, decide_eq_false hTakes, Bool.or_false]
      exact hPrivate
  · obtain ⟨fds, hAlloc, hView, hHas⟩ := h.alloc hOp hOnce
    have hFds : (m.svcFdsetAlloc t).specific t = some fds := by
      rw [hAlloc, Function.update_self]
    obtain ⟨m', fds', hStore, hSpecific, hPrivate⟩ :=
      hHas.store hFds hView ((g.own start t).perform op).2
    refine ⟨m', ?_, ?_, ?_⟩
    · simp only [FdsetMemory.step, if_neg hOp, hFds, hView, hStore, Option.bind_eq_bind,
        Option.bind_some]
    · intro u hu
      rw [hSpecific, Function.update_of_ne hu, hAlloc, Function.update_of_ne hu]
    · rw [PrivateSets.step, if_neg hOp]
      rwa [Function.update_idem] at hPrivate

theorem Private.stepPrivate (h : Private start g m) {e : Nat × FdsetOp}
    (hOnce : TakesOnce g m e) : StepPrivate start g m e (g.step start (m.Takes e) e) := by
  obtain ⟨m', hStep, hOthers, hPrivate⟩ := h.step hOnce
  exact ⟨rfl, m', hStep, hPrivate.seen, hOthers⟩

/-- Before any thread does something. -/
theorem private_init (fds : SvcFdset) :
    Private fds.start { sets := fun _ => none, taken := false } (init fds) := by
  have hNobody : ∀ t, (init fds).specific t = none := by
    intro t
    unfold init
    split <;> rfl
  have hOnly : ∀ o b, (init fds).owned false o = some b →
      o = none ∧ b = (init fds).svcFdset ∧ fds.fdsize ≠ 0 := by
    intro o b hOwned
    rcases o with - | t
    · by_cases hSize : fds.fdsize = 0
      · rw [init, if_pos hSize] at hOwned
        cases hOwned
      · have hFree : ¬ ((init fds).svcFdset.fdsize = 0 ∨ false = true) := by
          rw [init, if_neg hSize]
          exact fun hGone => hGone.elim hSize nofun
        rw [owned, if_neg hFree] at hOwned
        exact ⟨rfl, (Option.some.inj hOwned).symm, hSize⟩
    · rw [owned, hNobody] at hOwned
      cases hOwned
  refine ⟨?_, fun _ _ => rfl, ?_, ?_⟩
  · intro o b hOwned
    obtain ⟨rfl, rfl, hSize⟩ := hOnly o b hOwned
    refine ⟨fds, ?_, by rw [meant, SvcFdset.start, if_neg hSize]⟩
    have hSet : (Heap.empty.malloc fds.fdset).2.held (some (Heap.empty.malloc fds.fdset).1) =
        some (some fds.fdset) := rfl
    have hPoll : (init fds).polls.held (init fds).svcFdset.fdp =
        some (if fds.fdp = [] then none else some fds.fdp) := by
      rw [init, if_neg hSize]
      by_cases hNil : fds.fdp = []
      · simp only [if_pos hNil]
        rfl
      · simp only [if_neg hNil]
        rfl
    rw [view, hPoll]
    simp only [init, if_neg hSize, hSet, array_getD, Option.bind_eq_bind, Option.bind_some,
      Option.getD_some]
  · intro o o' a b hNe ha hb
    exact absurd ((hOnly o a ha).1.trans (hOnly o' b hb).1.symm) hNe
  · intro hUnused
    rw [SvcFdset.start]
    by_cases hSize : fds.fdsize = 0
    · rw [if_pos hSize]
    · rw [init, if_neg hSize] at hUnused
      exact absurd hUnused hSize

/-- The memory after an operation. -/
def after (m : FdsetMemory) (e : Nat × FdsetOp) : FdsetMemory :=
  ((m.step e).map Prod.snd).getD m

/-- `__svc_fdset` after a descriptor has been set before the threads start. -/
def setBefore : SvcFdset := (({} : SvcFdset).call (.set 5)).2

/-- What the second thread sets is seen by the first. -/
def setByAnother : List (Nat × FdsetOp) := [(1, .get), (2, .call (.set 7)), (1, .get)]

/-- What the second thread uses is freed with the first. -/
def freedByAnother : List (Nat × FdsetOp) := [(1, .get), (2, .get), (1, .exit), (2, .get)]

theorem answers_setByAnother :
    let m := (setByAnother.take 2).foldl after (init setBefore)
    (m.step (1, .get)).map Prod.fst = some (.fdset [5, 7]) := by
  decide +kernel

theorem step_freedByAnother :
    let m := (freedByAnother.take 3).foldl after (init setBefore)
    (m.step (2, .get)).map Prod.fst = none := by
  decide +kernel

end FdsetMemory

end OncRpc
