import Mathlib.Order.Bounds.Basic
import OncRpc.Base.CString

/-! `svc.c`: the services list. -/
namespace OncRpc

/-- `struct svc_callout`. A dispatch routine is known by its address. -/
structure SvcCallout (δ : Type) where
  scProg : BitVec 32
  scVers : BitVec 32
  scNetid : Option CString
  scDispatch : δ
  deriving DecidableEq, Repr

/-- The netids that `svc_find` takes for the same. Without a netid, an entry is for all. -/
def SameNetid (n n' : Option CString) : Prop := n = none ∨ n' = none ∨ n = n'

instance (n n' : Option CString) : Decidable (SameNetid n n') :=
  inferInstanceAs (Decidable (_ ∨ _ ∨ _))

theorem SameNetid.symm {n n' : Option CString} (h : SameNetid n n') : SameNetid n' n := by
  rcases h with h | h | h
  · exact Or.inr (Or.inl h)
  · exact Or.inl h
  · exact Or.inr (Or.inr h.symm)

variable {δ : Type}

namespace SvcCallout

/-- Whether `svc_find` stops at the entry. -/
def For (prog vers : BitVec 32) (netid : Option CString) (s : SvcCallout δ) : Prop :=
  s.scProg = prog ∧ s.scVers = vers ∧ SameNetid netid s.scNetid

instance (prog vers : BitVec 32) (netid : Option CString) (s : SvcCallout δ) :
    Decidable (s.For prog vers netid) := inferInstanceAs (Decidable (_ ∧ _ ∧ _))

/-- `svc_find` does not take the one for the other. -/
def Apart (s t : SvcCallout δ) : Prop := ¬ t.For s.scProg s.scVers s.scNetid

end SvcCallout

open SvcCallout

/-- `svc_find`: what is before the entry that is found, the entry, and what is behind it. -/
def svcFind (prog vers : BitVec 32) (netid : Option CString) :
    List (SvcCallout δ) → Option (List (SvcCallout δ) × SvcCallout δ × List (SvcCallout δ))
  | [] => none
  | s :: l =>
      if s.For prog vers netid then some ([], s, l)
      else (svcFind prog vers netid l).map fun r => (s :: r.1, r.2)

/-- A call of `svc_reg`, and what the world makes of it. -/
structure SvcRegCall (δ : Type) where
  prog : BitVec 32
  vers : BitVec 32
  dispatch : δ
  xpNetid : Option CString
  /-- `nc_netid` of `nconf`, when there is an `nconf`. -/
  nconf : Option (Option CString)
  /-- The netid that `__rpcgettp` finds for the socket. -/
  rpcgettp : Option CString
  /-- Whether the netid can be copied, for the list and for the transport, and an entry be
  allocated. -/
  netidDup : Bool
  xprtDup : Bool
  alloc : Bool
  /-- What `rpcb_set` returns. -/
  rpcbSet : Bool

namespace SvcRegCall

/-- The netid that is registered. -/
def netid (c : SvcRegCall δ) : Option CString :=
  match c.xpNetid with
  | some n => some n
  | none =>
      match c.nconf with
      | some (some n) => some n
      | _ => c.rpcgettp

/-- `rpcb_it`. -/
def rpcbIt (c : SvcRegCall δ) : Bool := if c.nconf.isSome then c.rpcbSet else true

/-- The entry that is added. -/
def entry (c : SvcRegCall δ) : SvcCallout δ where
  scProg := c.prog
  scVers := c.vers
  scNetid := c.netid
  scDispatch := c.dispatch

end SvcRegCall

/-- `svc_reg`: the result, `xp_netid` and the list after it. -/
def svcReg [DecidableEq δ] (c : SvcRegCall δ) (svcHead : List (SvcCallout δ)) :
    Bool × Option CString × List (SvcCallout δ) :=
  if c.netid.isSome ∧ c.netidDup = false then (false, c.xpNetid, svcHead)
  else
    match svcFind c.prog c.vers c.netid svcHead with
    | some (_, s, _) =>
        if s.scDispatch = c.dispatch then (c.rpcbIt, c.xpNetid, svcHead)
        else (false, c.xpNetid, svcHead)
    | none =>
        if c.alloc = false then (false, c.xpNetid, svcHead)
        else if c.xpNetid = none ∧ c.netid.isSome ∧ c.xprtDup = false then
          (false, c.xpNetid, svcHead)
        else (c.rpcbIt, c.netid, c.entry :: svcHead)

/-- The loop of `svc_unreg`, with a bound on its rounds. -/
def unregFrom (prog vers : BitVec 32) : Nat → List (SvcCallout δ) → List (SvcCallout δ)
  | 0, l => l
  | n + 1, l =>
      match svcFind prog vers none l with
      | none => l
      | some (before, _, behind) => unregFrom prog vers n (before ++ behind)

/-- `svc_unreg`. Each round removes an entry. -/
def svcUnreg (prog vers : BitVec 32) (svcHead : List (SvcCallout δ)) : List (SvcCallout δ) :=
  unregFrom prog vers svcHead.length svcHead

/-- A change of the services list. -/
inductive CalloutCall (δ : Type) where
  | reg (c : SvcRegCall δ)
  | unreg (prog vers : BitVec 32)

namespace CalloutCall

variable [DecidableEq δ]

def step (l : List (SvcCallout δ)) : CalloutCall δ → List (SvcCallout δ)
  | .reg c => (svcReg c l).2.2
  | .unreg prog vers => svcUnreg prog vers l

/-- The services list after a sequence of calls. -/
def run (calls : List (CalloutCall δ)) : List (SvcCallout δ) := calls.foldl step []

end CalloutCall

/-! ### Finding -/

section Find

variable {prog vers : BitVec 32} {netid : Option CString} {l : List (SvcCallout δ)}

theorem svcFind_eq_none : svcFind prog vers netid l = none ↔ ∀ s ∈ l, ¬ s.For prog vers netid := by
  induction l with
  | nil => simp [svcFind]
  | cons s l ih =>
      rw [svcFind]
      split
      · next hFor => simp [hFor]
      · next hFor => rw [Option.map_eq_none_iff, ih, List.forall_mem_cons, and_iff_right hFor]

/-- The entry that is found is the first one. -/
theorem svcFind_eq_some {before behind : List (SvcCallout δ)} {s : SvcCallout δ}
    (h : svcFind prog vers netid l = some (before, s, behind)) :
    l = before ++ s :: behind ∧ s.For prog vers netid ∧ ∀ t ∈ before, ¬ t.For prog vers netid := by
  induction l generalizing before with
  | nil => cases h
  | cons t l ih =>
      rw [svcFind] at h
      split at h
      · next hFor =>
          cases h
          exact ⟨rfl, hFor, fun _ hMem => by cases hMem⟩
      · next hFor =>
          obtain ⟨⟨before', s', behind'⟩, hFound, hSame⟩ := Option.map_eq_some_iff.mp h
          cases hSame
          obtain ⟨hList, hHere, hNot⟩ := ih hFound
          refine ⟨by rw [hList, List.cons_append], hHere, ?_⟩
          intro u hMem
          rcases List.mem_cons.mp hMem with rfl | hOld
          · exact hFor
          · exact hNot u hOld

/-- When two entries are never for the same, all that are for a netid are the one found. -/
theorem svcFind_unique (hApart : l.Pairwise Apart) {s t : SvcCallout δ}
    {before behind : List (SvcCallout δ)}
    (h : svcFind prog vers netid l = some (before, s, behind)) (hMem : t ∈ l)
    (hFor : t.For prog vers netid) (hNetid : netid.isSome ∨ t.scNetid = netid) : t = s := by
  obtain ⟨rfl, ⟨hProg, hVers, hSame⟩, hNot⟩ := svcFind_eq_some h
  rcases List.mem_append.mp hMem with hBefore | hRest
  · exact absurd hFor (hNot t hBefore)
  · rcases List.mem_cons.mp hRest with rfl | hBehind
    · rfl
    · have hTail := (List.pairwise_append.mp hApart).2.1
      have hBad := (List.pairwise_cons.mp hTail).1 t hBehind
      refine absurd ⟨hFor.1.trans hProg.symm, hFor.2.1.trans hVers.symm, ?_⟩ hBad
      rcases hNetid with hSome | hEq
      · rcases hSame with hNone | hAll | hSame
        · rw [hNone] at hSome
          cases hSome
        · exact Or.inl hAll
        · rw [← hSame]
          exact hFor.2.2
      · rw [hEq]
        exact hSame.symm

end Find

/-! ### Registering -/

section Register

variable [DecidableEq δ] {c : SvcRegCall δ} {l : List (SvcCallout δ)}

/-- All that `svc_reg` can do to the list. -/
theorem svcReg_cases (c : SvcRegCall δ) (l : List (SvcCallout δ)) : (svcReg c l).2.2 = l ∨
    svcFind c.prog c.vers c.netid l = none ∧ (svcReg c l).2.2 = c.entry :: l := by
  unfold svcReg
  split
  · exact Or.inl rfl
  · split
    · left
      split
      · rfl
      · rfl
    · next hNone =>
        split
        · exact Or.inl rfl
        · split
          · exact Or.inl rfl
          · exact Or.inr ⟨hNone, rfl⟩

/-- `svc_reg` does not replace the routine of the entry that it finds. -/
theorem svcReg_of_svcFind {before behind : List (SvcCallout δ)} {s : SvcCallout δ}
    (h : svcFind c.prog c.vers c.netid l = some (before, s, behind))
    (hOther : s.scDispatch ≠ c.dispatch) : svcReg c l = (false, c.xpNetid, l) := by
  unfold svcReg
  split
  · rfl
  · rw [h]
    show (if s.scDispatch = c.dispatch then _ else _) = _
    rw [if_neg hOther]

theorem pairwise_svcReg (h : l.Pairwise Apart) : (svcReg c l).2.2.Pairwise Apart := by
  rcases svcReg_cases c l with hSame | ⟨hNone, hNew⟩
  · rw [hSame]
    exact h
  · rw [hNew, List.pairwise_cons]
    exact ⟨svcFind_eq_none.mp hNone, h⟩

end Register

/-! ### Removing -/

section Remove

variable {prog vers : BitVec 32} {l : List (SvcCallout δ)}

/-- What is left without a program's version. -/
def without (prog vers : BitVec 32) (l : List (SvcCallout δ)) : List (SvcCallout δ) :=
  l.filter fun s => ¬ (s.scProg = prog ∧ s.scVers = vers)

theorem for_none {s : SvcCallout δ} : s.For prog vers none ↔ s.scProg = prog ∧ s.scVers = vers :=
  ⟨fun h => ⟨h.1, h.2.1⟩, fun h => ⟨h.1, h.2, Or.inl rfl⟩⟩

theorem unregFrom_eq {n : Nat} (h : l.length ≤ n) : unregFrom prog vers n l = without prog vers l := by
  induction n generalizing l with
  | zero =>
      rw [List.eq_nil_of_length_eq_zero (Nat.le_zero.mp h)]
      rfl
  | succ n ih =>
      rw [unregFrom]
      cases hFound : svcFind prog vers none l with
      | none =>
          symm
          apply List.filter_eq_self.mpr
          intro s hMem
          rw [decide_eq_true_eq, ← for_none]
          exact svcFind_eq_none.mp hFound s hMem
      | some r =>
          obtain ⟨before, s, behind⟩ := r
          obtain ⟨rfl, hFor, -⟩ := svcFind_eq_some hFound
          have hLength : (before ++ behind).length ≤ n := by
            rw [List.length_append] at h ⊢
            rw [List.length_cons] at h
            omega
          show unregFrom prog vers n (before ++ behind) = _
          rw [ih hLength, without, without, List.filter_append, List.filter_append,
            List.filter_cons_of_neg]
          rw [decide_eq_true_eq, not_not]
          exact for_none.mp hFor

theorem svcUnreg_eq : svcUnreg prog vers l = without prog vers l := unregFrom_eq (Nat.le_refl _)

end Remove

/-- Two entries are never for the same, after any sequence of calls. -/
theorem pairwise_run [DecidableEq δ] (calls : List (CalloutCall δ)) :
    (CalloutCall.run calls).Pairwise Apart := by
  have hRun : ∀ l : List (SvcCallout δ), l.Pairwise Apart →
      (calls.foldl CalloutCall.step l).Pairwise Apart := by
    induction calls with
    | nil => exact fun l h => h
    | cons call calls ih =>
        intro l h
        apply ih
        cases call with
        | reg c => exact pairwise_svcReg h
        | unreg prog vers =>
            show (svcUnreg prog vers l).Pairwise Apart
            rw [svcUnreg_eq]
            exact h.filter _
  exact hRun [] List.Pairwise.nil

/-! ### Dispatching -/

/-- What the services list has for a request. -/
inductive Service (δ : Type) where
  | dispatch (scDispatch : δ)
  | progvers (lowVers highVers : BitVec 32)
  | noprog
  deriving DecidableEq, Repr

/-- The search of `svc_getreq_common`. The netid of the transport plays no part in it. -/
def getreqFind (prog vers : BitVec 32) :
    List (SvcCallout δ) → Bool → BitVec 32 → BitVec 32 → Service δ
  | [], progFound, lowVers, highVers =>
      if progFound then .progvers lowVers highVers else .noprog
  | s :: l, progFound, lowVers, highVers =>
      if s.scProg = prog then
        if s.scVers = vers then .dispatch s.scDispatch
        else
          getreqFind prog vers l true (if s.scVers < lowVers then s.scVers else lowVers)
            (if s.scVers > highVers then s.scVers else highVers)
      else getreqFind prog vers l progFound lowVers highVers

/-- The search over the whole list. -/
def serviceOf (prog vers : BitVec 32) (svcHead : List (SvcCallout δ)) : Service δ :=
  getreqFind prog vers svcHead false (-1) 0

section Dispatch

variable {prog vers low high : BitVec 32} {l : List (SvcCallout δ)} {found : Bool}

/-- The versions of a program. -/
def versions (prog : BitVec 32) (l : List (SvcCallout δ)) : Set (BitVec 32) :=
  { v | ∃ s ∈ l, s.scProg = prog ∧ s.scVers = v }

/-- The first entry of the version answers, whatever its netid is. -/
theorem getreqFind_of_svcFind {before behind : List (SvcCallout δ)} {s : SvcCallout δ}
    (h : svcFind prog vers none l = some (before, s, behind)) :
    getreqFind prog vers l found low high = .dispatch s.scDispatch := by
  induction l generalizing before found low high with
  | nil => cases h
  | cons t l ih =>
      rw [svcFind] at h
      rw [getreqFind]
      split at h
      · next hFor =>
          cases h
          rw [if_pos hFor.1, if_pos hFor.2.1]
      · next hFor =>
          obtain ⟨⟨before', s', behind'⟩, hFound, hSame⟩ := Option.map_eq_some_iff.mp h
          cases hSame
          split
          · next hProg =>
              rw [if_neg (fun hVers => hFor (for_none.mpr ⟨hProg, hVers⟩))]
              exact ih hFound
          · exact ih hFound

/-- What the search has found when no entry is of the version. -/
structure Bounds (prog : BitVec 32) (l : List (SvcCallout δ)) (found : Bool) (low high : BitVec 32)
    (lowVers highVers : BitVec 32) : Prop where
  some_found : found = true ∨ ∃ s ∈ l, s.scProg = prog
  low_le : lowVers ≤ low ∧ ∀ v ∈ versions prog l, lowVers ≤ v
  low_mem : lowVers = low ∨ lowVers ∈ versions prog l
  le_high : high ≤ highVers ∧ ∀ v ∈ versions prog l, v ≤ highVers
  high_mem : highVers = high ∨ highVers ∈ versions prog l

theorem versions_cons_of_ne {s : SvcCallout δ} (h : s.scProg ≠ prog) :
    versions prog (s :: l) = versions prog l := by
  ext v
  simp [versions, h]

theorem versions_cons {s : SvcCallout δ} (h : s.scProg = prog) :
    versions prog (s :: l) = insert s.scVers (versions prog l) := by
  ext v
  simp [versions, h, eq_comm]

/-- An entry of the program, of another version, moves the bounds. -/
theorem Bounds.cons {s : SvcCallout δ} {lowVers highVers : BitVec 32} (hProg : s.scProg = prog)
    (h : Bounds prog l true (if s.scVers < low then s.scVers else low)
      (if s.scVers > high then s.scVers else high) lowVers highVers) :
    Bounds prog (s :: l) found low high lowVers highVers := by
  obtain ⟨-, ⟨hLow, hLeast⟩, hLowMem, ⟨hHigh, hGreatest⟩, hHighMem⟩ := h
  have hLowSelf : lowVers ≤ s.scVers ∧ lowVers ≤ low := by
    split at hLow
    · next hLt => exact ⟨hLow, BitVec.le_trans hLow (BitVec.le_of_lt hLt)⟩
    · next hGe => exact ⟨BitVec.le_trans hLow (BitVec.not_lt.mp hGe), hLow⟩
  have hHighSelf : s.scVers ≤ highVers ∧ high ≤ highVers := by
    split at hHigh
    · next hGt => exact ⟨hHigh, BitVec.le_trans (BitVec.le_of_lt hGt) hHigh⟩
    · next hLe => exact ⟨BitVec.le_trans (BitVec.not_lt.mp hLe) hHigh, hHigh⟩
  constructor
  · exact Or.inr ⟨s, List.mem_cons_self, hProg⟩
  · refine ⟨hLowSelf.2, fun v hMem => ?_⟩
    rw [versions_cons hProg] at hMem
    rcases hMem with rfl | hOld
    · exact hLowSelf.1
    · exact hLeast v hOld
  · rw [versions_cons hProg]
    rcases hLowMem with hEq | hMem
    · split at hEq
      · exact Or.inr (Or.inl hEq)
      · exact Or.inl hEq
    · exact Or.inr (Or.inr hMem)
  · refine ⟨hHighSelf.2, fun v hMem => ?_⟩
    rw [versions_cons hProg] at hMem
    rcases hMem with rfl | hOld
    · exact hHighSelf.1
    · exact hGreatest v hOld
  · rw [versions_cons hProg]
    rcases hHighMem with hEq | hMem
    · split at hEq
      · exact Or.inr (Or.inl hEq)
      · exact Or.inl hEq
    · exact Or.inr (Or.inr hMem)

theorem Bounds.cons_of_ne {s : SvcCallout δ} {lowVers highVers : BitVec 32}
    (hProg : s.scProg ≠ prog) (h : Bounds prog l found low high lowVers highVers) :
    Bounds prog (s :: l) found low high lowVers highVers := by
  obtain ⟨hFound, hLow, hLowMem, hHigh, hHighMem⟩ := h
  rw [← versions_cons_of_ne hProg] at hLow hLowMem hHigh hHighMem
  refine ⟨?_, hLow, hLowMem, hHigh, hHighMem⟩
  rcases hFound with hTrue | ⟨t, hMem, hOf⟩
  · exact Or.inl hTrue
  · exact Or.inr ⟨t, List.mem_cons_of_mem s hMem, hOf⟩

/-- Without an entry of the version, the search ends with the bounds of the versions that
there are. -/
theorem getreqFind_of_unregistered (h : ∀ s ∈ l, s.scProg = prog → s.scVers ≠ vers) :
    getreqFind prog vers l found low high = .noprog ∧ found = false ∧
        (∀ s ∈ l, s.scProg ≠ prog) ∨
      ∃ lowVers highVers, getreqFind prog vers l found low high = .progvers lowVers highVers ∧
        Bounds prog l found low high lowVers highVers := by
  induction l generalizing found low high with
  | nil =>
      rw [getreqFind]
      split
      · next hFound =>
          refine Or.inr ⟨low, high, rfl, Or.inl hFound, ⟨BitVec.le_refl _, ?_⟩, Or.inl rfl,
            ⟨BitVec.le_refl _, ?_⟩, Or.inl rfl⟩
          · rintro v ⟨s, hMem, -⟩
            cases hMem
          · rintro v ⟨s, hMem, -⟩
            cases hMem
      · next hFound =>
          exact Or.inl ⟨rfl, Bool.eq_false_of_not_eq_true hFound, fun s hMem => by cases hMem⟩
  | cons s l ih =>
      rw [List.forall_mem_cons] at h
      rw [getreqFind]
      split
      · next hProg =>
          rw [if_neg (h.1 hProg)]
          have hRest := @ih (if s.scVers < low then s.scVers else low)
            (if s.scVers > high then s.scVers else high) true h.2
          rcases hRest with ⟨-, hBad, -⟩ | ⟨lowVers, highVers, hRun, hBounds⟩
          · cases hBad
          · exact Or.inr ⟨lowVers, highVers, hRun, hBounds.cons hProg⟩
      · next hProg =>
          rcases ih h.2 with ⟨hRun, hFound, hNone⟩ | ⟨lowVers, highVers, hRun, hBounds⟩
          · exact Or.inl ⟨hRun, hFound, List.forall_mem_cons.mpr ⟨hProg, hNone⟩⟩
          · exact Or.inr ⟨lowVers, highVers, hRun, hBounds.cons_of_ne hProg⟩

/-- The answer to a request for a version that is not registered. -/
theorem serviceOf_of_unregistered (h : ∀ s ∈ l, s.scProg = prog → s.scVers ≠ vers) :
    serviceOf prog vers l = .noprog ∧ versions prog l = ∅ ∨
      ∃ lowVers highVers, serviceOf prog vers l = .progvers lowVers highVers ∧
        IsLeast (versions prog l) lowVers ∧ IsGreatest (versions prog l) highVers := by
  rcases @getreqFind_of_unregistered δ prog vers (-1) 0 l false h with
    ⟨hRun, -, hNone⟩ | ⟨lowVers, highVers, hRun, hFound, hLow, hLowMem, hHigh, hHighMem⟩
  · refine Or.inl ⟨hRun, Set.eq_empty_of_forall_notMem ?_⟩
    rintro v ⟨s, hMem, hProg, -⟩
    exact hNone s hMem hProg
  · right
    obtain hBad | ⟨s, hMem, hProg⟩ := hFound
    · cases hBad
    · have hOwn : s.scVers ∈ versions prog l := ⟨s, hMem, hProg, rfl⟩
      refine ⟨lowVers, highVers, hRun, ⟨?_, hLow.2⟩, ?_, hHigh.2⟩
      · -- The bound that is still the first one is the version of every entry.
        rcases hLowMem with hFirst | hSome
        · have hAll : s.scVers = lowVers := by
            have hLe := hLow.2 s.scVers hOwn
            bv_omega
          rw [← hAll]
          exact hOwn
        · exact hSome
      · rcases hHighMem with hFirst | hSome
        · have hAll : s.scVers = highVers := by
            have hLe := hHigh.2 s.scVers hOwn
            bv_omega
          rw [← hAll]
          exact hOwn
        · exact hSome

end Dispatch

end OncRpc
