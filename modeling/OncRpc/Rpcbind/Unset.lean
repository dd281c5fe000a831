import OncRpc.Rpcbind.Directory

/-! Whether `map_unset` does all that it is asked for or nothing. -/
namespace OncRpc.Registry

variable {st : Registry} {regp : Rpcb} {owner : CString}

/-- The protocols that `del_pmaplist` takes a netid for. -/
def Edited (st : Registry) (netid : CString) (prot : Nat) : Prop :=
  if netid = st.udptrans then prot = ipprotoUdp
  else if netid = st.tcptrans then prot = ipprotoTcp
  else netid = []

instance (st : Registry) (netid : CString) (prot : Nat) : Decidable (Edited st netid prot) := by
  unfold Edited
  infer_instance

/-- Whether `del_pmaplist` removes an entry. -/
def Deleted (st : Registry) (regp : Rpcb) (pml : Pmap) : Prop :=
  pml.pmProg = regp.rProg ∧ pml.pmVers = regp.rVers ∧ Edited st regp.rNetid pml.pmProt

instance (st : Registry) (regp : Rpcb) (pml : Pmap) : Decidable (Deleted st regp pml) :=
  inferInstanceAs (Decidable (_ ∧ _))

/-- A netid stands for a protocol, as `find_service` and `map_unset` compare netids. -/
def Alike (st : Registry) (netid : CString) (prot : Nat) : Prop :=
  CString.SameCase netid st.udptrans ∧ prot = ipprotoUdp ∨
    CString.SameCase netid st.tcptrans ∧ prot = ipprotoTcp

instance (st : Registry) (netid : CString) (prot : Nat) : Decidable (Alike st netid prot) :=
  inferInstanceAs (Decidable (_ ∨ _))

/-- The entries of the port mapper that correspond to what is wanted. An empty netid stands
for every protocol. -/
def Corresponds (st : Registry) (regp : Rpcb) (pml : Pmap) : Prop :=
  pml.pmProg = regp.rProg ∧ pml.pmVers = regp.rVers ∧
    (regp.rNetid = [] ∨ Alike st regp.rNetid pml.pmProt)

instance (st : Registry) (regp : Rpcb) (pml : Pmap) : Decidable (Corresponds st regp pml) :=
  inferInstanceAs (Decidable (_ ∧ _))

theorem Deleted.corresponds {pml : Pmap} (h : Deleted st regp pml) : Corresponds st regp pml := by
  obtain ⟨hProg, hVers, hProt⟩ := h
  refine ⟨hProg, hVers, ?_⟩
  unfold Edited at hProt
  split at hProt
  · next hUdp => exact Or.inr (Or.inl ⟨hUdp ▸ CString.SameCase.refl _, hProt⟩)
  · split at hProt
    · next hTcp => exact Or.inr (Or.inr ⟨hTcp ▸ CString.SameCase.refl _, hProt⟩)
    · exact Or.inl hProt

theorem delPmap_eq (arg : Rpcb) (prot : Nat) (l : List Pmap) :
    delPmap arg prot l = l.filter fun pml => decide ¬ (pml.pmProg = arg.rProg ∧
      pml.pmVers = arg.rVers ∧ (prot = 0 ∨ pml.pmProt = prot)) := by
  induction l with
  | nil => rfl
  | cons pml rest ih =>
      rw [delPmap, List.filter_cons, ih]
      by_cases hPassed : pml.pmProg ≠ arg.rProg ∨ pml.pmVers ≠ arg.rVers ∨
          (prot ≠ 0 ∧ pml.pmProt ≠ prot)
      · rw [if_pos hPassed, if_pos]
        rw [decide_eq_true_eq]
        tauto
      · rw [if_neg hPassed, if_neg]
        rw [decide_eq_true_eq]
        tauto

/-- What `del_pmaplist` leaves. -/
theorem delPmaplist_eq (arg : Rpcb) (st : Registry) :
    delPmaplist arg st =
      { st with listPml := st.listPml.filter fun pml => decide ¬ Deleted st arg pml } := by
  have hUdp : ipprotoUdp ≠ 0 := by decide
  have hTcp : ipprotoTcp ≠ 0 := by decide
  unfold delPmaplist Deleted Edited
  dsimp only
  simp only [delPmap_eq]
  split
  · simp [hUdp]
  · split
    · simp [hTcp]
    · split
      · next hEmpty => simp [hEmpty]
      · next hNonempty => simp [hNonempty]

/-- An answer of FALSE has changed nothing. An answer of TRUE has removed everything that
was wanted, from both lists, and nothing that the caller may not remove. -/
def AllOrNothing (regp : Rpcb) (owner : Option CString) (st : Registry) : Prop :=
  ((st.mapUnset regp owner).1 = false → (st.mapUnset regp owner).2.listRbl = st.listRbl ∧
    (st.mapUnset regp owner).2.listPml = st.listPml) ∧
  ((st.mapUnset regp owner).1 = true →
    (st.mapUnset regp owner).2.listRbl = st.listRbl.filter (fun rbl => decide ¬ Wanted regp rbl) ∧
    (st.mapUnset regp owner).2.listPml =
      st.listPml.filter (fun pml => decide ¬ Corresponds st regp pml) ∧
    ∀ rbl ∈ st.listRbl, Wanted regp rbl → ∃ name, owner = some name ∧ May name rbl)

/-- The first wanted entry is one that the caller may not remove, or there is none of these
and whatever corresponds in the list of the port mapper is deleted. -/
def Clean (regp : Rpcb) (owner : CString) (st : Registry) : Prop :=
  (∃ rbl, st.listRbl.find? (fun rbl => decide (Wanted regp rbl)) = some rbl ∧
    ¬ May owner rbl) ∨
  (∀ rbl ∈ st.listRbl, Wanted regp rbl → May owner rbl) ∧
    ∀ pml ∈ st.listPml, Corresponds st regp pml →
      (∃ rbl ∈ st.listRbl, Wanted regp rbl) ∧ Edited st regp.rNetid pml.pmProt

/-- When the caller may remove what is wanted, the list loses it. -/
theorem mapUnset_done (hMay : ∀ rbl ∈ st.listRbl, Wanted regp rbl → May owner rbl) :
    st.mapUnset regp (some owner) =
      (true, { st with
        listRbl := st.listRbl.filter fun rbl => decide ¬ Wanted regp rbl
        listPml := st.listPml.filter fun pml =>
          decide ¬ ((∃ rbl ∈ st.listRbl, Wanted regp rbl) ∧ Deleted st regp pml) }) := by
  rcases unsetFrom_cases regp owner st.listRbl with
    ⟨-, hLoop⟩ | ⟨pre, bad, post, ans, hSplit, hBad, hNot, -⟩
  · simp only [mapUnset, hLoop, if_true]
    by_cases hAny : ∃ rbl ∈ st.listRbl, Wanted regp rbl
    · have hAns : st.listRbl.any (fun rbl => decide (Wanted regp rbl)) = true := by
        simpa using hAny
      simp only [hAns, if_true, delPmaplist_eq, hAny, true_and]
      rfl
    · have hAns : st.listRbl.any (fun rbl => decide (Wanted regp rbl)) = false := by
        simpa using hAny
      simp [hAns, hAny]
  · have hMem : bad ∈ st.listRbl := hSplit ▸ List.mem_append_right _ List.mem_cons_self
    exact absurd (hMay bad hMem hBad) hNot

/-- Otherwise the list loses what is wanted and comes before the first entry that the caller
may not remove. -/
theorem mapUnset_refused {bad : Rpcb} (hMem : bad ∈ st.listRbl) (hWanted : Wanted regp bad)
    (hNot : ¬ May owner bad) :
    ∃ pre rbl post, st.listRbl = pre ++ rbl :: post ∧ Wanted regp rbl ∧ ¬ May owner rbl ∧
      (∀ rbl' ∈ pre, Wanted regp rbl' → May owner rbl') ∧
      st.mapUnset regp (some owner) = (false, { st with
        listRbl := (pre.filter fun rbl' => decide ¬ Wanted regp rbl') ++ rbl :: post }) := by
  rcases unsetFrom_cases regp owner st.listRbl with
    ⟨hMay, -⟩ | ⟨pre, rbl, post, ans, hSplit, hThis, hThisNot, hPre, hLoop⟩
  · exact absurd (hMay bad hMem hWanted) hNot
  · refine ⟨pre, rbl, post, hSplit, hThis, hThisNot, hPre, ?_⟩
    simp only [mapUnset, hLoop, Bool.false_eq_true, if_false]

/-- Two filters of which one is stronger agree on a list if and only if they agree on what is
in it. -/
theorem filter_eq_filter_iff {α : Type} {p q : α → Prop} [DecidablePred p] [DecidablePred q]
    {l : List α} (h : ∀ a, p a → q a) :
    l.filter (fun a => decide ¬ p a) = l.filter (fun a => decide ¬ q a) ↔ ∀ a ∈ l, q a → p a := by
  constructor
  · intro hSame a hMem hq
    by_contra hp
    have hLeft : a ∈ l.filter fun a => decide ¬ p a := by
      rw [List.mem_filter, decide_eq_true_eq]
      exact ⟨hMem, hp⟩
    rw [hSame, List.mem_filter, decide_eq_true_eq] at hLeft
    exact hLeft.2 hq
  · intro hBack
    apply List.filter_congr
    intro a hMem
    rw [decide_eq_decide]
    exact not_congr ⟨h a, hBack a hMem⟩

theorem clean_iff_of_may (hMay : ∀ rbl ∈ st.listRbl, Wanted regp rbl → May owner rbl) :
    Clean regp owner st ↔ ∀ pml ∈ st.listPml, Corresponds st regp pml →
      (∃ rbl ∈ st.listRbl, Wanted regp rbl) ∧ Deleted st regp pml := by
  constructor
  · rintro (⟨rbl, hFirst, hNot⟩ | ⟨-, hPml⟩)
    · have hWanted : Wanted regp rbl := by
        have hTest := List.find?_some hFirst
        rwa [decide_eq_true_eq] at hTest
      exact absurd (hMay rbl (List.mem_of_find?_eq_some hFirst) hWanted) hNot
    · intro pml hMem hThis
      obtain ⟨hAny, hEdited⟩ := hPml pml hMem hThis
      exact ⟨hAny, hThis.1, hThis.2.1, hEdited⟩
  · intro hPml
    refine Or.inr ⟨hMay, fun pml hMem hThis => ?_⟩
    obtain ⟨hAny, -, -, hEdited⟩ := hPml pml hMem hThis
    exact ⟨hAny, hEdited⟩

theorem clean_iff_of_not_may {pre post : List Rpcb} {rbl : Rpcb}
    (hSplit : st.listRbl = pre ++ rbl :: post) (hWanted : Wanted regp rbl)
    (hNot : ¬ May owner rbl) (hPre : ∀ rbl' ∈ pre, Wanted regp rbl' → May owner rbl') :
    Clean regp owner st ↔ ∀ rbl' ∈ pre, ¬ Wanted regp rbl' := by
  constructor
  · rintro (⟨first, hFirst, hFirstNot⟩ | ⟨hMay, -⟩) rbl' hMem hThis
    · cases hFound : pre.find? fun rbl => decide (Wanted regp rbl) with
      | none =>
          have hMiss := List.find?_eq_none.mp hFound rbl' hMem
          rw [decide_eq_true_eq] at hMiss
          exact hMiss hThis
      | some first' =>
          rw [hSplit, List.find?_append, hFound, Option.some_or, Option.some.injEq] at hFirst
          subst hFirst
          have hTest := List.find?_some hFound
          rw [decide_eq_true_eq] at hTest
          exact hFirstNot (hPre _ (List.mem_of_find?_eq_some hFound) hTest)
    · have hMem : rbl ∈ st.listRbl := hSplit ▸ List.mem_append_right _ List.mem_cons_self
      exact hNot (hMay rbl hMem hWanted)
  · intro hNone
    refine Or.inl ⟨rbl, ?_, hNot⟩
    have hFound : (pre.find? fun rbl => decide (Wanted regp rbl)) = none := by
      rw [List.find?_eq_none]
      intro rbl' hMem
      rw [decide_eq_true_eq]
      exact hNone rbl' hMem
    rw [hSplit, List.find?_append, hFound, Option.none_or, List.find?_cons,
      decide_eq_true hWanted]

/-- `map_unset` does all or nothing exactly when its input is clean. -/
theorem mapUnset_allOrNothing_iff (regp : Rpcb) (owner : Option CString) (st : Registry) :
    AllOrNothing regp owner st ↔ ∀ name, owner = some name → Clean regp name st := by
  cases owner with
  | none => simp [AllOrNothing, mapUnset]
  | some name =>
      simp only [Option.some.injEq, forall_eq']
      by_cases hMay : ∀ rbl ∈ st.listRbl, Wanted regp rbl → May name rbl
      · have hStronger : ∀ pml, (∃ rbl ∈ st.listRbl, Wanted regp rbl) ∧ Deleted st regp pml →
            Corresponds st regp pml := fun pml h => h.2.corresponds
        rw [clean_iff_of_may hMay, ← filter_eq_filter_iff hStronger, AllOrNothing,
          mapUnset_done hMay]
        constructor
        · intro h
          exact (h.2 rfl).2.1
        · intro hPml
          exact ⟨fun hFalse => (by cases hFalse),
            fun _ => ⟨rfl, hPml, fun rbl hMem hWanted => ⟨name, rfl, hMay rbl hMem hWanted⟩⟩⟩
      · push Not at hMay
        obtain ⟨bad, hMem, hBad, hBadNot⟩ := hMay
        obtain ⟨pre, rbl, post, hSplit, hWanted, hNot, hPre, hRefused⟩ :=
          mapUnset_refused hMem hBad hBadNot
        rw [clean_iff_of_not_may hSplit hWanted hNot hPre, AllOrNothing, hRefused]
        constructor
        · intro h rbl' hMem' hWanted'
          have hSame := (h.1 rfl).1
          rw [hSplit, List.append_cancel_right_eq, List.filter_eq_self] at hSame
          exact of_decide_eq_true (hSame rbl' hMem') hWanted'
        · intro hNone
          refine ⟨fun _ => ⟨?_, rfl⟩, fun hTrue => (by cases hTrue)⟩
          rw [hSplit, List.append_cancel_right_eq, List.filter_eq_self]
          intro rbl' hMem'
          exact decide_eq_true (hNone rbl' hMem')

/-- Two registrations of a program by different callers. -/
def mixedRegistry : Registry where
  listRbl :=
    [{ rProg := 200000, rVers := 1, rNetid := CString.ascii "tcp"
       rAddr := CString.ascii "0.0.0.0.2.1", rOwner := CString.ascii "7" },
     { rProg := 200000, rVers := 1, rNetid := CString.ascii "udp"
       rAddr := CString.ascii "0.0.0.0.2.2", rOwner := CString.ascii "8" }]
  listPml :=
    [{ pmProg := 200000, pmVers := 1, pmProt := ipprotoTcp, pmPort := 513 },
     { pmProg := 200000, pmVers := 1, pmProt := ipprotoUdp, pmPort := 514 }]
  udptrans := CString.ascii "udp"
  tcptrans := CString.ascii "tcp"

/-- The first caller asks for both to be removed: it is refused, and its own is gone. -/
theorem not_mapUnset_allOrNothing_mixed :
    ¬ ∀ (regp : Rpcb) (owner : Option CString) (st : Registry), AllOrNothing regp owner st := by
  intro h
  have hMixed := h { rProg := 200000, rVers := 1, rNetid := [], rAddr := [], rOwner := [] }
    (some (CString.ascii "7")) mixedRegistry
  have hSame := (hMixed.1 (by decide)).1
  exact absurd hSame (by decide)

end OncRpc.Registry
