import OncRpc.Rpcbind.Unset

/-! The two registries side by side: what the port mapper's list says of TCP and UDP is what
the list of the versions 3 and 4 says. -/
namespace OncRpc.Registry

open Keyed

/-- The port in an address `h1.h2.h3.h4.p1.p2`. -/
def parsedPort (addr : CString) : Option Int :=
  match CString.scanDotted 5 addr with
  | some [_, _, _, _, p1, p2] => some (p1 * 256 + p2)
  | _ => none

/-- The port mapper's name of a service. -/
structure Names (st : Registry) (rbl : Rpcb) (pml : Pmap) : Prop where
  prog_eq : pml.pmProg = rbl.rProg
  vers_eq : pml.pmVers = rbl.rVers
  alike : Alike st rbl.rNetid pml.pmProt

/-- A registration as the port mapper has it. -/
structure Views (st : Registry) (rbl : Rpcb) (pml : Pmap) : Prop extends Names st rbl pml where
  port_eq : parsedPort rbl.rAddr = some (pml.pmPort : Int)

/-- For TCP and UDP the lists hold the same registrations. -/
def Coherent (st : Registry) : Prop :=
  ∀ pml : Pmap, pml.pmProt = ipprotoTcp ∨ pml.pmProt = ipprotoUdp →
    (pml ∈ st.listPml ↔ ∃ rbl ∈ st.listRbl, Views st rbl pml)

variable {st : Registry} {regp : Rpcb} {owner : CString}

/-- What the port mapper calls by one name has one key. -/
theorem Names.key_eq {rbl rbl' : Rpcb} {pml : Pmap} (h : Names st rbl pml)
    (h' : Names st rbl' pml) : rbl.key = rbl'.key := by
  have hNetid : CString.fold rbl.rNetid = CString.fold rbl'.rNetid := by
    have hApart : ipprotoUdp ≠ ipprotoTcp := by decide
    rcases h.alike with ⟨hSame, hProt⟩ | ⟨hSame, hProt⟩ <;>
      rcases h'.alike with ⟨hSame', hProt'⟩ | ⟨hSame', hProt'⟩
    · exact hSame.trans hSame'.symm
    · exact absurd (hProt.symm.trans hProt') hApart
    · exact absurd (hProt'.symm.trans hProt) hApart
    · exact hSame.trans hSame'.symm
  rw [Rpcb.key, Rpcb.key, ← h.prog_eq, ← h.vers_eq, ← h'.prog_eq, ← h'.vers_eq, hNetid]

theorem Names.ip {rbl : Rpcb} {pml : Pmap} (h : Names st rbl pml) :
    pml.pmProt = ipprotoTcp ∨ pml.pmProt = ipprotoUdp := by
  rcases h.alike with ⟨-, hProt⟩ | ⟨-, hProt⟩
  · exact Or.inr hProt
  · exact Or.inl hProt

/-- The lists themselves do not matter. -/
theorem views_congr (st : Registry) {st' : Registry} {rbl : Rpcb} {pml : Pmap}
    (hUdp : st'.udptrans = st.udptrans) (hTcp : st'.tcptrans = st.tcptrans) :
    Views st' rbl pml ↔ Views st rbl pml := by
  have hAlike : Alike st' rbl.rNetid pml.pmProt ↔ Alike st rbl.rNetid pml.pmProt := by
    rw [Alike, Alike, hUdp, hTcp]
  constructor
  · intro h
    exact ⟨⟨h.prog_eq, h.vers_eq, hAlike.mp h.alike⟩, h.port_eq⟩
  · intro h
    exact ⟨⟨h.prog_eq, h.vers_eq, hAlike.mpr h.alike⟩, h.port_eq⟩

/-- Nor does the owner of a registration. -/
theorem views_owner {pml : Pmap} : Views st { regp with rOwner := owner } pml ↔ Views st regp pml :=
  ⟨fun h => ⟨⟨h.prog_eq, h.vers_eq, h.alike⟩, h.port_eq⟩,
    fun h => ⟨⟨h.prog_eq, h.vers_eq, h.alike⟩, h.port_eq⟩⟩

/-! ### `map_set` -/

/-- The protocol that `add_pmaplist` takes a netid for. -/
def addedProt (st : Registry) (netid : CString) : Option Nat :=
  if netid = st.udptrans then some ipprotoUdp
  else if netid = st.tcptrans then some ipprotoTcp
  else none

/-- What `add_pmaplist` adds. -/
def added (st : Registry) (arg : Rpcb) : List Pmap :=
  match addedProt st arg.rNetid, CString.scanDotted 5 arg.rAddr with
  | some pmProt, some [_, _, _, _, p1, p2] =>
      [{ pmProg := arg.rProg, pmVers := arg.rVers, pmProt := pmProt, pmPort := portOf p1 p2 }]
  | _, _ => []

theorem addPmaplist_eq (arg : Rpcb) (st : Registry) :
    addPmaplist arg st = { st with listPml := st.listPml ++ added st arg } := by
  unfold addPmaplist added addedProt
  dsimp only
  split
  · split <;> simp_all
  · split
    · split <;> simp_all
    · simp_all

/-- A registration that is added is spelled as the port mapper spells its netid, if it is
one that the port mapper has, and the two parts of its port are bytes. -/
def SetOk (regp : Rpcb) (st : Registry) : Prop :=
  (∀ rbl ∈ st.listRbl, rbl.key ≠ regp.key) →
    (∀ (prot port : Nat), Alike st regp.rNetid prot → parsedPort regp.rAddr = some (port : Int) →
      addedProt st regp.rNetid = some prot) ∧
    ∀ (prot : Nat) (h1 h2 h3 h4 p1 p2 : Int), addedProt st regp.rNetid = some prot →
      CString.scanDotted 5 regp.rAddr = some [h1, h2, h3, h4, p1, p2] →
      (portOf p1 p2 : Int) = p1 * 256 + p2

theorem parsedPort_eq_some {addr : CString} {port : Int} : parsedPort addr = some port ↔
    ∃ h1 h2 h3 h4 p1 p2, CString.scanDotted 5 addr = some [h1, h2, h3, h4, p1, p2] ∧
      p1 * 256 + p2 = port := by
  unfold parsedPort
  split
  · next h1 h2 h3 h4 p1 p2 hScan =>
      rw [Option.some.injEq]
      constructor
      · intro hPort
        exact ⟨h1, h2, h3, h4, p1, p2, hScan, hPort⟩
      · rintro ⟨_, _, _, _, _, _, hScan', hPort⟩
        rw [hScan] at hScan'
        cases hScan'
        exact hPort
  · next hNot =>
      constructor
      · intro hBad
        cases hBad
      · rintro ⟨h1, h2, h3, h4, p1, p2, hScan, -⟩
        exact absurd hScan (hNot h1 h2 h3 h4 p1 p2)

theorem mem_added {pml : Pmap} : pml ∈ added st regp ↔
    pml.pmProg = regp.rProg ∧ pml.pmVers = regp.rVers ∧
      addedProt st regp.rNetid = some pml.pmProt ∧
      ∃ h1 h2 h3 h4 p1 p2, CString.scanDotted 5 regp.rAddr = some [h1, h2, h3, h4, p1, p2] ∧
        pml.pmPort = portOf p1 p2 := by
  unfold added
  split
  · next prot h1 h2 h3 h4 p1 p2 hProt hScan =>
      rw [List.mem_singleton, hProt, hScan]
      constructor
      · rintro rfl
        exact ⟨rfl, rfl, rfl, h1, h2, h3, h4, p1, p2, rfl, rfl⟩
      · rintro ⟨hProg, hVers, hSame, _, _, _, _, _, _, hScan', hPort⟩
        cases hSame
        cases hScan'
        cases pml
        simp_all
  · next hNot =>
      constructor
      · intro hBad
        cases hBad
      · rintro ⟨-, -, hProt, h1, h2, h3, h4, p1, p2, hScan, -⟩
        exact absurd hScan (hNot _ h1 h2 h3 h4 p1 p2 hProt)

theorem addedProt_alike {netid : CString} {prot : Nat} (h : addedProt st netid = some prot) :
    Alike st netid prot := by
  unfold addedProt at h
  split at h
  · next hUdp => exact Or.inl ⟨hUdp ▸ CString.SameCase.refl _, (Option.some.inj h).symm⟩
  · split at h
    · next hTcp => exact Or.inr ⟨hTcp ▸ CString.SameCase.refl _, (Option.some.inj h).symm⟩
    · cases h

theorem names_of_mem_added {pml : Pmap} (h : pml ∈ added st regp) : Names st regp pml := by
  obtain ⟨hProg, hVers, hProt, -⟩ := mem_added.mp h
  exact ⟨hProg, hVers, addedProt_alike hProt⟩

/-- What is added is the new registration as the port mapper has it. -/
theorem setOk_iff (hNew : ∀ rbl ∈ st.listRbl, rbl.key ≠ regp.key) :
    SetOk regp st ↔ ∀ pml : Pmap, pml ∈ added st regp ↔ Views st regp pml := by
  constructor
  · intro hOk pml
    obtain ⟨hSpelled, hBytes⟩ := hOk hNew
    rw [mem_added]
    constructor
    · rintro ⟨hProg, hVers, hProt, h1, h2, h3, h4, p1, p2, hScan, hPort⟩
      refine ⟨⟨hProg, hVers, addedProt_alike hProt⟩, ?_⟩
      have hSame := hBytes _ _ _ _ _ _ _ hProt hScan
      exact parsedPort_eq_some.mpr ⟨h1, h2, h3, h4, p1, p2, hScan, by rw [hPort, hSame]⟩
    · intro hViews
      have hProt := hSpelled _ _ hViews.alike hViews.port_eq
      obtain ⟨h1, h2, h3, h4, p1, p2, hScan, hPort⟩ := parsedPort_eq_some.mp hViews.port_eq
      refine ⟨hViews.prog_eq, hViews.vers_eq, hProt, h1, h2, h3, h4, p1, p2, hScan, ?_⟩
      have hSame := hBytes _ _ _ _ _ _ _ hProt hScan
      exact Int.ofNat_inj.mp (hPort.symm.trans hSame.symm)
  · intro hAll _
    constructor
    · intro prot port hAlike hPort
      have hViews : Views st regp ⟨regp.rProg, regp.rVers, prot, port⟩ :=
        ⟨⟨rfl, rfl, hAlike⟩, hPort⟩
      exact (mem_added.mp ((hAll _).mpr hViews)).2.2.1
    · intro prot h1 h2 h3 h4 p1 p2 hProt hScan
      have hMem : (⟨regp.rProg, regp.rVers, prot, portOf p1 p2⟩ : Pmap) ∈ added st regp :=
        mem_added.mpr ⟨rfl, rfl, hProt, h1, h2, h3, h4, p1, p2, hScan, rfl⟩
      obtain ⟨_, _, _, _, _, _, hScan', hPort⟩ :=
        parsedPort_eq_some.mp ((hAll _).mp hMem).port_eq
      rw [hScan] at hScan'
      cases hScan'
      exact hPort.symm

/-- `map_set` keeps the lists coherent exactly when it is all right. -/
theorem coherent_mapSet_iff (hCoherent : st.Coherent) (regp : Rpcb) (owner : CString) :
    (st.mapSet regp owner).2.Coherent ↔ SetOk regp st := by
  rcases mapSet_cases st regp owner with ⟨rbl, hSome, hSame⟩ | ⟨hNone, hNew⟩
  · obtain ⟨hMem, hKey⟩ := mem_of_lookup hSome
    rw [hSame]
    exact ⟨fun _ hFresh => absurd hKey (hFresh rbl hMem), fun _ => hCoherent⟩
  · have hFresh := lookup_eq_none.mp hNone
    rw [setOk_iff hFresh, hNew, addPmaplist_eq]
    have hOld : ∀ pml : Pmap, Names st regp pml → ¬ ∃ rbl ∈ st.listRbl, Views st rbl pml := by
      rintro pml hNames ⟨rbl, hMem, hViews⟩
      exact hFresh rbl hMem (hViews.toNames.key_eq hNames)
    have hMore : ∀ pml : Pmap,
        (∃ rbl ∈ st.listRbl ++ [{ regp with rOwner := owner }],
          Views { st with
            listRbl := st.listRbl ++ [{ regp with rOwner := owner }]
            listPml := st.listPml ++ added st regp } rbl pml) ↔
        (∃ rbl ∈ st.listRbl, Views st rbl pml) ∨ Views st regp pml := by
      intro pml
      simp only [List.mem_append, List.mem_singleton, or_and_right, exists_or, exists_eq_left,
        views_congr st, views_owner]
    have hAll : (Coherent { st with
        listRbl := st.listRbl ++ [{ regp with rOwner := owner }]
        listPml := st.listPml ++ added st regp }) ↔
          ∀ pml : Pmap, pml.pmProt = ipprotoTcp ∨ pml.pmProt = ipprotoUdp →
            ((∃ rbl ∈ st.listRbl, Views st rbl pml) ∨ pml ∈ added st regp ↔
              (∃ rbl ∈ st.listRbl, Views st rbl pml) ∨ Views st regp pml) := by
      refine forall₂_congr fun pml hIp => ?_
      rw [hMore, List.mem_append, hCoherent pml hIp]
    show Coherent { st with
      listRbl := st.listRbl ++ [{ regp with rOwner := owner }]
      listPml := st.listPml ++ added st regp } ↔ _
    rw [hAll]
    constructor
    · intro h pml
      constructor
      · intro hMem
        have hNames := names_of_mem_added hMem
        exact ((h pml hNames.ip).mp (Or.inr hMem)).resolve_left (hOld pml hNames)
      · intro hViews
        exact ((h pml hViews.ip).mpr (Or.inr hViews)).resolve_left (hOld pml hViews.toNames)
    · intro h pml _
      rw [h pml]

/-! ### `map_unset` -/

/-- The caller may remove all that it wants to have removed, and `del_pmaplist` deletes what
corresponds to it. Or it is refused, and what is removed before is not known to the port
mapper. -/
def UnsetOk (regp : Rpcb) (owner : CString) (st : Registry) : Prop :=
  if ∀ rbl ∈ st.listRbl, Wanted regp rbl → May owner rbl then
    ∀ pml ∈ st.listPml, pml.pmProt = ipprotoTcp ∨ pml.pmProt = ipprotoUdp →
      Corresponds st regp pml → Edited st regp.rNetid pml.pmProt
  else
    ∀ rbl ∈ st.listRbl.takeWhile fun rbl => decide (Wanted regp rbl → May owner rbl),
      Wanted regp rbl → ∀ pml, ¬ Views st rbl pml

/-- What is wanted corresponds. -/
theorem Views.wanted_iff {rbl : Rpcb} {pml : Pmap} (h : Views st rbl pml) :
    Wanted regp rbl ↔ Corresponds st regp pml := by
  have hApart : ipprotoUdp ≠ ipprotoTcp := by decide
  have hNetid : CString.SameCase regp.rNetid rbl.rNetid ↔ Alike st regp.rNetid pml.pmProt := by
    rcases h.alike with ⟨hSame, hProt⟩ | ⟨hSame, hProt⟩
    · constructor
      · intro hThis
        exact Or.inl ⟨hThis.trans hSame, hProt⟩
      · rintro (⟨hThis, -⟩ | ⟨-, hBad⟩)
        · exact hThis.trans hSame.symm
        · exact absurd (hProt.symm.trans hBad) hApart
    · constructor
      · intro hThis
        exact Or.inr ⟨hThis.trans hSame, hProt⟩
      · rintro (⟨-, hBad⟩ | ⟨hThis, -⟩)
        · exact absurd (hBad.symm.trans hProt) hApart
        · exact hThis.trans hSame.symm
  rw [Wanted, Corresponds, hNetid, h.prog_eq, h.vers_eq]

/-- A registration is the only one that the port mapper has it from. -/
theorem exists_views_iff (hUnique : Distinct Rpcb.key st.listRbl) {rbl : Rpcb} {pml : Pmap}
    (hMem : rbl ∈ st.listRbl) (hViews : Views st rbl pml) {l : List Rpcb}
    (hSub : l ⊆ st.listRbl) : (∃ rbl' ∈ l, Views st rbl' pml) ↔ rbl ∈ l := by
  constructor
  · rintro ⟨rbl', hMem', hViews'⟩
    have hKey := hViews'.toNames.key_eq hViews.toNames
    rwa [← List.inj_on_of_nodup_map hUnique (hSub hMem') hMem hKey]
  · intro hHere
    exact ⟨rbl, hHere, hViews⟩

/-- A request that is granted. -/
theorem coherent_mapUnset_of_may (hCoherent : st.Coherent) (hUnique : Distinct Rpcb.key st.listRbl)
    (hMay : ∀ rbl ∈ st.listRbl, Wanted regp rbl → May owner rbl) :
    (st.mapUnset regp (some owner)).2.Coherent ↔
      ∀ pml ∈ st.listPml, pml.pmProt = ipprotoTcp ∨ pml.pmProt = ipprotoUdp →
        Corresponds st regp pml → Edited st regp.rNetid pml.pmProt := by
  rw [mapUnset_done hMay]
  refine forall_congr' fun pml => ?_
  have hKept : ∀ p : Pmap → Bool, pml ∈ st.listPml.filter p ↔ pml ∈ st.listPml ∧ p pml :=
    fun p => List.mem_filter
  simp only [views_congr st, hKept, decide_eq_true_eq]
  by_cases hMem : pml ∈ st.listPml
  · have hStep : ∀ hIp : pml.pmProt = ipprotoTcp ∨ pml.pmProt = ipprotoUdp,
        ((pml ∈ st.listPml ∧ ¬ ((∃ rbl ∈ st.listRbl, Wanted regp rbl) ∧ Deleted st regp pml)) ↔
          ∃ rbl ∈ st.listRbl.filter fun rbl => decide ¬ Wanted regp rbl, Views st rbl pml) ↔
        (Corresponds st regp pml → Edited st regp.rNetid pml.pmProt) := by
      intro hIp
      obtain ⟨rbl, hRbl, hViews⟩ := (hCoherent pml hIp).mp hMem
      have hAny : Corresponds st regp pml → ∃ rbl ∈ st.listRbl, Wanted regp rbl :=
        fun h => ⟨rbl, hRbl, hViews.wanted_iff.mpr h⟩
      rw [exists_views_iff hUnique hRbl hViews (List.filter_subset_self _), List.mem_filter,
        decide_eq_true_eq, hViews.wanted_iff]
      constructor
      · intro hSame hThis
        by_contra hNot
        have hKept := hSame.mp ⟨hMem, fun h => hNot h.2.2.2⟩
        exact hKept.2 hThis
      · intro hEdited
        constructor
        · rintro ⟨-, hKept⟩
          exact ⟨hRbl, fun h => hKept ⟨hAny h, h.1, h.2.1, hEdited h⟩⟩
        · rintro ⟨-, hKept⟩
          exact ⟨hMem, fun h => hKept h.2.corresponds⟩
    constructor
    · intro h _ hIp
      exact (hStep hIp).mp (h hIp)
    · intro h hIp
      exact (hStep hIp).mpr (h hMem hIp)
  · constructor
    · intro _ hBad
      exact absurd hBad hMem
    · rintro - hIp
      constructor
      · rintro ⟨hBad, -⟩
        exact absurd hBad hMem
      · rintro ⟨rbl, hRbl, hViews⟩
        exact absurd ((hCoherent pml hIp).mpr ⟨rbl, (List.mem_filter.mp hRbl).1, hViews⟩) hMem

/-- A request that is refused, at the entry `bad`. -/
theorem coherent_unsetBefore (hCoherent : st.Coherent) (hUnique : Distinct Rpcb.key st.listRbl)
    {pre post : List Rpcb} {bad : Rpcb} (hSplit : st.listRbl = pre ++ bad :: post) :
    (Coherent { st with
      listRbl := (pre.filter fun rbl => decide ¬ Wanted regp rbl) ++ bad :: post }) ↔
      ∀ rbl ∈ pre, Wanted regp rbl → ∀ pml, ¬ Views st rbl pml := by
  have hSub : (pre.filter fun rbl => decide ¬ Wanted regp rbl) ++ bad :: post ⊆ st.listRbl := by
    rw [hSplit]
    exact (List.filter_sublist.append (List.Sublist.refl _)).subset
  have hNodup : st.listRbl.Nodup := hUnique.of_map Rpcb.key
  rw [hSplit] at hNodup
  simp only [Coherent, views_congr st]
  constructor
  · intro h rbl hPre hWanted pml hViews
    have hMem : rbl ∈ st.listRbl := hSplit ▸ List.mem_append_left _ hPre
    have hOld := (hCoherent pml hViews.ip).mpr ⟨rbl, hMem, hViews⟩
    have hKept := (exists_views_iff hUnique hMem hViews hSub).mp ((h pml hViews.ip).mp hOld)
    rcases List.mem_append.mp hKept with hLeft | hRight
    · rw [List.mem_filter, decide_eq_true_eq] at hLeft
      exact hLeft.2 hWanted
    · exact (List.disjoint_of_nodup_append hNodup) hPre hRight
  · intro h pml hIp
    rw [hCoherent pml hIp]
    constructor
    · rintro ⟨rbl, hMem, hViews⟩
      refine ⟨rbl, ?_, hViews⟩
      rw [hSplit] at hMem
      rcases List.mem_append.mp hMem with hPre | hPost
      · apply List.mem_append_left
        rw [List.mem_filter, decide_eq_true_eq]
        exact ⟨hPre, fun hWanted => h rbl hPre hWanted pml hViews⟩
      · exact List.mem_append_right _ hPost
    · rintro ⟨rbl, hMem, hViews⟩
      exact ⟨rbl, hSub hMem, hViews⟩

/-- `map_unset` keeps the lists coherent exactly when it is all right. -/
theorem coherent_mapUnset_iff (hCoherent : st.Coherent) (hUnique : Distinct Rpcb.key st.listRbl)
    (regp : Rpcb) (owner : CString) :
    (st.mapUnset regp (some owner)).2.Coherent ↔ UnsetOk regp owner st := by
  rw [UnsetOk]
  split
  · next hMay => exact coherent_mapUnset_of_may hCoherent hUnique hMay
  · next hNotMay =>
      push Not at hNotMay
      obtain ⟨bad, hMem, hBad, hBadNot⟩ := hNotMay
      obtain ⟨pre, rbl, post, hSplit, hWanted, hNot, hPre, hRefused⟩ :=
        mapUnset_refused hMem hBad hBadNot
      have hTake : (st.listRbl.takeWhile fun rbl => decide (Wanted regp rbl → May owner rbl)) =
          pre := by
        rw [hSplit, List.takeWhile_append_of_pos, List.takeWhile_cons_of_neg, List.append_nil]
        · rw [decide_eq_true_eq]
          exact fun h => hNot (h hWanted)
        · intro rbl' hMem'
          exact decide_eq_true (hPre rbl' hMem')
      rw [hRefused, hTake]
      exact coherent_unsetBefore hCoherent hUnique hSplit

end OncRpc.Registry

/-! ### Whole runs -/

namespace OncRpc.RpcbRequest

open Keyed Registry

variable {st : Registry}

/-- A request that keeps the lists coherent. -/
def Ok (st : Registry) : RpcbRequest → Prop
  | set regp _ => SetOk regp st
  | unset regp owner => UnsetOk regp owner st

/-- Every request is all right where it comes. -/
def AllOk (st : Registry) : List RpcbRequest → Prop
  | [] => True
  | r :: rest => r.Ok st ∧ AllOk (r.serve st) rest

theorem coherent_serve_iff (hCoherent : st.Coherent) (hUnique : Distinct Rpcb.key st.listRbl)
    (r : RpcbRequest) : (r.serve st).Coherent ↔ r.Ok st := by
  cases r with
  | set regp owner => exact coherent_mapSet_iff hCoherent regp owner
  | unset regp owner => exact coherent_mapUnset_iff hCoherent hUnique regp owner

/-- The induction is on the requests, from any coherent registry with unique keys. -/
theorem coherent_run_iff (hCoherent : st.Coherent) (hUnique : Distinct Rpcb.key st.listRbl)
    (requests : List RpcbRequest) :
    (∀ done, done <+: requests → (run st done).Coherent) ↔ AllOk st requests := by
  induction requests generalizing st with
  | nil =>
      constructor
      · intro _
        trivial
      · rintro - done hDone
        rw [List.prefix_nil.mp hDone]
        exact hCoherent
  | cons r rest ih =>
      have hNext := listRbl_serve_unique hUnique r
      rw [AllOk, ← coherent_serve_iff hCoherent hUnique r]
      constructor
      · intro h
        have hStep : (r.serve st).Coherent := h [r] ⟨rest, rfl⟩
        refine ⟨hStep, (ih hStep hNext).mp fun done hDone => ?_⟩
        exact h (r :: done) ((List.prefix_cons_inj r).mpr hDone)
      · rintro ⟨hStep, hRest⟩ done hDone
        cases done with
        | nil => exact hCoherent
        | cons r' done =>
            obtain ⟨rfl, hTail⟩ := List.cons_prefix_cons.mp hDone
            exact (ih hStep hNext).mpr hRest done hTail

end OncRpc.RpcbRequest
