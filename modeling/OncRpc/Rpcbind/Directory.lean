import OncRpc.Base.Keyed
import OncRpc.Rpcbind.Registry

/-! The registry of the versions 3 and 4 as a finite map from program, version and netid,
whose letters may be of either case. -/
namespace OncRpc

/-- What tells one registration from another. -/
structure ServiceKey where
  prog : BitVec 32
  vers : BitVec 32
  netid : CString
  deriving DecidableEq, Repr

def Rpcb.key (rbl : Rpcb) : ServiceKey :=
  { prog := rbl.rProg, vers := rbl.rVers, netid := CString.fold rbl.rNetid }

/-- The registrations by their keys. -/
abbrev Directory := ServiceKey → Option Rpcb

namespace Directory

/-- A registration is made when there is none, and confirmed when it is for the same
address. -/
def set (regp : Rpcb) (owner : CString) (d : Directory) : Bool × Directory :=
  match d regp.key with
  | some rbl => (decide (rbl.rAddr = regp.rAddr), d)
  | none => (true, Function.update d regp.key (some { regp with rOwner := owner }))

end Directory

namespace Registry

open Keyed

variable {st : Registry}

def directory (st : Registry) : Directory := lookup Rpcb.key st.listRbl

/-- The registries with nothing in them. -/
def empty (udptrans tcptrans : CString) : Registry :=
  { listRbl := [], listPml := [], udptrans := udptrans, tcptrans := tcptrans }

/-! ### `find_service` -/

theorem key_eq_iff (rbl : Rpcb) (prog vers : BitVec 32) (netid : CString) :
    rbl.key = ⟨prog, vers, CString.fold netid⟩ ↔ ¬ Passed prog netid rbl ∧ rbl.rVers = vers := by
  simp only [Rpcb.key, ServiceKey.mk.injEq, Passed, CString.SameCase, not_or, not_not]
  tauto

/-- The loop stops at the version, and otherwise ends with the last entry that it has not
passed over. -/
theorem findServiceFrom_eq (prog vers : BitVec 32) (netid : CString) (hit : Option Rpcb)
    (l : List Rpcb) :
    findServiceFrom prog vers netid hit l =
      ((lookup Rpcb.key l ⟨prog, vers, CString.fold netid⟩).or
        (l.reverse.find? fun rbl => decide ¬ Passed prog netid rbl)).or hit := by
  induction l generalizing hit with
  | nil => rfl
  | cons rbl rest ih =>
      have hKey := key_eq_iff rbl prog vers netid
      simp only [findServiceFrom, lookup, List.find?_cons, List.reverse_cons, List.find?_append,
        List.find?_nil] at ih ⊢
      by_cases hPassed : Passed prog netid rbl
      · have hOther : ¬ rbl.key = ⟨prog, vers, CString.fold netid⟩ := fun h => (hKey.mp h).1 hPassed
        simp [hPassed, hOther, ih]
      · by_cases hVers : rbl.rVers = vers
        · have hSame := hKey.mpr ⟨hPassed, hVers⟩
          simp [hPassed, hVers, hSame]
        · have hOther : ¬ rbl.key = ⟨prog, vers, CString.fold netid⟩ := fun h => hVers (hKey.mp h).2
          simp [hPassed, hVers, hOther, ih]

/-- A registration of the version is found. -/
theorem findService_exact {prog vers : BitVec 32} {netid : CString} {rbl : Rpcb}
    (h : st.directory ⟨prog, vers, CString.fold netid⟩ = some rbl) :
    st.findService prog vers netid = some rbl := by
  rw [findService, findServiceFrom_eq, show lookup Rpcb.key st.listRbl _ = some rbl from h]
  rfl

/-- Without one, a registration of another version is found, if there is any. -/
theorem findService_other {prog vers : BitVec 32} {netid : CString}
    (h : st.directory ⟨prog, vers, CString.fold netid⟩ = none) :
    (∃ rbl ∈ st.listRbl, st.findService prog vers netid = some rbl ∧
      ¬ Passed prog netid rbl ∧ rbl.rVers ≠ vers) ∨
    (∀ rbl ∈ st.listRbl, Passed prog netid rbl) ∧ st.findService prog vers netid = none := by
  rw [findService, findServiceFrom_eq, show lookup Rpcb.key st.listRbl _ = none from h,
    Option.none_or, Option.or_none]
  cases hFound : st.listRbl.reverse.find? fun rbl => decide ¬ Passed prog netid rbl with
  | some rbl =>
      have hMem := List.mem_reverse.mp (List.mem_of_find?_eq_some hFound)
      have hHere : ¬ Passed prog netid rbl := by
        have hTest := List.find?_some hFound
        rwa [decide_eq_true_eq] at hTest
      refine Or.inl ⟨rbl, hMem, rfl, hHere, fun hVers => ?_⟩
      exact lookup_eq_none.mp h rbl hMem ((key_eq_iff rbl prog vers netid).mpr ⟨hHere, hVers⟩)
  | none =>
      refine Or.inr ⟨fun rbl hMem => ?_, rfl⟩
      have hMiss := List.find?_eq_none.mp hFound rbl (List.mem_reverse.mpr hMem)
      simpa using hMiss

/-! ### `map_set` -/

/-- The port mapper's list aside, `map_set` does to the list what is done to the map. -/
theorem mapSet_cases (st : Registry) (regp : Rpcb) (owner : CString) :
    (∃ rbl, st.directory regp.key = some rbl ∧
      st.mapSet regp owner = (decide (rbl.rAddr = regp.rAddr), st)) ∨
    st.directory regp.key = none ∧ st.mapSet regp owner =
      (true, addPmaplist regp
        { st with listRbl := st.listRbl ++ [{ regp with rOwner := owner }] }) := by
  cases hFound : st.directory regp.key with
  | some rbl =>
      have hVers : rbl.rVers = regp.rVers := congrArg ServiceKey.vers (mem_of_lookup hFound).2
      refine Or.inl ⟨rbl, rfl, ?_⟩
      rw [mapSet, findService_exact hFound]
      simp [hVers]
  | none =>
      refine Or.inr ⟨rfl, ?_⟩
      rcases findService_other hFound with ⟨rbl, -, hOther, -, hVers⟩ | ⟨-, hNone⟩
      · rw [mapSet, hOther]
        simp [hVers]
      · rw [mapSet, hNone]

/-- The list of the port mapper is edited alone. -/
theorem addPmaplist_same (arg : Rpcb) (st : Registry) :
    ∃ pml, addPmaplist arg st = { st with listPml := st.listPml ++ pml } := by
  have hSame : st = { st with listPml := st.listPml ++ [] } := by rw [List.append_nil]
  unfold addPmaplist
  dsimp only
  split
  · split
    · exact ⟨_, rfl⟩
    · exact ⟨[], hSame⟩
  · split
    · split
      · exact ⟨_, rfl⟩
      · exact ⟨[], hSame⟩
    · exact ⟨[], hSame⟩

/-! ### `map_unset` -/

/-- The loop comes to the end when the caller may remove everything that it wants to have
removed. Otherwise it stops at the first entry that the caller may not remove, with the wanted
ones before it gone. -/
theorem unsetFrom_cases (regp : Rpcb) (owner : CString) (l : List Rpcb) :
    ((∀ rbl ∈ l, Wanted regp rbl → May owner rbl) ∧ unsetFrom regp owner l =
      (true, l.filter fun rbl => decide ¬ Wanted regp rbl, l.any fun rbl => decide (Wanted regp rbl))) ∨
    ∃ pre rbl post ans, l = pre ++ rbl :: post ∧ Wanted regp rbl ∧ ¬ May owner rbl ∧
      (∀ rbl' ∈ pre, Wanted regp rbl' → May owner rbl') ∧ unsetFrom regp owner l =
        (false, (pre.filter fun rbl' => decide ¬ Wanted regp rbl') ++ rbl :: post, ans) := by
  induction l with
  | nil => exact Or.inl ⟨fun rbl h => (by cases h), rfl⟩
  | cons rbl rest ih =>
      by_cases hWanted : Wanted regp rbl
      · by_cases hMay : May owner rbl
        · rcases ih with ⟨hAll, hRest⟩ | ⟨pre, bad, post, ans, rfl, hBad, hNot, hAll, hRest⟩
          · refine Or.inl ⟨?_, ?_⟩
            · rintro rbl' (_ | ⟨_, hMem⟩) hThis
              · exact hMay
              · exact hAll rbl' hMem hThis
            · simp [unsetFrom, hWanted, hMay, hRest]
          · refine Or.inr ⟨rbl :: pre, bad, post, true, rfl, hBad, hNot, ?_, ?_⟩
            · rintro rbl' (_ | ⟨_, hMem⟩) hThis
              · exact hMay
              · exact hAll rbl' hMem hThis
            · simp [unsetFrom, hWanted, hMay, hRest]
        · refine Or.inr ⟨[], rbl, rest, false, rfl, hWanted, hMay, fun rbl' h => (by cases h), ?_⟩
          simp [unsetFrom, hWanted, hMay]
      · rcases ih with ⟨hAll, hRest⟩ | ⟨pre, bad, post, ans, rfl, hBad, hNot, hAll, hRest⟩
        · refine Or.inl ⟨?_, ?_⟩
          · rintro rbl' (_ | ⟨_, hMem⟩) hThis
            · exact absurd hThis hWanted
            · exact hAll rbl' hMem hThis
          · simp [unsetFrom, hWanted, hRest]
        · refine Or.inr ⟨rbl :: pre, bad, post, ans, rfl, hBad, hNot, ?_, ?_⟩
          · rintro rbl' (_ | ⟨_, hMem⟩) hThis
            · exact absurd hThis hWanted
            · exact hAll rbl' hMem hThis
          · simp [unsetFrom, hWanted, hRest]

/-- What is left is in its old order. -/
theorem unsetFrom_sublist (regp : Rpcb) (owner : CString) (l : List Rpcb) :
    (unsetFrom regp owner l).2.1.Sublist l := by
  rcases unsetFrom_cases regp owner l with ⟨-, hAll⟩ | ⟨pre, rbl, post, ans, rfl, -, -, -, hStop⟩
  · rw [hAll]
    exact List.filter_sublist
  · rw [hStop]
    exact List.filter_sublist.append (List.Sublist.refl _)

/-- What the caller may not remove is left. -/
theorem mem_unsetFrom {regp : Rpcb} {owner : CString} {l : List Rpcb} {rbl : Rpcb}
    (hMem : rbl ∈ l) (hNot : ¬ May owner rbl) : rbl ∈ (unsetFrom regp owner l).2.1 := by
  rcases unsetFrom_cases regp owner l with
    ⟨hMay, hAll⟩ | ⟨pre, bad, post, ans, rfl, -, -, hMay, hStop⟩
  · rw [hAll, List.mem_filter, decide_eq_true_eq]
    exact ⟨hMem, fun hWanted => hNot (hMay rbl hMem hWanted)⟩
  · rw [hStop]
    rcases List.mem_append.mp hMem with hPre | hPost
    · apply List.mem_append_left
      rw [List.mem_filter, decide_eq_true_eq]
      exact ⟨hPre, fun hWanted => hNot (hMay rbl hPre hWanted)⟩
    · exact List.mem_append_right _ hPost

theorem delPmaplist_same (arg : Rpcb) (st : Registry) :
    ∃ pml, delPmaplist arg st = { st with listPml := pml } := by
  unfold delPmaplist
  dsimp only
  split
  · exact ⟨_, rfl⟩
  · split
    · exact ⟨_, rfl⟩
    · split
      · exact ⟨_, rfl⟩
      · exact ⟨st.listPml, rfl⟩

/-- The list of the versions 3 and 4 is what the loop leaves. -/
theorem listRbl_mapUnset (regp : Rpcb) (owner : CString) :
    (st.mapUnset regp (some owner)).2.listRbl = (unsetFrom regp owner st.listRbl).2.1 := by
  rcases hLoop : unsetFrom regp owner st.listRbl with ⟨done, list, ans⟩
  simp only [mapUnset, hLoop]
  cases done with
  | false => rfl
  | true =>
      cases ans with
      | false => rfl
      | true =>
          obtain ⟨pml, hDel⟩ := delPmaplist_same regp { st with listRbl := list }
          simp [hDel]

end Registry

/-! ### Whole runs -/

namespace RpcbRequest

open Keyed Registry

variable {st : Registry}

theorem listRbl_serve_unique (h : Distinct Rpcb.key st.listRbl) (r : RpcbRequest) :
    Distinct Rpcb.key (r.serve st).listRbl := by
  cases r with
  | set regp owner =>
      rcases mapSet_cases st regp owner with ⟨rbl, -, hSame⟩ | ⟨hNone, hNew⟩
      · rw [RpcbRequest.serve, hSame]
        exact h
      · obtain ⟨pml, hAdd⟩ := addPmaplist_same regp
          { st with listRbl := st.listRbl ++ [{ regp with rOwner := owner }] }
        rw [RpcbRequest.serve, hNew, hAdd]
        exact Distinct.append h hNone
  | unset regp owner =>
      rw [RpcbRequest.serve, listRbl_mapUnset]
      exact h.sublist ((unsetFrom_sublist regp owner st.listRbl).map Rpcb.key)

/-- An entry stays when neither its owner nor the superuser asks. -/
theorem mem_serve {rbl : Rpcb} (h : rbl ∈ st.listRbl) {r : RpcbRequest}
    (hSuper : r.owner ≠ rpcbindSuperuser) (hOwner : r.owner ≠ rbl.rOwner) :
    rbl ∈ (r.serve st).listRbl := by
  cases r with
  | set regp owner =>
      rcases mapSet_cases st regp owner with ⟨rbl', -, hSame⟩ | ⟨-, hNew⟩
      · rw [RpcbRequest.serve, hSame]
        exact h
      · obtain ⟨pml, hAdd⟩ := addPmaplist_same regp
          { st with listRbl := st.listRbl ++ [{ regp with rOwner := owner }] }
        rw [RpcbRequest.serve, hNew, hAdd]
        exact List.mem_append_left _ h
  | unset regp owner =>
      rw [RpcbRequest.serve, listRbl_mapUnset]
      apply mem_unsetFrom h
      rintro (hBad | hBad)
      · exact hSuper hBad
      · exact hOwner hBad.symm

/-- The induction is on the requests, from any registry. -/
theorem run_unique (h : Distinct Rpcb.key st.listRbl) (requests : List RpcbRequest) :
    Distinct Rpcb.key (run st requests).listRbl := by
  induction requests generalizing st with
  | nil => exact h
  | cons r rest ih => exact ih (listRbl_serve_unique h r)

theorem mem_run {rbl : Rpcb} (h : rbl ∈ st.listRbl) {requests : List RpcbRequest}
    (hOthers : ∀ r ∈ requests, r.owner ≠ rpcbindSuperuser ∧ r.owner ≠ rbl.rOwner) :
    rbl ∈ (run st requests).listRbl := by
  induction requests generalizing st with
  | nil => exact h
  | cons r rest ih =>
      obtain ⟨hSuper, hOwner⟩ := hOthers r List.mem_cons_self
      exact ih (mem_serve h hSuper hOwner) fun r' hr' => hOthers r' (List.mem_cons_of_mem _ hr')

/-- The registry after some requests, from the empty one. -/
def reach (udptrans tcptrans : CString) (requests : List RpcbRequest) : Registry :=
  run (Registry.empty udptrans tcptrans) requests

end RpcbRequest

namespace Registry

open Keyed

variable {st : Registry}

/-- `map_set` does to the registry what is done to the map. -/
theorem directory_mapSet (regp : Rpcb) (owner : CString) :
    ((st.mapSet regp owner).1, (st.mapSet regp owner).2.directory) =
      st.directory.set regp owner := by
  rcases mapSet_cases st regp owner with ⟨rbl, hSome, hSame⟩ | ⟨hNone, hNew⟩
  · simp only [hSame, Directory.set, hSome]
  · obtain ⟨pml, hAdd⟩ := addPmaplist_same regp
      { st with listRbl := st.listRbl ++ [{ regp with rOwner := owner }] }
    have hMap : directory (addPmaplist regp
        { st with listRbl := st.listRbl ++ [{ regp with rOwner := owner }] }) =
          Function.update st.directory regp.key (some { regp with rOwner := owner }) := by
      rw [hAdd]
      exact lookup_append hNone
    simp only [hNew, Directory.set, hNone, hMap]

/-- What a registry with unique keys has in common with a finite map. -/
structure IsMap (st : Registry) : Prop where
  unique : Distinct Rpcb.key st.listRbl
  set_map : ∀ (regp : Rpcb) (owner : CString),
    ((st.mapSet regp owner).1, (st.mapSet regp owner).2.directory) = st.directory.set regp owner
  set_true : ∀ (regp : Rpcb) (owner : CString), (st.mapSet regp owner).1 = true ↔
    (∀ rbl ∈ st.listRbl, rbl.key ≠ regp.key) ∨
      ∃ rbl ∈ st.listRbl, rbl.key = regp.key ∧ rbl.rAddr = regp.rAddr
  set_new : ∀ (regp : Rpcb) (owner : CString), (∀ rbl ∈ st.listRbl, rbl.key ≠ regp.key) →
    (st.mapSet regp owner).2.listRbl = st.listRbl ++ [{ regp with rOwner := owner }]
  set_known : ∀ (regp : Rpcb) (owner : CString), (∃ rbl ∈ st.listRbl, rbl.key = regp.key) →
    (st.mapSet regp owner).2 = st
  find_exact : ∀ (prog vers : BitVec 32) (netid : CString), ∀ rbl ∈ st.listRbl,
    rbl.key = ⟨prog, vers, CString.fold netid⟩ → st.findService prog vers netid = some rbl
  find_other : ∀ (prog vers : BitVec 32) (netid : CString),
    (∀ rbl ∈ st.listRbl, rbl.key ≠ ⟨prog, vers, CString.fold netid⟩) →
    (∃ rbl ∈ st.listRbl, rbl.rProg = prog ∧ CString.SameCase rbl.rNetid netid) →
    ∃ rbl ∈ st.listRbl, st.findService prog vers netid = some rbl ∧ rbl.rProg = prog ∧
      CString.SameCase rbl.rNetid netid ∧ rbl.rVers ≠ vers
  find_none : ∀ (prog vers : BitVec 32) (netid : CString),
    (∀ rbl ∈ st.listRbl, ¬ (rbl.rProg = prog ∧ CString.SameCase rbl.rNetid netid)) →
    st.findService prog vers netid = none

theorem passed_iff (prog : BitVec 32) (netid : CString) (rbl : Rpcb) :
    Passed prog netid rbl ↔ ¬ (rbl.rProg = prog ∧ CString.SameCase rbl.rNetid netid) := by
  rw [Passed]
  tauto

theorem isMap (h : Distinct Rpcb.key st.listRbl) : st.IsMap where
  unique := h
  set_map := directory_mapSet
  set_true := by
    intro regp owner
    rcases mapSet_cases st regp owner with ⟨rbl, hSome, hSame⟩ | ⟨hNone, hNew⟩
    · obtain ⟨hMem, hKey⟩ := mem_of_lookup hSome
      rw [hSame, decide_eq_true_eq]
      refine ⟨fun hAddr => Or.inr ⟨rbl, hMem, hKey, hAddr⟩, ?_⟩
      rintro (hNew | ⟨rbl', hMem', hKey', hAddr⟩)
      · exact absurd hKey (hNew rbl hMem)
      · rwa [List.inj_on_of_nodup_map h hMem hMem' (hKey.trans hKey'.symm)]
    · rw [hNew]
      exact ⟨fun _ => Or.inl (lookup_eq_none.mp hNone), fun _ => rfl⟩
  set_new := by
    intro regp owner hFresh
    rcases mapSet_cases st regp owner with ⟨rbl, hSome, -⟩ | ⟨-, hNew⟩
    · obtain ⟨hMem, hKey⟩ := mem_of_lookup hSome
      exact absurd hKey (hFresh rbl hMem)
    · obtain ⟨pml, hAdd⟩ := addPmaplist_same regp
        { st with listRbl := st.listRbl ++ [{ regp with rOwner := owner }] }
      rw [hNew, hAdd]
  set_known := by
    rintro regp owner ⟨rbl, hMem, hKey⟩
    rcases mapSet_cases st regp owner with ⟨rbl', -, hSame⟩ | ⟨hNone, -⟩
    · rw [hSame]
    · exact absurd hKey (lookup_eq_none.mp hNone rbl hMem)
  find_exact := fun _ _ _ rbl hMem hKey => findService_exact (h.lookup_eq_some.mpr ⟨hMem, hKey⟩)
  find_other := by
    rintro prog vers netid hFresh ⟨rbl, hMem, hHere⟩
    rcases findService_other (lookup_eq_none.mpr hFresh) with
      ⟨rbl', hMem', hFound, hHere', hVers⟩ | ⟨hAll, -⟩
    · rw [passed_iff, not_not] at hHere'
      exact ⟨rbl', hMem', hFound, hHere'.1, hHere'.2, hVers⟩
    · exact absurd hHere ((passed_iff _ _ _).mp (hAll rbl hMem))
  find_none := by
    intro prog vers netid hNone
    have hFresh : ∀ rbl ∈ st.listRbl, rbl.key ≠ ⟨prog, vers, CString.fold netid⟩ := by
      intro rbl hMem hKey
      have hHere := ((key_eq_iff rbl prog vers netid).mp hKey).1
      rw [passed_iff, not_not] at hHere
      exact hNone rbl hMem hHere
    rcases findService_other (lookup_eq_none.mpr hFresh) with ⟨rbl, hMem, -, hHere, -⟩ | ⟨-, hFound⟩
    · rw [passed_iff, not_not] at hHere
      exact absurd hHere (hNone rbl hMem)
    · exact hFound

/-- After any requests the registry is a finite map, and what it then holds stays in it as
long as neither its owner nor the superuser asks. -/
theorem rpcbind_refines_map (udptrans tcptrans : CString) (requests : List RpcbRequest) :
    (RpcbRequest.reach udptrans tcptrans requests).IsMap ∧
    ∀ rbl ∈ (RpcbRequest.reach udptrans tcptrans requests).listRbl, ∀ more : List RpcbRequest,
      (∀ r ∈ more, r.owner ≠ rpcbindSuperuser ∧ r.owner ≠ rbl.rOwner) →
      rbl ∈ (RpcbRequest.reach udptrans tcptrans (requests ++ more)).listRbl := by
  have hEmpty : Distinct Rpcb.key (Registry.empty udptrans tcptrans).listRbl := List.nodup_nil
  refine ⟨isMap (RpcbRequest.run_unique hEmpty requests), fun rbl hMem more hOthers => ?_⟩
  rw [RpcbRequest.reach, RpcbRequest.run, List.foldl_append]
  exact RpcbRequest.mem_run hMem hOthers

end Registry
end OncRpc
