import Mathlib.Data.List.Induction
import OncRpc.Rpcbind.Coherence

/-! `rpcbind.c`: the registries that rpcbind starts with, which it builds from its own
transports. -/
namespace OncRpc

open Keyed

/-- `PMAPPROG` and `RPCBPROG`, which are the same program. -/
def pmapprog : BitVec 32 := 100000
def rpcbprog : BitVec 32 := 100000

def pmapvers : BitVec 32 := 2
def rpcbvers : BitVec 32 := 3
def rpcbvers4 : BitVec 32 := 4

/-- `PMAPPORT`. -/
def pmapport : Nat := 111

namespace Registry

/-- `rbllist_add`. The address is what `taddr2uaddr` returns. -/
def rbllistAdd (prog vers : BitVec 32) (nconf : Netconfig) (uaddr : Option CString)
    (st : Registry) : Registry :=
  match uaddr with
  | none => st
  | some addr =>
      { st with
        listRbl := { rProg := prog, rVers := vers, rNetid := nconf.ncNetid, rAddr := addr
                     rOwner := rpcbindSuperuser } :: st.listRbl }

/-- The entries of the port mapper for the three versions, and the registration of the
second. -/
def registerPmap (prot : Nat) (nconf : Netconfig) (uaddr : Option CString) (st : Registry) :
    Registry :=
  let pml (vers : BitVec 32) : Pmap :=
    { pmProg := pmapprog, pmVers := vers, pmProt := prot, pmPort := pmapport }
  rbllistAdd pmapprog pmapvers nconf uaddr
    { st with listPml := pml rpcbvers4 :: pml rpcbvers :: pml pmapvers :: st.listPml }

/-- The registrations of the versions 3 and 4. -/
def registerRpcb (nconf : Netconfig) (uaddr : Option CString) (st : Registry) : Registry :=
  rbllistAdd rpcbprog rpcbvers4 nconf uaddr (rbllistAdd rpcbprog rpcbvers nconf uaddr st)

/-- What `init_transport` does to the registries, when the services can be registered. A
second transport of one protocol is an error. -/
def initTransport (nconf : Netconfig) (uaddr : Option CString) (st : Registry) : Registry :=
  if nconf.ncProtofmly = CString.ascii "inet" ∧
      (nconf.ncProto = CString.ascii "tcp" ∨ nconf.ncProto = CString.ascii "udp") ∨
      nconf.ncNetid = CString.ascii "local" then
    if nconf.ncProto = CString.ascii "tcp" then
      if st.tcptrans ≠ [] then st
      else registerRpcb nconf uaddr
        (registerPmap ipprotoTcp nconf uaddr { st with tcptrans := nconf.ncNetid })
    else if nconf.ncProto = CString.ascii "udp" then
      if st.udptrans ≠ [] then st
      else registerRpcb nconf uaddr
        (registerPmap ipprotoUdp nconf uaddr { st with udptrans := nconf.ncNetid })
    else registerRpcb nconf uaddr (registerPmap 0 nconf uaddr st)
  else registerRpcb nconf uaddr st

/-- All the transports, one after the other. -/
def initTransports (transports : List (Netconfig × CString)) : Registry :=
  transports.foldl (fun st t => initTransport t.1 (some t.2) st) (Registry.empty [] [])

/-- An entry that rpcbind makes for itself. -/
def ownEntry (netid addr : CString) (vers : BitVec 32) : Rpcb :=
  { rProg := pmapprog, rVers := vers, rNetid := netid, rAddr := addr, rOwner := rpcbindSuperuser }

def ownPmap (prot : Nat) (vers : BitVec 32) : Pmap :=
  { pmProg := pmapprog, pmVers := vers, pmProt := prot, pmPort := pmapport }

theorem registerRpcb_eq (nconf : Netconfig) (addr : CString) (st : Registry) :
    registerRpcb nconf (some addr) st =
      { st with
        listRbl := [rpcbvers4, rpcbvers].map (ownEntry nconf.ncNetid addr) ++ st.listRbl } := rfl

theorem registerPmap_eq (prot : Nat) (nconf : Netconfig) (addr : CString) (st : Registry) :
    registerRpcb nconf (some addr) (registerPmap prot nconf (some addr) st) =
      { st with
        listRbl := [rpcbvers4, rpcbvers, pmapvers].map (ownEntry nconf.ncNetid addr) ++ st.listRbl
        listPml := [rpcbvers4, rpcbvers, pmapvers].map (ownPmap prot) ++ st.listPml } := rfl

/-- A transport with its address. For IPv4, `taddr2uaddr` writes the port of rpcbind, which
is the port mapper's. -/
structure Served (t : Netconfig × CString) : Prop where
  netid_ne : t.1.ncNetid ≠ []
  port_eq : t.1.ncProtofmly = CString.ascii "inet" ∨ t.1.ncNetid = CString.ascii "local" →
    t.1.ncProto = CString.ascii "tcp" ∨ t.1.ncProto = CString.ascii "udp" →
    parsedPort t.2 = some (pmapport : Int)

variable {st st' : Registry}

theorem views_ownEntry {netid addr : CString} {vers : BitVec 32} {pml : Pmap}
    (hAddr : ∀ p, Alike st netid p → parsedPort addr = some (pmapport : Int)) :
    Views st (ownEntry netid addr vers) pml ↔
      Alike st netid pml.pmProt ∧ pml = ownPmap pml.pmProt vers := by
  constructor
  · intro h
    have hPort := h.port_eq.symm.trans (hAddr _ h.alike)
    have hSame : pml.pmPort = pmapport := Int.ofNat_inj.mp (Option.some.inj hPort)
    refine ⟨h.alike, ?_⟩
    cases pml
    simp only [ownPmap, Pmap.mk.injEq, true_and]
    exact ⟨h.prog_eq, h.vers_eq, hSame⟩
  · rintro ⟨hAlike, hPml⟩
    refine ⟨⟨?_, ?_, hAlike⟩, ?_⟩
    · rw [hPml]
      rfl
    · rw [hPml]
      rfl
    · rw [hPml]
      exact hAddr _ hAlike

/-- New entries of one netid in both lists. -/
theorem coherent_prepend {netid addr : CString} {prot : Nat} {vs ws : List (BitVec 32)}
    (hCoherent : st.Coherent)
    (hRbl : st'.listRbl = vs.map (ownEntry netid addr) ++ st.listRbl)
    (hPml : st'.listPml = ws.map (ownPmap prot) ++ st.listPml)
    (hOld : ∀ rbl ∈ st.listRbl, ∀ p, Alike st' rbl.rNetid p ↔ Alike st rbl.rNetid p)
    (hNew : ∀ v p, p = ipprotoTcp ∨ p = ipprotoUdp →
      (v ∈ vs ∧ Alike st' netid p ↔ v ∈ ws ∧ p = prot))
    (hAddr : ∀ p, Alike st' netid p → parsedPort addr = some (pmapport : Int)) :
    st'.Coherent := by
  intro pml hIp
  have hOwn : (∃ rbl ∈ vs.map (ownEntry netid addr), Views st' rbl pml) ↔
      pml ∈ ws.map (ownPmap prot) := by
    simp only [List.mem_map, exists_exists_and_eq_and, views_ownEntry hAddr]
    constructor
    · rintro ⟨vers, hMem, hAlike, hPml⟩
      obtain ⟨hMem', hProt⟩ := (hNew vers _ hIp).mp ⟨hMem, hAlike⟩
      exact ⟨vers, hMem', by rw [hPml, ← hProt]⟩
    · rintro ⟨vers, hMem, hPml⟩
      have hProt : pml.pmProt = prot := by rw [← hPml]; rfl
      obtain ⟨hMem', hAlike⟩ := (hNew vers _ hIp).mpr ⟨hMem, hProt⟩
      exact ⟨vers, hMem', hAlike, by rw [hProt, hPml]⟩
  have hOthers : (∃ rbl ∈ st.listRbl, Views st' rbl pml) ↔ ∃ rbl ∈ st.listRbl, Views st rbl pml := by
    refine exists_congr fun rbl => and_congr_right fun hMem => ?_
    have hAlike := hOld rbl hMem pml.pmProt
    exact ⟨fun h => ⟨⟨h.prog_eq, h.vers_eq, hAlike.mp h.alike⟩, h.port_eq⟩,
      fun h => ⟨⟨h.prog_eq, h.vers_eq, hAlike.mpr h.alike⟩, h.port_eq⟩⟩
  rw [hRbl, hPml, List.mem_append, hCoherent pml hIp, ← hOthers, ← hOwn]
  simp only [List.mem_append, or_and_right, exists_or]

theorem unique_prepend {netid addr : CString} {vs : List (BitVec 32)} {l : List Rpcb}
    (h : Distinct Rpcb.key l) (hVers : vs.Nodup)
    (hNew : ∀ rbl ∈ l, ¬ CString.SameCase netid rbl.rNetid) :
    Distinct Rpcb.key (vs.map (ownEntry netid addr) ++ l) := by
  rw [Distinct, List.map_append, List.map_map, List.nodup_append]
  refine ⟨hVers.map fun v v' hSame => congrArg ServiceKey.vers hSame, h, ?_⟩
  intro k hk k' hk' hSame
  obtain ⟨v, -, rfl⟩ := List.mem_map.mp hk
  obtain ⟨rbl, hMem, rfl⟩ := List.mem_map.mp hk'
  exact hNew rbl hMem (congrArg ServiceKey.netid hSame)

/-- The registries while the transports with these netids have been served. -/
structure Building (names : List CString) (st : Registry) : Prop where
  coherent : st.Coherent
  unique : Distinct Rpcb.key st.listRbl
  netid_mem : ∀ rbl ∈ st.listRbl, rbl.rNetid ∈ names
  udp : st.udptrans = [] ∨ st.udptrans ∈ names
  tcp : st.tcptrans = [] ∨ st.tcptrans ∈ names

theorem sameCase_nil {netid : CString} (h : CString.SameCase netid []) : netid = [] :=
  List.map_eq_nil_iff.mp h

/-- A netid of its own is not that of a transport before. -/
theorem Building.not_sameCase {names : List CString} {trans netid : CString}
    (hTrans : trans = [] ∨ trans ∈ names) (hNe : netid ≠ [])
    (hNew : ∀ name ∈ names, ¬ CString.SameCase netid name) : ¬ CString.SameCase netid trans := by
  intro hSame
  rcases hTrans with rfl | hMem
  · exact hNe (sameCase_nil hSame)
  · exact hNew trans hMem hSame

/-- A transport of its own netid, with the entries that are made for it. -/
theorem Building.prepend {names : List CString} {netid addr : CString} {prot : Nat}
    {vs ws : List (BitVec 32)} (h : Building names st) (hVers : vs.Nodup)
    (hFresh : ∀ name ∈ names, ¬ CString.SameCase netid name)
    (hRbl : st'.listRbl = vs.map (ownEntry netid addr) ++ st.listRbl)
    (hPml : st'.listPml = ws.map (ownPmap prot) ++ st.listPml)
    (hOld : ∀ rbl ∈ st.listRbl, ∀ p, Alike st' rbl.rNetid p ↔ Alike st rbl.rNetid p)
    (hNew : ∀ v p, p = ipprotoTcp ∨ p = ipprotoUdp →
      (v ∈ vs ∧ Alike st' netid p ↔ v ∈ ws ∧ p = prot))
    (hAddr : ∀ p, Alike st' netid p → parsedPort addr = some (pmapport : Int))
    (hUdp : st'.udptrans = st.udptrans ∨ st'.udptrans = netid)
    (hTcp : st'.tcptrans = st.tcptrans ∨ st'.tcptrans = netid) :
    Building (netid :: names) st' where
  coherent := coherent_prepend h.coherent hRbl hPml hOld hNew hAddr
  unique := by
    rw [hRbl]
    exact unique_prepend h.unique hVers fun rbl hMem => hFresh _ (h.netid_mem rbl hMem)
  netid_mem := by
    rw [hRbl]
    intro rbl hMem
    rcases List.mem_append.mp hMem with hOwn | hThere
    · obtain ⟨v, -, rfl⟩ := List.mem_map.mp hOwn
      exact List.mem_cons_self
    · exact List.mem_cons_of_mem _ (h.netid_mem rbl hThere)
  udp := by
    rcases hUdp with hSame | hSame
    · rw [hSame]
      exact h.udp.imp_right (List.mem_cons_of_mem _)
    · exact Or.inr (hSame ▸ List.mem_cons_self)
  tcp := by
    rcases hTcp with hSame | hSame
    · rw [hSame]
      exact h.tcp.imp_right (List.mem_cons_of_mem _)
    · exact Or.inr (hSame ▸ List.mem_cons_self)

/-- A transport that the port mapper does not have for TCP or UDP. -/
theorem Building.prepend_other {names : List CString} {netid addr : CString}
    (vs ws : List (BitVec 32)) (h : Building names st) (hVers : vs.Nodup) (hNe : netid ≠ [])
    (hFresh : ∀ name ∈ names, ¬ CString.SameCase netid name) :
    Building (netid :: names) { st with
      listRbl := vs.map (ownEntry netid addr) ++ st.listRbl
      listPml := ws.map (ownPmap 0) ++ st.listPml } := by
  have hNot : ∀ p, ¬ Alike st netid p := by
    rintro p (⟨hSame, -⟩ | ⟨hSame, -⟩)
    · exact Building.not_sameCase h.udp hNe hFresh hSame
    · exact Building.not_sameCase h.tcp hNe hFresh hSame
  refine h.prepend hVers hFresh rfl rfl (fun rbl _ p => Iff.rfl) (fun v p hIp => ?_)
    (fun p hBad => absurd hBad (hNot p)) (Or.inl rfl) (Or.inl rfl)
  constructor
  · rintro ⟨-, hBad⟩
    exact absurd hBad (hNot p)
  · rintro ⟨-, rfl⟩
    rcases hIp with hBad | hBad <;> exact absurd hBad (by decide)

/-- The first transport for TCP or UDP. -/
theorem Building.prepend_ip {names : List CString} {netid addr : CString} {prot : Nat}
    (vs : List (BitVec 32)) (h : Building names st) (hVers : vs.Nodup) (hNe : netid ≠ [])
    (hNames : ∀ name ∈ names, name ≠ [])
    (hFresh : ∀ name ∈ names, ¬ CString.SameCase netid name)
    (hAddr : parsedPort addr = some (pmapport : Int))
    (hRbl : st'.listRbl = vs.map (ownEntry netid addr) ++ st.listRbl)
    (hPml : st'.listPml = vs.map (ownPmap prot) ++ st.listPml)
    (hTrans : prot = ipprotoTcp ∧ st.tcptrans = [] ∧ st'.tcptrans = netid ∧
        st'.udptrans = st.udptrans ∨
      prot = ipprotoUdp ∧ st.udptrans = [] ∧ st'.udptrans = netid ∧
        st'.tcptrans = st.tcptrans) :
    Building (netid :: names) st' := by
  have hOldNot : ∀ rbl ∈ st.listRbl, ¬ CString.SameCase rbl.rNetid netid :=
    fun rbl hMem hSame => hFresh _ (h.netid_mem rbl hMem) hSame.symm
  have hOldNe : ∀ rbl ∈ st.listRbl, ¬ CString.SameCase rbl.rNetid [] :=
    fun rbl hMem hSame => hNames _ (h.netid_mem rbl hMem) (sameCase_nil hSame)
  rcases hTrans with ⟨rfl, hNone, hSet, hSame⟩ | ⟨rfl, hNone, hSet, hSame⟩
  · refine h.prepend hVers hFresh hRbl hPml (fun rbl hMem p => ?_) (fun v p hIp => ?_)
      (fun _ _ => hAddr) (Or.inl hSame) (Or.inr hSet)
    · rw [Alike, Alike, hSet, hSame, hNone]
      simp [hOldNot rbl hMem, hOldNe rbl hMem]
    · rw [Alike, hSet, hSame]
      simp [Building.not_sameCase h.udp hNe hFresh, CString.SameCase.refl]
  · refine h.prepend hVers hFresh hRbl hPml (fun rbl hMem p => ?_) (fun v p hIp => ?_)
      (fun _ _ => hAddr) (Or.inr hSet) (Or.inl hSame)
    · rw [Alike, Alike, hSet, hSame, hNone]
      simp [hOldNot rbl hMem, hOldNe rbl hMem]
    · rw [Alike, hSet, hSame]
      simp [Building.not_sameCase h.tcp hNe hFresh, CString.SameCase.refl]

theorem Building.weaken {names : List CString} {netid : CString} (h : Building names st) :
    Building (netid :: names) st where
  coherent := h.coherent
  unique := h.unique
  netid_mem := fun rbl hMem => List.mem_cons_of_mem _ (h.netid_mem rbl hMem)
  udp := h.udp.imp_right (List.mem_cons_of_mem _)
  tcp := h.tcp.imp_right (List.mem_cons_of_mem _)

/-- What `init_transport` adds keeps the lists coherent. -/
theorem Building.initTransport {names : List CString} {t : Netconfig × CString}
    (h : Building names st) (hServed : Served t) (hNames : ∀ name ∈ names, name ≠ [])
    (hFresh : ∀ name ∈ names, ¬ CString.SameCase t.1.ncNetid name) :
    Building (t.1.ncNetid :: names) (Registry.initTransport t.1 (some t.2) st) := by
  have hNe := hServed.netid_ne
  unfold Registry.initTransport
  split
  · next hPmap =>
      have hFamily : t.1.ncProtofmly = CString.ascii "inet" ∨ t.1.ncNetid = CString.ascii "local" :=
        hPmap.imp_left And.left
      split
      · next hTcp =>
          have hAddr := hServed.port_eq hFamily (Or.inl hTcp)
          split
          · exact h.weaken
          · next hFirst =>
              rw [ne_eq, not_not] at hFirst
              exact h.prepend_ip [rpcbvers4, rpcbvers, pmapvers] (by decide) hNe hNames hFresh hAddr
                (by rw [registerPmap_eq]) (by rw [registerPmap_eq])
                (Or.inl ⟨rfl, hFirst, rfl, rfl⟩)
      · split
        · next hUdp =>
            have hAddr := hServed.port_eq hFamily (Or.inr hUdp)
            split
            · exact h.weaken
            · next hFirst =>
                rw [ne_eq, not_not] at hFirst
                exact h.prepend_ip [rpcbvers4, rpcbvers, pmapvers] (by decide) hNe hNames hFresh hAddr
                  (by rw [registerPmap_eq]) (by rw [registerPmap_eq])
                  (Or.inr ⟨rfl, hFirst, rfl, rfl⟩)
        · rw [registerPmap_eq]
          exact h.prepend_other _ _ (by decide) hNe hFresh
  · rw [registerRpcb_eq]
    exact h.prepend_other _ [] (by decide) hNe hFresh

/-- The induction is on the transports, from the last. -/
theorem building_initTransports {transports : List (Netconfig × CString)}
    (hServed : ∀ t ∈ transports, Served t)
    (hApart : transports.Pairwise fun t u => ¬ CString.SameCase u.1.ncNetid t.1.ncNetid) :
    Building (transports.reverse.map fun t => t.1.ncNetid) (initTransports transports) := by
  induction transports using List.reverseRecOn with
  | nil =>
      exact { coherent := fun pml _ => by simp [initTransports, Registry.empty]
              unique := List.nodup_nil
              netid_mem := fun rbl hMem => (by cases hMem)
              udp := Or.inl rfl
              tcp := Or.inl rfl }
  | append_singleton transports t ih =>
      obtain ⟨hBefore, -, hLast⟩ := List.pairwise_append.mp hApart
      have hBuilding := ih (fun u hMem => hServed u (List.mem_append_left _ hMem)) hBefore
      have hStep : initTransports (transports ++ [t]) =
          initTransport t.1 (some t.2) (initTransports transports) := by
        rw [initTransports, List.foldl_append]
        rfl
      rw [hStep, List.reverse_append, List.reverse_singleton, List.singleton_append, List.map_cons]
      apply hBuilding.initTransport (hServed t (List.mem_append_right _ List.mem_cons_self))
      · intro name hName
        obtain ⟨u, hMem, rfl⟩ := List.mem_map.mp hName
        exact (hServed u (List.mem_append_left _ (List.mem_reverse.mp hMem))).netid_ne
      · intro name hName
        obtain ⟨u, hMem, rfl⟩ := List.mem_map.mp hName
        exact hLast u (List.mem_reverse.mp hMem) t List.mem_cons_self

/-- The registries that a run starts with: those that rpcbind builds from transports of
different netids, or empty ones. -/
inductive Started : Registry → Prop
  | built (transports : List (Netconfig × CString)) (hServed : ∀ t ∈ transports, Served t)
      (hApart : transports.Pairwise fun t u => ¬ CString.SameCase u.1.ncNetid t.1.ncNetid) :
      Started (initTransports transports)
  | empty (udptrans tcptrans : CString) : Started (Registry.empty udptrans tcptrans)

theorem Started.coherent (h : Started st) : st.Coherent := by
  cases h with
  | built transports hServed hApart => exact (building_initTransports hServed hApart).coherent
  | empty udptrans tcptrans =>
      intro pml _
      simp [Registry.empty]

theorem Started.unique (h : Started st) : Distinct Rpcb.key st.listRbl := by
  cases h with
  | built transports hServed hApart => exact (building_initTransports hServed hApart).unique
  | empty udptrans tcptrans => exact List.nodup_nil

/-- The two registries are coherent after every request of a run exactly when every request
of it is all right where it comes. -/
theorem registries_coherent_iff (h : Started st) (requests : List RpcbRequest) :
    (∀ done, done <+: requests → (RpcbRequest.run st done).Coherent) ↔
      RpcbRequest.AllOk st requests :=
  RpcbRequest.coherent_run_iff h.coherent h.unique requests

/-- A program is registered with the netid in capitals. -/
def capitalRequest : RpcbRequest :=
  .set { rProg := 200000, rVers := 1, rNetid := CString.ascii "TCP"
         rAddr := CString.ascii "0.0.0.0.2.1", rOwner := [] } (CString.ascii "7")

/-- IPv4 over TCP. -/
def tcpTransport : Netconfig × CString :=
  ({ ncNetid := CString.ascii "tcp", ncProtofmly := CString.ascii "inet"
     ncProto := CString.ascii "tcp" }, CString.ascii "0.0.0.0.0.111")

theorem started_tcp : Started (initTransports [tcpTransport]) := by
  apply Started.built
  · intro t hMem
    rw [List.mem_singleton.mp hMem]
    exact ⟨by decide, fun _ _ => by decide⟩
  · exact List.pairwise_singleton _ _

theorem registries_coherent_iff_tcp :
    (∀ done, done <+: [capitalRequest] →
      (RpcbRequest.run (initTransports [tcpTransport]) done).Coherent) ↔
      RpcbRequest.AllOk (initTransports [tcpTransport]) [capitalRequest] :=
  registries_coherent_iff started_tcp [capitalRequest]

/-- The versions 3 and 4 know of the program, and the port mapper does not. -/
theorem not_registries_coherent_capital :
    ¬ ∀ (st : Registry) (requests : List RpcbRequest), Started st →
      (RpcbRequest.run st requests).Coherent := by
  intro h
  have hCoherent := h (initTransports [tcpTransport]) [capitalRequest] started_tcp
  have hOther : (∃ rbl ∈ (RpcbRequest.run (initTransports [tcpTransport])
      [capitalRequest]).listRbl, Views (RpcbRequest.run (initTransports [tcpTransport])
        [capitalRequest]) rbl
        { pmProg := 200000, pmVers := 1, pmProt := ipprotoTcp, pmPort := 513 }) := by
    refine ⟨{ rProg := 200000, rVers := 1, rNetid := CString.ascii "TCP"
              rAddr := CString.ascii "0.0.0.0.2.1", rOwner := CString.ascii "7" }, ?_,
      ⟨rfl, rfl, Or.inr ⟨?_, rfl⟩⟩, ?_⟩ <;> decide
  exact absurd ((hCoherent _ (Or.inl rfl)).mpr hOther) (by decide)

end Registry
end OncRpc
