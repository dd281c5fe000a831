import OncRpc.Base.Runs
import OncRpc.Net.Netpath

/-! The chain of the entries that a session of `getnetpath` has returned, in memory, and what
`endnetpath` frees of them. -/
namespace OncRpc

/-- `struct netpath_chain`. -/
structure NetpathChain where
  ncp : Nat
  nchainNext : Option Nat

/-- `struct netpath_vars` of a session for which `NETPATH` was set, and the memory of what it has
allocated. -/
structure NetpathSession where
  netpath : Option CString
  ncpList : Option Nat
  chains : Heap NetpathChain
  ncps : Heap NcEntry

/-- What a call meets: what `getnetconfigent` finds, and whether there is memory for the chain. -/
structure NetpathCall where
  getnetconfigent : CString → Option NcEntry
  room : Bool

/-- The search of `getnetpath`, with a bound on its rounds: the entry, and what it leaves of
`NETPATH`. -/
def nextFound (getnetconfigent : CString → Option NcEntry) :
    Nat → Option CString → Option NcEntry × Option CString
  | 0, netpath => (none, netpath)
  | _ + 1, none => (none, none)
  | n + 1, some npp =>
      if npp = [] then (none, some npp)
      else
        let (npp, ros) := getNextToken npp netpathToken
        match getnetconfigent npp with
        | some ncp => (some ncp, ros)
        | none => nextFound getnetconfigent n ros

def searchNetpath (getnetconfigent : CString → Option NcEntry) (netpath : Option CString) :
    Option NcEntry × Option CString :=
  nextFound getnetconfigent ((netpath.getD []).length + 1) netpath

namespace NetpathSession

/-- `setnetpath`. -/
def setnetpath (npp : CString) : NetpathSession where
  netpath := some npp
  ncpList := none
  chains := .empty
  ncps := .empty

/-- `getnetpath`. `getnetconfigent` has allocated the entry that it found. -/
def getnetpath (c : NetpathCall) (np : NetpathSession) : Option (Option Nat × NetpathSession) :=
  match searchNetpath c.getnetconfigent np.netpath with
  | (none, netpath) => some (none, { np with netpath := netpath })
  | (some found, netpath) =>
      let (ncp, ncps) := np.ncps.malloc found
      if c.room then
        let (chainp, chains) := np.chains.malloc { ncp := ncp, nchainNext := none }
        match np.ncpList with
        | none => some (some ncp, ⟨netpath, some chainp, chains, ncps⟩)
        | some head => do
            let first ← chains.read head
            let chains ← chains.store head { first with nchainNext := some chainp }
            some (some ncp, ⟨netpath, some head, chains, ncps⟩)
      else do
        let ncps ← ncps.free ncp
        some (none, { np with netpath := netpath, ncps := ncps })

/-- The loop of `endnetpath`, with a bound on its rounds. -/
def freeChain : Nat → Option Nat → Heap NetpathChain → Heap NcEntry →
    Option (Heap NetpathChain × Heap NcEntry)
  | _, none, chains, ncps => some (chains, ncps)
  | 0, some _, _, _ => none
  | n + 1, some chainp, chains, ncps => do
      let chain ← chains.read chainp
      let ncps ← ncps.free chain.ncp
      let chains ← chains.free chainp
      freeChain n chain.nchainNext chains ncps

/-- `endnetpath`. -/
def endnetpath (np : NetpathSession) : Option (Heap NetpathChain × Heap NcEntry) :=
  freeChain np.chains.brk np.ncpList np.chains np.ncps

end NetpathSession

/-- A session, and the entries that its calls have returned. -/
structure NetpathRun where
  np : NetpathSession
  returned : List Nat

namespace NetpathRun

def start (npp : CString) : NetpathRun := ⟨.setnetpath npp, []⟩

def step (r : NetpathRun) (c : NetpathCall) : Option NetpathRun :=
  (r.np.getnetpath c).map fun (ncp, np) => ⟨np, r.returned ++ ncp.toList⟩

/-- The entries are on the chain in their order, and `endnetpath` frees them all. None is freed
twice, for there is no second time for `Heap.free`. -/
structure Keeps (r : NetpathRun) : Prop where
  reachable : ∃ ps, Heap.Linked NetpathChain.nchainNext r.np.chains r.np.ncpList ps ∧
    (ps.map fun p => (r.np.chains.read p).map NetpathChain.ncp) = r.returned.map some
  freed : ∃ chains ncps, r.np.endnetpath = some (chains, ncps) ∧
    ∀ ncp ∈ r.returned, ncps.read ncp = none

end NetpathRun

/-- How many of the calls find a component of `NETPATH`. -/
def handedOut : Option CString → List NetpathCall → Nat
  | _, [] => 0
  | netpath, c :: calls =>
      let (ncp, netpath) := searchNetpath c.getnetconfigent netpath
      (if ncp.isSome ∧ c.room then 1 else 0) + handedOut netpath calls

/-! ### What is on the chain -/

/-- The first entry and the last. -/
def ends : List Nat → List Nat
  | [] => []
  | ncp :: ncps => ncp :: ncps.getLast?.toList

theorem ends_concat (ncps : List Nat) (ncp : Nat) :
    ends (ncps ++ [ncp]) = (ncps.head?).toList ++ [ncp] := by
  rcases ncps with - | ⟨first, rest⟩
  · rfl
  · rw [List.cons_append, ends, List.getLast?_concat]
    rfl

theorem ends_eq_self_iff (ncps : List Nat) : ends ncps = ncps ↔ ncps.length ≤ 2 := by
  rcases ncps with - | ⟨first, _ | ⟨second, _ | ⟨third, rest⟩⟩⟩
  · exact iff_of_true rfl (Nat.zero_le _)
  · exact iff_of_true rfl (Nat.le_succ _)
  · exact iff_of_true rfl (Nat.le_refl _)
  · refine iff_of_false (fun hSame => ?_) (by simp)
    have hLength := congrArg List.length hSame
    rw [ends, List.length_cons, List.length_cons, List.length_cons, List.length_cons] at hLength
    have hShort : ((second :: third :: rest).getLast?.toList).length ≤ 1 := by
      cases (second :: third :: rest).getLast? <;> simp
    omega

/-- What holds of a session: its chain leads to the first and to the last of the entries. -/
structure NetpathSession.Holds (np : NetpathSession) (returned ps : List Nat) : Prop where
  linked : Heap.Linked NetpathChain.nchainNext np.chains np.ncpList ps
  nodup : ps.Nodup
  ends : (ps.map fun p => (np.chains.read p).map NetpathChain.ncp) = (ends returned).map some
  live : ∀ ncp ∈ returned, (np.ncps.read ncp).isSome
  distinct : returned.Nodup

namespace NetpathSession

variable {np : NetpathSession} {returned ps : List Nat}

theorem holds_setnetpath (npp : CString) : (setnetpath npp).Holds [] [] where
  linked := rfl
  nodup := List.nodup_nil
  ends := rfl
  live := fun _ h => nomatch h
  distinct := List.nodup_nil

theorem Holds.of_same {np' : NetpathSession} (h : np.Holds returned ps)
    (hList : np'.ncpList = np.ncpList) (hChains : np'.chains = np.chains)
    (hNcps : ∀ ncp ∈ returned, np'.ncps.read ncp = np.ncps.read ncp) : np'.Holds returned ps where
  linked := by
    rw [hList, hChains]
    exact h.linked
  nodup := h.nodup
  ends := by
    rw [hChains]
    exact h.ends
  live := fun ncp hMem => (hNcps ncp hMem).symm ▸ h.live ncp hMem
  distinct := h.distinct

/-- An entry is returned. -/
theorem Holds.add (h : np.Holds returned ps) (found : NcEntry) (netpath : Option CString)
    (c : NetpathCall) (hSearch : searchNetpath c.getnetconfigent np.netpath = (some found, netpath))
    (hRoom : c.room = true) :
    ∃ np' ps', np.getnetpath c = some (some np.ncps.brk, np') ∧ np'.netpath = netpath ∧
      np'.Holds (returned ++ [np.ncps.brk]) ps' := by
  have hOld : ∀ ncp ∈ returned, ncp < np.ncps.brk := by
    intro ncp hMem
    obtain ⟨e, hRead⟩ := Option.isSome_iff_exists.mp (h.live ncp hMem)
    exact Heap.lt_brk_of_read hRead
  have hLive : ∀ ncp ∈ returned ++ [np.ncps.brk], ((np.ncps.malloc found).2.read ncp).isSome := by
    intro ncp hMem
    rw [Heap.read_malloc]
    split
    · rfl
    · next hNot =>
        rcases List.mem_append.mp hMem with hBefore | hNew
        · exact h.live ncp hBefore
        · exact absurd (List.mem_singleton.mp hNew) hNot
  have hDistinct : (returned ++ [np.ncps.brk]).Nodup := by
    rw [← List.concat_eq_append]
    exact h.distinct.concat fun hMem => Nat.lt_irrefl _ (hOld _ hMem)
  have hEnds := h.ends
  cases hList : np.ncpList with
  | none =>
      obtain rfl : ps = [] := by
        cases ps with
        | nil => rfl
        | cons p ps => exact absurd (hList.symm.trans h.linked.1) nofun
      obtain rfl : returned = [] := by
        cases returned with
        | nil => rfl
        | cons ncp ncps => exact absurd hEnds nofun
      refine ⟨⟨netpath, some np.chains.brk, (np.chains.malloc ⟨np.ncps.brk, none⟩).2,
        (np.ncps.malloc found).2⟩, [np.chains.brk], ?_, rfl, ?_, List.nodup_singleton _, ?_, hLive,
        hDistinct⟩
      · simp only [getnetpath, hSearch, hRoom, if_true, hList, Heap.malloc_fst]
      · exact ⟨rfl, _, Heap.read_malloc_brk _ _, rfl⟩
      · rw [List.map_singleton, Heap.read_malloc_brk]
        rfl
  | some head =>
      rcases ps with - | ⟨p, ps⟩
      · exact absurd (hList.symm.trans h.linked) nofun
      obtain ⟨hHead, first, hFirst, -⟩ := h.linked
      obtain rfl : head = p := Option.some.inj (hList.symm.trans hHead)
      rcases returned with - | ⟨ncp, ncps⟩
      · exact absurd hEnds nofun
      have hNcp : first.ncp = ncp := by
        rw [List.map_cons, hFirst] at hEnds
        exact Option.some.inj (List.cons.inj hEnds).1
      -- the head is linked to the new entry, whatever it was linked to
      have hNew : head ≠ np.chains.brk := Nat.ne_of_lt (Heap.lt_brk_of_read hFirst)
      have hStill := Heap.read_malloc_of_read (b := (⟨np.ncps.brk, none⟩ : NetpathChain)) hFirst
      obtain ⟨chains, hStore, hStored⟩ := Heap.store_of_read hStill
        { first with nchainNext := some np.chains.brk }
      have hReadHead : chains.read head = some { first with nchainNext := some np.chains.brk } := by
        rw [hStored.read, if_pos rfl]
      have hReadNew : chains.read np.chains.brk = some ⟨np.ncps.brk, none⟩ := by
        rw [hStored.read, if_neg hNew.symm, Heap.read_malloc_brk]
      refine ⟨⟨netpath, some head, chains, (np.ncps.malloc found).2⟩, [head, np.chains.brk], ?_,
        rfl, ?_, ?_, ?_, hLive, hDistinct⟩
      · simp only [getnetpath, hSearch, hRoom, if_true, hList, Heap.malloc_fst, hStill, hStore,
          Option.bind_eq_bind, Option.bind_some]
      · exact ⟨rfl, _, hReadHead, rfl, _, hReadNew, rfl⟩
      · simpa using hNew
      · rw [List.map_cons, List.map_singleton, hReadHead, hReadNew, ends_concat]
        simp [hNcp]

/-- A call adds what it returns, and it returns what it finds, if there is memory. -/
theorem Holds.getnetpath (h : np.Holds returned ps) (c : NetpathCall) :
    ∃ ncp np' ps', np.getnetpath c = some (ncp, np') ∧
      np'.netpath = (searchNetpath c.getnetconfigent np.netpath).2 ∧
      np'.Holds (returned ++ ncp.toList) ps' ∧
      ncp.toList.length =
        if (searchNetpath c.getnetconfigent np.netpath).1.isSome ∧ c.room then 1 else 0 := by
  rcases hSearch : searchNetpath c.getnetconfigent np.netpath with ⟨_ | found, netpath⟩
  · refine ⟨none, { np with netpath := netpath }, ps, ?_, rfl, ?_, ?_⟩
    · simp only [NetpathSession.getnetpath, hSearch]
    · rw [Option.toList_none, List.append_nil]
      exact h.of_same rfl rfl fun _ _ => rfl
    · simp
  · cases hRoom : c.room with
    | true =>
        obtain ⟨np', ps', hRun, hNetpath, hHolds⟩ := h.add found netpath c hSearch hRoom
        exact ⟨_, np', ps', hRun, hNetpath, hHolds, rfl⟩
    | false =>
        obtain ⟨ncps, hFree, hFreed⟩ := Heap.free_of_read (Heap.read_malloc_brk np.ncps found)
        refine ⟨none, { np with netpath := netpath, ncps := ncps }, ps, ?_, rfl, ?_, ?_⟩
        · simp only [NetpathSession.getnetpath, hSearch, hRoom, Bool.false_eq_true, if_false,
            Heap.malloc_fst, hFree, Option.bind_eq_bind, Option.bind_some]
        · rw [Option.toList_none, List.append_nil]
          refine h.of_same rfl rfl fun ncp hMem => ?_
          obtain ⟨e, hRead⟩ := Option.isSome_iff_exists.mp (h.live ncp hMem)
          have hNe : ncp ≠ np.ncps.brk := Nat.ne_of_lt (Heap.lt_brk_of_read hRead)
          show ncps.read ncp = _
          rw [hFreed.read, if_neg hNe, Heap.read_malloc_of_read hRead, hRead]
        · simp

/-- The loop frees the entries of a chain, and no others. -/
theorem freeChain_eq (ncps : List Nat) :
    ∀ {n : Nat} {ps : List Nat} {link : Option Nat} {chains : Heap NetpathChain}
      {entries : Heap NcEntry}, Heap.Linked NetpathChain.nchainNext chains link ps → ps.Nodup →
      (ps.map fun p => (chains.read p).map NetpathChain.ncp) = ncps.map some → ncps.Nodup →
      (∀ ncp ∈ ncps, (entries.read ncp).isSome) → ps.length ≤ n →
      ∃ chains' entries', freeChain n link chains entries = some (chains', entries') ∧
        ∀ q, entries'.read q = if q ∈ ncps then none else entries.read q := by
  induction ncps with
  | nil =>
      intro n ps link chains entries hLinked _ hNcps _ _ _
      obtain rfl : ps = [] := List.map_eq_nil_iff.mp hNcps
      obtain rfl : link = none := hLinked
      exact ⟨chains, entries, by cases n <;> rfl, fun q => by rw [if_neg List.not_mem_nil]⟩
  | cons ncp ncps ih =>
      intro n ps link chains entries hLinked hNodup hNcps hDistinct hLive hFuel
      rcases ps with - | ⟨p, ps⟩
      · exact absurd hNcps nofun
      obtain ⟨rfl, chain, hRead, hRest⟩ := hLinked
      obtain ⟨n, rfl⟩ := Nat.exists_eq_succ_of_ne_zero (Nat.ne_zero_of_lt hFuel)
      obtain ⟨hNewP, hNodup'⟩ := List.nodup_cons.mp hNodup
      obtain ⟨hNew, hDistinct'⟩ := List.nodup_cons.mp hDistinct
      obtain ⟨hFirst, hOthers⟩ := List.cons.inj hNcps
      have hNcp : (chains.read p).map NetpathChain.ncp = some chain.ncp := by
        rw [hRead, Option.map_some]
      obtain rfl : chain.ncp = ncp := Option.some.inj (hNcp.symm.trans hFirst)
      obtain ⟨e, hEntry⟩ := Option.isSome_iff_exists.mp (hLive chain.ncp List.mem_cons_self)
      obtain ⟨entries₁, hFree, hFreed⟩ := Heap.free_of_read hEntry
      obtain ⟨chains₁, hFreeChain, hFreedChain⟩ := Heap.free_of_read hRead
      have hSame : ∀ q ∈ ps, chains₁.read q = chains.read q := by
        intro q hq
        have hNe : q ≠ p := by
          rintro rfl
          exact hNewP hq
        rw [hFreedChain.read, if_neg hNe]
      have hNcps' : (ps.map fun p => (chains₁.read p).map NetpathChain.ncp) = ncps.map some := by
        rw [← hOthers]
        exact List.map_congr_left fun q hq => by rw [hSame q hq]
      have hLive' : ∀ ncp ∈ ncps, (entries₁.read ncp).isSome := by
        intro q hq
        have hNe : q ≠ chain.ncp := by
          rintro rfl
          exact hNew hq
        rw [hFreed.read, if_neg hNe]
        exact hLive q (List.mem_cons_of_mem _ hq)
      obtain ⟨chains', entries', hRun, hAfter⟩ := ih (hRest.congr hSame) hNodup' hNcps' hDistinct'
        hLive' (Nat.le_of_succ_le_succ hFuel)
      refine ⟨chains', entries', ?_, fun q => ?_⟩
      · simp only [freeChain, hRead, hFree, hFreeChain, Option.bind_eq_bind, Option.bind_some]
        exact hRun
      · rw [hAfter, hFreed.read]
        by_cases hq : q = chain.ncp
        · simp [hq]
        · simp [hq]

theorem mem_of_mem_ends {ncp : Nat} (h : ncp ∈ OncRpc.ends returned) : ncp ∈ returned := by
  rcases returned with - | ⟨first, rest⟩
  · exact h
  · rcases List.mem_cons.mp h with rfl | hLast
    · exact List.mem_cons_self
    · exact List.mem_cons_of_mem _ (List.mem_of_getLast? (Option.mem_toList.mp hLast))

theorem nodup_ends (h : returned.Nodup) : (OncRpc.ends returned).Nodup := by
  rcases returned with - | ⟨first, rest⟩
  · exact h
  · obtain ⟨hFirst, -⟩ := List.nodup_cons.mp h
    refine List.nodup_cons.mpr ⟨fun hLast => ?_, ?_⟩
    · exact hFirst (List.mem_of_getLast? (Option.mem_toList.mp hLast))
    · cases rest.getLast? with
      | none => exact List.nodup_nil
      | some last => exact List.nodup_singleton last

/-- The session ends with the first entry freed and the last. -/
theorem Holds.endnetpath (h : np.Holds returned ps) :
    ∃ chains ncps, np.endnetpath = some (chains, ncps) ∧
      ∀ q, ncps.read q = if q ∈ OncRpc.ends returned then none else np.ncps.read q :=
  freeChain_eq _ h.linked h.nodup h.ends (nodup_ends h.distinct)
    (fun ncp hMem => h.live ncp (mem_of_mem_ends hMem)) (h.linked.length_le h.nodup)

/-- No entry is lost as long as there are two of them at most. -/
theorem Holds.keeps_iff (h : np.Holds returned ps) :
    (NetpathRun.Keeps ⟨np, returned⟩) ↔ returned.length ≤ 2 := by
  rw [← ends_eq_self_iff]
  constructor
  · rintro ⟨⟨ps', hLinked, hNcps⟩, -⟩
    rw [← h.linked.unique hLinked] at hNcps
    exact List.map_injective_iff.mpr (Option.some_injective _) (h.ends.symm.trans hNcps)
  · intro hAll
    obtain ⟨chains, ncps, hEnd, hFreed⟩ := h.endnetpath
    rw [hAll] at hFreed
    refine ⟨⟨ps, h.linked, ?_⟩, chains, ncps, hEnd, fun ncp hMem => ?_⟩
    · rw [h.ends, hAll]
    · rw [hFreed, if_pos hMem]

end NetpathSession

theorem NetpathRun.run_eq (calls : List NetpathCall) :
    ∀ {np : NetpathSession} {returned ps : List Nat}, np.Holds returned ps →
      ∃ r ps', Runs.run NetpathRun.step ⟨np, returned⟩ calls = some r ∧
        r.np.Holds r.returned ps' ∧
        r.returned.length = returned.length + handedOut np.netpath calls := by
  induction calls with
  | nil => exact fun {np returned ps} h => ⟨⟨np, returned⟩, ps, rfl, h, rfl⟩
  | cons c calls ih =>
      intro np returned ps h
      obtain ⟨ncp, np₁, ps₁, hCall, hNetpath, hHolds, hCount⟩ := h.getnetpath c
      obtain ⟨r, ps', hRun, hHolds', hLength⟩ := ih hHolds
      refine ⟨r, ps', ?_, hHolds', ?_⟩
      · rw [Runs.run, List.foldlM_cons, NetpathRun.step, hCall]
        exact hRun
      · rw [hLength, hNetpath, List.length_append, hCount, handedOut, Nat.add_assoc]

/-- Whatever `NETPATH` says and the calls of a session meet, all entries that they return are on
the session's chain and freed at its end exactly when at most two calls find one. -/
theorem netpath_keeps_iff (npp : CString) (calls : List NetpathCall) :
    ∃ r, Runs.run NetpathRun.step (.start npp) calls = some r ∧
      (r.Keeps ↔ handedOut (some npp) calls ≤ 2) := by
  obtain ⟨r, ps, hRun, hHolds, hLength⟩ :=
    NetpathRun.run_eq calls (NetpathSession.holds_setnetpath npp)
  have hCount : r.returned.length = handedOut (some npp) calls := hLength.trans (Nat.zero_add _)
  refine ⟨r, hRun, ?_⟩
  rw [← hCount]
  exact hHolds.keeps_iff

/-- The third network of `NETPATH` takes the place of the second. -/
theorem not_netpath_keeps :
    ¬ ∀ npp calls, ∃ r, Runs.run NetpathRun.step (.start npp) calls = some r ∧ r.Keeps := by
  intro h
  obtain ⟨r, hRun, hKeeps⟩ := h (CString.ascii "udp:tcp:udp6")
    (List.replicate 3 ⟨named tableEntries, true⟩)
  obtain ⟨r', ps, hRun', hHolds, hLength⟩ := NetpathRun.run_eq
    (List.replicate 3 ⟨named tableEntries, true⟩)
    (NetpathSession.holds_setnetpath (CString.ascii "udp:tcp:udp6"))
  obtain rfl : r = r' := Option.some.inj (hRun.symm.trans hRun')
  have hFew := hHolds.keeps_iff.mp hKeeps
  have hCount : handedOut (some (CString.ascii "udp:tcp:udp6"))
      (List.replicate 3 ⟨named tableEntries, true⟩) = 3 := by
    decide +kernel
  rw [hLength] at hFew
  exact absurd (hCount ▸ hFew) (by decide)

end OncRpc
