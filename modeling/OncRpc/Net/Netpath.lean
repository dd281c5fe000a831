import OncRpc.Net.Netconfig
import OncRpc.Net.Tokens

/-! `getnetpath.c`: the networks that `NETPATH` names, looked up one by one in the database.
`getnetconfigent` finds an entry among those that the sessions share, or in the file. -/
namespace OncRpc

open Escaped

/-- `NP_VALID`. -/
def npValid : BitVec 32 := 0xf00d

/-- `struct netpath_vars`. `ncpList` is what the chain of entries leads to. -/
structure NetpathVars where
  valid : BitVec 32
  ncHandlep : Option Nat
  netpath : Option CString
  netpathStart : Option CString
  ncpList : List NcEntry

/-- The colon between the components of `NETPATH`. -/
def netpathToken : UInt8 := 58

namespace NcState

/-- The loop of `getnetconfigent` over the entries that were read, with a bound on their
number. -/
def findCached (netid : CString) (lists : Heap NetconfigList) :
    Nat → Option Nat → Option (Option NcEntry)
  | _, none => some none
  | 0, some _ => none
  | n + 1, some p => do
      let list ← lists.read p
      if list.ncp.ncNetid = netid then pure (some list.ncp) else findCached netid lists n list.next

/-- The loop of `getnetconfigent` over the lines of the file, with a bound on their number. -/
def findLine (netid : CString) : Nat → NcFile → Option NcEntry
  | 0, _ => none
  | n + 1, file =>
      match readLine file with
      | (none, _) => none
      | (some stringp, file) =>
          -- `strpbrk` finds no blank.
          if stringp.all (! isBlank ·) then none
          else if stringp.takeWhile (! isBlank ·) = netid then parseNcp stringp
          else findLine netid n file

/-- `getnetconfigent`. -/
def getnetconfigent (db : NcDb) (netid : CString) (s : NcState) : Option (Option NcEntry) :=
  if netid = [] then some none
  else do
    let cached ← findCached netid s.lists s.lists.brk s.head
    match cached with
    | some ncp => pure (some ncp)
    | none =>
        if s.head.isSome ∧ s.eof then pure none
        else
          match ncopen db with
          | none => pure none
          | some file => pure (findLine netid (file.left + 1) file)

/-- `setnetpath`, by the value of `NETPATH`. -/
def setnetpath (db : NcDb) (npp : Option CString) (s : NcState) :
    Option (Option NetpathVars × NcState) :=
  match s.setnetconfig db with
  | (none, s) => some (none, s)
  | (some ncHandlep, s) =>
      match npp with
      | none =>
          some (some { valid := npValid, ncHandlep := some ncHandlep, netpath := none
                       netpathStart := none, ncpList := [] }, s)
      | some npp => do
          let (_, s) ← s.endnetconfig (some ncHandlep)
          pure (some { valid := npValid, ncHandlep := none, netpath := some npp
                       netpathStart := some npp, ncpList := [] }, s)

/-- The loop of `getnetpath` where `NETPATH` was not set, with a bound on its rounds. -/
def nextVisible (db : NcDb) : Nat → NetpathVars → NcState →
    Option (Option NcEntry × NetpathVars × NcState)
  | 0, _, _ => none
  | n + 1, np, s => do
      let (ncHandlep, s) :=
        match np.ncHandlep with
        | some h => (some h, s)
        | none => s.setnetconfig db
      let np := { np with ncHandlep := ncHandlep }
      let (ncp, s) ← s.getnetconfig ncHandlep
      match ncp with
      | none => pure (none, np, s)
      | some ncp =>
          if ncp.ncFlag &&& ncVisible = 0 then nextVisible db n np s else pure (some ncp, np, s)

/-- The chain with one more entry: behind its head, whatever was there. -/
def chained (ncp : NcEntry) : List NcEntry → List NcEntry
  | [] => [ncp]
  | head :: _ => [head, ncp]

/-- The loop of `getnetpath` over the components of `NETPATH`, with a bound on its rounds. -/
def nextListed (db : NcDb) (s : NcState) : Nat → NetpathVars → Option (Option NcEntry × NetpathVars)
  | 0, np => some (none, np)
  | n + 1, np =>
      match np.netpath with
      | none => some (none, np)
      | some npp =>
          if npp = [] then some (none, np)
          else do
            let (npp, ros) := getNextToken npp netpathToken
            let np := { np with netpath := ros }
            let ncp ← s.getnetconfigent db npp
            match ncp with
            | some ncp => pure (some ncp, { np with ncpList := chained ncp np.ncpList })
            | none => nextListed db s n np

/-- Every round takes an entry of the list or a line of the file. -/
def rounds (s : NcState) : Nat := s.lists.brk + (s.ncFile.elim 0 NcFile.left) + 2

/-- `getnetpath`. -/
def getnetpath (db : NcDb) (handlep : Option NetpathVars) (s : NcState) :
    Option (Option NcEntry × Option NetpathVars × NcState) :=
  match handlep with
  | none => some (none, none, s)
  | some np =>
      if np.valid ≠ npValid then some (none, some np, s)
      else if np.netpathStart = none then do
        let (ncp, np, s) ← nextVisible db s.rounds np s
        pure (ncp, some np, s)
      else do
        let (ncp, np) ← nextListed db s ((np.netpath.getD []).length + 1) np
        pure (ncp, some np, s)

end NcState

/-- The calls of `getnetpath` on a session yield these entries, and then none. -/
inductive Enumerates (db : NcDb) : Option NetpathVars → NcState → List NcEntry → Prop
  | done {np np' s s'} (last : s.getnetpath db np = some (none, np', s')) : Enumerates db np s []
  | next {np np' s s' ncp es} (first : s.getnetpath db np = some (some ncp, np', s'))
      (rest : Enumerates db np' s' es) : Enumerates db np s (ncp :: es)

/-- The database has the entries `E`, and none of their lines begins with a blank. -/
structure NcDb.Tidy (db : NcDb) (E : List NcEntry) : Prop where
  entries : db.entries = some E
  flush : ∀ f, ncopen db = some f → ∀ l ∈ f.entryLines, l.head?.map isBlank ≠ some true

example : tableDb.Tidy tableEntries where
  entries := entries_tableDb
  flush := by
    rintro f hOpen
    obtain rfl := Option.some.inj hOpen
    decide

/-- The entry that a netid names. -/
def named (E : List NcEntry) (netid : CString) : Option NcEntry :=
  E.find? fun e => decide (e.ncNetid = netid)

/-! ### Looking up a netid -/

section Lookup

variable {E : List NcEntry} {vs : List Nat} {s : NcState} {db : NcDb}

/-- A token that is followed by another one ends at a blank. -/
theorem strtokR_followed {s tok tok' : CString} {lasts lasts' : Option CString}
    (hFirst : strtokR (some s) = some (tok, lasts)) (hNext : strtokR lasts = some (tok', lasts')) :
    tok ≠ [] ∧ ∃ blanks c rest, s = blanks ++ tok ++ c :: rest ∧ (∀ b ∈ blanks, isBlank b = true) ∧
      (∀ b ∈ tok, isBlank b = false) ∧ isBlank c = true := by
  simp only [strtokR] at hFirst
  split at hFirst
  · cases hFirst
  · rename_i hSome
    obtain ⟨rfl, rfl⟩ := Prod.mk.inj (Option.some.inj hFirst)
    set u := s.dropWhile isBlank with hu
    have hWhole : s = s.takeWhile isBlank ++ u := (List.takeWhile_append_dropWhile).symm
    have hHead : ∀ x xs, u = x :: xs → isBlank x = false := by
      intro x xs hCons
      have hNot := List.head?_dropWhile_not isBlank s
      rw [← hu, hCons] at hNot
      simpa using hNot
    cases hRest : u.dropWhile (! isBlank ·) with
    | nil =>
        rw [hRest] at hNext
        cases hNext
    | cons c rest =>
        refine ⟨?_, s.takeWhile isBlank, c, rest, ?_, ?_, ?_, ?_⟩
        · obtain ⟨x, xs, hCons⟩ := List.exists_cons_of_ne_nil hSome
          rw [hCons, List.takeWhile_cons, hHead x xs hCons]
          exact List.cons_ne_nil _ _
        · rw [List.append_assoc, ← hRest, List.takeWhile_append_dropWhile, ← hWhole]
        · exact fun b hb => List.mem_takeWhile_imp hb
        · exact fun b hb => by simpa using List.mem_takeWhile_imp hb
        · have hNot := List.head?_dropWhile_not (! isBlank ·) u
          rw [hRest] at hNot
          simpa using hNot

/-- The line of an entry begins with its netid. -/
theorem netid_of_parseNcp {l : CString} {e : NcEntry} (h : parseNcp l = some e)
    (hFlush : l.head?.map isBlank ≠ some true) :
    e.ncNetid ≠ [] ∧ l.takeWhile (! isBlank ·) = e.ncNetid ∧ l.all (! isBlank ·) = false := by
  obtain ⟨⟨netid, lasts⟩, hFirst, h⟩ := Option.bind_eq_some_iff.mp h
  obtain ⟨⟨tokenp, lasts'⟩, hSecond, h⟩ := Option.bind_eq_some_iff.mp h
  have hNetid : e.ncNetid = netid := by
    obtain ⟨_, -, h⟩ := Option.bind_eq_some_iff.mp h
    obtain ⟨_, -, h⟩ := Option.bind_eq_some_iff.mp h
    obtain ⟨_, -, h⟩ := Option.bind_eq_some_iff.mp h
    obtain ⟨_, -, h⟩ := Option.bind_eq_some_iff.mp h
    obtain ⟨_, -, h⟩ := Option.bind_eq_some_iff.mp h
    obtain ⟨_, -, h⟩ := Option.bind_eq_some_iff.mp h
    obtain ⟨_, -, h⟩ := Option.bind_eq_some_iff.mp h
    rw [← Option.some.inj h]
  obtain ⟨hSome, blanks, c, rest, hLine, hBlanks, hTok, hc⟩ := strtokR_followed hFirst hSecond
  obtain ⟨tail, hTail⟩ : ∃ tail, l = l.dropLast ++ tail := by
    obtain ⟨tail, hPrefix⟩ := List.dropLast_prefix l
    exact ⟨tail, hPrefix.symm⟩
  have hNone : blanks = [] := by
    cases blanks with
    | nil => rfl
    | cons b bs =>
        rw [hTail, hLine] at hFlush
        exact absurd (congrArg some (hBlanks b List.mem_cons_self)) hFlush
  rw [hNone, List.nil_append] at hLine
  rw [hLine] at hTail
  have hAll : ∀ b ∈ netid, (! isBlank b) = true := fun b hb => by simp [hTok b hb]
  refine ⟨hNetid ▸ hSome, ?_, ?_⟩
  · rw [hNetid, hTail, List.append_assoc, List.takeWhile_append_of_pos hAll]
    simp [hc]
  · rw [hTail]
    simp [hc]

/-- The list leads to the first entry with the netid among those that were read. -/
theorem findCached_eq {head tail : Option Nat} {lists : Heap NetconfigList}
    (h : Listed E vs head tail lists) (netid : CString) {n i : Nat} (hFuel : vs.length ≤ i + n) :
    NcState.findCached netid lists n vs[i]? = some (named ((E.take vs.length).drop i) netid) := by
  have hLe := h.length_le
  induction n generalizing i with
  | zero =>
      have hNone : vs[i]? = none := List.getElem?_eq_none hFuel
      have hDrop : (E.take vs.length).drop i = [] := by
        apply List.drop_eq_nil_of_le
        rw [List.length_take]
        omega
      rw [hNone, hDrop]
      rfl
  | succ n ih =>
      cases hNode : vs[i]? with
      | none =>
          have hDrop : (E.take vs.length).drop i = [] := by
            have hEnd := List.getElem?_eq_none_iff.mp hNode
            apply List.drop_eq_nil_of_le
            rw [List.length_take]
            omega
          rw [hDrop]
          rfl
      | some v =>
          obtain ⟨e, hEntry, hRead⟩ := h.node hNode
          have hLt : i < vs.length := (List.getElem?_eq_some_iff.mp hNode).1
          obtain ⟨hIn, hGet⟩ := List.getElem?_eq_some_iff.mp hEntry
          have hDrop : (E.take vs.length).drop i = e :: (E.take vs.length).drop (i + 1) := by
            have hShort : i < (E.take vs.length).length := by
              rw [List.length_take]
              omega
            rw [List.drop_eq_getElem_cons hShort, List.getElem_take, hGet]
          rw [hDrop]
          simp only [NcState.findCached, hRead, Option.bind_eq_bind, Option.bind_some, named,
            List.find?_cons]
          by_cases hSame : e.ncNetid = netid
          · simp [hSame]
          · rw [if_neg hSame, decide_eq_false hSame]
            exact ih (by omega)

theorem length_lines_le (f : NcFile) : f.lines.length ≤ f.left := by
  induction hLen : f.left using Nat.strong_induction_on generalizing f with
  | _ n ih =>
      subst hLen
      cases hLines : f.lines with
      | nil => exact Nat.zero_le _
      | cons l ls =>
          obtain ⟨f', -, hRest, hLeft⟩ := NcFile.ncgets_eq_some hLines
          have hLe := ih f'.left hLeft f' rfl
          rw [hRest] at hLe
          rw [List.length_cons]
          omega

/-- The file leads to the first entry with the netid. -/
theorem findLine_eq {netid : CString} {n : Nat} {f : NcFile}
    (hParse : f.entryLines.mapM parseNcp = some E)
    (hFlush : ∀ l ∈ f.entryLines, l.head?.map isBlank ≠ some true)
    (hFuel : f.entryLines.length < n) : NcState.findLine netid n f = named E netid := by
  induction n generalizing f E with
  | zero => cases hFuel
  | succ n ih =>
      have hRead : readLine f = readLineFrom (f.left + 1) f := rfl
      obtain ⟨hFirst, hRest⟩ := @NcFile.readLineFrom_eq f _ (Nat.lt_succ_self f.left)
      rw [← hRead] at hFirst hRest
      rcases hRun : readLine f with ⟨stringp, f'⟩
      rw [hRun] at hFirst hRest
      cases hLines : f.entryLines with
      | nil =>
          rw [hLines] at hParse hFirst
          obtain rfl : stringp = none := hFirst
          obtain rfl : [] = E := Option.some.inj hParse
          simp only [NcState.findLine, hRun]
          rfl
      | cons l ls =>
          rw [hLines] at hParse hFirst hRest hFlush hFuel
          obtain rfl : stringp = some l := hFirst
          rw [List.mapM_cons] at hParse
          obtain ⟨e, hEntry, hParse⟩ := Option.bind_eq_some_iff.mp hParse
          obtain ⟨es, hMore, hParse⟩ := Option.bind_eq_some_iff.mp hParse
          obtain rfl := Option.some.inj hParse
          obtain ⟨-, hFront, hBlank⟩ := netid_of_parseNcp hEntry (hFlush l List.mem_cons_self)
          have hTail : f'.entryLines = ls := hRest
          simp only [NcState.findLine, hRun]
          rw [if_neg (by rw [hBlank]; exact Bool.false_ne_true), hFront, named, List.find?_cons]
          by_cases hSame : e.ncNetid = netid
          · rw [if_pos hSame, decide_eq_true hSame]
            exact hEntry
          · rw [if_neg hSame, decide_eq_false hSame]
            apply ih
            · rw [hTail]
              exact hMore
            · rw [hTail]
              exact fun l' hl' => hFlush l' (List.mem_cons_of_mem l hl')
            · rw [hTail]
              exact Nat.lt_of_succ_lt_succ hFuel

theorem exists_of_mem_mapM {ls : List CString} (h : ls.mapM parseNcp = some E) {e : NcEntry}
    (he : e ∈ E) : ∃ l ∈ ls, parseNcp l = some e := by
  induction ls generalizing E with
  | nil =>
      obtain rfl : [] = E := Option.some.inj h
      cases he
  | cons l ls ih =>
      rw [List.mapM_cons] at h
      obtain ⟨e', hEntry, h⟩ := Option.bind_eq_some_iff.mp h
      obtain ⟨es, hMore, h⟩ := Option.bind_eq_some_iff.mp h
      obtain rfl := Option.some.inj h
      rcases List.mem_cons.mp he with rfl | hMem
      · exact ⟨l, List.mem_cons_self, hEntry⟩
      · obtain ⟨l', hl', hParse⟩ := ih hMore hMem
        exact ⟨l', List.mem_cons_of_mem l hl', hParse⟩

/-- No entry has an empty netid. -/
theorem NcDb.Tidy.named_nil (h : db.Tidy E) : named E [] = none := by
  obtain ⟨f, hOpen, hParse⟩ := Option.bind_eq_some_iff.mp h.entries
  apply List.find?_eq_none.mpr
  intro e he
  obtain ⟨l, hl, hEntry⟩ := exists_of_mem_mapM hParse he
  simpa using (netid_of_parseNcp hEntry (h.flush f hOpen l hl)).1

/-- An entry is found wherever the sessions are. -/
theorem getnetconfigent_eq (h : Cache E vs s) (hTidy : db.Tidy E) (netid : CString) :
    s.getnetconfigent db netid = some (named E netid) := by
  unfold NcState.getnetconfigent
  by_cases hEmpty : netid = []
  · rw [if_pos hEmpty, hEmpty, hTidy.named_nil]
  · rw [if_neg hEmpty]
    have hCached := findCached_eq (i := 0) h.listed netid
      (Nat.le_trans (h.listed.linked.length_le h.listed.nodup) (Nat.le_add_left _ _))
    rw [← List.head?_eq_getElem?, ← h.listed.head, List.drop_zero] at hCached
    rw [hCached]
    have hSplit : named E netid =
        (named (E.take vs.length) netid).or (named (E.drop vs.length) netid) := by
      rw [named, named, named, ← List.find?_append, List.take_append_drop]
    show (match named (E.take vs.length) netid with
      | some ncp => some (some ncp)
      | none => _) = _
    cases hFound : named (E.take vs.length) netid with
    | some ncp =>
        rw [hSplit, hFound]
        rfl
    | none =>
        simp only
        by_cases hAll : s.head.isSome = true ∧ s.eof = true
        · rw [if_pos hAll, hSplit, hFound, h.eof hAll.2, List.drop_length]
          rfl
        · obtain ⟨f, hOpen, hParse⟩ := Option.bind_eq_some_iff.mp hTidy.entries
          have hFuel : f.entryLines.length < f.left + 1 :=
            Nat.lt_succ_of_le ((List.length_filter_le _ _).trans (length_lines_le f))
          rw [if_neg hAll, hOpen]
          exact congrArg some (findLine_eq hParse (hTidy.flush f hOpen) hFuel)

/-- The entries that the rest of `NETPATH` names. -/
def listed (E : List NcEntry) : Option CString → List NcEntry
  | none => []
  | some npp => (allTokens netpathToken npp).filterMap (named E)

/-- One call takes the components up to the first that is named. -/
theorem nextListed_eq (h : Cache E vs s) (hTidy : db.Tidy E) {n : Nat} {np : NetpathVars}
    (hFuel : ∀ npp, np.netpath = some npp → npp.length < n) :
    ∃ np', NcState.nextListed db s n np = some ((listed E np.netpath).head?, np') ∧
      np'.valid = np.valid ∧ np'.netpathStart = np.netpathStart ∧
      listed E np'.netpath = (listed E np.netpath).tail := by
  induction n generalizing np with
  | zero =>
      cases hPath : np.netpath with
      | none => exact ⟨np, rfl, rfl, rfl, by rw [hPath]; rfl⟩
      | some npp => exact absurd (hFuel npp hPath) (Nat.not_lt_zero _)
  | succ n ih =>
      cases hPath : np.netpath with
      | none =>
          refine ⟨np, ?_, rfl, rfl, by rw [hPath]; rfl⟩
          simp only [NcState.nextListed, hPath]
          rfl
      | some npp =>
          have hShort := hFuel npp hPath
          simp only [NcState.nextListed, hPath]
          by_cases hEmpty : npp = []
          · have hNone : listed E (some npp) = [] := by
              rw [hEmpty, listed, allTokens_of_not_mem List.not_mem_nil, List.filterMap_cons,
                hTidy.named_nil]
              rfl
            rw [if_pos hEmpty, hNone]
            exact ⟨np, rfl, rfl, rfl, by rw [hPath, hNone]; rfl⟩
          · rw [if_neg hEmpty]
            obtain ⟨tok, ros, hNext, hSplit⟩ : ∃ tok ros,
                getNextToken npp netpathToken = (tok, ros) ∧
                listed E (some npp) = (named E tok).toList ++ listed E ros := by
              have hListed : listed E (some npp) =
                  (allTokens netpathToken npp).filterMap (named E) := rfl
              rw [allTokens_eq] at hListed
              rcases hNext : getNextToken npp netpathToken with ⟨tok, ros⟩
              refine ⟨tok, ros, rfl, ?_⟩
              rw [hListed, hNext]
              cases ros <;> cases hNamed : named E tok <;> simp [listed, hNamed]
            simp only [hNext, getnetconfigent_eq h hTidy, Option.bind_eq_bind, Option.bind_some,
              hSplit]
            cases hNamed : named E tok with
            | some ncp => exact ⟨_, rfl, rfl, rfl, rfl⟩
            | none =>
                have hLater : ∀ npp', ros = some npp' → npp'.length < n := by
                  rintro npp' rfl
                  have hLess := length_getNextToken (congrArg Prod.snd hNext)
                  omega
                exact @ih { np with netpath := ros } hLater

/-- The calls of a session yield the entries that are left, and then none. -/
theorem enumerates_listed (h : Cache E vs s) (hTidy : db.Tidy E) {np : NetpathVars}
    (hValid : np.valid = npValid) (hStart : np.netpathStart ≠ none) :
    Enumerates db (some np) s (listed E np.netpath) := by
  induction hList : listed E np.netpath generalizing np with
  | nil =>
      obtain ⟨np', hRun, -⟩ := @nextListed_eq _ _ _ _ h hTidy ((np.netpath.getD []).length + 1)
        np (fun npp hPath => by rw [hPath]; exact Nat.lt_succ_self _)
      rw [hList] at hRun
      apply @Enumerates.done db _ (some np') _ s
      simp only [NcState.getnetpath]
      rw [if_neg (not_not.mpr hValid), if_neg hStart, hRun]
      rfl
  | cons ncp es ih =>
      obtain ⟨np', hRun, hValid', hStart', hTail⟩ :=
        @nextListed_eq _ _ _ _ h hTidy ((np.netpath.getD []).length + 1) np
          (fun npp hPath => by rw [hPath]; exact Nat.lt_succ_self _)
      rw [hList] at hRun hTail
      apply @Enumerates.next db _ (some np') _ s
      · simp only [NcState.getnetpath]
        rw [if_neg (not_not.mpr hValid), if_neg hStart, hRun]
        rfl
      · exact ih (hValid'.trans hValid) (hStart' ▸ hStart) hTail

end Lookup

/-! ### A session -/

section Session

variable {E : List NcEntry} {t : NcTrace} {s : NcState} {db : NcDb}

/-- `setnetpath` opens a session of the database and closes it again. -/
theorem setnetpath_eq (hRun : NcRun db t s) (hEntries : db.entries = some E) (npp : CString) :
    ∃ t' s', s.setnetpath db (some npp) =
      some (some { valid := npValid, ncHandlep := none, netpath := some npp
                   netpathStart := some npp, ncpList := [] }, s') ∧ NcRun db t' s' := by
  obtain ⟨vs, hSessions⟩ := hRun.sessions hEntries
  obtain ⟨s₁, hSet, -⟩ := hSessions.cache.setnetconfig_eq hEntries
  have hOpen : NcRun db (t ++ [(.setnetconfig, .handle (some s.vars.brk))]) s₁ := by
    apply NcRun.step hRun (show NcCall.Allowed t .setnetconfig from trivial)
    simp only [NcState.step, hSet]
  have hAllowed : NcCall.Allowed (t ++ [(.setnetconfig, .handle (some s.vars.brk))])
      (.endnetconfig s.vars.brk) := by
    refine ⟨List.mem_append_right _ (List.mem_singleton.mpr rfl), fun r hMem => ?_⟩
    rcases List.mem_append.mp hMem with hOld | hNew
    · exact (hSessions.unused (Nat.le_refl _)).2 r hOld
    · cases List.mem_singleton.mp hNew
  obtain ⟨vs₁, hSessions₁⟩ := hOpen.sessions hEntries
  obtain ⟨r, s₂, -, hEnd, -⟩ := hSessions₁.step hEntries hAllowed
  refine ⟨_, s₂, ?_, NcRun.step hOpen hAllowed hEnd⟩
  obtain ⟨⟨r', s'⟩, hCall, hSame⟩ := Option.map_eq_some_iff.mp hEnd
  obtain ⟨-, rfl⟩ := Prod.mk.inj hSame
  simp only [NcState.setnetpath, hSet, hCall]
  rfl

/-- The tokenizer cuts `NETPATH` as it should, and a session yields in its order the entries
that it names, whatever the other sessions are at. -/
def NetpathRight (npp : CString) : Prop :=
  allTokens netpathToken npp = tokens backslash netpathToken npp ∧
    ∀ db E t s, NcDb.Tidy db E → NcRun db t s →
      ∃ np s', s.setnetpath db (some npp) = some (some np, s') ∧
        Enumerates db (some np) s' ((tokens backslash netpathToken npp).filterMap (named E))

/-- It is so for exactly the texts that `_get_next_token` can do. -/
theorem netpathRight_iff (npp : CString) :
    NetpathRight npp ↔ TractableText netpathToken npp := by
  rw [← allTokens_eq_iff (by decide) npp]
  constructor
  · exact fun hRight => hRight.1
  · intro hTokens
    refine ⟨hTokens, fun db E t s hTidy hRun => ?_⟩
    obtain ⟨t', s', hSet, hRun'⟩ := setnetpath_eq hRun hTidy.entries npp
    obtain ⟨vs, hSessions⟩ := hRun'.sessions hTidy.entries
    refine ⟨_, s', hSet, ?_⟩
    rw [← hTokens]
    exact enumerates_listed hSessions.cache hTidy rfl (Option.some_ne_none npp)

/-- The backslash stays in the last component: its network is not found. -/
theorem not_netpathRight_lastEscaped : ¬ NetpathRight (CString.ascii "tcp:\\udp") := by
  rintro ⟨hTokens, -⟩
  exact absurd hTokens (by decide)

end Session

end OncRpc
