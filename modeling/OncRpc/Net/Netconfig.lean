import OncRpc.Base.Heap
import OncRpc.Net.ParseNcp

/-! `getnetconfig.c`: sessions over `/etc/netconfig`. All of them share one list of the entries
that were read so far. -/
namespace OncRpc

/-- `struct netconfig_list`. The strings of `ncp` are in `linep`. -/
structure NetconfigList where
  ncp : NcEntry
  next : Option Nat

/-- `NC_VALID`, `NC_STORAGE` and `NC_INVALID`. -/
def ncValid : BitVec 32 := 0xfeed
def ncStorage : BitVec 32 := 0xf00d
def ncInvalid : BitVec 32 := 0

/-- `struct netconfig_vars`. -/
structure NetconfigVars where
  valid : BitVec 32
  flag : Bool
  ncConfigs : Option Nat

/-- `ni`, `nc_file`, and what is allocated. -/
structure NcState where
  eof : Bool
  ref : Int
  head : Option Nat
  tail : Option Nat
  ncFile : Option NcFile
  lists : Heap NetconfigList
  vars : Heap NetconfigVars

namespace NcState

def init : NcState where
  eof := false
  ref := 0
  head := none
  tail := none
  ncFile := none
  lists := Heap.empty
  vars := Heap.empty

/-- `setnetconfig`: the handle. -/
def setnetconfig (db : NcDb) (s : NcState) : Option Nat × NcState :=
  match s.ncFile.or (ncopen db) with
  | none => (none, s)
  | some ncFile =>
      let (ncVars, vars) := s.vars.malloc { valid := ncValid, flag := false, ncConfigs := s.head }
      (some ncVars, { s with ref := s.ref + 1, ncFile := some ncFile, vars := vars })

/-- The entry of the list that comes next for a handle, if it was read already, and the handle. -/
def nextCached (s : NcState) (ncp : NetconfigVars) :
    Option (NetconfigVars × Option NetconfigList) :=
  if ncp.flag = false then
    match s.head with
    | none => some ({ ncp with flag := true, ncConfigs := none }, none)
    | some p => do
        let list ← s.lists.read p
        pure ({ ncp with flag := true, ncConfigs := some p }, some list)
  else
    match ncp.ncConfigs with
    | none => some (ncp, none)
    | some p => do
        let list ← s.lists.read p
        match list.next with
        | none => pure (ncp, none)
        | some q => do
            let list ← s.lists.read q
            pure ({ ncp with ncConfigs := some q }, some list)

/-- An entry is put at the end of the list. -/
def append (s : NcState) (np : NcEntry) : Option (Nat × NcState) := do
  let (list, lists) := s.lists.malloc { ncp := np, next := none }
  match s.head with
  | none => pure (list, { s with head := some list, tail := some list, lists := lists })
  | some _ => do
      let tail ← s.tail
      let last ← lists.read tail
      let lists ← lists.store tail { last with next := some list }
      pure (list, { s with tail := some list, lists := lists })

/-- `getnetconfig` when the entry is not in the list: a line of the file is read. -/
def readEntry (h : Nat) (ncp : NetconfigVars) (ncFile : NcFile) (s : NcState) :
    Option (Option NcEntry × NcState) :=
  let (stringp, ncFile) := readLine ncFile
  let s := { s with ncFile := some ncFile }
  match stringp with
  | none => some (none, { s with eof := true })
  | some stringp =>
      match parseNcp stringp with
      | none => some (none, s)
      | some np => do
          let (list, s) ← s.append np
          let vars ← s.vars.store h { ncp with ncConfigs := some list }
          pure (some np, { s with vars := vars })

/-- `getnetconfig`: the entry that is returned. There is no result when memory is touched that
was freed. -/
def getnetconfig (handlep : Option Nat) (s : NcState) : Option (Option NcEntry × NcState) :=
  match handlep, s.ncFile with
  | some h, some ncFile => do
      let ncp ← s.vars.read h
      if ncp.valid ≠ ncValid then pure (none, s)
      else do
        let (ncp, cached) ← s.nextCached ncp
        let vars ← s.vars.store h ncp
        let s := { s with vars := vars }
        match cached with
        | some list => pure (some list.ncp, s)
        | none => if s.eof then pure (none, s) else s.readEntry h ncp ncFile
  | _, _ => some (none, s)

/-- `endnetconfig`. -/
def endnetconfig (handlep : Option Nat) (s : NcState) : Option (Int × NcState) :=
  match handlep with
  | none => some (-1, s)
  | some h => do
      let ncHandlep ← s.vars.read h
      if ncHandlep.valid ≠ ncValid ∧ ncHandlep.valid ≠ ncStorage then pure (-1, s)
      else do
        let vars ← s.vars.store h { valid := ncInvalid, flag := false, ncConfigs := none }
        if 0 < s.ref - 1 then
          let vars ← vars.free h
          pure (0, { s with ref := s.ref - 1, vars := vars })
        else
          let lists ← Heap.freeChain NetconfigList.next s.lists.brk s.head s.lists
          let vars ← vars.free h
          pure (0, { eof := false, ref := 0, head := none, tail := none, ncFile := none
                     lists := lists, vars := vars })

end NcState

/-- A call of a session. -/
inductive NcCall where
  | setnetconfig
  | getnetconfig (handlep : Nat)
  | endnetconfig (handlep : Nat)

/-- What the call returns. -/
inductive NcResult where
  | handle (handlep : Option Nat)
  | entry (ncp : Option NcEntry)
  | status (r : Int)

def NcState.step (db : NcDb) (s : NcState) : NcCall → Option (NcResult × NcState)
  | .setnetconfig => some (.handle (s.setnetconfig db).1, (s.setnetconfig db).2)
  | .getnetconfig h => (s.getnetconfig (some h)).map fun r => (.entry r.1, r.2)
  | .endnetconfig h => (s.endnetconfig (some h)).map fun r => (.status r.1, r.2)

/-! ### The list that is shared -/

/-- The list is in the cells `vs` and holds the first entries of the file. -/
structure Listed (E : List NcEntry) (vs : List Nat) (head tail : Option Nat)
    (lists : Heap NetconfigList) : Prop where
  head : head = vs.head?
  tail : tail = vs.getLast?
  nodup : vs.Nodup
  node : ∀ {i v}, vs[i]? = some v →
    ∃ e, E[i]? = some e ∧ lists.read v = some { ncp := e, next := vs[i + 1]? }

/-- The entries that are not in the list are still to be read. -/
structure Cache (E : List NcEntry) (vs : List Nat) (s : NcState) : Prop where
  listed : Listed E vs s.head s.tail s.lists
  ref : s.ref = s.vars.live
  closed : s.ncFile = none → vs = [] ∧ s.eof = false ∧ s.vars.live = 0
  rest : ∀ {f}, s.ncFile = some f → f.entryLines.mapM parseNcp = some (E.drop vs.length)
  eof : s.eof = true → vs.length = E.length

/-- A handle on which `getnetconfig` was called `n` times. -/
structure At (E : List NcEntry) (vs : List Nat) (eof : Bool) (n : Nat) (v : NetconfigVars) :
    Prop where
  valid : v.valid = ncValid
  flag : v.flag = decide (0 < n)
  le : min n E.length ≤ vs.length
  current : 0 < n → v.ncConfigs = (vs.take n).getLast?
  eof : E.length < n → eof = true

variable {E : List NcEntry} {vs : List Nat} {s : NcState} {db : NcDb}

namespace Listed

variable {head tail : Option Nat} {lists : Heap NetconfigList}

theorem length_le (h : Listed E vs head tail lists) : vs.length ≤ E.length := by
  by_contra hLong
  have hLt : E.length < vs.length := Nat.not_le.mp hLong
  obtain ⟨e, hEntry, -⟩ := h.node (List.getElem?_eq_getElem hLt)
  rw [List.getElem?_eq_none (Nat.le_refl _)] at hEntry
  cases hEntry

/-- Nothing is listed yet. -/
theorem nil (lists : Heap NetconfigList) : Listed E [] none none lists where
  head := rfl
  tail := rfl
  nodup := List.nodup_nil
  node := fun hMem => by cases hMem

/-- The list leads through its cells. -/
theorem linked (h : Listed E vs head tail lists) :
    Heap.Linked NetconfigList.next lists head vs := by
  have hFrom : ∀ (pre post : List Nat), vs = pre ++ post →
      Heap.Linked NetconfigList.next lists vs[pre.length]? post := by
    intro pre post
    induction post generalizing pre with
    | nil =>
        intro hAll
        show vs[pre.length]? = none
        rw [hAll, List.append_nil, List.getElem?_eq_none (Nat.le_refl _)]
    | cons v post ih =>
        intro hAll
        have hHere : vs[pre.length]? = some v := by
          rw [hAll, List.getElem?_append_right (Nat.le_refl _), Nat.sub_self]
          rfl
        obtain ⟨e, -, hRead⟩ := h.node hHere
        have hRest := ih (pre ++ [v]) (by rw [hAll, List.append_assoc]; rfl)
        rw [List.length_append] at hRest
        exact ⟨hHere, _, hRead, hRest⟩
  have hAll := hFrom [] vs rfl
  rwa [List.length_nil, ← List.head?_eq_getElem?, ← h.head] at hAll

theorem last_eq (h : Listed E vs head tail lists) {v : Nat} (hLast : vs.getLast? = some v) :
    ∃ e, E[vs.length - 1]? = some e ∧ lists.read v = some { ncp := e, next := none } := by
  rw [List.getLast?_eq_getElem?] at hLast
  obtain ⟨e, hEntry, hRead⟩ := h.node hLast
  have hLt : vs.length - 1 < vs.length := (List.getElem?_eq_some_iff.mp hLast).1
  have hEnd : vs[vs.length - 1 + 1]? = none := List.getElem?_eq_none (by omega)
  rw [hEnd] at hRead
  exact ⟨e, hEntry, hRead⟩

/-- What is put at the end of the list. -/
theorem append (h : Listed E vs s.head s.tail s.lists) {e : NcEntry}
    (hEntry : E[vs.length]? = some e) :
    ∃ head tail lists,
      s.append e = some (s.lists.brk, { s with head := head, tail := tail, lists := lists }) ∧
      Listed E (vs ++ [s.lists.brk]) head tail lists := by
  have hNew : s.lists.brk ∉ vs := by
    intro hMem
    obtain ⟨i, hi⟩ := List.mem_iff_getElem?.mp hMem
    obtain ⟨e', -, hRead⟩ := h.node hi
    exact Nat.lt_irrefl _ (Heap.lt_brk_of_read hRead)
  have hNodup : (vs ++ [s.lists.brk]).Nodup := by
    rw [List.nodup_append]
    refine ⟨h.nodup, List.nodup_singleton _, ?_⟩
    rintro v hv w hw rfl
    exact hNew (List.mem_singleton.mp hw ▸ hv)
  rcases List.eq_nil_or_concat vs with rfl | ⟨front, last, rfl⟩
  · have hHead : s.head = none := h.head
    refine ⟨some s.lists.brk, some s.lists.brk, (s.lists.malloc { ncp := e, next := none }).2, ?_,
      ⟨rfl, rfl, hNodup, ?_⟩⟩
    · simp only [NcState.append, hHead]
      rfl
    · intro i v hv
      obtain ⟨rfl, rfl⟩ : i = 0 ∧ v = s.lists.brk := by
        cases i with
        | zero => exact ⟨rfl, (Option.some.inj hv).symm⟩
        | succ i => cases hv
      exact ⟨e, hEntry, (Heap.read_malloc _ _ _).trans (if_pos rfl)⟩
  · rw [List.concat_eq_append] at *
    obtain ⟨first, hFirst⟩ : ∃ first, s.head = some first := by
      rw [h.head]
      cases front <;> exact ⟨_, rfl⟩
    have hTail : s.tail = some last := by rw [h.tail, List.getLast?_concat]
    obtain ⟨e₀, hEntry₀, hLast⟩ := h.last_eq (List.getLast?_concat)
    have hRead : (s.lists.malloc { ncp := e, next := none }).2.read last =
        some { ncp := e₀, next := none } := Heap.read_malloc_of_read hLast
    obtain ⟨lists, hStore, hStored⟩ := Heap.store_of_read hRead
      { ncp := e₀, next := some s.lists.brk }
    refine ⟨s.head, some s.lists.brk, lists, ?_, ⟨?_, ?_, hNodup, ?_⟩⟩
    · simp only [NcState.append, hFirst, hTail, hRead, Heap.malloc_fst, hStore,
        Option.bind_eq_bind, Option.bind_some]
      rfl
    · rw [h.head]
      cases front <;> rfl
    · rw [List.getLast?_concat]
    · intro i v hv
      rcases Nat.lt_trichotomy i (front ++ [last]).length with hLt | rfl | hGt
      · rw [List.getElem?_append_left hLt] at hv
        obtain ⟨e', hEntry', hOld⟩ := h.node hv
        have hApart : v ≠ s.lists.brk := fun hSame => hNew (hSame ▸ List.mem_of_getElem? hv)
        refine ⟨e', hEntry', ?_⟩
        rw [hStored.read]
        by_cases hEnd : v = last
        · -- The link of the last cell leads to the new one.
          subst hEnd
          obtain ⟨rfl, hNone⟩ : e₀ = e' ∧ none = (front ++ [v])[i + 1]? := by
            rw [hLast, Option.some.injEq, NetconfigList.mk.injEq] at hOld
            exact hOld
          have hLen : (front ++ [v]).length = i + 1 := by
            have := List.getElem?_eq_none_iff.mp hNone.symm
            omega
          rw [if_pos rfl, ← hLen, List.getElem?_concat_length]
        · have hNext : i + 1 < (front ++ [last]).length := by
            by_contra hLong
            have hIndex : i = front.length := by
              rw [List.length_append, List.length_singleton] at *
              omega
            rw [hIndex, List.getElem?_concat_length] at hv
            exact hEnd (Option.some.inj hv).symm
          rw [if_neg hEnd, Heap.read_malloc, if_neg hApart, hOld, List.getElem?_append_left hNext]
      · rw [List.getElem?_concat_length, Option.some.injEq] at hv
        subst hv
        have hApart : s.lists.brk ≠ last := by
          rintro hSame
          exact hNew (by simp [hSame])
        have hNone : (front ++ [last] ++ [s.lists.brk])[(front ++ [last]).length + 1]? = none :=
          List.getElem?_eq_none (by simp)
        refine ⟨e, hEntry, ?_⟩
        rw [hStored.read, if_neg hApart, Heap.read_malloc, if_pos rfl, hNone]
      · rw [List.getElem?_eq_none (by simp at hGt ⊢; omega)] at hv
        cases hv

end Listed

namespace Cache

theorem nextCached_of_lt {n : Nat} {v : NetconfigVars} (h : Cache E vs s)
    (hAt : At E vs s.eof n v) (hLt : n < vs.length) :
    ∃ e next, E[n]? = some e ∧
      s.nextCached v = some ({ valid := ncValid, flag := true, ncConfigs := vs[n]? },
        some { ncp := e, next := next }) := by
  obtain ⟨valid, flag, ncConfigs⟩ := v
  obtain rfl : valid = ncValid := hAt.valid
  cases n with
  | zero =>
      obtain rfl : flag = false := hAt.flag
      have hFirst : vs[0]? = some vs[0] := List.getElem?_eq_getElem hLt
      have hHead : s.head = some vs[0] := by rw [h.listed.head, List.head?_eq_getElem?, hFirst]
      obtain ⟨e, hEntry, hRead⟩ := h.listed.node hFirst
      refine ⟨e, vs[0 + 1]?, hEntry, ?_⟩
      simp only [NcState.nextCached, hHead, hRead, if_true, Option.bind_eq_bind, Option.bind_some,
        hFirst]
      rfl
  | succ n =>
      obtain rfl : flag = true := hAt.flag
      have hHere : vs[n]? = some vs[n] := List.getElem?_eq_getElem (Nat.lt_of_succ_lt hLt)
      have hNext : vs[n + 1]? = some vs[n + 1] := List.getElem?_eq_getElem hLt
      have hCurrent : ncConfigs = some vs[n] := by
        have hTake := hAt.current (Nat.succ_pos n)
        rw [List.getLast?_take, if_neg (Nat.succ_ne_zero n), Nat.add_sub_cancel, hHere] at hTake
        exact hTake
      obtain ⟨e, -, hRead⟩ := h.listed.node hHere
      obtain ⟨e', hEntry, hRead'⟩ := h.listed.node hNext
      rw [hNext] at hRead
      refine ⟨e', vs[n + 1 + 1]?, hEntry, ?_⟩
      simp only [NcState.nextCached, hCurrent, hRead, hRead', hNext, Option.bind_eq_bind,
        Option.bind_some]
      rfl

theorem nextCached_of_le {n : Nat} {v : NetconfigVars} (h : Cache E vs s)
    (hAt : At E vs s.eof n v) (hLe : vs.length ≤ n) :
    s.nextCached v = some ({ valid := ncValid, flag := true, ncConfigs := vs.getLast? }, none) := by
  obtain ⟨valid, flag, ncConfigs⟩ := v
  obtain rfl : valid = ncValid := hAt.valid
  cases n with
  | zero =>
      obtain rfl : flag = false := hAt.flag
      obtain rfl : vs = [] := List.eq_nil_of_length_eq_zero (Nat.le_zero.mp hLe)
      have hHead : s.head = none := h.listed.head
      simp only [NcState.nextCached, hHead, if_true, List.getLast?_nil]
  | succ n =>
      obtain rfl : flag = true := hAt.flag
      have hCurrent : ncConfigs = vs.getLast? := by
        rw [← List.take_of_length_le hLe]
        exact hAt.current (Nat.succ_pos n)
      cases hLast : vs.getLast? with
      | none => simp [NcState.nextCached, hCurrent, hLast]
      | some p =>
          obtain ⟨e, -, hRead⟩ := h.listed.last_eq hLast
          simp [NcState.nextCached, hCurrent, hLast, hRead]

/-- The handle itself is changed only. -/
theorem withVars (h : Cache E vs s) {vars : Heap NetconfigVars} (hLive : vars.live = s.vars.live) :
    Cache E vs { s with vars := vars } where
  listed := h.listed
  ref := h.ref.trans (congrArg Nat.cast hLive.symm)
  closed := fun hFile => by
    obtain ⟨hNil, hEof, hNone⟩ := h.closed hFile
    exact ⟨hNil, hEof, hLive.trans hNone⟩
  rest := h.rest
  eof := h.eof

/-- The session of a live handle has the file open. -/
theorem exists_ncFile (h : Cache E vs s) {p : Nat} {v : NetconfigVars}
    (hRead : s.vars.read p = some v) : ∃ f, s.ncFile = some f := by
  cases hFile : s.ncFile with
  | some f => exact ⟨f, rfl⟩
  | none =>
      obtain ⟨-, -, hNone⟩ := h.closed hFile
      rw [Heap.read_eq_none_of_live hNone] at hRead
      cases hRead

/-- A handle at the end of the list gets the entry that is read next. -/
theorem readEntry_eq {p : Nat} {f : NcFile} {v : NetconfigVars} (h : Cache E vs s)
    (hFile : s.ncFile = some f) (hEof : s.eof = false) (hRead : s.vars.read p = some v)
    (hv : v = { valid := ncValid, flag := true, ncConfigs := vs.getLast? }) :
    ∃ s' vs' v', s.readEntry p v f = some (E[vs.length]?, s') ∧ Cache E vs' s' ∧ vs <+: vs' ∧
      At E vs' s'.eof (vs.length + 1) v' ∧ s.vars.Updated s'.vars p (some v') := by
  have hLines := h.rest hFile
  obtain ⟨hLine, hLeft⟩ := NcFile.readLineFrom_eq (Nat.lt_succ_self f.left)
  have hLe := h.listed.length_le
  cases hEntries : f.entryLines with
  | nil =>
      rw [hEntries] at hLine hLeft hLines
      have hNil : E.drop vs.length = [] := (Option.some.inj hLines).symm
      have hAll : E.length ≤ vs.length := List.drop_eq_nil_iff.mp hNil
      have hNone : E[vs.length]? = none := List.getElem?_eq_none hAll
      refine ⟨{ s with ncFile := some (readLine f).2, eof := true }, vs, v, ?_,
        ⟨h.listed, h.ref, ?_, ?_, ?_⟩, List.prefix_refl _, ?_, ?_⟩
      · simp only [NcState.readEntry, readLine, hLine, List.head?_nil, hNone]
      · intro hClosed
        cases hClosed
      · rintro f' ⟨⟩
        simp only [readLine, hLeft, hNil]
        rfl
      · exact fun _ => by omega
      · subst hv
        refine ⟨rfl, by simp, by omega, fun _ => ?_, fun _ => rfl⟩
        rw [List.take_of_length_le (Nat.le_succ _)]
      · exact Heap.Updated.refl hRead
  | cons l ls =>
      rw [hEntries] at hLine hLeft hLines
      obtain ⟨e, hParse, es, hRest, hDrop⟩ : ∃ e, parseNcp l = some e ∧
          ∃ es, ls.mapM parseNcp = some es ∧ e :: es = E.drop vs.length := by
        simpa [List.mapM_cons, Option.bind_eq_some_iff] using hLines
      have hEntry : E[vs.length]? = some e := by
        rw [← List.head?_drop, ← hDrop]
        rfl
      have hTail : E.drop (vs.length + 1) = es := by
        rw [← List.drop_drop, ← hDrop]
        rfl
      have hListed : Listed E vs s.head s.tail s.lists := h.listed
      obtain ⟨head, tail, lists, hAppend, hListed'⟩ := Listed.append
        (s := { s with ncFile := some (readLine f).2 }) hListed hEntry
      obtain ⟨vars, hStore, hStored⟩ := Heap.store_of_read hRead
        { v with ncConfigs := some s.lists.brk }
      refine ⟨{ s with ncFile := some (readLine f).2, head := head, tail := tail, lists := lists
                       vars := vars }, vs ++ [s.lists.brk], _, ?_, ⟨hListed', ?_, ?_, ?_, ?_⟩,
        List.prefix_append _ _, ?_, hStored⟩
      · simp only [NcState.readEntry, readLine, hLine, List.head?_cons, hParse, hEntry]
        simp only [readLine] at hAppend
        simp only [hAppend, hStore, Option.bind_eq_bind, Option.bind_some]
        rfl
      · exact h.ref.trans (congrArg Nat.cast hStored.live_eq.symm)
      · intro hClosed
        cases hClosed
      · rintro f' ⟨⟩
        rw [List.length_append, List.length_singleton, hTail]
        simp only [readLine, hLeft, List.tail_cons, hRest]
      · intro hTrue
        rw [hEof] at hTrue
        cases hTrue
      · have hLt : vs.length < E.length := (List.getElem?_eq_some_iff.mp hEntry).1
        subst hv
        refine ⟨rfl, by simp, ?_, fun _ => ?_, fun hLong => absurd hLong (by omega)⟩
        · rw [List.length_append, List.length_singleton]
          omega
        · rw [List.take_of_length_le (by simp), List.getLast?_concat]

/-- `getnetconfig` returns the next entry of the file, and whatever it reads is live. -/
theorem getnetconfig_eq {p n : Nat} {v : NetconfigVars} (h : Cache E vs s)
    (hRead : s.vars.read p = some v) (hAt : At E vs s.eof n v) :
    ∃ s' vs' v', s.getnetconfig (some p) = some (E[n]?, s') ∧ Cache E vs' s' ∧ vs <+: vs' ∧
      (s.eof = true → s'.eof = true) ∧ At E vs' s'.eof (n + 1) v' ∧
      s.vars.Updated s'.vars p (some v') := by
  obtain ⟨f, hFile⟩ := h.exists_ncFile hRead
  have hValid : ¬ v.valid ≠ ncValid := not_not.mpr hAt.valid
  rcases Nat.lt_or_ge n vs.length with hLt | hGe
  · -- The entry is in the list.
    obtain ⟨e, next, hEntry, hCached⟩ := h.nextCached_of_lt hAt hLt
    obtain ⟨vars, hStore, hStored⟩ := Heap.store_of_read hRead
      { valid := ncValid, flag := true, ncConfigs := vs[n]? }
    refine ⟨_, vs, _, ?_, h.withVars hStored.live_eq, List.prefix_refl _, id, ?_, hStored⟩
    · simp only [NcState.getnetconfig, hFile, hRead, if_neg hValid, hCached, hStore, hEntry,
        Option.bind_eq_bind, Option.bind_some]
      rfl
    · have hLe := h.listed.length_le
      refine ⟨rfl, by simp, by omega, fun _ => ?_, fun hLong => absurd hLong (by omega)⟩
      rw [List.getLast?_take, if_neg (Nat.succ_ne_zero n), Nat.add_sub_cancel,
        List.getElem?_eq_getElem hLt]
      rfl
  · have hCached := h.nextCached_of_le hAt hGe
    obtain ⟨vars, hStore, hStored⟩ := Heap.store_of_read hRead
      { valid := ncValid, flag := true, ncConfigs := vs.getLast? }
    have hLast : (vs.take (n + 1)).getLast? = vs.getLast? := by
      rw [List.take_of_length_le (Nat.le_succ_of_le hGe)]
    cases hEof : s.eof with
    | true =>
        have hAll := h.eof hEof
        have hNone : E[n]? = none := List.getElem?_eq_none (by omega)
        refine ⟨_, vs, _, ?_, h.withVars hStored.live_eq, List.prefix_refl _, fun _ => hEof, ?_,
          hStored⟩
        · simp only [NcState.getnetconfig, hFile, hRead, if_neg hValid, hCached, hStore, hEof,
            hNone, Option.bind_eq_bind, Option.bind_some]
          rfl
        · exact ⟨rfl, by simp, by omega, fun _ => hLast.symm, fun _ => hEof⟩
    | false =>
        have hEnd : n = vs.length := by
          have hMin := hAt.le
          have hShort : ¬ E.length < n := fun hLong => by
            rw [hAt.eof hLong] at hEof
            cases hEof
          omega
        have hCache : Cache E vs { s with vars := vars } := h.withVars hStored.live_eq
        have hHandle := hStored.read p
        rw [if_pos rfl] at hHandle
        obtain ⟨s', vs', v', hRun, hCache', hPrefix, hAt', hUpdated⟩ :=
          hCache.readEntry_eq hFile hEof hHandle rfl
        rw [hEnd]
        refine ⟨s', vs', v', ?_, hCache', hPrefix, fun hTrue => ?_, hAt', hStored.trans hUpdated⟩
        · rw [← hRun]
          simp only [NcState.getnetconfig, hFile, hRead, if_neg hValid, hCached, hStore, hEof,
            Option.bind_eq_bind, Option.bind_some]
          rfl
        · cases hTrue

/-- `setnetconfig` opens the file if no session has it open. -/
theorem setnetconfig_eq (h : Cache E vs s) (hEntries : db.entries = some E) :
    ∃ s', s.setnetconfig db = (some s.vars.brk, s') ∧ Cache E vs s' ∧ s'.eof = s.eof ∧
      s'.vars =
        (s.vars.malloc { valid := ncValid, flag := false, ncConfigs := s.head }).2 := by
  obtain ⟨f, hOpen, hParse⟩ := Option.bind_eq_some_iff.mp hEntries
  obtain ⟨f', hFile, hRest⟩ : ∃ f', s.ncFile.or (ncopen db) = some f' ∧
      f'.entryLines.mapM parseNcp = some (E.drop vs.length) := by
    cases hNcFile : s.ncFile with
    | some f' => exact ⟨f', rfl, h.rest hNcFile⟩
    | none =>
        obtain ⟨rfl, -, -⟩ := h.closed hNcFile
        exact ⟨f, hOpen, hParse⟩
  refine ⟨{ s with
    ref := s.ref + 1, ncFile := some f'
    vars := (s.vars.malloc { valid := ncValid, flag := false, ncConfigs := s.head }).2 },
    ?_, ⟨h.listed, ?_, ?_, ?_, h.eof⟩, rfl, rfl⟩
  · simp only [NcState.setnetconfig, hFile]
    rfl
  · show s.ref + 1 = _
    rw [h.ref, Heap.live_malloc, Nat.cast_succ]
  · intro hClosed
    cases hClosed
  · rintro f'' ⟨⟩
    exact hRest

/-- `endnetconfig` gives the list back with the last session, cell by cell. -/
theorem endnetconfig_eq {p : Nat} {v : NetconfigVars} (h : Cache E vs s)
    (hRead : s.vars.read p = some v) (hValid : v.valid = ncValid) :
    ∃ s' vs', s.endnetconfig (some p) = some (0, s') ∧ Cache E vs' s' ∧
      s.vars.Updated s'.vars p none ∧ (0 < s'.vars.live → vs' = vs ∧ s'.eof = s.eof) := by
  have hGuard : ¬ (v.valid ≠ ncValid ∧ v.valid ≠ ncStorage) := fun hBad => hBad.1 hValid
  obtain ⟨vars₁, hStore, hStored⟩ := Heap.store_of_read hRead
    { valid := ncInvalid, flag := false, ncConfigs := none }
  have hHandle := hStored.read p
  rw [if_pos rfl] at hHandle
  obtain ⟨vars, hFree, hFreed⟩ := Heap.free_of_read hHandle
  have hUpdated := hStored.trans hFreed
  have hLive : vars.live + 1 = s.vars.live := hUpdated.live
  have hRef : s.ref - 1 = vars.live := by
    rw [h.ref, ← hLive]
    push_cast
    omega
  by_cases hLeft : 0 < s.ref - 1
  · refine ⟨{ s with ref := s.ref - 1, vars := vars }, vs, ?_, ⟨h.listed, hRef, ?_, h.rest, h.eof⟩,
      hUpdated, fun _ => ⟨rfl, rfl⟩⟩
    · simp only [NcState.endnetconfig, hRead, if_neg hGuard, hStore, if_pos hLeft, hFree,
        Option.bind_eq_bind, Option.bind_some]
      rfl
    · intro hClosed
      obtain ⟨-, -, hNone⟩ := h.closed hClosed
      omega
  · have hNone : vars.live = 0 := by omega
    have hLinked := h.listed.linked
    obtain ⟨lists, hChain, -⟩ := Heap.freeChain_eq hLinked h.listed.nodup
      (hLinked.length_le h.listed.nodup)
    refine ⟨{ eof := false, ref := 0, head := none, tail := none, ncFile := none, lists := lists
              vars := vars }, [], ?_, ⟨Listed.nil lists, ?_, ?_, ?_, ?_⟩, hUpdated, ?_⟩
    · simp only [NcState.endnetconfig, hRead, if_neg hGuard, hStore, if_neg hLeft, hChain, hFree,
        Option.bind_eq_bind, Option.bind_some]
      rfl
    · show (0 : Int) = _
      rw [hNone]
      rfl
    · exact fun _ => ⟨rfl, rfl, hNone⟩
    · intro f hFile
      cases hFile
    · intro hEof
      cases hEof
    · intro (hPos : 0 < vars.live)
      exact absurd hPos (by omega)

end Cache

/-! ### Sessions in any order -/

/-- Calls and what they returned. -/
abbrev NcTrace := List (NcCall × NcResult)

/-- What a call on the handle returned, if it was `getnetconfig`. -/
def entryFor (h : Nat) : NcCall × NcResult → Option (Option NcEntry)
  | (.getnetconfig h', .entry ncp) => if h' = h then some ncp else none
  | _ => none

/-- What `getnetconfig` returned for the handle. -/
def returned (h : Nat) (t : NcTrace) : List (Option NcEntry) := t.filterMap (entryFor h)

/-- `setnetconfig` returned the handle, and `endnetconfig` was not called on it. -/
def OpenIn (t : NcTrace) (h : Nat) : Prop :=
  (.setnetconfig, .handle (some h)) ∈ t ∧ ∀ r, (.endnetconfig h, r) ∉ t

/-- A call that a program may make. -/
def NcCall.Allowed (t : NcTrace) : NcCall → Prop
  | .setnetconfig => True
  | .getnetconfig h => OpenIn t h
  | .endnetconfig h => OpenIn t h

/-- The calls of any number of sessions, in any order. -/
inductive NcRun (db : NcDb) : NcTrace → NcState → Prop where
  | init : NcRun db [] NcState.init
  | step {t s call r s'} (prior : NcRun db t s) (allowed : call.Allowed t)
      (last : s.step db call = some (r, s')) : NcRun db (t ++ [(call, r)]) s'

/-- The sessions are where they should be. -/
structure Sessions (E : List NcEntry) (t : NcTrace) (s : NcState) (vs : List Nat) : Prop where
  cache : Cache E vs s
  handles : ∀ {h}, OpenIn t h → ∃ v, s.vars.read h = some v ∧
    At E vs s.eof (returned h t).length v
  order : ∀ h, returned h t = (List.range (returned h t).length).map fun i => E[i]?
  unused : ∀ {h}, s.vars.brk ≤ h → returned h t = [] ∧ ∀ r, (.endnetconfig h, r) ∉ t

theorem At.mono {eof eof' : Bool} {vs' : List Nat} {n : Nat} {v : NetconfigVars}
    (h : At E vs eof n v) (hPrefix : vs <+: vs') (hLen : vs'.length ≤ E.length)
    (hEof : eof = true → eof' = true) : At E vs' eof' n v where
  valid := h.valid
  flag := h.flag
  le := h.le.trans hPrefix.length_le
  current := fun hn => by
    obtain ⟨more, rfl⟩ := hPrefix
    rw [h.current hn]
    rcases Nat.lt_or_ge vs.length n with hLong | hShort
    · -- The handle is behind the last entry, and nothing can be put behind it.
      have hNone : more = [] := by
        have hLe := h.le
        rw [List.length_append] at hLen
        exact List.eq_nil_of_length_eq_zero (by omega)
      rw [hNone, List.append_nil]
    · rw [List.take_append_of_le_length hShort]
  eof := fun hLong => hEof (h.eof hLong)

variable {t : NcTrace}

theorem returned_append (h : Nat) (call : NcCall) (r : NcResult) :
    returned h (t ++ [(call, r)]) = returned h t ++ (entryFor h (call, r)).toList := by
  rw [returned, List.filterMap_append]
  cases hEntry : entryFor h (call, r) <;> simp [hEntry, returned]

/-- A handle that was opened by an earlier call and is still open. -/
theorem OpenIn.of_append {h : Nat} {call : NcCall} {r : NcResult}
    (hOpen : OpenIn (t ++ [(call, r)]) h) (hOther : r ≠ .handle (some h)) : OpenIn t h := by
  obtain ⟨hSet, hEnd⟩ := hOpen
  refine ⟨?_, fun r' hMem => hEnd r' (List.mem_append_left _ hMem)⟩
  rcases List.mem_append.mp hSet with hMem | hMem
  · exact hMem
  · obtain ⟨-, rfl⟩ := Prod.mk.inj (List.mem_singleton.mp hMem)
    exact absurd rfl hOther

theorem sessions_init (E : List NcEntry) : Sessions E [] NcState.init [] where
  cache :=
    { listed := Listed.nil _
      ref := rfl
      closed := fun _ => ⟨rfl, rfl, rfl⟩
      rest := fun hFile => by cases hFile
      eof := fun hEof => by cases hEof }
  handles := fun hOpen => by cases hOpen.1
  order := fun h => rfl
  unused := fun _ => ⟨rfl, fun _ => List.not_mem_nil⟩

/-- Whatever is called next returns, and the sessions go on. -/
theorem Sessions.step (h : Sessions E t s vs) (hEntries : db.entries = some E) {call : NcCall}
    (hAllowed : call.Allowed t) :
    ∃ r s' vs', s.step db call = some (r, s') ∧ Sessions E (t ++ [(call, r)]) s' vs' := by
  cases call with
  | setnetconfig =>
      obtain ⟨s', hRun, hCache, hEof, hVars⟩ := h.cache.setnetconfig_eq hEntries
      have hReturned : ∀ q, returned q (t ++ [(.setnetconfig, .handle (some s.vars.brk))]) =
          returned q t := fun q => by
        rw [returned_append]
        exact List.append_nil _
      refine ⟨.handle (some s.vars.brk), s', vs, ?_, hCache, ?_, ?_, ?_⟩
      · simp only [NcState.step, hRun]
      · intro q hOpen
        rw [hVars, Heap.read_malloc, hReturned]
        by_cases hq : q = s.vars.brk
        · obtain ⟨hNone, -⟩ := h.unused (Nat.le_of_eq hq.symm)
          refine ⟨_, if_pos hq, rfl, ?_, ?_, ?_, ?_⟩ <;> simp [hNone]
        · obtain ⟨v, hRead, hAt⟩ := h.handles (hOpen.of_append (by simpa using Ne.symm hq))
          exact ⟨v, by rw [if_neg hq, hRead], hEof ▸ hAt⟩
      · intro q
        rw [hReturned]
        exact h.order q
      · intro q hq
        rw [hVars, Heap.brk_malloc] at hq
        obtain ⟨hNone, hEnd⟩ := h.unused (Nat.le_of_succ_le hq)
        refine ⟨by rw [hReturned, hNone], fun r hMem => ?_⟩
        rcases List.mem_append.mp hMem with hOld | hNew
        · exact hEnd r hOld
        · cases List.mem_singleton.mp hNew
  | getnetconfig p =>
      obtain ⟨v, hRead, hAt⟩ := h.handles hAllowed
      obtain ⟨s', vs', v', hRun, hCache, hPrefix, hEof, hAt', hUpdated⟩ :=
        h.cache.getnetconfig_eq hRead hAt
      have hReturned : ∀ q, returned q
          (t ++ [(.getnetconfig p, .entry E[(returned p t).length]?)]) =
          returned q t ++ if p = q then [E[(returned p t).length]?] else [] := fun q => by
        rw [returned_append]
        by_cases hq : p = q <;> simp [entryFor, hq]
      refine ⟨.entry E[(returned p t).length]?, s', vs', ?_, hCache, ?_, ?_, ?_⟩
      · simp only [NcState.step, hRun]
        rfl
      · intro q hOpen
        rw [hUpdated.read, hReturned]
        by_cases hq : q = p
        · subst hq
          exact ⟨v', if_pos rfl, by simpa using hAt'⟩
        · obtain ⟨w, hRead', hOld⟩ := h.handles (hOpen.of_append (by simp))
          refine ⟨w, by rw [if_neg hq, hRead'], ?_⟩
          rw [if_neg (Ne.symm hq), List.append_nil]
          exact hOld.mono hPrefix hCache.listed.length_le hEof
      · intro q
        rw [hReturned]
        by_cases hq : p = q
        · subst hq
          rw [if_pos rfl, List.length_append, List.length_singleton, List.range_succ,
            List.map_append, ← h.order p]
          rfl
        · rw [if_neg hq, List.append_nil]
          exact h.order q
      · intro q hq
        rw [hUpdated.brk] at hq
        obtain ⟨hNone, hEnd⟩ := h.unused hq
        have hApart : ¬ p = q := Nat.ne_of_lt (Nat.lt_of_lt_of_le (Heap.lt_brk_of_read hRead) hq)
        refine ⟨by rw [hReturned, hNone, if_neg hApart]; rfl, fun r hMem => ?_⟩
        rcases List.mem_append.mp hMem with hOld | hNew
        · exact hEnd r hOld
        · cases List.mem_singleton.mp hNew
  | endnetconfig p =>
      obtain ⟨v, hRead, hAt⟩ := h.handles hAllowed
      obtain ⟨s', vs', hRun, hCache, hUpdated, hSame⟩ := h.cache.endnetconfig_eq hRead hAt.valid
      have hReturned : ∀ q, returned q (t ++ [(.endnetconfig p, .status 0)]) = returned q t :=
        fun q => by
          rw [returned_append]
          exact List.append_nil _
      refine ⟨.status 0, s', vs', ?_, hCache, ?_, ?_, ?_⟩
      · simp only [NcState.step, hRun]
        rfl
      · intro q hOpen
        have hApart : q ≠ p := by
          rintro rfl
          exact hOpen.2 _ (List.mem_append_right _ (List.mem_singleton.mpr rfl))
        obtain ⟨w, hRead', hOld⟩ := h.handles (hOpen.of_append (by simp))
        have hKept : s'.vars.read q = some w := by rw [hUpdated.read, if_neg hApart, hRead']
        obtain ⟨rfl, hEof⟩ := hSame (Heap.live_pos_of_read hKept)
        exact ⟨w, hKept, by rw [hReturned, hEof]; exact hOld⟩
      · intro q
        rw [hReturned]
        exact h.order q
      · intro q hq
        rw [hUpdated.brk] at hq
        obtain ⟨hNone, hEnd⟩ := h.unused hq
        have hApart : ¬ q = p := fun hSame =>
          absurd (Heap.lt_brk_of_read hRead) (Nat.not_lt.mpr (hSame ▸ hq))
        refine ⟨by rw [hReturned, hNone], fun r hMem => ?_⟩
        rcases List.mem_append.mp hMem with hOld | hNew
        · exact hEnd r hOld
        · cases List.mem_singleton.mp hNew
          exact hApart rfl

theorem NcRun.sessions (hRun : NcRun db t s) (hEntries : db.entries = some E) :
    ∃ vs, Sessions E t s vs := by
  induction hRun with
  | init => exact ⟨[], sessions_init E⟩
  | step prior allowed last ih =>
      obtain ⟨vs, hSessions⟩ := ih
      obtain ⟨r, s', vs', hStep, hSessions'⟩ := hSessions.step hEntries allowed
      rw [last] at hStep
      obtain ⟨rfl, rfl⟩ := Prod.mk.inj (Option.some.inj hStep)
      exact ⟨vs', hSessions'⟩

/-- Each handle gets every entry of the file once and in order, and then nothing, whatever is done
with the others. No call touches memory that was freed. -/
theorem handles_enumerate (hEntries : db.entries = some E) (hRun : NcRun db t s) :
    (∀ h, returned h t = (List.range (returned h t).length).map fun i => E[i]?) ∧
      ∀ call : NcCall, call.Allowed t → ∃ r s', s.step db call = some (r, s') := by
  obtain ⟨vs, hSessions⟩ := hRun.sessions hEntries
  refine ⟨hSessions.order, fun call hAllowed => ?_⟩
  obtain ⟨r, s', -, hStep, -⟩ := hSessions.step hEntries hAllowed
  exact ⟨r, s', hStep⟩

/-- The library of Windows without a file, and the entries of its table. -/
def tableDb : NcDb := { text := none, win32 := true }

def tableEntries : List NcEntry := netconfigTable.filterMap parseNcp

theorem entries_tableDb : tableDb.entries = some tableEntries := by decide

/-- Two sessions, of which the first gets an entry. -/
theorem handles_enumerate_table :
    ∃ t s, NcRun tableDb t s ∧ t.length = 3 ∧
      returned 0 t = (List.range (returned 0 t).length).map fun i => tableEntries[i]? := by
  have hFirst : NcRun tableDb ([] ++ [(.setnetconfig, .handle (some 0))]) _ :=
    NcRun.step NcRun.init trivial rfl
  have hSecond : NcRun tableDb
      ([] ++ [(.setnetconfig, .handle (some 0))] ++ [(.setnetconfig, .handle (some 1))]) _ :=
    NcRun.step hFirst trivial rfl
  have hGet : NcRun tableDb ([] ++ [(.setnetconfig, .handle (some 0))] ++
      [(.setnetconfig, .handle (some 1))] ++ [(.getnetconfig 0, .entry tableEntries[0]?)]) _ :=
    NcRun.step hSecond ⟨List.mem_cons_self, by simp⟩ (by with_unfolding_all rfl)
  exact ⟨_, _, hGet, rfl, (handles_enumerate entries_tableDb hGet).1 0⟩

end OncRpc
