import OncRpc.Svc.Register

/-! Runs of `xprt_register` and `xprt_unregister`: the table covers the descriptors. -/
namespace OncRpc.SvcTable

/-- The loop of `__xprt_do_unregister`, for `*fdmax`. -/
def lastBelow (xports : List (Option Nat)) : Nat → Option Int
  | 0 => some (-1)
  | n + 1 =>
      match xports[n]? with
      | none => none
      | some (some _) => some n
      | some none => lastBelow xports n

/-- `__xprt_do_unregister`. -/
def xprtDoUnregister (xprt : Nat) (sock : Int) (st : SvcTable) : Option SvcTable :=
  if st.xports.length ≤ sock then some st
  else do
    if (← st.load sock) ≠ some xprt then pure st
    else do
      let st ← st.store sock none
      if sock = -1 then pure st
      else
        let (max, fds) := st.fds.svcFdsetGetmax
        let fdmax ←
          if sock < max then some max
          else if max ≤ 0 then some (max - 1)
          else lastBelow st.xports max.toNat
        pure { st with fds := ({ fds with fdmax := fdmax }.svcFdsetClr sock.toNat).2 }

/-- The descriptors whose entries `__svc_clean_idle` reads. -/
def cleanIdleReads (st : SvcTable) : List Nat :=
  let (fdmax, fds) := st.fds.svcFdsetGetmax
  (List.range (fdmax + 1).toNat).filter fun i => (fds.svcFdsetIsset i).1

/-- A call for a transport, of which there are descriptors from 0 on. -/
inductive TableCall where
  | register (mem : SpareMemory) (xprt sock : Nat)
  | unregister (xprt sock : Nat)

def TableCall.sock : TableCall → Nat
  | .register _ _ sock => sock
  | .unregister _ sock => sock

/-- What a call does to the table, and whether it registers its descriptor. -/
def call (st : SvcTable) : TableCall → Option (Bool × SvcTable)
  | .register mem xprt sock => (st.xprtRegister mem xprt sock).map fun r => (r.rv, r.table)
  | .unregister xprt sock => (st.xprtDoUnregister xprt sock).map fun st => (false, st)

/-- The table covers the descriptors that have been registered, and those whose entries
`svc_getreq_common` and `__svc_clean_idle` read. -/
structure Covers (registered : List Nat) (st : SvcTable) : Prop where
  registered : ∀ fd ∈ registered, fd < st.xports.length
  getreq : ∀ fd ∈ st.fds.fdset, (st.load fd).isSome
  cleanIdle : ∀ fd ∈ st.cleanIdleReads, (st.load fd).isSome

/-- The table is not shortened; but for the entry of the call the earlier ones are kept, and the
new ones are NULL. -/
def Extends (sock : Nat) (st st' : SvcTable) : Prop :=
  ∃ n, st'.xports.length = st.xports.length + n ∧
    ∀ i, i ≠ sock → st'.xports[i]? = (st.xports ++ List.replicate n none)[i]?

/-- No call of a run touches an entry outside of the table, and the table covers its descriptors
before and behind each of them. -/
def CoversThroughout (registered : List Nat) (st : SvcTable) : List TableCall → Prop
  | [] => Covers registered st
  | c :: rest =>
      Covers registered st ∧
      match st.call c with
      | none => False
      | some (ok, st') =>
          Extends c.sock st st' ∧
          CoversThroughout (if ok then c.sock :: registered else registered) st' rest

/-- The first registration of a descriptor that is in range is for one below 64, or its table
cannot be allocated. -/
def FirstFits : List TableCall → Prop
  | [] => True
  | .unregister _ _ :: rest => FirstFits rest
  | .register mem _ sock :: rest =>
      if 2 ^ 31 ≤ sock + 1 then FirstFits rest else mem.table = true → sock < fdSetsize

variable {st : SvcTable} {mem : SpareMemory} {xprt sock : Nat} {registered : List Nat}

/-- Every descriptor that counts is inside. -/
structure Inside (registered : List Nat) (st : SvcTable) : Prop where
  registered : ∀ fd ∈ registered, fd < st.xports.length
  waited : ∀ fd ∈ st.fds.fdset, fd < st.xports.length

theorem load_natCast (st : SvcTable) (fd : Nat) : st.load fd = st.xports[fd]? := by
  unfold load
  rw [if_neg (by omega), if_pos (Int.natCast_nonneg fd)]
  rfl

theorem mem_cleanIdleReads {fd : Nat} (h : fd ∈ st.cleanIdleReads) : fd ∈ st.fds.fdset := by
  have hMember := (List.mem_filter.mp h).2
  rw [SvcFdset.svcFdsetIsset, decide_eq_true_eq] at hMember
  rw [← (SvcXprts.svcFdsetGetmax_spec st.fds).2.1]
  exact hMember

theorem covers_iff : Covers registered st ↔ Inside registered st := by
  constructor
  · intro h
    refine ⟨h.registered, fun fd hMem => ?_⟩
    have hLoad := h.getreq fd hMem
    rw [load_natCast, Option.isSome_iff_exists] at hLoad
    exact (List.getElem?_eq_some_iff.mp hLoad.choose_spec).1
  · intro h
    have hLoad : ∀ fd ∈ st.fds.fdset, (st.load fd).isSome := by
      intro fd hMem
      rw [load_natCast, List.getElem?_eq_getElem (h.waited fd hMem)]
      rfl
    exact ⟨h.registered, hLoad, fun fd hMem => hLoad fd (mem_cleanIdleReads hMem)⟩

/-! ### One call -/

theorem fdsize_svcFdsetAlloc_pos (fd : Nat) (fds : SvcFdset) :
    (fds.svcFdsetAlloc fd).fdsize ≠ 0 := by
  unfold SvcFdset.svcFdsetAlloc fdSetsize
  dsimp only
  split <;> omega

theorem fdsize_svcFdsetSanitize (fds : SvcFdset) : fds.svcFdsetSanitize.fdsize = fds.fdsize := by
  unfold SvcFdset.svcFdsetSanitize
  split <;> rfl

theorem fdsize_svcPollfdAdd (fd : Nat) (fds : SvcFdset) :
    (fds.svcPollfdAdd fd).fdsize = fds.fdsize := by
  have hAlloc : fds.svcPollfdAlloc.fdsize = fds.fdsize := by
    unfold SvcFdset.svcPollfdAlloc
    split <;> rfl
  rw [← hAlloc]
  unfold SvcFdset.svcPollfdAdd
  dsimp only
  split <;> rfl

theorem fdsize_svcPollfdDel (fd : Nat) (fds : SvcFdset) :
    (fds.svcPollfdDel fd).2.fdsize = fds.fdsize := by
  have hAlloc : fds.svcPollfdAlloc.fdsize = fds.fdsize := by
    unfold SvcFdset.svcPollfdAlloc
    split <;> rfl
  rw [← hAlloc]
  unfold SvcFdset.svcPollfdDel
  dsimp only
  split <;> rfl

theorem fdsize_svcFdsetSetIf (mem : Bool) (fd : Nat) (fds : SvcFdset) :
    (fds.svcFdsetSetIf mem fd).2.fdsize = (fds.svcFdsetAlloc fd).fdsize := by
  have hAdd : ∀ fds added : SvcFdset, fds.svcPollfdAddIf mem fd = some added →
      added.fdsize = fds.fdsize := by
    intro fds added hAdded
    unfold SvcFdset.svcPollfdAddIf at hAdded
    split at hAdded
    · cases hAdded
    · cases hAdded
      exact fdsize_svcPollfdAdd fd fds
  unfold SvcFdset.svcFdsetSetIf
  dsimp only
  split
  · rfl
  · split
    · rename_i added hAdded
      have hSame := hAdd _ _ hAdded
      exact (fdsize_svcFdsetSanitize _).trans hSame
    · exact fdsize_svcFdsetSanitize _

theorem fdsize_svcFdsetClr (fd : Nat) (fds : SvcFdset) :
    (fds.svcFdsetClr fd).2.fdsize = (fds.svcFdsetAlloc fd).fdsize :=
  (fdsize_svcFdsetSanitize _).trans (fdsize_svcPollfdDel _ _)

theorem fdsize_grow (mem : Bool) (n : Nat) (st : SvcTable) : (st.grow mem n).2.fds.fdsize ≠ 0 := by
  unfold grow
  dsimp only
  split_ifs <;> exact fdsize_svcFdsetAlloc_pos n st.fds

/-- What `xprt_alloc` does keeps everything inside. -/
theorem Inside.grown {st' : SvcTable} (h : Inside registered st) (hGrown : Grown st st') :
    Inside registered st' ∧ Extends sock st st' := by
  obtain ⟨n, hTable⟩ := hGrown.xports
  have hLength : st'.xports.length = st.xports.length + n := by
    rw [hTable, List.length_append, List.length_replicate]
  refine ⟨⟨fun fd hMem => ?_, fun fd hMem => ?_⟩, n, hLength, fun i _ => by rw [hTable]⟩
  · have hInside := h.registered fd hMem
    omega
  · rw [hGrown.fdset] at hMem
    have hInside := h.waited fd hMem
    omega

/-- A registration whose entry is inside keeps everything inside. -/
theorem Inside.register {registration : Registration} (h : Inside registered st)
    (hRun : st.xprtRegister mem xprt sock = some registration) :
    Inside (if registration.rv then sock :: registered else registered) registration.table ∧
      Extends sock st registration.table := by
  have hGrown := grown_xprtAlloc mem.table sock st
  obtain ⟨hInside, hExtends⟩ : Inside registered _ ∧ Extends sock st _ := h.grown hGrown
  unfold xprtRegister at hRun
  revert hRun hInside hExtends
  generalize st.xprtAlloc mem.table sock = r
  obtain ⟨ok, grown⟩ := r
  intro hRun hInside hExtends
  cases ok with
  | false =>
      cases hRun
      exact ⟨hInside, hExtends⟩
  | true =>
      have hRaw : (sock : Int) ≠ -1 := by omega
      obtain ⟨stored, hStore, hSet⟩ := Option.bind_eq_some_iff.mp hRun
      obtain ⟨⟨-, hEntry⟩, rfl⟩ := store_eq_some hRaw hStore
      rw [if_neg hRaw] at hSet
      obtain rfl : registration =
          { rv := (grown.fds.svcFdsetSetIf mem.pollfd sock).1
            held := !(grown.fds.svcFdsetSetIf mem.pollfd sock).1
            table :=
              { xports := grown.xports.set sock (some xprt)
                fds := (grown.fds.svcFdsetSetIf mem.pollfd sock).2
                raw := grown.raw } } := (Option.some.inj hSet).symm
      have hEntry : sock < grown.xports.length := Int.ofNat_lt.mp hEntry
      refine ⟨⟨fun fd hMem => ?_, fun fd hMem => ?_⟩, ?_⟩
      · show fd < (grown.xports.set _ _).length
        rw [List.length_set]
        split at hMem
        · rcases List.mem_cons.mp hMem with rfl | hMem
          · exact hEntry
          · exact hInside.registered fd hMem
        · exact hInside.registered fd hMem
      · show fd < (grown.xports.set _ _).length
        rw [List.length_set]
        change fd ∈ (grown.fds.svcFdsetSetIf mem.pollfd sock).2.fdset at hMem
        rw [SvcFdset.fdset_svcFdsetSetIf] at hMem
        split at hMem
        · exact hInside.waited fd hMem
        · rcases SvcFdset.mem_of_mem_fdSet hMem with rfl | hMem
          · exact hEntry
          · exact hInside.waited fd hMem
      · obtain ⟨n, hLength, hKept⟩ := hExtends
        refine ⟨n, ?_, fun i hOther => ?_⟩
        · show (grown.xports.set _ _).length = _
          rw [List.length_set, hLength]
        · show (grown.xports.set _ _)[i]? = _
          rw [List.getElem?_set_ne (Ne.symm hOther), hKept i hOther]

/-- A registration leaves the table when there is no entry for its descriptor. -/
theorem xprtRegister_eq_none : st.xprtRegister mem xprt sock = none ↔
    st.Allocates mem.table sock ∧ ¬ st.HasEntry sock := by
  have hRaw : (sock : Int) ≠ -1 := by omega
  by_cases hAlloc : st.Allocates mem.table sock
  · have hOk := xprtAlloc_fst.mpr hAlloc
    rw [and_iff_right hAlloc, ← hasEntry_iff hAlloc hRaw]
    unfold xprtRegister
    revert hOk
    generalize st.xprtAlloc mem.table sock = r
    obtain ⟨ok, grown⟩ := r
    rintro rfl
    dsimp only
    have hStored : grown.store sock (some xprt) = none ↔ _ := store_eq_none hRaw
    rw [← hStored, Option.bind_eq_bind, Option.bind_eq_none_iff]
    constructor
    · intro hNone
      cases hStore : grown.store sock (some xprt) with
      | none => rfl
      | some stored =>
          have hBad := hNone stored hStore
          rw [if_neg hRaw] at hBad
          cases hBad
    · intro hNone stored hStore
      rw [hNone] at hStore
      cases hStore
  · have hFails : (st.xprtAlloc mem.table sock).1 = false := by
      rw [← Bool.not_eq_true, xprtAlloc_fst]
      exact hAlloc
    refine iff_of_false ?_ fun h => hAlloc h.1
    unfold xprtRegister
    revert hFails
    generalize st.xprtAlloc mem.table sock = r
    obtain ⟨ok, grown⟩ := r
    rintro rfl
    exact Option.some_ne_none _

/-- From a registration on that is in range the `fd_set` is allocated. -/
theorem fdsize_xprtRegister {registration : Registration}
    (hSize : st.fds.fdsize ≠ 0 ∨ sock + 1 < 2 ^ 31)
    (hRun : st.xprtRegister mem xprt sock = some registration) :
    registration.table.fds.fdsize ≠ 0 := by
  have hGrown : (st.xprtAlloc mem.table sock).2.fds.fdsize ≠ 0 := by
    unfold xprtAlloc
    split
    · rcases hSize with hSize | hSize
      · exact hSize
      · omega
    · exact fdsize_grow _ _ _
  have hRaw : (sock : Int) ≠ -1 := by omega
  unfold xprtRegister at hRun
  revert hRun hGrown
  generalize st.xprtAlloc mem.table sock = r
  obtain ⟨ok, grown⟩ := r
  intro hRun hGrown
  cases ok with
  | false =>
      cases hRun
      exact hGrown
  | true =>
      obtain ⟨stored, hStore, hSet⟩ := Option.bind_eq_some_iff.mp hRun
      rw [if_neg hRaw] at hSet
      cases hSet
      show (SvcFdset.svcFdsetSetIf _ _ _).2.fdsize ≠ 0
      rw [fdsize_svcFdsetSetIf]
      exact fdsize_svcFdsetAlloc_pos _ _

/-- The loop of `__xprt_do_unregister` stays inside. -/
theorem lastBelow_isSome {xports : List (Option Nat)} {n : Nat} (h : n ≤ xports.length) :
    (lastBelow xports n).isSome := by
  induction n with
  | zero => rfl
  | succ n ih =>
      have hEntry := List.getElem?_eq_getElem (show n < xports.length by omega)
      unfold lastBelow
      rw [hEntry]
      cases xports[n] with
      | none => exact ih (by omega)
      | some _ => rfl

/-- A transport that is not in the table is let be. -/
theorem xprtDoUnregister_of_other (h : st.xports[sock]? ≠ some (some xprt)) :
    st.xprtDoUnregister xprt sock = some st := by
  unfold xprtDoUnregister
  by_cases hRange : (st.xports.length : Int) ≤ sock
  · exact if_pos hRange
  · have hLt : sock < st.xports.length := by omega
    rw [List.getElem?_eq_getElem hLt] at h
    rw [if_neg hRange, load_natCast, List.getElem?_eq_getElem hLt]
    exact if_pos fun hSame => h (congrArg some hSame)

theorem lastBelow_lt {xports : List (Option Nat)} {n : Nat} {fdmax : Int}
    (h : lastBelow xports n = some fdmax) : fdmax < n := by
  induction n with
  | zero =>
      obtain rfl := Option.some.inj h
      decide
  | succ n ih =>
      unfold lastBelow at h
      split at h
      · cases h
      · obtain rfl := Option.some.inj h
        omega
      · have hBelow := ih h
        omega

/-- One that is in the table is taken out, and `*fdmax` is lowered if it is the last one. -/
theorem xprtDoUnregister_of_listed (h : st.xports[sock]? = some (some xprt)) :
    ∃ fdmax, (if (sock : Int) < st.fds.svcFdsetGetmax.1 then fdmax = st.fds.svcFdsetGetmax.1
        else fdmax < st.fds.svcFdsetGetmax.1) ∧
      st.xprtDoUnregister xprt sock = some
      { xports := st.xports.set sock none
        fds := ({ st.fds.svcFdsetGetmax.2 with fdmax := fdmax }.svcFdsetClr sock).2
        raw := st.raw } := by
  have hLt : sock < st.xports.length := (List.getElem?_eq_some_iff.mp h).1
  have hRange : ¬ (st.xports.length : Int) ≤ sock := by omega
  have hRaw : (sock : Int) ≠ -1 := by omega
  have hStore : st.store sock none = some { st with xports := st.xports.set sock none } := by
    unfold store
    rw [if_neg fun h => hRaw h.1, if_pos (by omega)]
    rfl
  unfold xprtDoUnregister
  rw [if_neg hRange, load_natCast, h]
  simp only [Option.bind_eq_bind, Option.bind_some, ne_eq, not_true_eq_false, if_false, hStore,
    if_neg hRaw, Int.toNat_natCast]
  by_cases hBefore : (sock : Int) < st.fds.svcFdsetGetmax.1
  · exact ⟨_, by rw [if_pos hBefore], by rw [if_pos hBefore]; rfl⟩
  · rw [if_neg hBefore]
    by_cases hLow : st.fds.svcFdsetGetmax.1 ≤ 0
    · refine ⟨st.fds.svcFdsetGetmax.1 - 1, ?_, by rw [if_pos hLow]; rfl⟩
      rw [if_neg hBefore]
      omega
    · have hMax : st.fds.svcFdsetGetmax.1.toNat ≤ (st.xports.set sock none).length := by
        rw [List.length_set]
        omega
      obtain ⟨fdmax, hLoop⟩ := Option.isSome_iff_exists.mp (lastBelow_isSome hMax)
      have hBelow := lastBelow_lt hLoop
      exact ⟨fdmax, by rw [if_neg hBefore]; omega, by rw [if_neg hLow, hLoop]; rfl⟩

/-- Taking a transport off keeps everything inside. -/
theorem Inside.unregister (h : Inside registered st) (xprt sock : Nat) :
    ∃ st', st.xprtDoUnregister xprt sock = some st' ∧ Inside registered st' ∧ Extends sock st st' ∧
      (st.fds.fdsize ≠ 0 → st'.fds.fdsize ≠ 0) := by
  by_cases hXprt : st.xports[sock]? = some (some xprt)
  · obtain ⟨fdmax, -, hRun⟩ := xprtDoUnregister_of_listed hXprt
    refine ⟨_, hRun, ⟨fun fd hMem => ?_, fun fd hMem => ?_⟩, ⟨0, ?_, fun i hOther => ?_⟩,
      fun _ => ?_⟩
    · show fd < (st.xports.set sock none).length
      rw [List.length_set]
      exact h.registered fd hMem
    · show fd < (st.xports.set sock none).length
      rw [List.length_set]
      change fd ∈ (SvcFdset.svcFdsetClr sock _).2.fdset at hMem
      rw [SvcFdset.fdset_svcFdsetClr] at hMem
      have hMember := List.mem_of_mem_erase hMem
      change fd ∈ st.fds.svcFdsetGetmax.2.fdset at hMember
      rw [(SvcXprts.svcFdsetGetmax_spec st.fds).2.1] at hMember
      exact h.waited fd hMember
    · exact List.length_set
    · show (st.xports.set sock none)[i]? = _
      rw [List.getElem?_set_ne (Ne.symm hOther), List.replicate_zero, List.append_nil]
    · show (SvcFdset.svcFdsetClr sock _).2.fdsize ≠ 0
      rw [fdsize_svcFdsetClr]
      exact fdsize_svcFdsetAlloc_pos _ _
  · exact ⟨st, xprtDoUnregister_of_other hXprt, h, ⟨0, rfl, fun i _ => by simp⟩, id⟩

/-! ### Runs -/

/-- Once the `fd_set` has been allocated, everything stays inside. The induction is on the calls.
-/
theorem Inside.coversThroughout (calls : List TableCall) {registered : List Nat} {st : SvcTable}
    (h : Inside registered st) (hSize : st.fds.fdsize ≠ 0) :
    CoversThroughout registered st calls := by
  induction calls generalizing registered st with
  | nil => exact covers_iff.mpr h
  | cons c rest ih =>
      refine ⟨covers_iff.mpr h, ?_⟩
      cases c with
      | register mem xprt sock =>
          have hSome : st.xprtRegister mem xprt sock ≠ none := by
            rw [Ne, xprtRegister_eq_none]
            exact fun hBad => hBad.2 (Or.inr fun hZero => absurd hZero hSize)
          obtain ⟨registration, hRun⟩ := Option.ne_none_iff_exists'.mp hSome
          obtain ⟨hInside, hExtends⟩ := h.register hRun
          rw [call, hRun]
          exact ⟨hExtends, ih hInside (fdsize_xprtRegister (Or.inl hSize) hRun)⟩
      | unregister xprt sock =>
          obtain ⟨st', hRun, hInside, hExtends, hKept⟩ := h.unregister xprt sock
          rw [call, hRun]
          exact ⟨hExtends, ih hInside (hKept hSize)⟩

/-- Every entry that is touched is inside of the table exactly when the first registration is for
a descriptor below 64. -/
theorem coversThroughout_iff (calls : List TableCall) :
    CoversThroughout [] {} calls ↔ FirstFits calls := by
  have hStart : Inside [] {} := ⟨nofun, nofun⟩
  induction calls with
  | nil => exact iff_of_true (covers_iff.mpr hStart) trivial
  | cons c rest ih =>
      rw [CoversThroughout, and_iff_right (covers_iff.mpr hStart)]
      cases c with
      | register mem xprt sock =>
          rw [call, FirstFits]
          by_cases hRange : 2 ^ 31 ≤ sock + 1
          · have hRun : xprtRegister mem xprt sock {} =
                some { rv := false, held := false, table := {} } := by
              unfold xprtRegister xprtAlloc
              rw [if_pos (Or.inr (by omega))]
            rw [hRun, if_pos hRange]
            exact (and_iff_right ⟨0, rfl, fun i _ => by simp⟩).trans ih
          · rw [if_neg hRange]
            cases hRun : xprtRegister mem xprt sock {} with
            | none =>
                obtain ⟨⟨-, -, hMem⟩, hEntry⟩ := xprtRegister_eq_none.mp hRun
                have hTable := hMem.resolve_right fun hNil => hNil.1 rfl
                refine iff_of_false id fun hFirst => hEntry (Or.inr fun _ => ?_)
                exact Int.ofNat_lt.mpr (hFirst hTable)
            | some registration =>
                have hFirst : mem.table = true → sock < fdSetsize := by
                  intro hTable
                  by_contra hLarge
                  have hAlloc : Allocates mem.table sock {} := ⟨by omega, by omega, Or.inl hTable⟩
                  have hOutside : ¬ HasEntry sock {} := by
                    rintro (hInside | hSmall)
                    · exact absurd hInside (by simp)
                    · exact hLarge (Int.ofNat_lt.mp (hSmall rfl))
                  have hNone : xprtRegister mem xprt sock {} = none :=
                    xprtRegister_eq_none.mpr ⟨hAlloc, hOutside⟩
                  rw [hNone] at hRun
                  cases hRun
                obtain ⟨hInside, hExtends⟩ := hStart.register hRun
                refine iff_of_true ⟨hExtends, ?_⟩ hFirst
                exact hInside.coversThroughout rest
                  (fdsize_xprtRegister (Or.inr (by omega)) hRun)
      | unregister xprt sock =>
          have hRun : call {} (.unregister xprt sock) = some (false, {}) := by
            rw [call, xprtDoUnregister_of_other (by simp)]
            rfl
          rw [hRun]
          exact (and_iff_right ⟨0, rfl, fun i _ => by simp⟩).trans ih

/-- The first transport of a server has the descriptor 64. -/
theorem not_coversThroughout_large :
    call {} (.register ⟨true, true⟩ 1 64) = none ∧
      ¬ CoversThroughout [] {} [.register ⟨true, true⟩ 1 64] := by
  have hRun : call {} (.register ⟨true, true⟩ 1 64) = none := by decide
  refine ⟨hRun, ?_⟩
  rw [CoversThroughout, hRun]
  exact fun h => h.2

end OncRpc.SvcTable
