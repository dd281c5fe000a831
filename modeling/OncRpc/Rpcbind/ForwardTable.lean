import Mathlib.Data.Finset.Card
import Mathlib.Data.List.Induction
import OncRpc.Rpcbind.Forward

/-! What holds of the forwarding table after any calls of its four routines. -/
namespace OncRpc

/-- What tells a call from others. -/
def Finfo.key (fi : Finfo) : BitVec 32 × Option (List UInt8) × BitVec 32 × BitVec 32 :=
  (fi.callerXid, fi.callerAddr, fi.replyType, fi.versnum)

/-- A slot is free for a new call, after what has been waited for long enough is released. -/
def Finfo.Free (timeNow : Int) (fi : Finfo) : Prop := fi.active = false ∨ fi.Expired timeNow

instance (timeNow : Int) (fi : Finfo) : Decidable (fi.Free timeNow) :=
  inferInstanceAs (Decidable (_ ∨ _))

namespace Forwarding

variable {st : Forwarding} {call : ForwardCall} {timeNow timeDup : Int}

/-- Releasing a slot changes its flag only. -/
theorem finfo_freeSlotByIndex (idx : Fin nforward) (st : Forwarding) :
    (st.freeSlotByIndex idx).finfo =
      Function.update st.finfo idx { st.finfo idx with active := false } := by
  unfold freeSlotByIndex
  by_cases hActive : (st.finfo idx).active = true
  · rw [if_pos hActive]
  · rw [if_neg hActive]
    have hSame : { st.finfo idx with active := false } = st.finfo idx := by
      rw [Bool.not_eq_true] at hActive
      rw [← hActive]
    rw [hSame, Function.update_eq_self]

theorem lastxid_freeSlotByIndex (idx : Fin nforward) :
    (st.freeSlotByIndex idx).lastxid = st.lastxid := by
  unfold freeSlotByIndex
  by_cases hActive : (st.finfo idx).active = true
  · rw [if_pos hActive]
  · rw [if_neg hActive]

theorem freeSlotByIndex_of_inactive {idx : Fin nforward} (h : (st.finfo idx).active = false) :
    st.freeSlotByIndex idx = st := by
  unfold freeSlotByIndex
  simp [h]

theorem finfo_expire_of_ne {i k : Fin nforward} (h : k ≠ i) :
    (st.expire timeNow i).finfo k = st.finfo k := by
  unfold expire
  split
  · rw [finfo_freeSlotByIndex, Function.update_of_ne h]
  · rfl

theorem finfo_expire_same (i : Fin nforward) : (st.expire timeNow i).finfo i =
    { st.finfo i with
      active := (st.finfo i).active && decide ¬ (st.finfo i).Expired timeNow } := by
  unfold expire
  split
  · next hExpired =>
      rw [finfo_freeSlotByIndex, Function.update_self]
      simp [hExpired]
  · next hNot => simp [hNot]

/-- What has been waited for long enough is released in slots one after the other. -/
def sweep (timeNow : Int) (slots : List (Fin nforward)) (st : Forwarding) : Forwarding :=
  slots.foldl (fun st i => st.expire timeNow i) st

theorem duplicate_expire {i k : Fin nforward}
    (h : ((st.expire timeNow i).finfo k).Duplicate call) : (st.finfo k).Duplicate call := by
  by_cases hSame : k = i
  · subst hSame
    rw [finfo_expire_same] at h
    obtain ⟨hActive, hRest⟩ := h
    rw [Bool.and_eq_true] at hActive
    exact ⟨hActive.1, hRest⟩
  · rwa [finfo_expire_of_ne hSame] at h

theorem free_expire {i k : Fin nforward} :
    ((st.expire timeNow i).finfo k).Free timeNow ↔ (st.finfo k).Free timeNow := by
  by_cases hSame : k = i
  · subst hSame
    rw [finfo_expire_same]
    by_cases hExpired : (st.finfo k).Expired timeNow
    · simp [Finfo.Free, hExpired]
    · simp [hExpired]
  · rw [finfo_expire_of_ne hSame]

theorem time_expire (i k : Fin nforward) :
    ((st.expire timeNow i).finfo k).time = (st.finfo k).time := by
  by_cases hSame : k = i
  · subst hSame
    rw [finfo_expire_same]
  · rw [finfo_expire_of_ne hSame]

/-- A slot that has been swept is free exactly when it is not active. -/
theorem active_expire_same (i : Fin nforward) :
    ((st.expire timeNow i).finfo i).active = false ↔ (st.finfo i).Free timeNow := by
  rw [finfo_expire_same, Finfo.Free]
  by_cases hActive : (st.finfo i).active = true <;> simp [hActive]

/-- The loop ends at the first duplicate. -/
theorem forwardScan_duplicate {pre post : List (Fin nforward)} {i : Fin nforward} {sc : Scan}
    (hPre : ∀ k ∈ pre, ¬ (sc.st.finfo k).Duplicate call) (hi : i ∉ pre)
    (hDuplicate : (sc.st.finfo i).Duplicate call) :
    forwardScan call timeNow timeDup (pre ++ i :: post) sc =
      .error ((sc.st.sweep timeNow pre).refresh i timeDup) := by
  induction pre generalizing sc with
  | nil =>
      rw [List.nil_append, forwardScan, if_pos hDuplicate]
      rfl
  | cons k pre ih =>
      have hApart : i ≠ k := fun hSame => hi (hSame ▸ List.mem_cons_self)
      rw [List.cons_append, forwardScan, if_neg (hPre k List.mem_cons_self)]
      have hSt : ∀ sc : Scan, (sc.look k).st = sc.st := by
        intro sc
        unfold Scan.look
        split <;> [split <;> [rfl; (split <;> rfl)]; rfl]
      rw [ih]
      · rw [hSt]
        rfl
      · intro l hl hBad
        rw [hSt] at hBad
        exact hPre l (List.mem_cons_of_mem _ hl) (duplicate_expire hBad)
      · exact fun hMem => hi (List.mem_cons_of_mem _ hMem)
      · rw [hSt]
        show ((sc.st.expire timeNow k).finfo i).Duplicate call
        rwa [finfo_expire_of_ne hApart]

/-- The slot that the loop has found in the slots it has been through. -/
structure Found (timeNow : Int) (slots : List (Fin nforward)) (sc sc' : Scan) : Prop where
  st_eq : sc'.st = sc.st.sweep timeNow slots
  entry_eq : sc'.entry = sc.entry.or
    (slots.find? fun i => decide ((sc.st.finfo i).Free timeNow))
  earliest : sc'.entry = none → sc'.minTime = (sc.st.finfo sc'.j).time ∧
    sc'.minTime ≤ sc.minTime ∧ (sc'.j = sc.j ∨ sc'.minTime < sc.minTime) ∧
    ∀ i ∈ slots, sc'.minTime ≤ (sc.st.finfo i).time ∧
      (i < sc'.j → sc'.minTime < (sc.st.finfo i).time)

/-- Without a duplicate the loop goes through all the slots, which stand in order. -/
theorem forwardScan_new {slots : List (Fin nforward)} {sc : Scan}
    (hNew : ∀ i ∈ slots, ¬ (sc.st.finfo i).Duplicate call)
    (hMin : sc.minTime = (sc.st.finfo sc.j).time) (hOrder : slots.Pairwise (· < ·))
    (hFirst : ∀ i ∈ slots, sc.j ≤ i) :
    ∃ sc', forwardScan call timeNow timeDup slots sc = .ok sc' ∧ Found timeNow slots sc sc' := by
  induction slots generalizing sc with
  | nil =>
      refine ⟨sc, rfl, rfl, ?_, fun _ => ⟨hMin, le_refl _, Or.inl rfl, fun i hi => (by cases hi)⟩⟩
      rw [List.find?_nil, Option.or_none]
  | cons i slots ih =>
      rw [forwardScan, if_neg (hNew i List.mem_cons_self)]
      obtain ⟨sc₁, hsc₁⟩ : ∃ sc₁ : Scan, sc₁ = { sc with st := sc.st.expire timeNow i } := ⟨_, rfl⟩
      have hStep : (sc₁.look i).st = sc.st.expire timeNow i ∧
          (sc₁.look i).entry = sc.entry.or
            (if (sc.st.finfo i).Free timeNow then some i else none) ∧
          (sc₁.look i).minTime = (sc.st.finfo (sc₁.look i).j).time ∧
          (sc₁.look i).minTime ≤ sc.minTime ∧
          ((sc₁.look i).j = sc.j ∨ (sc₁.look i).j = i ∧ (sc₁.look i).minTime < sc.minTime) ∧
          ((sc₁.look i).entry = none → (sc₁.look i).minTime ≤ (sc.st.finfo i).time) := by
        have hFree := @active_expire_same sc.st timeNow i
        have hTime := @time_expire sc.st timeNow i i
        subst hsc₁
        unfold Scan.look
        dsimp only
        cases hEntry : sc.entry with
        | some e => simp [hMin]
        | none =>
            rw [if_pos rfl]
            by_cases hIs : (sc.st.finfo i).Free timeNow
            · rw [if_pos (hFree.mpr hIs), if_pos hIs]
              simp [hMin]
            · rw [if_neg (fun h => hIs (hFree.mp h)), if_neg hIs, hTime]
              split
              · next hLt => exact ⟨rfl, rfl, rfl, hLt.le, Or.inr ⟨rfl, hLt⟩, fun _ => le_refl _⟩
              · next hLe =>
                  exact ⟨rfl, rfl, hMin, le_refl _, Or.inl rfl, fun _ => Int.not_lt.mp hLe⟩
      rw [← hsc₁]
      obtain ⟨hSt, hEntry, hMin', hLe, hNext, hHere⟩ := hStep
      obtain ⟨hBefore, hOrder'⟩ := List.pairwise_cons.mp hOrder
      have hj : (sc₁.look i).j ≤ i := by
        rcases hNext with hSame | ⟨hSame, -⟩
        · rw [hSame]
          exact hFirst i List.mem_cons_self
        · rw [hSame]
      have hNew' : ∀ k ∈ slots, ¬ ((sc₁.look i).st.finfo k).Duplicate call := by
        intro k hk hBad
        rw [hSt] at hBad
        exact hNew k (List.mem_cons_of_mem _ hk) (duplicate_expire hBad)
      have hTime' : (sc₁.look i).minTime = ((sc₁.look i).st.finfo (sc₁.look i).j).time := by
        rw [hMin', hSt, time_expire]
      obtain ⟨sc', hScan, hFound⟩ := ih hNew' hTime' hOrder'
        fun k hk => hj.trans (hBefore k hk).le
      refine ⟨sc', hScan, ?_, ?_, ?_⟩
      · rw [hFound.st_eq, hSt]
        rfl
      · rw [hFound.entry_eq, hEntry, hSt, Option.or_assoc]
        simp only [free_expire]
        congr 1
        rw [List.find?_cons]
        by_cases hIs : (sc.st.finfo i).Free timeNow
        · simp [hIs]
        · simp [hIs]
      · intro hNone
        obtain ⟨hTime, hLe', hMoved, hAll⟩ := hFound.earliest hNone
        rw [hSt] at hTime hAll
        simp only [time_expire] at hTime hAll
        have hHead : sc'.minTime ≤ (sc.st.finfo i).time := by
          apply hLe'.trans
          apply hHere
          rw [hFound.entry_eq] at hNone
          exact (Option.or_eq_none_iff.mp hNone).1
        refine ⟨hTime, hLe'.trans hLe, ?_, fun k hk => ?_⟩
        · rcases hMoved with hSame | hLt
          · rcases hNext with hSame' | ⟨-, hLt⟩
            · exact Or.inl (hSame.trans hSame')
            · exact Or.inr (hLe'.trans_lt hLt)
          · exact Or.inr (hLt.trans_le hLe)
        · rcases List.mem_cons.mp hk with rfl | hk
          · refine ⟨hHead, fun hLater => ?_⟩
            rcases hMoved with hSame | hLt
            · rw [hSame] at hLater
              exact absurd hLater (not_lt.mpr hj)
            · apply hLt.trans_le
              apply hHere
              rw [hFound.entry_eq] at hNone
              exact (Option.or_eq_none_iff.mp hNone).1
          · exact hAll k hk

theorem finfo_refresh (i : Fin nforward) (time : Int) :
    (st.refresh i time).finfo = Function.update st.finfo i { st.finfo i with time := time } := rfl

theorem finfo_initXid : (st.initXid timeNow).finfo = st.finfo := by
  unfold initXid
  split <;> rfl

/-- The first slot with the least time. -/
def Earliest (st : Forwarding) (j : Fin nforward) : Prop :=
  ∀ i, (st.finfo j).time ≤ (st.finfo i).time ∧ (i < j → (st.finfo j).time < (st.finfo i).time)

/-- The slot that a new call takes: the first free one, or the one with the least time. -/
def Takes (timeNow : Int) (st : Forwarding) (j : Fin nforward) : Prop :=
  ((List.finRange nforward).find? fun i => decide ((st.finfo i).Free timeNow)) = some j ∨
  (∀ i, ¬ (st.finfo i).Free timeNow) ∧ st.Earliest j

theorem finfo_sweep (slots : List (Fin nforward)) (k : Fin nforward) :
    (st.sweep timeNow slots).finfo k = { st.finfo k with
      active := (st.finfo k).active && decide ¬ (k ∈ slots ∧ (st.finfo k).Expired timeNow) } := by
  induction slots generalizing st with
  | nil => simp [sweep]
  | cons i slots ih =>
      have hCons : st.sweep timeNow (i :: slots) = (st.expire timeNow i).sweep timeNow slots := rfl
      rw [hCons, ih]
      by_cases hSame : k = i
      · subst hSame
        by_cases hExpired : (st.finfo k).Expired timeNow
        · rw [finfo_expire_same]
          simp [hExpired]
        · rw [expire, if_neg hExpired]
          simp [hExpired]
      · rw [finfo_expire_of_ne hSame]
        simp [hSame]

/-- A call that is in the table already is not entered again, and any other takes a slot. -/
theorem forwardRegister_cases (call : ForwardCall) (timeNow timeDup : Int) (dup : Bool)
    (st : Forwarding) :
    (∃ pre i post, List.finRange nforward = pre ++ i :: post ∧
      (∀ k ∈ pre, ¬ (st.finfo k).Duplicate call) ∧
      (st.finfo i).Duplicate call ∧ st.forwardRegister call timeNow timeDup dup =
        (.duplicate, ((st.initXid timeNow).sweep timeNow pre).refresh i timeDup)) ∨
    (∀ i, ¬ (st.finfo i).Duplicate call) ∧ ∃ j, Takes timeNow st j ∧
      st.forwardRegister call timeNow timeDup dup =
        (((st.initXid timeNow).sweep timeNow (List.finRange nforward)).freeSlotByIndex j).enter
          call timeNow dup j := by
  by_cases hAny : ∃ i, (st.finfo i).Duplicate call
  · left
    have hFound : ((List.finRange nforward).find?
        fun i => decide ((st.finfo i).Duplicate call)).isSome := by
      obtain ⟨i, hi⟩ := hAny
      rw [List.find?_isSome]
      exact ⟨i, List.mem_finRange i, decide_eq_true hi⟩
    obtain ⟨i, hi⟩ := Option.isSome_iff_exists.mp hFound
    obtain ⟨hDuplicate, pre, post, hSplit, hPre⟩ := List.find?_eq_some_iff_append.mp hi
    have hBefore : ∀ k ∈ pre, ¬ (st.finfo k).Duplicate call := by
      intro k hk hBad
      simpa [hBad] using hPre k hk
    refine ⟨pre, i, post, hSplit, hBefore, of_decide_eq_true hDuplicate, ?_⟩
    have hNodup := List.nodup_finRange nforward
    rw [hSplit] at hNodup
    have hApart : i ∉ pre := fun hMem =>
      (List.nodup_append.mp hNodup).2.2 i hMem i List.mem_cons_self rfl
    unfold forwardRegister
    rw [hSplit]
    simp only
    rw [forwardScan_duplicate]
    · intro k hk
      simpa only [finfo_initXid] using hBefore k hk
    · exact hApart
    · simpa only [finfo_initXid] using of_decide_eq_true hDuplicate
  · right
    push Not at hAny
    refine ⟨hAny, ?_⟩
    obtain ⟨sc, hScan, hFound⟩ := @forwardScan_new call timeNow timeDup (List.finRange nforward)
      { st := st.initXid timeNow, entry := none, j := 0, minTime := (st.finfo 0).time }
      (fun i _ => by simpa only [finfo_initXid] using hAny i) (by simp only [finfo_initXid])
      (List.pairwise_lt_finRange nforward) (fun i _ => Fin.zero_le i)
    have hEntry := hFound.entry_eq
    simp only [finfo_initXid, Option.none_or] at hEntry
    cases hCase : sc.entry with
    | some j =>
        rw [hCase] at hEntry
        refine ⟨j, Or.inl hEntry.symm, ?_⟩
        have hFree : ((st.initXid timeNow).sweep timeNow (List.finRange nforward)).freeSlotByIndex j =
            (st.initXid timeNow).sweep timeNow (List.finRange nforward) := by
          apply freeSlotByIndex_of_inactive
          have hIs := List.find?_some hEntry.symm
          rw [decide_eq_true_eq] at hIs
          rw [finfo_sweep, finfo_initXid]
          rcases hIs with hInactive | hExpired
          · simp [hInactive]
          · simp [hExpired]
        rw [hFree]
        unfold forwardRegister
        simp only [hScan, hCase, hFound.st_eq]
    | none =>
        rw [hCase] at hEntry
        obtain ⟨hTime, -, -, hAll⟩ := hFound.earliest hCase
        simp only [finfo_initXid] at hTime hAll
        refine ⟨sc.j, Or.inr ⟨fun i => ?_, fun i => ?_⟩, ?_⟩
        · have hNot := List.find?_eq_none.mp hEntry.symm i (List.mem_finRange i)
          rwa [decide_eq_true_eq] at hNot
        · rw [← hTime]
          exact hAll i (List.mem_finRange i)
        · unfold forwardRegister
          simp only [hScan, hCase, hFound.st_eq]

/-! ### The invariant -/

/-- The slots with `FINFO_ACTIVE`. -/
def activeSlots (st : Forwarding) : Finset (Fin nforward) :=
  Finset.univ.filter fun i => (st.finfo i).active = true

theorem mem_activeSlots {i : Fin nforward} : i ∈ st.activeSlots ↔ (st.finfo i).active = true := by
  rw [activeSlots, Finset.mem_filter]
  exact ⟨And.right, fun hActive => ⟨Finset.mem_univ i, hActive⟩⟩

/-- The table is in order. -/
structure Sound (st : Forwarding) : Prop where
  rmtcalls_eq : st.rpcbRmtcalls = (st.activeSlots.card : Int)
  xid_ne : ∀ i, (st.finfo i).active → (st.finfo i).forwardXid ≠ 0
  xid_slot : ∀ i, (st.finfo i).active → (st.finfo i).forwardXid.toNat % nforward = i
  once : ∀ i k, (st.finfo i).active → (st.finfo k).active →
    (st.finfo i).key = (st.finfo k).key → i = k
  lastxid_mod : st.lastxid.toNat % nforward = 0

/-- What is active is the same as before, but for its time. -/
def Keeps (st st' : Forwarding) : Prop := ∀ i, (st'.finfo i).active →
  (st.finfo i).active ∧ (st'.finfo i).forwardXid = (st.finfo i).forwardXid ∧
    (st'.finfo i).key = (st.finfo i).key

variable {st' : Forwarding}

theorem Sound.of_keeps (h : st.Sound) (hKeeps : Keeps st st')
    (hCount : st'.rpcbRmtcalls = (st'.activeSlots.card : Int))
    (hLast : st'.lastxid.toNat % nforward = 0) : st'.Sound where
  rmtcalls_eq := hCount
  xid_ne := by
    intro i hActive
    obtain ⟨hOld, hXid, -⟩ := hKeeps i hActive
    rw [hXid]
    exact h.xid_ne i hOld
  xid_slot := by
    intro i hActive
    obtain ⟨hOld, hXid, -⟩ := hKeeps i hActive
    rw [hXid]
    exact h.xid_slot i hOld
  once := by
    intro i k hActive hActive' hSame
    obtain ⟨hOld, -, hKey⟩ := hKeeps i hActive
    obtain ⟨hOld', -, hKey'⟩ := hKeeps k hActive'
    exact h.once i k hOld hOld' (hKey.symm.trans (hSame.trans hKey'))
  lastxid_mod := hLast

theorem activeSlots_freeSlotByIndex (idx : Fin nforward) :
    (st.freeSlotByIndex idx).activeSlots = st.activeSlots.erase idx := by
  ext k
  rw [activeSlots, finfo_freeSlotByIndex]
  by_cases hSame : k = idx
  · subst hSame
    simp
  · simp [activeSlots, hSame]

theorem keeps_freeSlotByIndex (idx : Fin nforward) : Keeps st (st.freeSlotByIndex idx) := by
  intro i
  rw [finfo_freeSlotByIndex]
  by_cases hSame : i = idx
  · subst hSame
    simp
  · rw [Function.update_of_ne hSame]
    exact fun hActive => ⟨hActive, rfl, rfl⟩

theorem Sound.free (h : st.Sound) (idx : Fin nforward) : (st.freeSlotByIndex idx).Sound := by
  apply h.of_keeps (keeps_freeSlotByIndex idx)
  · rw [activeSlots_freeSlotByIndex]
    by_cases hActive : (st.finfo idx).active = true
    · have hMem : idx ∈ st.activeSlots := by simp [activeSlots, hActive]
      have hPos := Finset.card_pos.mpr ⟨idx, hMem⟩
      have hRmt : (st.freeSlotByIndex idx).rpcbRmtcalls = st.rpcbRmtcalls - 1 := by
        unfold freeSlotByIndex
        rw [if_pos hActive]
      rw [hRmt, h.rmtcalls_eq, Finset.card_erase_of_mem hMem]
      omega
    · rw [Bool.not_eq_true] at hActive
      rw [freeSlotByIndex_of_inactive hActive, Finset.erase_eq_of_notMem, h.rmtcalls_eq]
      simp [activeSlots, hActive]
  · rw [lastxid_freeSlotByIndex]
    exact h.lastxid_mod

theorem Sound.sweep (h : st.Sound) (timeNow : Int) (slots : List (Fin nforward)) :
    (st.sweep timeNow slots).Sound := by
  induction slots generalizing st with
  | nil => exact h
  | cons i slots ih =>
      apply ih
      show (st.expire timeNow i).Sound
      unfold expire
      split
      · exact h.free i
      · exact h

theorem keeps_sweep (slots : List (Fin nforward)) : Keeps st (st.sweep timeNow slots) := by
  intro i hActive
  rw [finfo_sweep] at hActive ⊢
  exact ⟨(Bool.and_eq_true_iff.mp hActive).1, rfl, rfl⟩

theorem Sound.initXid (h : st.Sound) (timeNow : Int) : (st.initXid timeNow).Sound := by
  have hRmt : (st.initXid timeNow).rpcbRmtcalls = st.rpcbRmtcalls := by
    unfold Forwarding.initXid
    split <;> rfl
  have hSlots : (st.initXid timeNow).activeSlots = st.activeSlots := by
    rw [activeSlots, finfo_initXid, activeSlots]
  apply h.of_keeps
  · intro i hActive
    rw [finfo_initXid] at hActive ⊢
    exact ⟨hActive, rfl, rfl⟩
  · rw [hRmt, hSlots, h.rmtcalls_eq]
  · unfold Forwarding.initXid
    split
    · show (BitVec.ofInt 32 (timeNow * 64)).toNat % 64 = 0
      rw [BitVec.toNat_ofInt]
      omega
    · exact h.lastxid_mod

theorem Sound.refresh (h : st.Sound) (i : Fin nforward) (time : Int) :
    (st.refresh i time).Sound := by
  have hFinfo : ∀ k, ((st.refresh i time).finfo k).active = (st.finfo k).active ∧
      ((st.refresh i time).finfo k).forwardXid = (st.finfo k).forwardXid ∧
      ((st.refresh i time).finfo k).key = (st.finfo k).key := by
    intro k
    rw [finfo_refresh]
    by_cases hSame : k = i
    · subst hSame
      rw [Function.update_self]
      exact ⟨rfl, rfl, rfl⟩
    · rw [Function.update_of_ne hSame]
      exact ⟨rfl, rfl, rfl⟩
  have hSlots : (st.refresh i time).activeSlots = st.activeSlots := by
    ext k
    simp [activeSlots, (hFinfo k).1]
  apply h.of_keeps
  · intro k hActive
    obtain ⟨hSame, hRest⟩ := hFinfo k
    exact ⟨hSame ▸ hActive, hRest⟩
  · rw [hSlots]
    exact h.rmtcalls_eq
  · exact h.lastxid_mod

/-- The xids keep their slots when `lastxid` wraps around. -/
theorem nextXid_spec {lastxid : BitVec 32} (h : lastxid.toNat % nforward = 0) :
    (nextXid lastxid).toNat % nforward = 0 ∧ nforward ≤ (nextXid lastxid).toNat ∧
      (nextXid lastxid).toNat + nforward ≤ 2 ^ 32 := by
  have hLt := lastxid.isLt
  unfold nextXid nforward at *
  dsimp only
  split
  · decide
  · next hAbove =>
      rw [BitVec.le_def, Nat.not_le] at hAbove
      simp only [BitVec.toNat_add, BitVec.toNat_ofNat] at hAbove ⊢
      omega

/-- What `forward_register` enters, and the xid for it. -/
def entered (call : ForwardCall) (timeNow : Int) (callxid : BitVec 32) : Finfo where
  active := true
  callerXid := call.callerXid
  callerAddr := some call.callerAddr
  forwardXid := callxid
  forwardFd := call.forwardFd
  uaddr := call.uaddr
  replyType := call.replyType
  versnum := call.versnum
  time := timeNow

def callxid (j : Fin nforward) (st : Forwarding) : BitVec 32 :=
  nextXid st.lastxid + BitVec.ofNat 32 j

theorem callxid_spec (h : st.Sound) (j : Fin nforward) :
    st.callxid j ≠ 0 ∧ (st.callxid j).toNat % nforward = j := by
  obtain ⟨hMod, hLow, hHigh⟩ := nextXid_spec h.lastxid_mod
  have hj := j.isLt
  have hNat : (st.callxid j).toNat = (nextXid st.lastxid).toNat + j := by
    rw [callxid, BitVec.toNat_add, BitVec.toNat_ofNat]
    unfold nforward at *
    omega
  constructor
  · intro hZero
    have hToNat : (st.callxid j).toNat = 0 := by
      rw [hZero]
      rfl
    unfold nforward at *
    omega
  · rw [hNat]
    unfold nforward at *
    omega

theorem enter_true (j : Fin nforward) : st.enter call timeNow true j =
    (.registered (st.callxid j),
      { finfo := Function.update st.finfo j (entered call timeNow (st.callxid j))
        rpcbRmtcalls := st.rpcbRmtcalls + 1, lastxid := nextXid st.lastxid, fds := st.fds }) := rfl

theorem Sound.enter (h : st.Sound) {j : Fin nforward} (hFree : (st.finfo j).active = false)
    (hNew : ∀ i, (st.finfo i).active → ¬ (st.finfo i).Duplicate call) (timeNow : Int) (dup : Bool) :
    (st.enter call timeNow dup j).2.Sound := by
  cases dup with
  | true =>
      rw [enter_true]
      have hOthers : ∀ {i}, i ≠ j → ∀ fi, Function.update st.finfo j fi i = st.finfo i :=
        fun hNe _ => Function.update_of_ne hNe _ _
      have hApart : ∀ i, (st.finfo i).active →
          (st.finfo i).key ≠ (entered call timeNow (st.callxid j)).key := by
        intro i hActive hSame
        obtain ⟨hXid, hAddr, hType, hVers⟩ := (by simpa [Finfo.key, entered] using hSame)
        exact hNew i hActive ⟨hActive, hXid, hType, hVers, hAddr⟩
      obtain ⟨hNe, hSlot⟩ := callxid_spec h j
      constructor
      · have hSlots : (Forwarding.mk (Function.update st.finfo j
            (entered call timeNow (st.callxid j))) (st.rpcbRmtcalls + 1) (nextXid st.lastxid)
              st.fds).activeSlots = insert j st.activeSlots := by
          ext k
          rw [mem_activeSlots, Finset.mem_insert, mem_activeSlots]
          show (Function.update st.finfo j (entered call timeNow (st.callxid j)) k).active = true ↔ _
          by_cases hSame : k = j
          · subst hSame
            rw [Function.update_self]
            exact ⟨fun _ => Or.inl rfl, fun _ => rfl⟩
          · rw [hOthers hSame]
            exact ⟨Or.inr, fun hEither => hEither.resolve_left hSame⟩
        have hMiss : j ∉ st.activeSlots := by
          rw [mem_activeSlots, hFree]
          exact Bool.false_ne_true
        rw [hSlots, Finset.card_insert_of_notMem hMiss]
        have hRmt := h.rmtcalls_eq
        dsimp only
        omega
      · intro i
        by_cases hSame : i = j
        · subst hSame
          simp only [Function.update_self]
          exact fun _ => hNe
        · simp only [hOthers hSame]
          exact h.xid_ne i
      · intro i
        by_cases hSame : i = j
        · subst hSame
          simp only [Function.update_self]
          exact fun _ => hSlot
        · simp only [hOthers hSame]
          exact h.xid_slot i
      · intro i k
        by_cases hi : i = j <;> by_cases hk : k = j
        · intro _ _ _
          rw [hi, hk]
        · subst hi
          simp only [Function.update_self, hOthers hk]
          exact fun _ hActive hSame => absurd hSame.symm (hApart k hActive)
        · subst hk
          simp only [Function.update_self, hOthers hi]
          exact fun hActive _ hSame => absurd hSame (hApart i hActive)
        · simp only [hOthers hi, hOthers hk]
          exact h.once i k
      · exact (nextXid_spec h.lastxid_mod).1
  | false =>
      have hFinfo : ∀ i, (((st.enter call timeNow false j).2.finfo i).active → st.finfo i =
          (st.enter call timeNow false j).2.finfo i) ∧
          ((st.enter call timeNow false j).2.finfo i).active = (st.finfo i).active := by
        intro i
        show (((Function.update st.finfo j _ i).active → _ = Function.update st.finfo j _ i) ∧
          (Function.update st.finfo j _ i).active = _)
        by_cases hSame : i = j
        · subst hSame
          rw [Function.update_self]
          simp [hFree]
        · rw [Function.update_of_ne hSame]
          exact ⟨fun _ => rfl, rfl⟩
      have hSlots : (st.enter call timeNow false j).2.activeSlots = st.activeSlots := by
        ext i
        simp [activeSlots, (hFinfo i).2]
      apply h.of_keeps
      · intro i hActive
        obtain ⟨hSame, -⟩ := hFinfo i
        have hEq := hSame hActive
        rw [← hEq] at hActive ⊢
        exact ⟨hActive, rfl, rfl⟩
      · rw [hSlots]
        exact h.rmtcalls_eq
      · exact h.lastxid_mod

/-- `forward_register` keeps the table in order. -/
theorem Sound.forwardRegister (h : st.Sound) (call : ForwardCall) (timeNow timeDup : Int)
    (dup : Bool) : (st.forwardRegister call timeNow timeDup dup).2.Sound := by
  have hInit := h.initXid timeNow
  rcases forwardRegister_cases call timeNow timeDup dup st with
    ⟨pre, i, post, -, -, -, hRun⟩ | ⟨hNew, j, -, hRun⟩
  · rw [hRun]
    exact (hInit.sweep timeNow pre).refresh i timeDup
  · rw [hRun]
    apply ((hInit.sweep timeNow _).free j).enter
    · rw [finfo_freeSlotByIndex, Function.update_self]
    · intro i hActive hBad
      obtain ⟨-, -, hKey⟩ := keeps_freeSlotByIndex j i hActive
      obtain ⟨hOld, -, hKey'⟩ := keeps_sweep _ i (keeps_freeSlotByIndex j i hActive).1
      rw [finfo_initXid] at hOld hKey'
      obtain ⟨-, hXid, hType, hVers, hAddr⟩ := hBad
      have hSame := hKey.trans hKey'
      simp only [Finfo.key, Prod.mk.injEq, hXid, hAddr, hType, hVers] at hSame
      exact hNew i ⟨hOld, hSame.1.symm, hSame.2.2.1.symm, hSame.2.2.2.symm, hSame.2.1.symm⟩

/-! ### Runs -/

/-- A call of one of the four routines. -/
inductive ForwardOp where
  | register (call : ForwardCall) (timeNow timeDup : Int) (dup : Bool)
  | find (replyXid : BitVec 32)
  | freeByXid (xid : BitVec 32)
  | freeByIndex (idx : Fin nforward)

/-- What a call of a routine does to the table. -/
def perform (st : Forwarding) : ForwardOp → Forwarding
  | .register call timeNow timeDup dup => (st.forwardRegister call timeNow timeDup dup).2
  | .find _ => st
  | .freeByXid xid => st.freeSlotByXid xid
  | .freeByIndex idx => st.freeSlotByIndex idx

/-- The table after some calls. -/
def reach (fds : SvcFdset) (ops : List ForwardOp) : Forwarding := ops.foldl perform (initial fds)

theorem sound_initial (fds : SvcFdset) : (initial fds).Sound where
  rmtcalls_eq := by simp [activeSlots, initial]
  xid_ne := fun i hActive => (by cases hActive)
  xid_slot := fun i hActive => (by cases hActive)
  once := fun i k hActive => (by cases hActive)
  lastxid_mod := rfl

theorem Sound.perform (h : st.Sound) (op : ForwardOp) : (st.perform op).Sound := by
  cases op with
  | register call timeNow timeDup dup => exact h.forwardRegister call timeNow timeDup dup
  | find replyXid => exact h
  | freeByXid xid => exact h.free (slotOf xid)
  | freeByIndex idx => exact h.free idx

theorem sound_reach (fds : SvcFdset) (ops : List ForwardOp) : (reach fds ops).Sound := by
  unfold reach
  induction ops using List.reverseRecOn with
  | nil => exact sound_initial fds
  | append_singleton ops op ih =>
      rw [List.foldl_append]
      exact ih.perform op

/-- A slot is found by its xid. -/
theorem Sound.forwardFind_iff (h : st.Sound) {xid : BitVec 32} {i : Fin nforward} :
    st.forwardFind xid = some i ↔ (st.finfo i).active ∧ (st.finfo i).forwardXid = xid := by
  unfold forwardFind
  dsimp only
  constructor
  · intro hFound
    split at hFound
    · next hHere =>
        rw [← Option.some.inj hFound]
        exact hHere
    · cases hFound
  · rintro ⟨hActive, hXid⟩
    have hSlot : slotOf xid = i := by
      apply Fin.ext
      rw [← hXid]
      exact h.xid_slot i hActive
    rw [hSlot, if_pos ⟨hActive, hXid⟩]

theorem key_eq_of_duplicate {fi fi' : Finfo} (h : fi.Duplicate call) (h' : fi'.Duplicate call) :
    fi.key = fi'.key := by
  obtain ⟨-, hXid, hType, hVers, hAddr⟩ := h
  obtain ⟨-, hXid', hType', hVers', hAddr'⟩ := h'
  rw [Finfo.key, Finfo.key, hXid, hXid', hType, hType', hVers, hVers', hAddr, hAddr']

/-- A call that is in the table is recognised, and its slot is given a new time. -/
theorem Sound.forwardRegister_duplicate (h : st.Sound) {i : Fin nforward}
    (hDuplicate : (st.finfo i).Duplicate call) (timeNow timeDup : Int) (dup : Bool) :
    (st.forwardRegister call timeNow timeDup dup).1 = .duplicate ∧
    (st.forwardRegister call timeNow timeDup dup).2.finfo i =
      { st.finfo i with time := timeDup } := by
  rcases forwardRegister_cases call timeNow timeDup dup st with
    ⟨pre, k, post, hSplit, -, hFirst, hRun⟩ | ⟨hNew, -⟩
  · have hSame : k = i := h.once k i hFirst.1 hDuplicate.1 (key_eq_of_duplicate hFirst hDuplicate)
    subst hSame
    have hNodup := List.nodup_finRange nforward
    rw [hSplit] at hNodup
    have hApart : k ∉ pre := fun hMem =>
      (List.nodup_append.mp hNodup).2.2 k hMem k List.mem_cons_self rfl
    rw [hRun]
    refine ⟨rfl, ?_⟩
    show ((((st.initXid timeNow).sweep timeNow pre).refresh k timeDup).finfo k) = _
    rw [finfo_refresh, Function.update_self, finfo_sweep, finfo_initXid]
    simp [hApart]
  · exact absurd hDuplicate (hNew i)

/-- When no slot is free, the one with the least time is taken. -/
theorem forwardRegister_full {timeNow : Int}
    (hFull : ∀ i, ¬ (st.finfo i).Free timeNow) (hNew : ∀ i, ¬ (st.finfo i).Duplicate call)
    (timeDup : Int) : ∃ j callxid, (∀ i, (st.finfo j).time ≤ (st.finfo i).time) ∧
      (st.forwardRegister call timeNow timeDup true).1 = .registered callxid ∧
      (st.forwardRegister call timeNow timeDup true).2.finfo =
        Function.update st.finfo j (entered call timeNow callxid) := by
  rcases forwardRegister_cases call timeNow timeDup true st with
    ⟨-, i, -, -, -, hDuplicate, -⟩ | ⟨-, j, hTakes, hRun⟩
  · exact absurd hDuplicate (hNew i)
  · rcases hTakes with hFree | ⟨-, hLeast⟩
    · have hIs := List.find?_some hFree
      rw [decide_eq_true_eq] at hIs
      exact absurd hIs (hFull j)
    · refine ⟨j, (((st.initXid timeNow).sweep timeNow
        (List.finRange nforward)).freeSlotByIndex j).callxid j, fun i => (hLeast i).1, ?_, ?_⟩
      · rw [hRun, enter_true]
      · have hSwept : ((st.initXid timeNow).sweep timeNow (List.finRange nforward)).finfo =
            st.finfo := by
          funext i
          have hKept : ¬ (st.finfo i).Expired timeNow := fun hBad => hFull i (Or.inr hBad)
          rw [finfo_sweep, finfo_initXid]
          simp [hKept]
        have hFreed := finfo_freeSlotByIndex j
          ((st.initXid timeNow).sweep timeNow (List.finRange nforward))
        rw [hSwept] at hFreed
        rw [hRun, enter_true]
        show Function.update _ j _ = _
        rw [hFreed, Function.update_idem]

/-- What holds of the forwarding table after any calls of its routines. -/
theorem forwarding_table (fds : SvcFdset) (ops : List ForwardOp) :
    (reach fds ops).rpcbRmtcalls =
      ((Finset.univ.filter fun i => ((reach fds ops).finfo i).active = true).card : Int) ∧
    (∀ i, ((reach fds ops).finfo i).active → ((reach fds ops).finfo i).forwardXid ≠ 0 ∧
      ((reach fds ops).finfo i).forwardXid.toNat % nforward = i) ∧
    (∀ i k, ((reach fds ops).finfo i).active → ((reach fds ops).finfo k).active →
      ((reach fds ops).finfo i).key = ((reach fds ops).finfo k).key → i = k) ∧
    (∀ call i, ((reach fds ops).finfo i).Duplicate call → ∀ timeNow timeDup dup,
      ((reach fds ops).forwardRegister call timeNow timeDup dup).1 = .duplicate) ∧
    (∀ xid i, (reach fds ops).forwardFind xid = some i ↔
      ((reach fds ops).finfo i).active ∧ ((reach fds ops).finfo i).forwardXid = xid) ∧
    ∀ call timeNow timeDup, (∀ i, ¬ ((reach fds ops).finfo i).Duplicate call) →
      (∀ i, ¬ ((reach fds ops).finfo i).Free timeNow) →
      ∃ j callxid, (∀ i, ((reach fds ops).finfo j).time ≤ ((reach fds ops).finfo i).time) ∧
        ((reach fds ops).forwardRegister call timeNow timeDup true).1 = .registered callxid ∧
        ((reach fds ops).forwardRegister call timeNow timeDup true).2.finfo =
          Function.update (reach fds ops).finfo j (entered call timeNow callxid) := by
  have h := sound_reach fds ops
  refine ⟨h.rmtcalls_eq, fun i hActive => ⟨h.xid_ne i hActive, h.xid_slot i hActive⟩, h.once, ?_, ?_,
    ?_⟩
  · intro call i hDuplicate timeNow timeDup dup
    exact (h.forwardRegister_duplicate hDuplicate timeNow timeDup dup).1
  · intro xid i
    exact h.forwardFind_iff
  · intro call timeNow timeDup hNew hFull
    exact forwardRegister_full hFull hNew timeDup

/-- The calls of one caller that fill the table, and the first of them once more. -/
def filling : List ForwardOp :=
  let call (xid : Nat) : ForwardCall :=
    { callerXid := BitVec.ofNat 32 xid, callerAddr := [127, 0, 0, 1], forwardFd := 3, uaddr := none
      replyType := 5, versnum := 3 }
  (List.range nforward).map (fun xid => .register (call xid) 1000 1000 true) ++
    [.register (call 0) 1100 1100 true]

/-- All slots are taken and have been waited for long enough: the first one is released and
taken, although the others are older. -/
theorem not_forwarding_least_expired :
    ¬ ∀ (fds : SvcFdset) (ops : List ForwardOp) (call : ForwardCall) (timeNow timeDup : Int)
      (callxid : BitVec 32), (∀ i, ((reach fds ops).finfo i).active) →
      ((reach fds ops).forwardRegister call timeNow timeDup true).1 = .registered callxid →
      ∀ i, ((reach fds ops).finfo (slotOf callxid)).time ≤ ((reach fds ops).finfo i).time := by
  intro h
  have hLeast := h {} filling
    { callerXid := 100, callerAddr := [127, 0, 0, 1], forwardFd := 3, uaddr := none
      replyType := 5, versnum := 3 } 1500 1500 0x00010a40#32
    (by decide +kernel) (by decide +kernel) 1
  exact absurd hLeast (by decide +kernel)

end Forwarding
end OncRpc
