import OncRpc.Rpcbind.HandleReply
import OncRpc.Svc.Xprt

/-! `my_svc_run` of rpcbind, and whether it polls all the descriptors of the server. -/
namespace OncRpc

namespace Forwarding

variable {st : Forwarding} {call : ForwardCall} {timeNow timeDup : Int} {dup : Bool}
  {i : Fin nforward}

/-- Some descriptor of the server is above, or there is none. -/
def Under (fd : Nat) (fds : SvcFdset) : Prop := (∃ n ∈ fds.fdset, fd < n) ∨ fds.fdset = []

/-- A slot whose release does not touch `fdmax`. -/
def CanFree (st : Forwarding) (i : Fin nforward) : Prop :=
  (st.finfo i).active → Under (st.finfo i).forwardFd st.fds

/-- What `forward_register` releases: what has expired in front of a duplicate, or the oldest
of a full table. -/
def Releases (call : ForwardCall) (timeNow : Int) (st : Forwarding) (i : Fin nforward) : Prop :=
  (st.finfo i).Expired timeNow ∧ (∀ k ≤ i, ¬ (st.finfo k).Duplicate call) ∨
  (∀ k, ¬ (st.finfo k).Duplicate call) ∧ (∀ k, ¬ (st.finfo k).Free timeNow) ∧ st.Earliest i

theorem lt_getmax_iff {fds : SvcFdset} (h : fds.Below) {fd : Nat} :
    (fd : Int) < fds.svcFdsetGetmax.1 ↔ ∃ n ∈ fds.fdset, fd < n := by
  obtain ⟨-, hSet, -, hBelow, hMax⟩ := SvcXprts.svcFdsetGetmax_spec fds
  constructor
  · intro hLt
    obtain ⟨m, hm⟩ := Int.eq_ofNat_of_zero_le (le_trans (Int.natCast_nonneg fd) hLt.le)
    refine ⟨m, hMax m hm, ?_⟩
    omega
  · rintro ⟨n, hMem, hLt⟩
    have hLe : (n : Int) ≤ fds.svcFdsetGetmax.1 := (hBelow.mpr h) n (hSet ▸ hMem)
    omega

/-- Releasing a slot leaves the descriptors, and may lower `fdmax`. -/
theorem fds_freeSlotByIndex (i : Fin nforward) :
    (st.freeSlotByIndex i).fds.fdset = st.fds.fdset ∧
    (st.freeSlotByIndex i).fds.fdmax ≤ st.fds.fdmax := by
  obtain ⟨hMax, hSet, hLe, -, -⟩ := SvcXprts.svcFdsetGetmax_spec st.fds
  obtain ⟨hMax', hSet', hLe', -, -⟩ := SvcXprts.svcFdsetGetmax_spec st.fds.svcFdsetGetmax.2
  unfold freeSlotByIndex
  by_cases hActive : (st.finfo i).active = true
  · rw [if_pos hActive]
    dsimp only
    split
    · exact ⟨hSet'.trans hSet, by dsimp only; omega⟩
    · exact ⟨hSet, by omega⟩
  · rw [if_neg hActive]
    exact ⟨rfl, le_refl _⟩

theorem below_freeSlotByIndex_iff (h : st.fds.Below) :
    (st.freeSlotByIndex i).fds.Below ↔ st.CanFree i := by
  obtain ⟨hMax, hSet, hLe, hBelow, hMem⟩ := SvcXprts.svcFdsetGetmax_spec st.fds
  obtain ⟨hMax', hSet', hLe', -, -⟩ := SvcXprts.svcFdsetGetmax_spec st.fds.svcFdsetGetmax.2
  unfold CanFree
  by_cases hActive : (st.finfo i).active = true
  · have hFree : (st.freeSlotByIndex i).fds =
        if ((st.finfo i).forwardFd : Int) ≥ st.fds.svcFdsetGetmax.1 then
          { st.fds.svcFdsetGetmax.2.svcFdsetGetmax.2 with
            fdmax := st.fds.svcFdsetGetmax.2.svcFdsetGetmax.2.fdmax - 1 }
        else st.fds.svcFdsetGetmax.2 := by
      unfold freeSlotByIndex
      rw [if_pos hActive]
    rw [hFree]
    simp only [hActive, forall_const]
    by_cases hLt : ((st.finfo i).forwardFd : Int) < st.fds.svcFdsetGetmax.1
    · rw [if_neg (by omega)]
      exact ⟨fun _ => Or.inl ((lt_getmax_iff h).mp hLt), fun _ => hBelow.mpr h⟩
    · rw [if_pos (by omega)]
      constructor
      · intro hLowered
        right
        by_contra hSome
        obtain ⟨n, hn⟩ := List.exists_mem_of_ne_nil _ hSome
        have hTop : (n : Int) ≤ st.fds.svcFdsetGetmax.1 := (hBelow.mpr h) n (hSet ▸ hn)
        obtain ⟨m, hm⟩ := Int.eq_ofNat_of_zero_le (le_trans (Int.natCast_nonneg n) hTop)
        have hUnder := hLowered m (by
          show m ∈ st.fds.svcFdsetGetmax.2.svcFdsetGetmax.2.fdset
          rw [hSet', hSet]
          exact hMem m hm)
        dsimp only at hUnder
        omega
      · rintro (hAbove | hNil)
        · exact absurd ((lt_getmax_iff h).mpr hAbove) hLt
        · intro n hn
          change n ∈ st.fds.svcFdsetGetmax.2.svcFdsetGetmax.2.fdset at hn
          rw [hSet', hSet, hNil] at hn
          cases hn
  · have hSame : st.freeSlotByIndex i = st :=
      freeSlotByIndex_of_inactive (Bool.not_eq_true _ ▸ hActive)
    rw [hSame]
    exact ⟨fun _ hBad => absurd hBad hActive, fun _ => h⟩

/-- Once a descriptor is above `fdmax`, no release changes that. -/
theorem below_of_freeSlotByIndex (h : (st.freeSlotByIndex i).fds.Below) : st.fds.Below := by
  obtain ⟨hSet, hLe⟩ := @fds_freeSlotByIndex st i
  intro n hn
  exact (h n (hSet ▸ hn)).trans hLe

theorem below_of_sweep {slots : List (Fin nforward)} (h : (st.sweep timeNow slots).fds.Below) :
    st.fds.Below := by
  induction slots generalizing st with
  | nil => exact h
  | cons k slots ih =>
      have hStep : (st.expire timeNow k).fds.Below := ih h
      unfold expire at hStep
      split at hStep
      · exact below_of_freeSlotByIndex hStep
      · exact hStep

theorem fdset_sweep (slots : List (Fin nforward)) :
    (st.sweep timeNow slots).fds.fdset = st.fds.fdset := by
  induction slots generalizing st with
  | nil => rfl
  | cons k slots ih =>
      have hStep : (st.expire timeNow k).fds.fdset = st.fds.fdset := by
        unfold expire
        split
        · exact (fds_freeSlotByIndex k).1
        · rfl
      exact ih.trans hStep

/-- Sweeping slots leaves `fdmax` alone exactly when each of what has expired can be
released. -/
theorem below_sweep_iff {slots : List (Fin nforward)} (h : st.fds.Below) (hNodup : slots.Nodup) :
    (st.sweep timeNow slots).fds.Below ↔
      ∀ k ∈ slots, (st.finfo k).Expired timeNow → Under (st.finfo k).forwardFd st.fds := by
  induction slots generalizing st with
  | nil => exact ⟨fun _ k hk => (by cases hk), fun _ => h⟩
  | cons k slots ih =>
      obtain ⟨hNew, hRest⟩ := List.nodup_cons.mp hNodup
      have hOthers : ∀ l ∈ slots, (st.expire timeNow k).finfo l = st.finfo l := by
        intro l hl
        exact finfo_expire_of_ne fun hSame => hNew (hSame ▸ hl)
      have hUnder : ∀ fd, Under fd (st.expire timeNow k).fds ↔ Under fd st.fds := by
        intro fd
        have hSet : (st.expire timeNow k).fds.fdset = st.fds.fdset := fdset_sweep [k]
        rw [Under, hSet, Under]
      have hLater : (st.expire timeNow k).fds.Below →
          (((st.expire timeNow k).sweep timeNow slots).fds.Below ↔
            ∀ l ∈ slots, (st.finfo l).Expired timeNow → Under (st.finfo l).forwardFd st.fds) := by
        intro hBelow
        rw [ih hBelow hRest]
        refine forall₂_congr fun l hl => ?_
        rw [hOthers l hl, hUnder]
      show ((st.expire timeNow k).sweep timeNow slots).fds.Below ↔ _
      rw [List.forall_mem_cons]
      by_cases hExpired : (st.finfo k).Expired timeNow
      · have hStep : (st.expire timeNow k).fds.Below ↔ Under (st.finfo k).forwardFd st.fds := by
          rw [expire, if_pos hExpired, below_freeSlotByIndex_iff h, CanFree]
          simp only [hExpired.1, forall_const]
        constructor
        · intro hAll
          have hHere := below_of_sweep hAll
          exact ⟨fun _ => hStep.mp hHere, (hLater hHere).mp hAll⟩
        · rintro ⟨hHere, hThere⟩
          exact (hLater (hStep.mpr (hHere hExpired))).mpr hThere
      · have hSame : (st.expire timeNow k).fds.Below := by
          rw [expire, if_neg hExpired]
          exact h
        rw [hLater hSame]
        exact ⟨fun hThere => ⟨fun hBad => absurd hBad hExpired, hThere⟩, And.right⟩

theorem fds_initXid : (st.initXid timeNow).fds = st.fds := by
  unfold initXid
  split <;> rfl

theorem fds_enter (j : Fin nforward) : (st.enter call timeNow dup j).2.fds = st.fds := by
  unfold enter
  split <;> rfl

/-- `forward_register` leaves `fdmax` alone exactly when all that it releases can be
released. -/
theorem below_forwardRegister_iff (h : st.fds.Below) :
    (st.forwardRegister call timeNow timeDup dup).2.fds.Below ↔
      ∀ i, Releases call timeNow st i → Under (st.finfo i).forwardFd st.fds := by
  have hInit : (st.initXid timeNow).fds.Below := fds_initXid.symm ▸ h
  have hSwept : ∀ slots : List (Fin nforward), slots.Nodup →
      (((st.initXid timeNow).sweep timeNow slots).fds.Below ↔
        ∀ k ∈ slots, (st.finfo k).Expired timeNow → Under (st.finfo k).forwardFd st.fds) := by
    intro slots hNodup
    rw [below_sweep_iff hInit hNodup, finfo_initXid, fds_initXid]
  rcases forwardRegister_cases call timeNow timeDup dup st with
    ⟨pre, k, post, hSplit, hPre, hDuplicate, hRun⟩ | ⟨hNew, j, hTakes, hRun⟩
  · have hOrder := List.pairwise_lt_finRange nforward
    rw [hSplit, List.pairwise_append, List.pairwise_cons] at hOrder
    obtain ⟨-, ⟨hAfter, -⟩, hBefore⟩ := hOrder
    have hIn : ∀ i, i ∈ pre ↔ i < k := by
      intro i
      have hAll : i ∈ pre ++ k :: post := hSplit ▸ List.mem_finRange i
      rcases List.mem_append.mp hAll with hMem | hMem
      · exact ⟨fun _ => hBefore i hMem k List.mem_cons_self, fun _ => hMem⟩
      · have hNot : ¬ i < k := by
          rcases List.mem_cons.mp hMem with rfl | hPost
          · exact lt_irrefl _
          · exact (hAfter i hPost).asymm
        exact ⟨fun hBad => hBefore i hBad k List.mem_cons_self, fun hBad => absurd hBad hNot⟩
    have hNodup : pre.Nodup := by
      have hAll := List.nodup_finRange nforward
      rw [hSplit] at hAll
      exact (List.nodup_append.mp hAll).1
    rw [hRun]
    show (((st.initXid timeNow).sweep timeNow pre).fds).Below ↔ _
    rw [hSwept pre hNodup]
    constructor
    · rintro hAll i (⟨hExpired, hNot⟩ | ⟨hNot, -⟩)
      · refine hAll i ((hIn i).mpr ?_) hExpired
        exact lt_of_not_ge fun hLe => hNot k hLe hDuplicate
      · exact absurd hDuplicate (hNot k)
    · intro hAll i hi hExpired
      refine hAll i (Or.inl ⟨hExpired, fun l hl => hPre l ?_⟩)
      exact (hIn l).mpr (hl.trans_lt ((hIn i).mp hi))
  · obtain ⟨swept, hIs⟩ : ∃ swept, swept =
        (st.initXid timeNow).sweep timeNow (List.finRange nforward) := ⟨_, rfl⟩
    have hBelow := hSwept (List.finRange nforward) (List.nodup_finRange nforward)
    have hFinfo : ∀ i, swept.finfo i = { st.finfo i with
        active := (st.finfo i).active && decide ¬ (st.finfo i).Expired timeNow } := by
      intro i
      rw [hIs, finfo_sweep, finfo_initXid]
      simp
    have hUnder : ∀ fd, Under fd swept.fds ↔ Under fd st.fds := by
      intro fd
      rw [Under, hIs, fdset_sweep, fds_initXid, Under]
    rw [← hIs] at hBelow
    rw [hRun, fds_enter, ← hIs]
    constructor
    · intro hFreed
      have hHere := below_of_freeSlotByIndex hFreed
      have hCan := (below_freeSlotByIndex_iff hHere).mp hFreed
      rintro i (⟨hExpired, -⟩ | ⟨-, hFull, hEarliest⟩)
      · exact hBelow.mp hHere i (List.mem_finRange i) hExpired
      · have hSame : i = j := by
          rcases hTakes with hFree | ⟨-, hFirst⟩
          · have hBad := List.find?_some hFree
            rw [decide_eq_true_eq] at hBad
            exact absurd hBad (hFull j)
          · rcases lt_trichotomy i j with hLt | hEq | hGt
            · exact absurd ((hFirst i).2 hLt) (not_lt.mpr (hEarliest j).1)
            · exact hEq
            · exact absurd ((hEarliest j).2 hGt) (not_lt.mpr (hFirst i).1)
        subst hSame
        have hActive : (swept.finfo i).active = true := by
          rw [hFinfo]
          have hNot := hFull i
          rw [Finfo.Free, not_or, Bool.not_eq_false] at hNot
          simp [hNot.1, hNot.2]
        have hFd := hCan hActive
        rw [hUnder, hFinfo] at hFd
        exact hFd
    · intro hAll
      have hHere : swept.fds.Below :=
        hBelow.mpr fun k _ hExpired => hAll k (Or.inl ⟨hExpired, fun l _ => hNew l⟩)
      rw [below_freeSlotByIndex_iff hHere]
      intro hActive
      rw [hUnder, hFinfo]
      rw [hFinfo, Bool.and_eq_true, decide_eq_true_eq] at hActive
      rcases hTakes with hFree | ⟨hFull, hEarliest⟩
      · have hBad := List.find?_some hFree
        rw [decide_eq_true_eq] at hBad
        rcases hBad with hInactive | hExpired
        · rw [hInactive] at hActive
          cases hActive.1
        · exact absurd hExpired hActive.2
      · exact hAll j (Or.inr ⟨hNew, hFull, hEarliest⟩)

end Forwarding

/-- `struct rmtcallfd_list`. -/
structure RmtcallFd where
  netid : CString
  fd : Nat
  xprt : Nat
  deriving DecidableEq, Repr

/-- What rpcbind keeps of its descriptors: the table of the transports, the forwarded calls
with the descriptors that are waited for, and the list at `rmthead`. -/
structure Server where
  xports : List (Option Nat)
  fwd : Forwarding
  rmthead : List RmtcallFd

/-- What changes the descriptors. -/
inductive ServerEvent where
  | register (mem : Bool) (xprt sock : Nat)
  | unregister (xprt sock : Nat)
  | createRmtcallFd (mem : Bool) (netid : CString) (xprt fd : Nat)
  | forwardRegister (call : ForwardCall) (timeNow timeDup : Int) (dup : Bool)
  | freeSlotByXid (xid : BitVec 32)
  | freeSlotByIndex (idx : Fin nforward)

/-- The descriptors that `my_svc_run` puts into its array for `poll`. -/
def svcRunPolls (fds : SvcFdset) : List Nat :=
  let (max, fds) := fds.svcFdsetGetmax
  (List.range (max + 1).toNat).filter fun n => (fds.svcFdsetIsset n).1

/-- Every descriptor that is registered is polled. -/
def AllPolled (fds : SvcFdset) : Prop :=
  ∀ fd ∈ fds.fdset, (fd : Int) ≤ fds.svcFdsetGetmax.1 ∧ fd ∈ svcRunPolls fds

theorem allPolled_iff (fds : SvcFdset) : AllPolled fds ↔ fds.Below := by
  obtain ⟨hMax, hSet, hLe, hBelow, -⟩ := SvcXprts.svcFdsetGetmax_spec fds
  constructor
  · intro h fd hMem
    exact (h fd hMem).1.trans hLe
  · intro h fd hMem
    have hTop : (fd : Int) ≤ fds.svcFdsetGetmax.1 := (hBelow.mpr h) fd (hSet ▸ hMem)
    refine ⟨hTop, ?_⟩
    show fd ∈ (List.range (fds.svcFdsetGetmax.1 + 1).toNat).filter fun n =>
      decide (n ∈ fds.svcFdsetGetmax.2.fdset)
    rw [List.mem_filter, List.mem_range, decide_eq_true_eq, hSet]
    exact ⟨by omega, hMem⟩

namespace Server

/-- rpcbind before it has a transport. -/
def initial : Server := { xports := [], fwd := Forwarding.initial {}, rmthead := [] }

def table (s : Server) : SvcXprts := { xports := s.xports, fds := s.fwd.fds }

def withTable (t : SvcXprts) (s : Server) : Server :=
  { s with xports := t.xports, fwd := { s.fwd with fds := t.fds } }

/-- `create_rmtcall_fd`, for the descriptor and the transport that it makes. The transport is
registered by `svc_tli_create`. -/
def createRmtcallFd (mem : Bool) (netid : CString) (xprt fd : Nat) (s : Server) : Server :=
  match s.table.xprtRegister mem xprt fd with
  | (false, t) => s.withTable t
  | (true, t) =>
      { s.withTable { t with fds := (t.fds.svcFdsetSet fd).2 } with
        rmthead := s.rmthead ++ [{ netid := netid, fd := fd, xprt := xprt }] }

/-- The state behind an event. -/
def happen (s : Server) : ServerEvent → Server
  | .register mem xprt sock => s.withTable (s.table.xprtRegister mem xprt sock).2
  | .unregister xprt sock => s.withTable (s.table.xprtDoUnregister xprt sock)
  | .createRmtcallFd mem netid xprt fd => s.createRmtcallFd mem netid xprt fd
  | .forwardRegister call timeNow timeDup dup =>
      { s with fwd := (s.fwd.forwardRegister call timeNow timeDup dup).2 }
  | .freeSlotByXid xid => { s with fwd := s.fwd.freeSlotByXid xid }
  | .freeSlotByIndex idx => { s with fwd := s.fwd.freeSlotByIndex idx }

/-- The table of the transports is large enough for what is registered. -/
def Fits (s : Server) : ServerEvent → Prop
  | .register _ _ sock => s.table.Fits sock
  | .createRmtcallFd _ _ _ fd => s.table.Fits fd
  | _ => True

/-- An event that leaves the largest descriptor alone: a transport is taken off only when it is
waited for or is not the last one, and the descriptor of a slot that is released is not the
largest. -/
def Ok (s : Server) : ServerEvent → Prop
  | .register .. => True
  | .unregister xprt sock => s.table.Listed xprt sock
  | .createRmtcallFd .. => True
  | .forwardRegister call timeNow _ _ =>
      ∀ i, s.fwd.Releases call timeNow i → Forwarding.Under (s.fwd.finfo i).forwardFd s.fwd.fds
  | .freeSlotByXid xid => s.fwd.CanFree (Forwarding.slotOf xid)
  | .freeSlotByIndex idx => s.fwd.CanFree idx

/-- All is polled before every event and behind the last. -/
def PolledThroughout (s : Server) : List ServerEvent → Prop
  | [] => AllPolled s.fwd.fds
  | e :: rest => AllPolled s.fwd.fds ∧ PolledThroughout (s.happen e) rest

def AllFit (s : Server) : List ServerEvent → Prop
  | [] => True
  | e :: rest => s.Fits e ∧ AllFit (s.happen e) rest

def AllOk (s : Server) : List ServerEvent → Prop
  | [] => True
  | e :: rest => s.Ok e ∧ AllOk (s.happen e) rest

variable {s : Server}

theorem PolledThroughout.here {events : List ServerEvent} (h : PolledThroughout s events) :
    s.fwd.fds.Below := by
  rw [← allPolled_iff]
  cases events with
  | nil => exact h
  | cons e rest => exact h.1

/-- What leaves the descriptors as they are keeps the table in order, if it keeps `fdmax`. -/
theorem sound_of_fdset_eq {fwd : Forwarding} (h : s.table.Sound)
    (hSet : fwd.fds.fdset = s.fwd.fds.fdset) (hBelow : fwd.fds.Below) :
    ({ s with fwd := fwd } : Server).table.Sound where
  below := hBelow
  covered := by
    intro fd hMem
    change fd ∈ fwd.fds.fdset at hMem
    rw [hSet] at hMem
    exact h.covered fd hMem
  nodup := by
    show fwd.fds.fdset.Nodup
    rw [hSet]
    exact h.nodup

theorem fdset_forwardRegister (st : Forwarding) (call : ForwardCall) (timeNow timeDup : Int)
    (dup : Bool) : (st.forwardRegister call timeNow timeDup dup).2.fds.fdset = st.fds.fdset := by
  rcases Forwarding.forwardRegister_cases call timeNow timeDup dup st with
    ⟨pre, k, post, -, -, -, hRun⟩ | ⟨-, j, -, hRun⟩
  · rw [hRun]
    show (((st.initXid timeNow).sweep timeNow pre).fds).fdset = _
    rw [Forwarding.fdset_sweep, Forwarding.fds_initXid]
  · rw [hRun, Forwarding.fds_enter, (Forwarding.fds_freeSlotByIndex j).1, Forwarding.fdset_sweep,
      Forwarding.fds_initXid]

theorem sound_createRmtcallFd (h : s.table.Sound) {mem : Bool} {netid : CString} {xprt fd : Nat}
    (hFits : s.table.Fits fd) : (s.createRmtcallFd mem netid xprt fd).table.Sound := by
  have hRegister := @SvcXprts.Sound.register s.table mem xprt fd h hFits
  have hIn := @SvcXprts.mem_of_xprtRegister s.table mem xprt fd
  unfold createRmtcallFd
  split
  · next t hRun =>
      rw [hRun] at hRegister
      exact hRegister
  · next t hRun =>
      rw [hRun] at hRegister hIn
      refine ⟨hRegister.below.set fd, fun n hMem => ?_, ?_⟩
      · rcases SvcXprts.mem_svcFdsetSet hMem with rfl | hOld
        · exact hRegister.covered n (hIn rfl)
        · exact hRegister.covered n hOld
      · exact SvcXprts.nodup_svcFdsetSet hRegister.nodup fd

/-- An event leaves no descriptor above `fdmax` exactly when it is all right. -/
theorem below_happen_iff (h : s.table.Sound) {e : ServerEvent} (hFits : s.Fits e) :
    (s.happen e).fwd.fds.Below ↔ s.Ok e := by
  cases e with
  | register mem xprt sock =>
      exact ⟨fun _ => trivial, fun _ => (SvcXprts.Sound.register h hFits).below⟩
  | unregister xprt sock => exact h.below_unregister_iff
  | createRmtcallFd mem netid xprt fd =>
      exact ⟨fun _ => trivial, fun _ => (sound_createRmtcallFd h hFits).below⟩
  | forwardRegister call timeNow timeDup dup => exact Forwarding.below_forwardRegister_iff h.below
  | freeSlotByXid xid => exact Forwarding.below_freeSlotByIndex_iff h.below
  | freeSlotByIndex idx => exact Forwarding.below_freeSlotByIndex_iff h.below

/-- An event that is all right keeps the table in order. -/
theorem sound_happen (h : s.table.Sound) {e : ServerEvent} (hFits : s.Fits e) (hOk : s.Ok e) :
    (s.happen e).table.Sound := by
  have hBelow := (below_happen_iff h hFits).mpr hOk
  cases e with
  | register mem xprt sock => exact SvcXprts.Sound.register h hFits
  | unregister xprt sock => exact h.unregister hOk
  | createRmtcallFd mem netid xprt fd => exact sound_createRmtcallFd h hFits
  | forwardRegister call timeNow timeDup dup =>
      exact sound_of_fdset_eq h (fdset_forwardRegister s.fwd call timeNow timeDup dup) hBelow
  | freeSlotByXid xid => exact sound_of_fdset_eq h (Forwarding.fds_freeSlotByIndex _).1 hBelow
  | freeSlotByIndex idx => exact sound_of_fdset_eq h (Forwarding.fds_freeSlotByIndex idx).1 hBelow

/-- The induction is on the events, from a table in order. -/
theorem polledThroughout_iff (events : List ServerEvent) {s : Server} (h : s.table.Sound)
    (hFit : AllFit s events) : PolledThroughout s events ↔ AllOk s events := by
  induction events generalizing s with
  | nil => exact ⟨fun _ => trivial, fun _ => (allPolled_iff _).mpr h.below⟩
  | cons e rest ih =>
      obtain ⟨hHere, hLater⟩ := hFit
      constructor
      · rintro ⟨-, hRest⟩
        have hOk := (below_happen_iff h hHere).mp hRest.here
        exact ⟨hOk, (ih (sound_happen h hHere hOk) hLater).mp hRest⟩
      · rintro ⟨hOk, hRest⟩
        exact ⟨(allPolled_iff _).mpr h.below, (ih (sound_happen h hHere hOk) hLater).mpr hRest⟩

theorem sound_initial : initial.table.Sound where
  below := fun fd hMem => (by cases hMem)
  covered := fun fd hMem => (by cases hMem)
  nodup := List.nodup_nil

/-- In a run whose transports fit into their table, every registered descriptor is polled
throughout exactly when no event touches the largest descriptor. -/
theorem rpcbind_polled_iff {events : List ServerEvent} (h : AllFit initial events) :
    PolledThroughout initial events ↔ AllOk initial events :=
  polledThroughout_iff events sound_initial h

/-- A transport, a descriptor for forwarding and a call that is forwarded on it. -/
def forwarding : List ServerEvent :=
  [.register true 1 33, .createRmtcallFd true (CString.ascii "udp") 2 35,
    .forwardRegister { callerXid := 7, callerAddr := [127, 0, 0, 1], forwardFd := 35, uaddr := none
                       replyType := 5, versnum := 3 } 1000 1000 true]

theorem rpcbind_polled_iff_forwarding :
    PolledThroughout initial forwarding ↔ AllOk initial forwarding :=
  rpcbind_polled_iff (by
    refine ⟨fun _ => ?_, fun _ => ?_, trivial, trivial⟩ <;> decide)

/-- When its reply has come, the descriptor for forwarding is no longer polled. -/
theorem not_rpcbind_polled_replied :
    ¬ ∀ events, AllFit initial events → PolledThroughout initial events := by
  intro h
  have hPolled := h (forwarding ++ [.freeSlotByXid 64064])
    (by refine ⟨fun _ => ?_, fun _ => ?_, trivial, trivial, trivial⟩ <;> decide)
  have hLast := hPolled.2.2.2.2
  exact absurd (hLast 35 (by decide)).1 (by decide)

end Server
end OncRpc
