import Mathlib.Data.List.Basic
import OncRpc.Base.Runs

/-! `rwlock.c` of libsthread: a read-write lock over a slim lock, which is told at `unlock` whether
it was locked for reading or for writing by the owner that writers leave. -/
namespace OncRpc.Sthread

open Runs

inductive LockMode where
  | shared
  | exclusive
  deriving DecidableEq, Repr

/-- The identifier of a thread, which is not 0. -/
abbrev ThreadId := { id : BitVec 32 // id ≠ 0 }

/-- A slim lock: held by so many readers, or by a writer. -/
inductive Srw where
  | shared (readers : Nat)
  | exclusive
  deriving DecidableEq, Repr

namespace Srw

/-- What has to wait has no outcome. -/
def acquire : LockMode → Srw → Option Srw
  | .shared, .shared n => some (.shared (n + 1))
  | .exclusive, .shared 0 => some .exclusive
  | _, _ => none

/-- There is none either where the lock is not held in that mode. -/
def release : LockMode → Srw → Option Srw
  | .shared, .shared (n + 1) => some (.shared n)
  | .exclusive, .exclusive => some (.shared 0)
  | _, _ => none

end Srw

/-- `pthread_rwlock_t`. -/
structure Rwlock where
  srw : Srw
  owner : BitVec 32
  deriving DecidableEq, Repr

namespace Rwlock

/-- `pthread_rwlock_init`, of the memory that it is given. -/
def init (prior : Rwlock) : Rwlock := { prior with srw := .shared 0 }

def rdlock (l : Rwlock) : Option Rwlock := do
  let srw ← l.srw.acquire .shared
  some { l with srw }

/-- The system may refuse a lock that is free. Without an outcome it is `EBUSY`. -/
def tryrdlock (l : Rwlock) (granted : Bool) : Option Rwlock := if granted then l.rdlock else none

def wrlock (l : Rwlock) (t : ThreadId) : Option Rwlock := do
  let srw ← l.srw.acquire .exclusive
  some { srw, owner := t.val }

def trywrlock (l : Rwlock) (t : ThreadId) (granted : Bool) : Option Rwlock :=
  if granted then l.wrlock t else none

/-- `pthread_rwlock_unlock`, up to the release, and the mode of that. -/
def unlock (l : Rwlock) (t : ThreadId) : Option (LockMode × Rwlock) :=
  if l.owner ≠ 0 then
    -- the assertion
    if l.owner = t.val then some (.exclusive, { l with owner := 0 }) else none
  else some (.shared, l)

end Rwlock

/-- A lock, who holds it, and whether it was ever locked for writing. -/
structure RwlockRun where
  lock : Rwlock
  holders : List (ThreadId × LockMode)
  written : Bool

inductive RwlockEvent where
  | rdlock (t : ThreadId)
  | tryrdlock (t : ThreadId) (granted : Bool)
  | wrlock (t : ThreadId)
  | trywrlock (t : ThreadId) (granted : Bool)
  | unlock (t : ThreadId)
  deriving DecidableEq

namespace RwlockRun

def start (prior : Rwlock) : RwlockRun := ⟨prior.init, [], false⟩

/-- How a thread holds the lock, if it does. -/
def mode? (s : RwlockRun) (t : ThreadId) : Option LockMode :=
  (s.holders.find? fun h => h.1 = t).map Prod.snd

/-- A thread has the lock now, or not yet. -/
def locked (s : RwlockRun) (t : ThreadId) (mode : LockMode) : Option Rwlock → RwlockRun
  | some lock =>
      { lock, holders := (t, mode) :: s.holders, written := s.written || mode == .exclusive }
  | none => s

/-- A call of a thread. There is no outcome where a lock is unlocked that the thread does not hold,
where the assertion fails, and where the lock is not held as it is released. -/
def step (s : RwlockRun) : RwlockEvent → Option RwlockRun
  | .rdlock t => some (s.locked t .shared s.lock.rdlock)
  | .tryrdlock t granted => some (s.locked t .shared (s.lock.tryrdlock granted))
  | .wrlock t => some (s.locked t .exclusive (s.lock.wrlock t))
  | .trywrlock t granted => some (s.locked t .exclusive (s.lock.trywrlock t granted))
  | .unlock t => do
      let mode ← s.mode? t
      let (released, lock) ← s.lock.unlock t
      let srw ← lock.srw.release released
      some { s with lock := { lock with srw }, holders := s.holders.erase (t, mode) }

/-- A writer holds the lock alone. -/
def Alone (s : RwlockRun) : Prop :=
  ∀ t, (t, LockMode.exclusive) ∈ s.holders → s.holders = [(t, LockMode.exclusive)]

/-- What a thread unlocks is released in the mode that it holds it in, and no writer has company. -/
def Right (s : RwlockRun) (e : RwlockEvent) : Prop :=
  (∀ t, e = .unlock t → ∀ mode, (t, mode) ∈ s.holders →
    ∃ lock, s.lock.unlock t = some (mode, lock)) ∧
  ∀ s', s.step e = some s' → s'.Alone

/-- The condition on a call: where a thread unlocks what it holds, the owner was 0 at the beginning
or there has been a writer. -/
def Meets (owner : BitVec 32) (s : RwlockRun) (e : RwlockEvent) : Prop :=
  ∀ t, e = .unlock t → (∃ mode, (t, mode) ∈ s.holders) → owner = 0 ∨ s.written = true

/-- The slim lock is held as its holders think, and the owner is the writer. -/
structure Inv (owner : BitVec 32) (s : RwlockRun) : Prop where
  readers : ∀ n, s.lock.srw = .shared n →
    s.holders.length = n ∧ (∀ h ∈ s.holders, h.2 = .shared) ∧
      s.lock.owner = if s.written then 0 else owner
  writer : s.lock.srw = .exclusive →
    ∃ t, s.holders = [(t, .exclusive)] ∧ s.lock.owner = t.val ∧ s.written = true

variable {owner : BitVec 32} {s : RwlockRun} {t : ThreadId}

theorem inv_start (prior : Rwlock) : (start prior).Inv prior.owner where
  readers _ h := ⟨Srw.shared.inj h, nofun, rfl⟩
  writer := nofun

theorem Inv.alone (h : s.Inv owner) : s.Alone := by
  intro t ht
  cases hSrw : s.lock.srw with
  | shared n =>
      obtain ⟨-, hShared, -⟩ := h.readers n hSrw
      cases hShared _ ht
  | exclusive =>
      obtain ⟨t', hHolders, -⟩ := h.writer hSrw
      rw [hHolders, List.mem_singleton] at ht
      rw [hHolders, ht]

/-- A reader comes to the readers. -/
theorem Inv.rdlock (h : s.Inv owner) (t : ThreadId) :
    (s.locked t .shared s.lock.rdlock).Inv owner := by
  cases hSrw : s.lock.srw with
  | exclusive =>
      have hWaits : s.lock.rdlock = none := by rw [Rwlock.rdlock, hSrw]; rfl
      rw [hWaits]
      exact h
  | shared n =>
      obtain ⟨hLength, hShared, hOwner⟩ := h.readers n hSrw
      have hLocks : s.lock.rdlock = some { s.lock with srw := .shared (n + 1) } := by
        rw [Rwlock.rdlock, hSrw]
        rfl
      rw [hLocks]
      refine ⟨fun m hm => ⟨?_, ?_, ?_⟩, nofun⟩
      · obtain rfl := Srw.shared.inj hm
        rw [← hLength]
        rfl
      · exact List.forall_mem_cons.mpr ⟨rfl, hShared⟩
      · show s.lock.owner = if (s.written || false) = true then 0 else owner
        rw [hOwner, Bool.or_false]

/-- A writer comes when there is nobody. -/
theorem Inv.wrlock (h : s.Inv owner) (t : ThreadId) :
    (s.locked t .exclusive (s.lock.wrlock t)).Inv owner := by
  rcases hSrw : s.lock.srw with (- | n) | -
  · obtain ⟨hLength, -⟩ := h.readers 0 hSrw
    have hLocks : s.lock.wrlock t = some ⟨.exclusive, t.val⟩ := by
      rw [Rwlock.wrlock, hSrw]
      rfl
    rw [hLocks]
    refine ⟨nofun, fun _ => ⟨t, ?_, rfl, Bool.or_true _⟩⟩
    show (t, LockMode.exclusive) :: s.holders = _
    rw [List.eq_nil_of_length_eq_zero hLength]
  · have hWaits : s.lock.wrlock t = none := by rw [Rwlock.wrlock, hSrw]; rfl
    rw [hWaits]
    exact h
  · have hWaits : s.lock.wrlock t = none := by rw [Rwlock.wrlock, hSrw]; rfl
    rw [hWaits]
    exact h

/-- The thread that holds the lock for writing releases it so. -/
theorem Inv.unlock_writer (h : s.Inv owner) (ht : (t, .exclusive) ∈ s.holders) :
    s.lock.srw = .exclusive ∧ s.lock.unlock t = some (.exclusive, { s.lock with owner := 0 }) ∧
      s.written = true := by
  cases hSrw : s.lock.srw with
  | shared n =>
      obtain ⟨-, hShared, -⟩ := h.readers n hSrw
      cases hShared _ ht
  | exclusive =>
      obtain ⟨t', hHolders, hOwner, hWritten⟩ := h.writer hSrw
      rw [hHolders, List.mem_singleton, Prod.mk.injEq] at ht
      obtain ⟨rfl, -⟩ := ht
      refine ⟨rfl, ?_, hWritten⟩
      rw [Rwlock.unlock, if_pos (by rw [hOwner]; exact t.property), if_pos hOwner]

/-- A thread that holds it for reading does, if the owner is 0. -/
theorem Inv.unlock_reader_iff (h : s.Inv owner) (ht : (t, .shared) ∈ s.holders) :
    (∃ lock, s.lock.unlock t = some (.shared, lock)) ↔ owner = 0 ∨ s.written = true := by
  cases hSrw : s.lock.srw with
  | exclusive =>
      obtain ⟨t', hHolders, -⟩ := h.writer hSrw
      rw [hHolders, List.mem_singleton, Prod.mk.injEq] at ht
      cases ht.2
  | shared n =>
      obtain ⟨-, -, hOwner⟩ := h.readers n hSrw
      have hShared : (∃ lock, s.lock.unlock t = some (.shared, lock)) ↔ s.lock.owner = 0 := by
        unfold Rwlock.unlock
        split
        · next hNe =>
            refine iff_of_false ?_ hNe
            rintro ⟨lock, hUnlock⟩
            split at hUnlock <;> cases hUnlock
        · next hZero => exact iff_of_true ⟨_, rfl⟩ (not_not.mp hZero)
      rw [hShared, hOwner]
      cases s.written <;> simp

theorem mem_of_mode? {mode : LockMode} (h : s.mode? t = some mode) : (t, mode) ∈ s.holders := by
  obtain ⟨⟨t', mode'⟩, hFind, rfl⟩ := Option.map_eq_some_iff.mp h
  have hSame : t' = t := by simpa using List.find?_some hFind
  rw [← hSame]
  exact List.mem_of_find?_eq_some hFind

theorem Inv.unlock (h : s.Inv owner) (hMeets : s.Meets owner (.unlock t)) {s' : RwlockRun}
    (hStep : s.step (.unlock t) = some s') : s'.Inv owner := by
  obtain ⟨mode, hMode, hStep⟩ := Option.bind_eq_some_iff.mp hStep
  obtain ⟨⟨released, lock⟩, hUnlock, hStep⟩ := Option.bind_eq_some_iff.mp hStep
  obtain ⟨srw, hRelease, hStep⟩ := Option.bind_eq_some_iff.mp hStep
  have ht := mem_of_mode? hMode
  obtain rfl := Option.some.inj hStep
  cases mode with
  | exclusive =>
      obtain ⟨hSrw, hWrites, hWritten⟩ := h.unlock_writer ht
      obtain ⟨t', hHolders, -⟩ := h.writer hSrw
      rw [hUnlock] at hWrites
      cases hWrites
      rw [hHolders, List.mem_singleton] at ht
      rw [show ({ s.lock with owner := 0 } : Rwlock).srw = .exclusive from hSrw] at hRelease
      cases hRelease
      refine ⟨fun n hn => ?_, nofun⟩
      dsimp only at hn ⊢
      rw [hHolders, ht, List.erase_cons_head, hWritten]
      exact ⟨Srw.shared.inj hn, nofun, rfl⟩
  | shared =>
      have hOwner := hMeets t rfl ⟨_, ht⟩
      obtain ⟨lock', hReads⟩ := (h.unlock_reader_iff ht).mpr hOwner
      rw [hUnlock] at hReads
      cases hReads
      have hSame : lock = s.lock := by
        unfold Rwlock.unlock at hUnlock
        split at hUnlock
        · split at hUnlock <;> cases hUnlock
        · exact (Prod.mk.inj (Option.some.inj hUnlock)).2.symm
      subst hSame
      cases hSrw : s.lock.srw with
      | exclusive =>
          rw [hSrw] at hRelease
          cases hRelease
      | shared n =>
          obtain ⟨hLength, hShared, hIs⟩ := h.readers n hSrw
          rw [hSrw] at hRelease
          rcases n with - | n
          · cases hRelease
          · cases hRelease
            refine ⟨fun m hm => ⟨?_, ?_, hIs⟩, nofun⟩
            · obtain rfl := Srw.shared.inj hm
              rw [List.length_erase_of_mem ht, hLength]
              rfl
            · exact fun h' hMem => hShared h' (List.mem_of_mem_erase hMem)

theorem Inv.step (h : s.Inv owner) {e : RwlockEvent} (hMeets : s.Meets owner e) {s' : RwlockRun}
    (hStep : s.step e = some s') : s'.Inv owner := by
  cases e with
  | rdlock t =>
      obtain rfl := Option.some.inj hStep
      exact h.rdlock t
  | tryrdlock t granted =>
      obtain rfl := Option.some.inj hStep
      cases granted with
      | true => exact h.rdlock t
      | false => exact h
  | wrlock t =>
      obtain rfl := Option.some.inj hStep
      exact h.wrlock t
  | trywrlock t granted =>
      obtain rfl := Option.some.inj hStep
      cases granted with
      | true => exact h.wrlock t
      | false => exact h
  | unlock t => exact h.unlock hMeets hStep

/-- A call does what is right just where it meets the condition. -/
theorem Inv.right_iff (h : s.Inv owner) (e : RwlockEvent) : s.Right e ↔ s.Meets owner e := by
  constructor
  · rintro ⟨hUnlock, -⟩ t he ⟨mode, ht⟩
    have hReleases := hUnlock t he mode ht
    cases mode with
    | exclusive => exact Or.inr (h.unlock_writer ht).2.2
    | shared => exact (h.unlock_reader_iff ht).mp hReleases
  · intro hMeets
    refine ⟨fun t he mode ht => ?_, fun s' hStep => (h.step hMeets hStep).alone⟩
    cases mode with
    | exclusive => exact ⟨_, (h.unlock_writer ht).2.1⟩
    | shared => exact (h.unlock_reader_iff ht).mpr (hMeets t he ⟨_, ht⟩)

end RwlockRun

/-- Locks are released as they are held throughout the runs in which nobody unlocks before there was
a writer, or all runs if the memory of the owner was 0. -/
theorem unlocks_as_locked_iff (prior : Rwlock) (events : List RwlockEvent) :
    Throughout RwlockRun.step RwlockRun.Right (RwlockRun.start prior) events ↔
      Throughout RwlockRun.step (RwlockRun.Meets prior.owner) (RwlockRun.start prior) events :=
  throughout_iff (RwlockRun.Inv prior.owner) (fun _ e hInv => hInv.right_iff e)
    (fun _ _ _ hInv hMeets hStep => hInv.step hMeets hStep) events _ (RwlockRun.inv_start prior)

/-- In memory that was not zeroed, the first reader is taken for a writer. -/
theorem not_unlocks_as_locked :
    ¬ ∀ (prior : Rwlock) (events : List RwlockEvent),
      Throughout RwlockRun.step RwlockRun.Right (RwlockRun.start prior) events := by
  intro h
  obtain ⟨-, hRest⟩ := h ⟨.shared 0, 5⟩ [.rdlock ⟨1, by decide⟩, .unlock ⟨1, by decide⟩]
  obtain ⟨⟨hUnlock, -⟩, -⟩ := hRest _ rfl
  obtain ⟨lock, hShared⟩ := hUnlock _ rfl .shared List.mem_cons_self
  cases hShared

end OncRpc.Sthread
