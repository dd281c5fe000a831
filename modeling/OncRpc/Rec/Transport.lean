import OncRpc.Base.Fallible
import Mathlib.Data.List.Basic

/-! The `readit` and `writeit` procedures of a record stream. What the peer sends
arrives in pieces: a read takes at most as much as was asked from the first piece
and leaves the rest of it. An empty piece is a moment at which nothing is there. -/
namespace OncRpc

/-- What a read can meet. -/
inductive Arrival where
  | data (bs : List UInt8)
  | error
  deriving DecidableEq, Repr

/-- The connection behind `tcp_handle`. -/
structure Transport where
  arrivals : List Arrival
  /-- Everything that `writeit` has sent. -/
  written : List UInt8
  /-- The socket does not wait: `readit` answers zero when nothing is there. -/
  nonblock : Bool
  writable : Bool
  deriving DecidableEq, Repr

namespace Transport

open Fallible

/-- A piece of which `len` bytes have been taken. -/
def leave (bs : List UInt8) (len : Nat) (rest : List Arrival) : List Arrival :=
  if bs.length ≤ len then rest else .data (bs.drop len) :: rest

/-- `readit`. A failure is the return value -1. -/
def readit (len : Int) : Fallible Transport (List UInt8) := fun t =>
  if len < 0 then (none, t)
  else if len = 0 then (some [], t)
  else
    match t.arrivals with
    | [] => (if t.nonblock then some [] else none, t)
    | .error :: rest => (none, { t with arrivals := rest })
    | .data bs :: rest =>
        if bs = [] then (if t.nonblock then some [] else none, { t with arrivals := rest })
        else (some (bs.take len.toNat), { t with arrivals := leave bs len.toNat rest })

/-- `writeit`: the count comes back, or -1. -/
def writeit (bs : List UInt8) (len : Int) : Fallible Transport Unit := fun t =>
  if len < 0 ∨ t.writable = false then (none, t)
  else (some (), { t with written := t.written ++ bs })

/-- The bytes that come before the first read that yields nothing. -/
def ready : List Arrival → List UInt8
  | .data (b :: bs) :: rest => b :: bs ++ ready rest
  | _ => []

/-- The arrivals behind the first read that yields nothing. -/
def afterReady : List Arrival → List Arrival
  | .data (_ :: _) :: rest => afterReady rest
  | _ :: rest => rest
  | [] => []

/-- All the bytes still to arrive. -/
def bytes : List Arrival → List UInt8
  | [] => []
  | .error :: rest => bytes rest
  | .data bs :: rest => bs ++ bytes rest

theorem bytes_eq (as : List Arrival) : bytes as = ready as ++ bytes (afterReady as) := by
  induction as with
  | nil => rfl
  | cons a as ih =>
      cases a with
      | error => rfl
      | data bs =>
          cases bs with
          | nil => rfl
          | cons b bs => simp [bytes, ready, afterReady, ih]

theorem ready_leave (bs : List UInt8) (len : Nat) (rest : List Arrival) :
    ready (leave bs len rest) = bs.drop len ++ ready rest := by
  unfold leave
  split
  · rw [List.drop_of_length_le ‹_›, List.nil_append]
  · cases hDrop : bs.drop len with
    | nil =>
        have hLen := congrArg List.length hDrop
        rw [List.length_drop, List.length_nil] at hLen
        omega
    | cons b cs => rfl

theorem afterReady_leave (bs : List UInt8) (len : Nat) (rest : List Arrival) :
    afterReady (leave bs len rest) = afterReady rest := by
  unfold leave
  split
  · rfl
  · cases hDrop : bs.drop len with
    | nil =>
        have hLen := congrArg List.length hDrop
        rw [List.length_drop, List.length_nil] at hLen
        omega
    | cons b cs => rfl

theorem bytes_leave (bs : List UInt8) (len : Nat) (rest : List Arrival) :
    bytes (leave bs len rest) = bs.drop len ++ bytes rest := by
  unfold leave
  split
  · rw [List.drop_of_length_le ‹_›, List.nil_append]
  · rfl

/-- The two connections differ in what is still to arrive and in nothing else. -/
structure SameLine (t t' : Transport) : Prop where
  written_eq : t'.written = t.written
  nonblock_eq : t'.nonblock = t.nonblock
  writable_eq : t'.writable = t.writable

/-- What a read of at most `len` bytes that yields `bs` does. -/
structure Took (len : Nat) (bs : List UInt8) (t t' : Transport) : Prop where
  nonempty : bs ≠ []
  length_le : bs.length ≤ len
  ready_eq : ready t.arrivals = bs ++ ready t'.arrivals
  afterReady_eq : afterReady t'.arrivals = afterReady t.arrivals
  line : SameLine t t'

/-- What a read that yields nothing does. -/
structure Idled (t t' : Transport) : Prop where
  ready_eq : ready t.arrivals = []
  arrivals_eq : t'.arrivals = afterReady t.arrivals
  line : SameLine t t'

/-- A read of at least one byte, by what comes first. -/
theorem run_readit {len : Nat} (hLen : 0 < len) (t : Transport) :
    (readit len).run t =
      match t.arrivals with
      | [] => (if t.nonblock then some [] else none, t)
      | .error :: rest => (none, { t with arrivals := rest })
      | .data bs :: rest =>
          if bs = [] then (if t.nonblock then some [] else none, { t with arrivals := rest })
          else (some (bs.take len), { t with arrivals := leave bs len rest }) := by
  have hNeg : ¬ (len : Int) < 0 := by omega
  have hZero : ¬ (len : Int) = 0 := by omega
  simp only [Fallible.run, readit, if_neg hNeg, if_neg hZero, Int.toNat_natCast]

/-- What a read takes is the front of what is still to arrive. -/
theorem readit_bytes {len : Nat} (hLen : 0 < len) (t : Transport) :
    ∃ ans t', (readit len).run t = (ans, t') ∧
      bytes t.arrivals = ans.getD [] ++ bytes t'.arrivals ∧ (ans.getD []).length ≤ len ∧
      SameLine t t' ∧ (Arrival.error ∈ t'.arrivals → Arrival.error ∈ t.arrivals) := by
  rw [run_readit hLen]
  rcases hArr : t.arrivals with _ | ⟨bs | _, rest⟩
  · exact ⟨_, t, rfl, by split <;> simp [hArr, bytes], by split <;> simp, ⟨rfl, rfl, rfl⟩,
      by simp [hArr]⟩
  · by_cases hNil : bs = []
    · refine ⟨_, { t with arrivals := rest }, if_pos hNil, ?_, ?_, ⟨rfl, rfl, rfl⟩, ?_⟩
      · split <;> simp [hNil, bytes]
      · split <;> simp
      · exact List.mem_cons_of_mem _
    · refine ⟨some (bs.take len), { t with arrivals := leave bs len rest }, if_neg hNil, ?_, ?_,
        ⟨rfl, rfl, rfl⟩, ?_⟩
      · show bs ++ bytes rest = bs.take len ++ bytes (leave bs len rest)
        rw [bytes_leave, ← List.append_assoc, List.take_append_drop]
      · show (bs.take len).length ≤ len
        rw [List.length_take]
        exact Nat.min_le_left _ _
      · show Arrival.error ∈ leave bs len rest → _
        unfold leave
        split
        · exact List.mem_cons_of_mem _
        · intro hMem
          rcases List.mem_cons.mp hMem with hEq | hMem
          · cases hEq
          · exact List.mem_cons_of_mem _ hMem
  · exact ⟨none, { t with arrivals := rest }, rfl, rfl, Nat.zero_le _, ⟨rfl, rfl, rfl⟩,
      List.mem_cons_of_mem _⟩

/-- A read brings no error up that was not there. -/
theorem error_after_readit {len : Int} {t : Transport}
    (h : Arrival.error ∈ ((readit len).run t).2.arrivals) : Arrival.error ∈ t.arrivals := by
  rcases Int.lt_trichotomy len 0 with hNeg | rfl | hPos
  · have hRun : (readit len).run t = (none, t) := if_pos hNeg
    rwa [hRun] at h
  · exact h
  · obtain ⟨n, rfl⟩ := Int.eq_ofNat_of_zero_le (Int.le_of_lt hPos)
    obtain ⟨ans, t', hRun, -, -, -, hErr⟩ := readit_bytes (Int.natCast_pos.mp hPos) t
    rw [hRun] at h
    exact hErr h

/-- A read that does not wait fails only on an error. -/
theorem error_of_readit {len : Nat} {t t' : Transport} (hLen : 0 < len)
    (hLine : t.nonblock = true) (hRead : (readit len).run t = (none, t')) :
    Arrival.error ∈ t.arrivals := by
  rw [run_readit hLen] at hRead
  rcases hArr : t.arrivals with _ | ⟨(_ | ⟨b, bs⟩) | _, rest⟩
  · simp [hArr, hLine] at hRead
  · simp [hArr, hLine] at hRead
  · simp [hArr] at hRead
  · exact List.mem_cons_self

/-- A read of at least one byte takes some when they are there. -/
theorem readit_ready {len : Nat} {t : Transport} (hLen : 0 < len)
    (hReady : ready t.arrivals ≠ []) :
    ∃ bs t', (readit len).run t = (some bs, t') ∧ Took len bs t t' := by
  rw [run_readit hLen]
  rcases hArr : t.arrivals with _ | ⟨(_ | ⟨b, bs⟩) | _, rest⟩
  · simp [hArr, ready] at hReady
  · simp [hArr, ready] at hReady
  · refine ⟨(b :: bs).take len, { t with arrivals := leave (b :: bs) len rest }, rfl, ?_⟩
    refine ⟨?_, List.length_take_le len (b :: bs), ?_, ?_, ⟨rfl, rfl, rfl⟩⟩
    · obtain ⟨n, rfl⟩ := Nat.exists_eq_succ_of_ne_zero (by omega : len ≠ 0)
      simp
    · rw [hArr, ready_leave, ← List.append_assoc, List.take_append_drop]
      rfl
    · rw [hArr, afterReady_leave]
      rfl
  · simp [hArr, ready] at hReady

/-- When nothing is there a blocking read fails. -/
theorem readit_blocked {len : Nat} {t : Transport} (hLen : 0 < len)
    (hReady : ready t.arrivals = []) (hBlock : t.nonblock = false) :
    ∃ t', (readit len).run t = (none, t') ∧ Idled t t' := by
  rw [run_readit hLen]
  rcases hArr : t.arrivals with _ | ⟨(_ | ⟨b, bs⟩) | _, rest⟩
  · refine ⟨t, by simp [hBlock], hReady, ?_, ⟨rfl, rfl, rfl⟩⟩
    rw [hArr]
    rfl
  · refine ⟨{ t with arrivals := rest }, by simp [hBlock], hReady, ?_, ⟨rfl, rfl, rfl⟩⟩
    rw [hArr]
    rfl
  · simp [hArr, ready] at hReady
  · refine ⟨{ t with arrivals := rest }, rfl, hReady, ?_, ⟨rfl, rfl, rfl⟩⟩
    rw [hArr]
    rfl

end Transport
end OncRpc
