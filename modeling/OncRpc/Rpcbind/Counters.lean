import Mathlib.Data.List.Count
import OncRpc.Base.Keyed
import OncRpc.Rpcbind.Stat

/-! What the entries of `rpcb_stat.c` say of the calls that rpcbind has counted. An entry is made
at the first call with its key for which there is memory. -/
namespace OncRpc

/-- How a call came out that is counted. -/
structure Outcome where
  failed : Bool
  /-- Whether it was `RPCBPROC_INDIRECT`. -/
  indirect : Bool
  /-- Whether there is memory for an entry. -/
  mem : Bool
  deriving DecidableEq, Repr

/-- Program, version, procedure and netid. -/
abbrev RmtcallKey := BitVec 32 × BitVec 32 × BitVec 32 × CString

/-- Program, version and netid. -/
abbrev AddrKey := BitVec 32 × BitVec 32 × CString

def RpcbsRmtcall.key (rl : RpcbsRmtcall) : RmtcallKey := (rl.prog, rl.vers, rl.proc, rl.netid)

def RpcbsAddr.key (al : RpcbsAddr) : AddrKey := (al.prog, al.vers, al.netid)

/-- One more call is counted in an entry that exists. -/
def RpcbsRmtcall.count (rl : RpcbsRmtcall) (o : Outcome) : RpcbsRmtcall :=
  let rl := if o.failed then { rl with failure := rl.failure + 1 }
    else { rl with success := rl.success + 1 }
  if o.indirect then { rl with indirect := rl.indirect + 1 } else rl

/-- The entry that is made for a key. -/
def RpcbsRmtcall.fresh (k : RmtcallKey) (o : Outcome) : RpcbsRmtcall where
  prog := k.1
  vers := k.2.1
  proc := k.2.2.1
  netid := k.2.2.2
  failure := if o.failed then 1 else 0
  success := if o.failed then 0 else 1
  indirect := 1

def RpcbsAddr.count (al : RpcbsAddr) (o : Outcome) : RpcbsAddr :=
  if o.failed then { al with failure := al.failure + 1 }
  else { al with success := al.success + 1 }

def RpcbsAddr.fresh (k : AddrKey) (o : Outcome) : RpcbsAddr where
  prog := k.1
  vers := k.2.1
  netid := k.2.2
  failure := if o.failed then 1 else 0
  success := if o.failed then 0 else 1

namespace RpcbStatByvers

/-- `rpcbs_getaddr`. An `rtype` from `RPCBVERS_STAT` on is not counted. -/
def getaddrCall (env : RpcbindEnv) (rtype : BitVec 32) (prog vers : BitVec 32) (netid : CString)
    (uaddr : Option CString) (mem : Bool) (inf : RpcbStatByvers) : RpcbStatByvers :=
  if h : rtype.toNat < rpcbversStat then
    let failed := decide (uaddr.getD [] = [])
    if mem = false ∧ (countGetaddr prog vers netid failed (inf ⟨rtype.toNat, h⟩).addrinfo).isNone
    then inf
    else inf.rpcbsGetaddr env ⟨rtype.toNat, h⟩ prog vers netid uaddr
  else inf

/-- `rpcbs_rmtcall`. -/
def rmtcallCall (env : RpcbindEnv) (rtype : BitVec 32) (rpcbproc prog vers proc : BitVec 32)
    (netid : CString) (rbl : Option Rpcb) (mem : Bool) (inf : RpcbStatByvers) : RpcbStatByvers :=
  if h : rtype.toNat < rpcbversStat then
    let failed := !rbl.any fun rbl => decide (rbl.rVers = vers)
    if mem = false ∧
      (countRmtcall rpcbproc prog vers proc netid failed (inf ⟨rtype.toNat, h⟩).rmtinfo).isNone
    then inf
    else inf.rpcbsRmtcall env ⟨rtype.toNat, h⟩ rpcbproc prog vers proc netid rbl
  else inf

/-- A call of one of the functions that keep lists, and whether there is memory. -/
inductive StatCall where
  | getaddr (rtype prog vers : BitVec 32) (netid : CString) (uaddr : Option CString) (mem : Bool)
  | rmtcall (rtype rpcbproc prog vers proc : BitVec 32) (netid : CString) (rbl : Option Rpcb)
      (mem : Bool)

def StatCall.run (env : RpcbindEnv) (inf : RpcbStatByvers) : StatCall → RpcbStatByvers
  | .getaddr rtype prog vers netid uaddr mem => inf.getaddrCall env rtype prog vers netid uaddr mem
  | .rmtcall rtype rpcbproc prog vers proc netid rbl mem =>
      inf.rmtcallCall env rtype rpcbproc prog vers proc netid rbl mem

/-- What a call says of the statistics of a version under a key. -/
def StatCall.lookedUp (i : Fin rpcbversStat) (k : AddrKey) : StatCall → Option Outcome
  | .getaddr rtype prog vers netid uaddr mem =>
      if rtype.toNat = i.val ∧ (prog, vers, netid) = k then
        some { failed := decide (uaddr.getD [] = []), indirect := false, mem := mem }
      else none
  | .rmtcall .. => none

def StatCall.called (i : Fin rpcbversStat) (k : RmtcallKey) : StatCall → Option Outcome
  | .getaddr .. => none
  | .rmtcall rtype rpcbproc prog vers proc netid rbl mem =>
      if rtype.toNat = i.val ∧ (prog, vers, proc, netid) = k then
        some { failed := !rbl.any fun rbl => decide (rbl.rVers = vers)
               indirect := decide (rpcbproc = rpcbprocIndirect), mem := mem }
      else none

/-- The lookups with a key, in their order. -/
def lookups (calls : List StatCall) (i : Fin rpcbversStat) (k : AddrKey) : List Outcome :=
  calls.filterMap (StatCall.lookedUp i k)

/-- The remote calls with a key, in their order. -/
def remoteCalls (calls : List StatCall) (i : Fin rpcbversStat) (k : RmtcallKey) : List Outcome :=
  calls.filterMap (StatCall.called i k)

/-! ### What is right -/

/-- An entry says how many calls there were. -/
structure RmtcallRight (calls : List Outcome) (rl : RpcbsRmtcall) : Prop where
  success : rl.success.toInt = calls.countP fun o => !o.failed
  failure : rl.failure.toInt = calls.countP Outcome.failed
  indirect : rl.indirect.toInt = calls.countP Outcome.indirect

structure AddrRight (calls : List Outcome) (al : RpcbsAddr) : Prop where
  success : al.success.toInt = calls.countP fun o => !o.failed
  failure : al.failure.toInt = calls.countP Outcome.failed

/-- The statistics count what happened. -/
structure Right (calls : List StatCall) (inf : RpcbStatByvers) : Prop where
  rmtcallOnce : ∀ i, Keyed.Distinct RpcbsRmtcall.key (inf i).rmtinfo
  addrOnce : ∀ i, Keyed.Distinct RpcbsAddr.key (inf i).addrinfo
  rmtcall : ∀ i, ∀ rl ∈ (inf i).rmtinfo, RmtcallRight (remoteCalls calls i rl.key) rl
  addr : ∀ i, ∀ al ∈ (inf i).addrinfo, AddrRight (lookups calls i al.key) al

/-- The first of the calls finds memory, and neither the failures nor the others are too many for
an `int`. -/
structure Countable (calls : List Outcome) : Prop where
  first : ∀ o ∈ calls.head?, o.mem = true
  success : (calls.countP fun o => !o.failed) < 2 ^ 31
  failure : calls.countP Outcome.failed < 2 ^ 31

/-- Moreover the first call is an indirect one, and the indirect ones are not too many. -/
structure CountableRmtcalls (calls : List Outcome) : Prop extends Countable calls where
  indirectFirst : ∀ o ∈ calls.head?, o.indirect = true
  indirect : calls.countP Outcome.indirect < 2 ^ 31

/-- Every key that gets an entry, on a transport that rpcbind serves, can be counted. -/
structure CountsMeet (env : RpcbindEnv) (calls : List StatCall) : Prop where
  rmtcall : ∀ i k, (env.rpcbindGetConf k.2.2.2).isSome →
    (∃ o ∈ remoteCalls calls i k, o.mem = true) → CountableRmtcalls (remoteCalls calls i k)
  addr : ∀ i k, (env.rpcbindGetConf k.2.2).isSome →
    (∃ o ∈ lookups calls i k, o.mem = true) → Countable (lookups calls i k)

/-! ### One key -/

section Tally

variable {α : Type} (fresh : Outcome → α) (count : α → Outcome → α) (served : Bool)

/-- What becomes of the entry of a key. -/
def tally : Option α → Outcome → Option α
  | some e, o => some (count e o)
  | none, o => if served && o.mem then some (fresh o) else none

variable {fresh count served}

theorem foldl_tally_some (calls : List Outcome) (e : α) :
    calls.foldl (tally fresh count served) (some e) = some (calls.foldl count e) := by
  induction calls generalizing e with
  | nil => rfl
  | cons o calls ih => exact ih (count e o)

/-- The entry is made at the first call that finds memory, and counts from then on. -/
theorem foldl_tally_none {calls : List Outcome} {e : α} :
    calls.foldl (tally fresh count served) none = some e ↔
      served = true ∧ ∃ early o late, calls = early ++ o :: late ∧
        (∀ o ∈ early, o.mem = false) ∧ o.mem = true ∧ late.foldl count (fresh o) = e := by
  induction calls with
  | nil => simp
  | cons first calls ih =>
      rw [List.foldl_cons]
      by_cases hMade : (served && first.mem) = true
      · obtain ⟨hServed, hMem⟩ := Bool.and_eq_true_iff.mp hMade
        have hStart : tally fresh count served none first = some (fresh first) := if_pos hMade
        rw [hStart, foldl_tally_some, Option.some_inj]
        constructor
        · intro hEntry
          exact ⟨hServed, [], first, calls, rfl, nofun, hMem, hEntry⟩
        · rintro ⟨-, early, o, late, hSplit, hEarly, -, hEntry⟩
          cases early with
          | nil =>
              obtain ⟨rfl, rfl⟩ := List.cons.inj hSplit
              exact hEntry
          | cons o' early =>
              obtain ⟨rfl, -⟩ := List.cons.inj hSplit
              rw [hEarly _ List.mem_cons_self] at hMem
              cases hMem
      · have hStart : tally fresh count served none first = none := if_neg hMade
        rw [hStart, ih]
        refine and_congr_right fun hServed => ?_
        have hMem : first.mem = false := by simpa [hServed] using hMade
        constructor
        · rintro ⟨early, o, late, rfl, hEarly, hRest⟩
          refine ⟨first :: early, o, late, rfl, ?_, hRest⟩
          exact List.forall_mem_cons.mpr ⟨hMem, hEarly⟩
        · rintro ⟨early, o, late, hSplit, hEarly, hFound, hEntry⟩
          cases early with
          | nil =>
              obtain ⟨rfl, -⟩ := List.cons.inj hSplit
              rw [hMem] at hFound
              cases hFound
          | cons o' early =>
              obtain ⟨rfl, rfl⟩ := List.cons.inj hSplit
              exact ⟨early, o, late, rfl, (List.forall_mem_cons.mp hEarly).2, hFound, hEntry⟩

/-- The entry of a key is right if it was made at the first call, and what is counted since then
is right. -/
theorem tally_right_iff (fits : List Outcome → Prop) {entryRight : List Outcome → α → Prop}
    (hSplit : ∀ early o late, entryRight (early ++ o :: late) (late.foldl count (fresh o)) ↔
      early = [] ∧ fits (o :: late)) (calls : List Outcome) :
    (∀ e, calls.foldl (tally fresh count served) none = some e → entryRight calls e) ↔
      (served = true → (∃ o ∈ calls, o.mem = true) →
        (∀ o ∈ calls.head?, o.mem = true) ∧ fits calls) := by
  constructor
  · intro hRight hServed hSome
    obtain ⟨o, hFind⟩ := Option.isSome_iff_exists.mp (List.find?_isSome.mpr hSome)
    obtain ⟨hMem, early, late, rfl, hEarly⟩ := List.find?_eq_some_iff_append.mp hFind
    have hMade : (early ++ o :: late).foldl (tally fresh count served) none =
        some (late.foldl count (fresh o)) := by
      refine foldl_tally_none.mpr ⟨hServed, early, o, late, rfl, fun o' ho' => ?_, hMem, rfl⟩
      simpa using hEarly o' ho'
    obtain ⟨rfl, hFits⟩ := (hSplit early o late).mp (hRight _ hMade)
    refine ⟨?_, hFits⟩
    rintro o' ⟨⟩
    exact hMem
  · intro hMeet e hEntry
    obtain ⟨hServed, early, o, late, rfl, hEarly, hMem, rfl⟩ := foldl_tally_none.mp hEntry
    obtain ⟨hHead, hFits⟩ := hMeet hServed ⟨o, by simp, hMem⟩
    have hFirst : early = [] := by
      cases early with
      | nil => rfl
      | cons o' early =>
          have hNone := hEarly o' List.mem_cons_self
          rw [hHead o' rfl] at hNone
          cases hNone
    subst hFirst
    exact (hSplit [] o late).mpr ⟨rfl, hFits⟩

/-- A counter that goes up with the calls of one kind. -/
theorem counter_foldl (get : α → BitVec 32) (kind : Outcome → Bool)
    (hCount : ∀ e o, get (count e o) = if kind o then get e + 1 else get e) (calls : List Outcome)
    (e : α) : get (calls.foldl count e) = get e + BitVec.ofNat 32 (calls.countP kind) := by
  induction calls generalizing e with
  | nil => simp
  | cons o calls ih =>
      rw [List.foldl_cons, ih, hCount]
      cases hKind : kind o with
      | false => simp [hKind]
      | true =>
          rw [List.countP_cons_of_pos hKind, BitVec.ofNat_add, if_pos rfl, BitVec.add_assoc,
            BitVec.add_comm 1]
          rfl

/-- A counter that is 1 or 0 at first has the number of the calls since then. -/
theorem counter_entry (get : α → BitVec 32) (kind : Outcome → Bool)
    (hCount : ∀ e o, get (count e o) = if kind o then get e + 1 else get e)
    {o : Outcome} (hFresh : get (fresh o) = if kind o then 1 else 0) (late : List Outcome) :
    get (late.foldl count (fresh o)) = BitVec.ofNat 32 ((o :: late).countP kind) := by
  rw [counter_foldl get kind hCount, hFresh]
  cases hKind : kind o with
  | false => simp [hKind]
  | true =>
      rw [List.countP_cons_of_pos hKind, BitVec.ofNat_add, if_pos rfl, BitVec.add_comm]
      rfl

/-- A counter that started late is right if it missed nothing, and holds the number. -/
theorem toInt_ofNat_eq_iff {n m : Nat} :
    (BitVec.ofNat 32 n).toInt = ((m + n : Nat) : Int) ↔ m = 0 ∧ n < 2 ^ 31 := by
  rw [BitVec.toInt_eq_toNat_bmod, BitVec.toNat_ofNat, Int.bmod_def]
  split <;> omega

/-- The counters of the failures and of the others are right if no call was missed. -/
theorem success_failure_iff {early late : List Outcome} {o : Outcome} :
    (BitVec.ofNat 32 ((o :: late).countP fun o => !o.failed)).toInt =
          (early ++ o :: late).countP (fun o => !o.failed) ∧
        (BitVec.ofNat 32 ((o :: late).countP Outcome.failed)).toInt =
          (early ++ o :: late).countP Outcome.failed ↔
      early = [] ∧ ((o :: late).countP fun o => !o.failed) < 2 ^ 31 ∧
        (o :: late).countP Outcome.failed < 2 ^ 31 := by
  rw [List.countP_append, List.countP_append, toInt_ofNat_eq_iff, toInt_ofNat_eq_iff,
    ← List.length_eq_zero_iff, List.length_eq_countP_add_countP Outcome.failed]
  simp only [Bool.not_eq_true, Bool.decide_eq_false]
  omega

end Tally

/-! ### All the keys -/

section Record

variable {α κ : Type} [DecidableEq κ] (key : α → κ) (fresh : κ → Outcome → α)
  (count : α → Outcome → α) (served : κ → Bool)

/-- A call is recorded in a list of entries. -/
def record (k : κ) (o : Outcome) (l : List α) : List α :=
  match Keyed.alter key k (count · o) l with
  | some l => l
  | none => if served k && o.mem then fresh k o :: l else l

variable {key fresh count served} (hCount : ∀ e o, key (count e o) = key e)
  (hFresh : ∀ k o, key (fresh k o) = k)

include hCount hFresh

/-- Only the entry of the key changes. -/
theorem lookup_record (k : κ) (o : Outcome) (l : List α) :
    Keyed.lookup key (record key fresh count served k o l) =
      Function.update (Keyed.lookup key l) k
        (tally (fresh k) count (served k) (Keyed.lookup key l k) o) := by
  unfold record
  split
  · rename_i altered hAltered
    rw [Keyed.lookup_alter (hCount · o) hAltered]
    cases hEntry : Keyed.lookup key l k with
    | none => rw [Keyed.alter_eq_none.mpr hEntry] at hAltered; cases hAltered
    | some e => rfl
  · rename_i hNone
    have hNew := Keyed.alter_eq_none.mp hNone
    rw [hNew, tally]
    split
    · rw [Keyed.lookup_cons, hFresh]
    · rw [← hNew, Function.update_eq_self]

theorem distinct_record {l : List α} (h : Keyed.Distinct key l) (k : κ) (o : Outcome) :
    Keyed.Distinct key (record key fresh count served k o l) := by
  unfold record
  split
  · rename_i altered hAltered
    exact h.alter (hCount · o) hAltered
  · rename_i hNone
    split
    · apply h.cons
      rw [hFresh]
      exact Keyed.alter_eq_none.mp hNone
    · exact h

end Record

section Rmtcalls

variable {k : RmtcallKey} {early late : List Outcome} {o : Outcome}

theorem rmtcallRight_split :
    RmtcallRight (early ++ o :: late) (late.foldl RpcbsRmtcall.count (RpcbsRmtcall.fresh k o)) ↔
      (early = [] ∧ ((o :: late).countP fun o => !o.failed) < 2 ^ 31 ∧
        (o :: late).countP Outcome.failed < 2 ^ 31) ∧
      o.indirect = true ∧ (o :: late).countP Outcome.indirect < 2 ^ 31 := by
  have hSuccess : (late.foldl RpcbsRmtcall.count (RpcbsRmtcall.fresh k o)).success =
      BitVec.ofNat 32 ((o :: late).countP fun o => !o.failed) := by
    apply counter_entry RpcbsRmtcall.success
    · intro e o
      cases hFailed : o.failed <;> cases hIndirect : o.indirect <;>
        simp [RpcbsRmtcall.count, hFailed, hIndirect]
    · cases hFailed : o.failed <;> simp [RpcbsRmtcall.fresh, hFailed]
  have hFailure : (late.foldl RpcbsRmtcall.count (RpcbsRmtcall.fresh k o)).failure =
      BitVec.ofNat 32 ((o :: late).countP Outcome.failed) := by
    apply counter_entry RpcbsRmtcall.failure
    · intro e o
      cases hFailed : o.failed <;> cases hIndirect : o.indirect <;>
        simp [RpcbsRmtcall.count, hFailed, hIndirect]
    · cases hFailed : o.failed <;> simp [RpcbsRmtcall.fresh, hFailed]
  -- the entry starts with an indirect call, whatever the first one was
  have hIndirect : (late.foldl RpcbsRmtcall.count (RpcbsRmtcall.fresh k o)).indirect =
      BitVec.ofNat 32 (1 + late.countP Outcome.indirect) := by
    rw [counter_foldl RpcbsRmtcall.indirect Outcome.indirect, BitVec.ofNat_add]
    · rfl
    · intro e o
      cases hFailed : o.failed <;> cases hIndirect : o.indirect <;>
        simp [RpcbsRmtcall.count, hFailed, hIndirect]
  have hFirst : early = [] →
      ((BitVec.ofNat 32 (1 + late.countP Outcome.indirect)).toInt =
          (early ++ o :: late).countP Outcome.indirect ↔
        o.indirect = true ∧ (o :: late).countP Outcome.indirect < 2 ^ 31) := by
    rintro rfl
    rw [List.nil_append, BitVec.toInt_eq_toNat_bmod, BitVec.toNat_ofNat, Int.bmod_def,
      List.countP_cons]
    cases o.indirect with
    | false =>
        simp only [Bool.false_eq_true, if_false, false_and, iff_false]
        split <;> omega
    | true =>
        simp only [if_true, true_and]
        split <;> omega
  rw [← success_failure_iff]
  constructor
  · intro h
    have hBoth := And.intro (hSuccess ▸ h.success) (hFailure ▸ h.failure)
    exact ⟨hBoth, (hFirst (success_failure_iff.mp hBoth).1).mp (hIndirect ▸ h.indirect)⟩
  · rintro ⟨hBoth, hRest⟩
    refine ⟨hSuccess ▸ hBoth.1, hFailure ▸ hBoth.2, ?_⟩
    rw [hIndirect]
    exact (hFirst (success_failure_iff.mp hBoth).1).mpr hRest

/-- The entry of a key is right. -/
theorem rmtcalls_right_iff (served : Bool) (calls : List Outcome) :
    (∀ rl, calls.foldl (tally (RpcbsRmtcall.fresh k) RpcbsRmtcall.count served) none = some rl →
      RmtcallRight calls rl) ↔
      (served = true → (∃ o ∈ calls, o.mem = true) → CountableRmtcalls calls) := by
  rw [tally_right_iff fun calls =>
    ((calls.countP fun o => !o.failed) < 2 ^ 31 ∧ calls.countP Outcome.failed < 2 ^ 31) ∧
      (∀ o ∈ calls.head?, o.indirect = true) ∧ calls.countP Outcome.indirect < 2 ^ 31]
  · refine imp_congr_right fun _ => imp_congr_right fun _ => ?_
    constructor
    · rintro ⟨hFirst, ⟨hSuccess, hFailure⟩, hIndirectFirst, hIndirect⟩
      exact ⟨⟨hFirst, hSuccess, hFailure⟩, hIndirectFirst, hIndirect⟩
    · intro h
      exact ⟨h.first, ⟨h.success, h.failure⟩, h.indirectFirst, h.indirect⟩
  · intro early o late
    rw [rmtcallRight_split, and_assoc]
    simp

end Rmtcalls

section Lookups

variable {k : AddrKey} {early late : List Outcome} {o : Outcome}

theorem addrRight_split :
    AddrRight (early ++ o :: late) (late.foldl RpcbsAddr.count (RpcbsAddr.fresh k o)) ↔
      early = [] ∧ ((o :: late).countP fun o => !o.failed) < 2 ^ 31 ∧
        (o :: late).countP Outcome.failed < 2 ^ 31 := by
  have hSuccess : (late.foldl RpcbsAddr.count (RpcbsAddr.fresh k o)).success =
      BitVec.ofNat 32 ((o :: late).countP fun o => !o.failed) := by
    apply counter_entry RpcbsAddr.success
    · intro e o
      cases hFailed : o.failed <;> simp [RpcbsAddr.count, hFailed]
    · cases hFailed : o.failed <;> simp [RpcbsAddr.fresh, hFailed]
  have hFailure : (late.foldl RpcbsAddr.count (RpcbsAddr.fresh k o)).failure =
      BitVec.ofNat 32 ((o :: late).countP Outcome.failed) := by
    apply counter_entry RpcbsAddr.failure
    · intro e o
      cases hFailed : o.failed <;> simp [RpcbsAddr.count, hFailed]
    · cases hFailed : o.failed <;> simp [RpcbsAddr.fresh, hFailed]
  rw [← success_failure_iff]
  constructor
  · intro h
    exact ⟨hSuccess ▸ h.success, hFailure ▸ h.failure⟩
  · rintro ⟨hBothSuccess, hBothFailure⟩
    exact ⟨hSuccess ▸ hBothSuccess, hFailure ▸ hBothFailure⟩

theorem lookups_right_iff (served : Bool) (calls : List Outcome) :
    (∀ al, calls.foldl (tally (RpcbsAddr.fresh k) RpcbsAddr.count served) none = some al →
      AddrRight calls al) ↔
      (served = true → (∃ o ∈ calls, o.mem = true) → Countable calls) := by
  rw [tally_right_iff fun calls =>
    (calls.countP fun o => !o.failed) < 2 ^ 31 ∧ calls.countP Outcome.failed < 2 ^ 31]
  · refine imp_congr_right fun _ => imp_congr_right fun _ => ?_
    constructor
    · rintro ⟨hFirst, hSuccess, hFailure⟩
      exact ⟨hFirst, hSuccess, hFailure⟩
    · intro h
      exact ⟨h.first, h.success, h.failure⟩
  · exact fun early o late => addrRight_split

end Lookups

/-! ### Every key -/

variable {env : RpcbindEnv} {inf : RpcbStatByvers} {i : Fin rpcbversStat}

theorem countRmtcall_eq (rpcbproc prog vers proc : BitVec 32) (netid : CString) (failed mem : Bool)
    (list : List RpcbsRmtcall) :
    countRmtcall rpcbproc prog vers proc netid failed list =
      Keyed.alter RpcbsRmtcall.key (prog, vers, proc, netid)
        (RpcbsRmtcall.count · ⟨failed, decide (rpcbproc = rpcbprocIndirect), mem⟩) list := by
  induction list with
  | nil => rfl
  | cons rl rest ih =>
      rw [countRmtcall, Keyed.alter, ih]
      simp only [RpcbsRmtcall.key, Prod.mk.injEq, RpcbsRmtcall.count, decide_eq_true_eq]

theorem countGetaddr_eq (prog vers : BitVec 32) (netid : CString) (failed indirect mem : Bool)
    (list : List RpcbsAddr) :
    countGetaddr prog vers netid failed list =
      Keyed.alter RpcbsAddr.key (prog, vers, netid)
        (RpcbsAddr.count · ⟨failed, indirect, mem⟩) list := by
  induction list with
  | nil => rfl
  | cons al rest ih =>
      rw [countGetaddr, Keyed.alter, ih]
      simp only [RpcbsAddr.key, Prod.mk.injEq, RpcbsAddr.count]

theorem rpcbindGetConf_ncNetid {netid : CString} {nconf : NetconfigEnt}
    (h : env.rpcbindGetConf netid = some nconf) : nconf.ncNetid = netid := by
  obtain ⟨fdl, hFind, rfl⟩ := Option.map_eq_some_iff.mp h
  rw [RpcbindEnv.findFdl] at hFind
  simpa using List.find?_some hFind

/-- What is done to one version is done to that version. -/
theorem change_apply (rtype : Fin rpcbversStat) (f : RpcbStat → RpcbStat) :
    inf.change rtype f i = if rtype = i then f (inf i) else inf i := by
  by_cases hSame : rtype = i
  · subst hSame
    rw [change, Function.update_self, if_pos rfl]
  · rw [change, Function.update_of_ne (Ne.symm hSame), if_neg hSame]

theorem change_id (rtype : Fin rpcbversStat) : inf.change rtype id = inf :=
  Function.update_eq_self rtype inf

/-- A remote call changes one version, and no lookup of it. -/
theorem exists_change_rpcbsRmtcall (rtype : Fin rpcbversStat)
    (rpcbproc prog vers proc : BitVec 32) (netid : CString) (rbl : Option Rpcb) :
    ∃ f : RpcbStat → RpcbStat,
      inf.rpcbsRmtcall env rtype rpcbproc prog vers proc netid rbl = inf.change rtype f ∧
        ∀ st, (f st).addrinfo = st.addrinfo := by
  unfold rpcbsRmtcall
  dsimp only
  split
  · exact ⟨_, rfl, fun _ => rfl⟩
  · split
    · exact ⟨id, (change_id rtype).symm, fun _ => rfl⟩
    · exact ⟨_, rfl, fun _ => rfl⟩

/-- A lookup changes one version, and no remote call of it. -/
theorem exists_change_rpcbsGetaddr (rtype : Fin rpcbversStat) (prog vers : BitVec 32)
    (netid : CString) (uaddr : Option CString) :
    ∃ f : RpcbStat → RpcbStat,
      inf.rpcbsGetaddr env rtype prog vers netid uaddr = inf.change rtype f ∧
        ∀ st, (f st).rmtinfo = st.rmtinfo := by
  unfold rpcbsGetaddr
  dsimp only
  split
  · exact ⟨_, rfl, fun _ => rfl⟩
  · split
    · exact ⟨id, (change_id rtype).symm, fun _ => rfl⟩
    · exact ⟨_, rfl, fun _ => rfl⟩

/-- A remote call is recorded under its key in the list of its version. -/
theorem rmtinfo_rpcbsRmtcall (rtype : Fin rpcbversStat) (rpcbproc prog vers proc : BitVec 32)
    (netid : CString) (rbl : Option Rpcb) :
    (inf.rpcbsRmtcall env rtype rpcbproc prog vers proc netid rbl i).rmtinfo =
      if rtype = i then
        record RpcbsRmtcall.key RpcbsRmtcall.fresh RpcbsRmtcall.count
          (fun k => (env.rpcbindGetConf k.2.2.2).isSome) (prog, vers, proc, netid)
          ⟨!rbl.any fun rbl => decide (rbl.rVers = vers),
            decide (rpcbproc = rpcbprocIndirect), true⟩ (inf i).rmtinfo
      else (inf i).rmtinfo := by
  by_cases hSame : rtype = i
  · subst hSame
    rw [if_pos rfl]
    unfold rpcbsRmtcall record
    rw [← countRmtcall_eq]
    dsimp only
    cases countRmtcall rpcbproc prog vers proc netid
        (!rbl.any fun rbl => decide (rbl.rVers = vers)) (inf rtype).rmtinfo with
    | some rmtinfo => simp only [change_apply, if_true]
    | none =>
        rcases Option.eq_none_or_eq_some (env.rpcbindGetConf netid) with hConf | ⟨nconf, hConf⟩
        · simp [hConf]
        · simp only [hConf, change_apply, if_true, Option.isSome_some, Bool.and_self]
          rw [rpcbindGetConf_ncNetid hConf]
          rfl
  · obtain ⟨f, hChange, -⟩ := exists_change_rpcbsRmtcall rtype rpcbproc
      prog vers proc netid rbl
    rw [if_neg hSame, hChange, change_apply, if_neg hSame]

theorem addrinfo_rpcbsRmtcall (rtype : Fin rpcbversStat) (rpcbproc prog vers proc : BitVec 32)
    (netid : CString) (rbl : Option Rpcb) :
    (inf.rpcbsRmtcall env rtype rpcbproc prog vers proc netid rbl i).addrinfo =
      (inf i).addrinfo := by
  obtain ⟨f, hChange, hOther⟩ := exists_change_rpcbsRmtcall rtype rpcbproc
    prog vers proc netid rbl
  rw [hChange, change_apply]
  split
  · exact hOther _
  · rfl

/-- A lookup is recorded under its key in the list of its version. -/
theorem addrinfo_rpcbsGetaddr (rtype : Fin rpcbversStat) (prog vers : BitVec 32)
    (netid : CString) (uaddr : Option CString) :
    (inf.rpcbsGetaddr env rtype prog vers netid uaddr i).addrinfo =
      if rtype = i then
        record RpcbsAddr.key RpcbsAddr.fresh RpcbsAddr.count
          (fun k => (env.rpcbindGetConf k.2.2).isSome) (prog, vers, netid)
          ⟨decide (uaddr.getD [] = []), false, true⟩ (inf i).addrinfo
      else (inf i).addrinfo := by
  by_cases hSame : rtype = i
  · subst hSame
    rw [if_pos rfl]
    unfold rpcbsGetaddr record
    rw [← countGetaddr_eq]
    dsimp only
    cases countGetaddr prog vers netid (decide (uaddr.getD [] = [])) (inf rtype).addrinfo with
    | some addrinfo => simp only [change_apply, if_true]
    | none =>
        rcases Option.eq_none_or_eq_some (env.rpcbindGetConf netid) with hConf | ⟨nconf, hConf⟩
        · simp [hConf]
        · simp only [hConf, change_apply, if_true, Option.isSome_some, Bool.and_self]
          rw [rpcbindGetConf_ncNetid hConf]
          rfl
  · obtain ⟨f, hChange, -⟩ := exists_change_rpcbsGetaddr rtype prog vers
      netid uaddr
    rw [if_neg hSame, hChange, change_apply, if_neg hSame]

theorem rmtinfo_rpcbsGetaddr (rtype : Fin rpcbversStat) (prog vers : BitVec 32)
    (netid : CString) (uaddr : Option CString) :
    (inf.rpcbsGetaddr env rtype prog vers netid uaddr i).rmtinfo = (inf i).rmtinfo := by
  obtain ⟨f, hChange, hOther⟩ := exists_change_rpcbsGetaddr rtype prog
    vers netid uaddr
  rw [hChange, change_apply]
  split
  · exact hOther _
  · rfl

/-- Memory is asked for when there is no entry. -/
theorem rmtinfo_rmtcallCall (rtype rpcbproc prog vers proc : BitVec 32) (netid : CString)
    (rbl : Option Rpcb) (mem : Bool) :
    (inf.rmtcallCall env rtype rpcbproc prog vers proc netid rbl mem i).rmtinfo =
      if rtype.toNat = i.val then
        record RpcbsRmtcall.key RpcbsRmtcall.fresh RpcbsRmtcall.count
          (fun k => (env.rpcbindGetConf k.2.2.2).isSome) (prog, vers, proc, netid)
          ⟨!rbl.any fun rbl => decide (rbl.rVers = vers),
            decide (rpcbproc = rpcbprocIndirect), mem⟩ (inf i).rmtinfo
      else (inf i).rmtinfo := by
  unfold rmtcallCall
  by_cases hSame : rtype.toNat = i.val
  · have hIndex : (⟨rtype.toNat, hSame ▸ i.isLt⟩ : Fin rpcbversStat) = i := Fin.ext hSame
    rw [dif_pos (hSame ▸ i.isLt), if_pos hSame, hIndex]
    split
    · rename_i hNone
      rw [record, ← countRmtcall_eq, Option.isNone_iff_eq_none.mp hNone.2, hNone.1]
      simp
    · rename_i hSome
      rw [rmtinfo_rpcbsRmtcall, if_pos rfl, record, record, ← countRmtcall_eq, ← countRmtcall_eq]
      cases hMem : mem with
      | true => rfl
      | false =>
          obtain ⟨rmtinfo, hCounted⟩ := Option.ne_none_iff_exists'.mp fun hNone =>
            hSome ⟨hMem, Option.isNone_iff_eq_none.mpr hNone⟩
          rw [hCounted]
  · rw [if_neg hSame]
    split
    · rename_i hRange
      have hOther : (⟨rtype.toNat, hRange⟩ : Fin rpcbversStat) ≠ i :=
        fun hIndex => hSame (congrArg Fin.val hIndex)
      dsimp only
      split
      · rfl
      · rw [rmtinfo_rpcbsRmtcall, if_neg hOther]
    · rfl

theorem addrinfo_getaddrCall (rtype prog vers : BitVec 32) (netid : CString)
    (uaddr : Option CString) (mem : Bool) :
    (inf.getaddrCall env rtype prog vers netid uaddr mem i).addrinfo =
      if rtype.toNat = i.val then
        record RpcbsAddr.key RpcbsAddr.fresh RpcbsAddr.count
          (fun k => (env.rpcbindGetConf k.2.2).isSome) (prog, vers, netid)
          ⟨decide (uaddr.getD [] = []), false, mem⟩ (inf i).addrinfo
      else (inf i).addrinfo := by
  unfold getaddrCall
  by_cases hSame : rtype.toNat = i.val
  · have hIndex : (⟨rtype.toNat, hSame ▸ i.isLt⟩ : Fin rpcbversStat) = i := Fin.ext hSame
    rw [dif_pos (hSame ▸ i.isLt), if_pos hSame, hIndex]
    split
    · rename_i hNone
      rw [record, ← countGetaddr_eq, Option.isNone_iff_eq_none.mp hNone.2, hNone.1]
      simp
    · rename_i hSome
      rw [addrinfo_rpcbsGetaddr, if_pos rfl, record, record, ← countGetaddr_eq, ← countGetaddr_eq]
      cases hMem : mem with
      | true => rfl
      | false =>
          obtain ⟨addrinfo, hCounted⟩ := Option.ne_none_iff_exists'.mp fun hNone =>
            hSome ⟨hMem, Option.isNone_iff_eq_none.mpr hNone⟩
          rw [hCounted]
  · rw [if_neg hSame]
    split
    · rename_i hRange
      have hOther : (⟨rtype.toNat, hRange⟩ : Fin rpcbversStat) ≠ i :=
        fun hIndex => hSame (congrArg Fin.val hIndex)
      dsimp only
      split
      · rfl
      · rw [addrinfo_rpcbsGetaddr, if_neg hOther]
    · rfl

theorem rmtinfo_getaddrCall (rtype prog vers : BitVec 32) (netid : CString)
    (uaddr : Option CString) (mem : Bool) :
    (inf.getaddrCall env rtype prog vers netid uaddr mem i).rmtinfo = (inf i).rmtinfo := by
  unfold getaddrCall
  dsimp only
  split_ifs
  · rfl
  · exact rmtinfo_rpcbsGetaddr _ _ _ _ _
  · rfl

theorem addrinfo_rmtcallCall (rtype rpcbproc prog vers proc : BitVec 32) (netid : CString)
    (rbl : Option Rpcb) (mem : Bool) :
    (inf.rmtcallCall env rtype rpcbproc prog vers proc netid rbl mem i).addrinfo =
      (inf i).addrinfo := by
  unfold rmtcallCall
  dsimp only
  split_ifs
  · rfl
  · exact addrinfo_rpcbsRmtcall _ _ _ _ _ _ _
  · rfl

theorem RpcbsRmtcall.key_count (rl : RpcbsRmtcall) (o : Outcome) : (rl.count o).key = rl.key := by
  cases hFailed : o.failed <;> cases hIndirect : o.indirect <;>
    simp [RpcbsRmtcall.count, RpcbsRmtcall.key, hFailed, hIndirect]

theorem RpcbsAddr.key_count (al : RpcbsAddr) (o : Outcome) : (al.count o).key = al.key := by
  cases hFailed : o.failed <;> simp [RpcbsAddr.count, RpcbsAddr.key, hFailed]

/-- One call: the entry of its key changes, and no other. -/
theorem rmtcalls_run (call : StatCall) (hDistinct : Keyed.Distinct RpcbsRmtcall.key (inf i).rmtinfo) :
    Keyed.Distinct RpcbsRmtcall.key (call.run env inf i).rmtinfo ∧
      ∀ k, Keyed.lookup RpcbsRmtcall.key (call.run env inf i).rmtinfo k =
        (call.called i k).elim (Keyed.lookup RpcbsRmtcall.key (inf i).rmtinfo k)
          (tally (RpcbsRmtcall.fresh k) RpcbsRmtcall.count (env.rpcbindGetConf k.2.2.2).isSome
            (Keyed.lookup RpcbsRmtcall.key (inf i).rmtinfo k)) := by
  cases call with
  | getaddr rtype prog vers netid uaddr mem =>
      rw [StatCall.run, rmtinfo_getaddrCall]
      exact ⟨hDistinct, fun k => rfl⟩
  | rmtcall rtype rpcbproc prog vers proc netid rbl mem =>
      rw [StatCall.run, rmtinfo_rmtcallCall]
      by_cases hSame : rtype.toNat = i.val
      · rw [if_pos hSame, lookup_record RpcbsRmtcall.key_count fun _ _ => rfl]
        refine ⟨distinct_record RpcbsRmtcall.key_count (fun _ _ => rfl) hDistinct _ _, fun k => ?_⟩
        by_cases hKey : k = (prog, vers, proc, netid)
        · subst hKey
          rw [Function.update_self, StatCall.called, if_pos ⟨hSame, rfl⟩]
          rfl
        · rw [Function.update_of_ne hKey, StatCall.called, if_neg fun h => hKey h.2.symm]
          rfl
      · rw [if_neg hSame]
        refine ⟨hDistinct, fun k => ?_⟩
        rw [StatCall.called, if_neg fun h => hSame h.1]
        rfl

theorem lookups_run (call : StatCall) (hDistinct : Keyed.Distinct RpcbsAddr.key (inf i).addrinfo) :
    Keyed.Distinct RpcbsAddr.key (call.run env inf i).addrinfo ∧
      ∀ k, Keyed.lookup RpcbsAddr.key (call.run env inf i).addrinfo k =
        (call.lookedUp i k).elim (Keyed.lookup RpcbsAddr.key (inf i).addrinfo k)
          (tally (RpcbsAddr.fresh k) RpcbsAddr.count (env.rpcbindGetConf k.2.2).isSome
            (Keyed.lookup RpcbsAddr.key (inf i).addrinfo k)) := by
  cases call with
  | rmtcall rtype rpcbproc prog vers proc netid rbl mem =>
      rw [StatCall.run, addrinfo_rmtcallCall]
      exact ⟨hDistinct, fun k => rfl⟩
  | getaddr rtype prog vers netid uaddr mem =>
      rw [StatCall.run, addrinfo_getaddrCall]
      by_cases hSame : rtype.toNat = i.val
      · rw [if_pos hSame, lookup_record RpcbsAddr.key_count fun _ _ => rfl]
        refine ⟨distinct_record RpcbsAddr.key_count (fun _ _ => rfl) hDistinct _ _, fun k => ?_⟩
        by_cases hKey : k = (prog, vers, netid)
        · subst hKey
          rw [Function.update_self, StatCall.lookedUp, if_pos ⟨hSame, rfl⟩]
          rfl
        · rw [Function.update_of_ne hKey, StatCall.lookedUp, if_neg fun h => hKey h.2.symm]
          rfl
      · rw [if_neg hSame]
        refine ⟨hDistinct, fun k => ?_⟩
        rw [StatCall.lookedUp, if_neg fun h => hSame h.1]
        rfl

/-- A sequence of calls, from the start of rpcbind. -/
def runCalls (env : RpcbindEnv) (calls : List StatCall) : RpcbStatByvers :=
  calls.foldl (StatCall.run env) zero

/-- The entry of a key is the tally of the calls with that key. -/
theorem rmtcalls_runCalls (env : RpcbindEnv) (calls : List StatCall) (i : Fin rpcbversStat) :
    Keyed.Distinct RpcbsRmtcall.key (runCalls env calls i).rmtinfo ∧
      ∀ k, Keyed.lookup RpcbsRmtcall.key (runCalls env calls i).rmtinfo k =
        (remoteCalls calls i k).foldl (tally (RpcbsRmtcall.fresh k) RpcbsRmtcall.count
          (env.rpcbindGetConf k.2.2.2).isSome) none := by
  induction calls using List.reverseRecOn with
  | nil => exact ⟨List.nodup_nil, fun _ => rfl⟩
  | append_singleton calls call ih =>
      obtain ⟨hDistinct, hLookup⟩ := ih
      have hRun : runCalls env (calls ++ [call]) = call.run env (runCalls env calls) := by
        rw [runCalls, List.foldl_append]
        rfl
      obtain ⟨hDistinct', hLookup'⟩ := rmtcalls_run call hDistinct
      rw [hRun]
      refine ⟨hDistinct', fun k => ?_⟩
      have hCalls : remoteCalls (calls ++ [call]) i k =
          remoteCalls calls i k ++ (call.called i k).toList := by
        rw [remoteCalls, List.filterMap_append]
        cases hCalled : call.called i k <;> simp [hCalled, remoteCalls]
      rw [hLookup', hLookup, hCalls, List.foldl_append]
      cases call.called i k <;> rfl

theorem lookups_runCalls (env : RpcbindEnv) (calls : List StatCall) (i : Fin rpcbversStat) :
    Keyed.Distinct RpcbsAddr.key (runCalls env calls i).addrinfo ∧
      ∀ k, Keyed.lookup RpcbsAddr.key (runCalls env calls i).addrinfo k =
        (lookups calls i k).foldl (tally (RpcbsAddr.fresh k) RpcbsAddr.count
          (env.rpcbindGetConf k.2.2).isSome) none := by
  induction calls using List.reverseRecOn with
  | nil => exact ⟨List.nodup_nil, fun _ => rfl⟩
  | append_singleton calls call ih =>
      obtain ⟨hDistinct, hLookup⟩ := ih
      have hRun : runCalls env (calls ++ [call]) = call.run env (runCalls env calls) := by
        rw [runCalls, List.foldl_append]
        rfl
      obtain ⟨hDistinct', hLookup'⟩ := lookups_run call hDistinct
      rw [hRun]
      refine ⟨hDistinct', fun k => ?_⟩
      have hCalls : lookups (calls ++ [call]) i k =
          lookups calls i k ++ (call.lookedUp i k).toList := by
        rw [lookups, List.filterMap_append]
        cases hCalled : call.lookedUp i k <;> simp [hCalled, lookups]
      rw [hLookup', hLookup, hCalls, List.foldl_append]
      cases call.lookedUp i k <;> rfl

/-- The statistics count what happened exactly when every key that has an entry could be counted
from its first call on. -/
theorem right_runCalls_iff (env : RpcbindEnv) (calls : List StatCall) :
    Right calls (runCalls env calls) ↔ CountsMeet env calls := by
  have hRmtcalls : (∀ i, ∀ rl ∈ (runCalls env calls i).rmtinfo,
        RmtcallRight (remoteCalls calls i rl.key) rl) ↔
      ∀ i k, (env.rpcbindGetConf k.2.2.2).isSome →
        (∃ o ∈ remoteCalls calls i k, o.mem = true) → CountableRmtcalls (remoteCalls calls i k) := by
    refine forall_congr' fun i => ?_
    obtain ⟨hDistinct, hLookup⟩ := rmtcalls_runCalls env calls i
    constructor
    · intro h k
      refine (rmtcalls_right_iff (k := k) _ _).mp fun rl hEntry => ?_
      rw [← hLookup] at hEntry
      obtain ⟨hMem, rfl⟩ := hDistinct.lookup_eq_some.mp hEntry
      exact h rl hMem
    · intro h rl hMem
      have hEntry := hDistinct.lookup_eq_some.mpr ⟨hMem, rfl⟩
      rw [hLookup] at hEntry
      exact (rmtcalls_right_iff _ _).mpr (h rl.key) rl hEntry
  have hAddrs : (∀ i, ∀ al ∈ (runCalls env calls i).addrinfo,
        AddrRight (lookups calls i al.key) al) ↔
      ∀ i k, (env.rpcbindGetConf k.2.2).isSome →
        (∃ o ∈ lookups calls i k, o.mem = true) → Countable (lookups calls i k) := by
    refine forall_congr' fun i => ?_
    obtain ⟨hDistinct, hLookup⟩ := lookups_runCalls env calls i
    constructor
    · intro h k
      refine (lookups_right_iff (k := k) _ _).mp fun al hEntry => ?_
      rw [← hLookup] at hEntry
      obtain ⟨hMem, rfl⟩ := hDistinct.lookup_eq_some.mp hEntry
      exact h al hMem
    · intro h al hMem
      have hEntry := hDistinct.lookup_eq_some.mpr ⟨hMem, rfl⟩
      rw [hLookup] at hEntry
      exact (lookups_right_iff _ _).mpr (h al.key) al hEntry
  constructor
  · intro h
    exact ⟨hRmtcalls.mp h.rmtcall, hAddrs.mp h.addr⟩
  · intro h
    exact ⟨fun i => (rmtcalls_runCalls env calls i).1, fun i => (lookups_runCalls env calls i).1,
      hRmtcalls.mpr h.rmtcall, hAddrs.mpr h.addr⟩

/-- A client wants its call to be forwarded, for a service that there is not. -/
def oneCallit : List StatCall :=
  [.rmtcall 0 rpcbprocCallit 100007 2 1 (CString.ascii "udp") none true]

/-- The first call counts as an indirect one. -/
theorem not_right_oneCallit :
    ((runCalls Rpcbind.udpEnv oneCallit 0).rmtinfo.map RpcbsRmtcall.indirect = [1]) ∧
      ¬ Right oneCallit (runCalls Rpcbind.udpEnv oneCallit) := by
  have hEntries : (runCalls Rpcbind.udpEnv oneCallit 0).rmtinfo =
      [{ prog := 100007, vers := 2, proc := 1, netid := CString.ascii "udp"
         success := 0, failure := 1, indirect := 1 }] := by decide
  refine ⟨by rw [hEntries]; rfl, fun hRight => ?_⟩
  have hIndirect := (hRight.rmtcall 0 _ (hEntries ▸ List.mem_singleton_self _)).indirect
  exact absurd hIndirect (by decide)

end RpcbStatByvers
end OncRpc
