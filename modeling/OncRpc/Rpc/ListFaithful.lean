import OncRpc.Rpc.ListCodec

/-! When `xdr_pmaplist`, `xdr_rpcblist_ptr` and `xdr_rpcb_entry_list_ptr` do to a list what
`xdr_pointer` would, and free it without going astray. -/
namespace OncRpc

open XdrOps Fallible Memory

def Pmap.values (regs : Pmap) : List Content :=
  [.word regs.pmProg, .word regs.pmVers, .word (BitVec.ofNat 32 regs.pmProt),
    .word (BitVec.ofNat 32 regs.pmPort)]

def Rpcb.values (objp : Rpcb) : List Content :=
  [.word objp.rProg, .word objp.rVers, .text objp.rNetid, .text objp.rAddr, .text objp.rOwner]

def RpcbEntry.values (objp : RpcbEntry) : List Content :=
  [.text objp.rMaddr, .text objp.rNcNetid, .word objp.rNcSemantics, .text objp.rNcProtofmly,
    .text objp.rNcProto]

/-- The three filters for lists. -/
inductive ListCodec where
  | pmaplist
  | rpcblistPtr
  | rpcbEntryListPtr
  deriving DecidableEq, Repr

namespace ListCodec

/-- What the elements of a list hold. -/
abbrev Elem : ListCodec → Type
  | pmaplist => Pmap
  | rpcblistPtr => Rpcb
  | rpcbEntryListPtr => RpcbEntry

def values : (c : ListCodec) → c.Elem → List Content
  | pmaplist => Pmap.values
  | rpcblistPtr => Rpcb.values
  | rpcbEntryListPtr => RpcbEntry.values

def bytes : (c : ListCodec) → c.Elem → List UInt8
  | pmaplist => Pmap.bytes
  | rpcblistPtr => Rpcb.bytes
  | rpcbEntryListPtr => RpcbEntry.bytes

def members : ListCodec → List Member
  | pmaplist => pmapMembers
  | rpcblistPtr => rpcbMembers
  | rpcbEntryListPtr => rpcbEntryMembers

def remembered : ListCodec → Remembered
  | pmaplist => .place
  | rpcblistPtr | rpcbEntryListPtr => .pointer

/-- The filter, applied to the pointer of the caller. -/
def xdr {σ : Type} [XdrOps σ] (c : ListCodec) (op : XdrOp) (n : Nat) :
    Fallible (σ × Memory) Unit :=
  match c with
  | pmaplist => xdrPmaplistAt op n .caller
  | rpcblistPtr => xdrRpcblistPtrAt op n .caller
  | rpcbEntryListPtr => xdrRpcbEntryListPtrAt op n .caller

/-- The recursive definition of the same list. -/
def xdrRec {σ : Type} [XdrOps σ] (c : ListCodec) (op : XdrOp) (n : Nat) :
    Fallible (σ × Memory) Unit :=
  xdrListRecAt c.members n op .caller

variable (c : ListCodec)

theorem xdr_eq {σ : Type} [XdrOps σ] (op : XdrOp) (n : Nat) :
    (c.xdr op n : Fallible (σ × Memory) Unit) =
      xdrListAt c.remembered c.members op n .caller := by
  cases c <;> rfl

theorem map_member_values (a : c.Elem) : (c.values a).map Content.member = c.members := by
  cases c <;> rfl

theorem bytes_eq (a : c.Elem) : c.bytes a = (c.values a).flatMap Content.bytes := by
  cases c <;> simp [bytes, values, Pmap.bytes, Rpcb.bytes, RpcbEntry.bytes, Pmap.values,
    Rpcb.values, RpcbEntry.values, Content.bytes]

theorem linkedBytes_eq (list : List c.Elem) :
    linkedBytes c.bytes list = linkedBytes (List.flatMap Content.bytes) (list.map c.values) := by
  induction list with
  | nil => rfl
  | cons a list ih => simp only [linkedBytes, List.map_cons, bytes_eq, ih]

theorem members_of_mem {list : List c.Elem} :
    ∀ vals ∈ list.map c.values, vals.map Content.member = c.members := by
  intro vals hMem
  obtain ⟨a, -, rfl⟩ := List.mem_map.mp hMem
  exact c.map_member_values a

/-- The filter is faithful to a list and frees it safely. In a memory that holds the list it does
what the recursive definition does, and puts the elements behind TRUE and FALSE at the end. From
these bytes, with NULL in `*rp`, it makes new cells that hold the list. And where no two parts of
the list lie in one cell, `XDR_FREE` frees each of its cells once, in order, and touches nothing
that is not there. -/
structure Faithful (list : List c.Elem) : Prop where
  unrolls : ∀ {σ : Type} [XdrOps σ] {m : Memory} {ps : List Nat} {n : Nat} (s : σ),
    LaidOut m.heap m.caller (list.map c.values) ps → list.length < n →
    (c.xdr .encode n).run (s, m) = (c.xdrRec .encode n).run (s, m)
  encodes : ∀ {σ : Type} [XdrOps σ] [XdrSink σ] {m : Memory} {ps : List Nat} {n : Nat} {s : σ},
    LaidOut m.heap m.caller (list.map c.values) ps → list.length < n → XdrSink.Ready s →
    XdrSink.Fits (linkedBytes c.bytes list).length s →
    ∃ s', (c.xdr .encode n).run (s, m) = (some (), (s', m)) ∧
      XdrSink.Step (linkedBytes c.bytes list) s s'
  decodes : ∀ {σ : Type} [XdrOps σ] {R : σ → List UInt8 → Prop} {m : Memory} {n : Nat} {s : σ}
    {t : List UInt8}, LawfulReader R → m.caller = none → list.length < n →
    R s (linkedBytes c.bytes list ++ t) →
    ∃ s' m' ps, (c.xdr .decode n).run (s, m) = (some (), (s', m')) ∧ R s' t ∧
      LaidOut m'.heap m'.caller (list.map c.values) ps ∧ ps.Nodup ∧
      (∀ q ∈ ps, m.heap.brk ≤ q) ∧ (∀ q, q < m.heap.brk → m'.heap.read q = m.heap.read q) ∧
      m'.stray = m.stray
  frees : ∀ {σ : Type} [XdrOps σ] {m : Memory} {ps : List Nat} {n : Nat} (s : σ),
    LaidOut m.heap m.caller (list.map c.values) ps → ps.Nodup → list.length < n →
    ∃ m', (c.xdr .free n).run (s, m) = (some (), (s, m')) ∧ Emptied ps m m' ∧ m'.caller = none

/-- No pointer into freed memory is followed, and the strings are strings that are let through. -/
structure Safe (list : List c.Elem) : Prop where
  pmaplist : c = .pmaplist → list = []
  sendable : ∀ a ∈ list, ∀ v ∈ c.values a, v.Sendable

variable {c} {list : List c.Elem}

theorem Safe.sendable_values (h : c.Safe list) :
    ∀ vals ∈ list.map c.values, ∀ v ∈ vals, v.Sendable := by
  intro vals hMem
  obtain ⟨a, hIn, rfl⟩ := List.mem_map.mp hMem
  exact h.sendable a hIn

theorem unrolls_encode {σ : Type} [XdrOps σ] {m : Memory} {ps : List Nat} {n : Nat}
    (hLaid : LaidOut m.heap m.caller (list.map c.values) ps) (hFuel : list.length < n) :
    Mirrors m (c.xdr .encode n : Fallible (σ × Memory) _) (putRecords (list.map c.values)) ∧
      Mirrors m (c.xdrRec .encode n : Fallible (σ × Memory) _)
        (putRecords (list.map c.values)) := by
  have hLen : (list.map c.values).length < n := by rwa [List.length_map]
  constructor
  · rw [xdr_eq]
    exact mirrors_xdrListAt _ hLaid c.members_of_mem rfl hLen
  · exact mirrors_xdrListRecAt hLaid c.members_of_mem rfl hLen

section Emits

variable {σ : Type} [XdrOps σ] [XdrSink σ]

theorem emits_putValue {v : Content} (hSend : v.Sendable) :
    Emits (putValue v : Fallible σ Unit) () v.bytes := by
  cases v with
  | word w => exact Emits.putlong w
  | text s => exact (emits_xdrText hSend.2).bind_pure rfl

theorem emits_putValues {vals : List Content} (hSend : ∀ v ∈ vals, v.Sendable) :
    Emits (putValues vals : Fallible σ Unit) () (vals.flatMap Content.bytes) := by
  induction vals with
  | nil => exact Emits.pure ()
  | cons v vals ih =>
      refine (emits_putValue (hSend v List.mem_cons_self)).bind ?_
      exact ih fun w hw => hSend w (List.mem_cons_of_mem v hw)

theorem emits_putRecords {list : List (List Content)}
    (hSend : ∀ vals ∈ list, ∀ v ∈ vals, v.Sendable) :
    Emits (putRecords list : Fallible σ Unit) ()
      (linkedBytes (List.flatMap Content.bytes) list) :=
  emits_putLinked list fun vals hMem => ⟨vals, (emits_putValues (hSend vals hMem)).bind_pure rfl⟩

end Emits

/-- Where nothing is in the way the filter is faithful. -/
theorem Safe.faithful (h : c.Safe list) : c.Faithful list where
  unrolls {σ _ m ps n} s hLaid hFuel := by
    obtain ⟨hLoop, hRec⟩ := unrolls_encode (σ := σ) hLaid hFuel
    rw [hLoop s, hRec s]
  encodes {σ _ _ m ps n s} hLaid hFuel hReady hFits := by
    obtain ⟨hLoop, -⟩ := unrolls_encode (σ := σ) hLaid hFuel
    rw [linkedBytes_eq] at hFits ⊢
    rcases emits_putRecords h.sendable_values s hReady with ⟨-, s', hRun, hStep⟩ | ⟨hFull, -⟩
    · refine ⟨s', ?_, hStep⟩
      rw [hLoop s, run_onStream, hRun]
    · exact absurd hFits hFull
  decodes {σ _ R m n s t} hLaw hNull hFuel hR := by
    have hLoad : m.load .caller = some (.ptr none) := by
      rw [← hNull]
      rfl
    have hLen : (list.map c.values).length < n := by rwa [List.length_map]
    obtain ⟨m₁, m', link, ps, hStore, hDecodes, hLaid, hGrown, hBrk, hNodup, hNew⟩ :=
      decodes_xdrListAt hLaw c.remembered (list.map c.values) c.members_of_mem
        h.sendable_values hLoad hLen
    rw [linkedBytes_eq] at hR
    obtain ⟨s', hRun, hR'⟩ := hDecodes s t hR
    have hSet : m₁ = { m with caller := link } := (Option.some.inj hStore).symm
    subst hSet
    have hLink : m'.caller = link := hGrown.vars.caller
    refine ⟨s', m', ps, ?_, hR', ?_, hNodup, hNew, ?_, hGrown.vars.stray⟩
    · rw [xdr_eq, hRun]
    · rwa [hLink]
    · exact fun q hLt => hGrown.read q hLt List.not_mem_nil
  frees {σ _ m ps n} s hLaid hNodup hFuel := by
    have hLen : (list.map c.values).length < n := by rwa [List.length_map]
    rw [xdr_eq]
    cases hRemembered : c.remembered with
    | place =>
        have hNil : list = [] := by
          apply h.pmaplist
          revert hRemembered
          cases c <;> simp [remembered]
        subst hNil
        generalize hCaller : m.caller = link at hLaid
        cases hLaid with
        | nil =>
            have hLoad : m.load .caller = some (.ptr none) := by
              rw [← hCaller]
              rfl
            refine ⟨m, ?_, Emptied.refl m, hCaller⟩
            exact runs_xdrListAt_null _ hLoad hLen s
    | pointer =>
        obtain ⟨m', hRun, hEmptied, hCaller⟩ := runs_xdrListAt_free (σ := σ) hLaid
          c.members_of_mem h.sendable_values hNodup (Or.inl rfl) rfl hLen
        exact ⟨m', hRun s, hEmptied, hCaller⟩

/-! ### What is in the way -/

/-- The length of a string, as `xdr_string` counts it. -/
def counted (s : CString) : Nat := (BitVec.ofNat 32 s.length).toNat

theorem counted_le (s : CString) : counted s ≤ s.length := by
  rw [counted, BitVec.toNat_ofNat]
  exact Nat.mod_le _ _

/-- A string of which the counted length is let through. -/
def Passes : Content → Prop
  | .word _ => True
  | .text s => counted s ≤ rpcMaxdatasize

/-- What such a value is put as. -/
def sent : Content → List UInt8
  | .word w => Word.toBytes w
  | .text s => Word.toBytes (BitVec.ofNat 32 s.length) ++ padded (s.take (counted s))

/-- The values have no null inside, as those do that are found in memory. -/
def Whole : Content → Prop
  | .word _ => True
  | .text s => 0 ∉ s

theorem whole_of_holds {h : Heap Cell} {slots : List Slot} {vals : List Content} {ps : List Nat}
    (hHolds : Holds h slots vals ps) : ∀ v ∈ vals, Whole v := by
  induction hHolds with
  | nil => simp
  | word w hRest ih =>
      rintro v (_ | ⟨_, hMem⟩)
      · trivial
      · exact ih v hMem
  | text hArea hNul hRest ih =>
      rintro v (_ | ⟨_, hMem⟩)
      · intro hInside
        have hNot := List.mem_takeWhile_imp hInside
        simp at hNot
      · exact ih v hMem

theorem whole_of_laidOut {h : Heap Cell} {link : Option Nat} {list : List (List Content)}
    {ps : List Nat} (hLaid : LaidOut h link list ps) : ∀ vals ∈ list, ∀ v ∈ vals, Whole v := by
  induction hLaid with
  | nil => simp
  | cons hElem hHolds hRest ih =>
      rintro vals (_ | ⟨_, hMem⟩)
      · exact whole_of_holds hHolds
      · exact ih vals hMem

section Sent

variable {σ : Type} [XdrOps σ]

theorem putValue_text {s : CString} (hWhole : 0 ∉ s) :
    (putValue (.text s) : Fallible σ Unit) = (do
      putlong (BitVec.ofNat 32 s.length)
      require (¬ counted s > rpcMaxdatasize)
      let _ ← xdrOpaque .encode (s ++ [0]) (counted s)
      pure ()) := by
  have hLen : strlen (s ++ [0]) = s.length := congrArg List.length (cString_append_nul hWhole)
  simp only [putValue, xdrText, xdrString, xdrUInt, xdrInteger, hLen, counted, bind_assoc,
    pure_bind, reduceCtorEq, if_false, Option.getD_some, id]
  rfl

theorem emits_sent [XdrSink σ] {v : Content} (hWhole : Whole v) (hPasses : Passes v) :
    Emits (putValue v : Fallible σ Unit) () (sent v) := by
  cases v with
  | word w => exact Emits.putlong w
  | text s =>
      have hLe : counted s ≤ s.length := counted_le s
      have hRoom : counted s ≤ (s ++ [0]).length := by
        rw [List.length_append]
        exact Nat.le_add_right_of_le hLe
      rw [putValue_text hWhole]
      refine (Emits.putlong _).bind (Emits.require (Nat.not_lt.mpr hPasses) ?_)
      have hOpaque := (emits_xdrOpaque (σ := σ) hRoom).bind_pure (b := ())
        (f := fun _ => pure ()) rfl
      rwa [List.take_append_of_le_length hLe] at hOpaque

theorem passes_of_run {v : Content} (hWhole : Whole v) {s s' : σ}
    (hRun : (putValue v : Fallible σ Unit).run s = (some (), s')) : Passes v := by
  cases v with
  | word w => trivial
  | text t =>
      rw [putValue_text hWhole] at hRun
      obtain ⟨-, s₁, -, hRest⟩ := exists_of_run_bind hRun
      rw [run_bind_require] at hRest
      split at hRest
      · next hFits => exact Nat.not_lt.mp hFits
      · cases hRest

theorem passes_of_run_putValues {vals : List Content} (hWhole : ∀ v ∈ vals, Whole v) {s s' : σ}
    (hRun : (putValues vals : Fallible σ Unit).run s = (some (), s')) :
    ∀ v ∈ vals, Passes v := by
  induction vals generalizing s with
  | nil => simp
  | cons v vals ih =>
      obtain ⟨_, s₁, hFirst, hRest⟩ := exists_of_run_bind hRun
      rintro w (_ | ⟨_, hMem⟩)
      · exact passes_of_run (hWhole v List.mem_cons_self) hFirst
      · exact ih (fun w hw => hWhole w (List.mem_cons_of_mem v hw)) hRest w hMem

theorem passes_of_run_putRecords {list : List (List Content)}
    (hWhole : ∀ vals ∈ list, ∀ v ∈ vals, Whole v) {s s' : σ}
    (hRun : (putRecords list : Fallible σ Unit).run s = (some (), s')) :
    ∀ vals ∈ list, ∀ v ∈ vals, Passes v := by
  induction list generalizing s with
  | nil => simp
  | cons vals list ih =>
      rw [putRecords_cons] at hRun
      obtain ⟨-, s₁, -, hRun⟩ := exists_of_run_bind hRun
      obtain ⟨_, s₂, hFirst, hRest⟩ := exists_of_run_bind hRun
      rintro w (_ | ⟨_, hMem⟩)
      · exact passes_of_run_putValues (hWhole vals List.mem_cons_self) hFirst
      · exact ih (fun w hw => hWhole w (List.mem_cons_of_mem vals hw)) hRest w hMem

theorem emits_sent_putValues [XdrSink σ] {vals : List Content} (hWhole : ∀ v ∈ vals, Whole v)
    (hPasses : ∀ v ∈ vals, Passes v) :
    Emits (putValues vals : Fallible σ Unit) () (vals.flatMap sent) := by
  induction vals with
  | nil => exact Emits.pure ()
  | cons v vals ih =>
      refine (emits_sent (hWhole v List.mem_cons_self) (hPasses v List.mem_cons_self)).bind ?_
      exact ih (fun w hw => hWhole w (List.mem_cons_of_mem v hw))
        fun w hw => hPasses w (List.mem_cons_of_mem v hw)

theorem emits_sent_putRecords [XdrSink σ] {list : List (List Content)}
    (hWhole : ∀ vals ∈ list, ∀ v ∈ vals, Whole v)
    (hPasses : ∀ vals ∈ list, ∀ v ∈ vals, Passes v) :
    Emits (putRecords list : Fallible σ Unit) () (linkedBytes (List.flatMap sent) list) :=
  emits_putLinked list fun vals hMem =>
    ⟨vals, (emits_sent_putValues (hWhole vals hMem) (hPasses vals hMem)).bind_pure rfl⟩

end Sent

theorem rndup_counted_le (s : CString) : rndup (counted s) ≤ rndup s.length := by
  have hLe := counted_le s
  unfold rndup bytesPerXdrUnit
  omega

/-- A string that is cut is put shorter. -/
theorem length_lt_of_rndup {s : CString} (h : rndup (counted s) = rndup s.length) :
    s.length = counted s := by
  rw [counted, BitVec.toNat_ofNat] at h ⊢
  unfold rndup bytesPerXdrUnit at h
  omega

theorem length_sent_le {v : Content} (hWhole : Whole v) :
    (sent v).length ≤ v.bytes.length := by
  cases v with
  | word w => exact Nat.le_refl _
  | text s =>
      rw [sent, Content.bytes, textBytes_of_whole hWhole, List.length_append, List.length_append,
        length_padded, length_padded, List.length_take, Nat.min_eq_left (counted_le s)]
      exact Nat.add_le_add_left (rndup_counted_le s) _

/-- A value that is put in full is let through as a whole. -/
theorem sendable_of_length {v : Content} (hWhole : Whole v) (hPasses : Passes v)
    (hLen : (sent v).length = v.bytes.length) : v.Sendable := by
  cases v with
  | word w => trivial
  | text s =>
      rw [sent, Content.bytes, textBytes_of_whole hWhole, List.length_append, List.length_append,
        length_padded, length_padded, List.length_take, Nat.min_eq_left (counted_le s)] at hLen
      refine ⟨hWhole, ?_⟩
      show s.length ≤ rpcMaxdatasize
      rw [length_lt_of_rndup (Nat.add_left_cancel hLen)]
      exact hPasses

/-- Sums that are equal, though no term is larger than its counterpart, are equal term by term. -/
theorem length_flatMap_sent {vals : List Content} (hWhole : ∀ v ∈ vals, Whole v) :
    (vals.flatMap sent).length ≤ (vals.flatMap Content.bytes).length ∧
      ((vals.flatMap sent).length = (vals.flatMap Content.bytes).length →
        ∀ v ∈ vals, (sent v).length = v.bytes.length) := by
  induction vals with
  | nil => simp
  | cons v vals ih =>
      obtain ⟨hLe, hEq⟩ := ih fun w hw => hWhole w (List.mem_cons_of_mem v hw)
      have hHead := length_sent_le (hWhole v List.mem_cons_self)
      simp only [List.flatMap_cons, List.length_append]
      refine ⟨by omega, ?_⟩
      rintro hSum w (_ | ⟨_, hMem⟩)
      · omega
      · exact hEq (by omega) w hMem

theorem length_linkedBytes_sent {list : List (List Content)}
    (hWhole : ∀ vals ∈ list, ∀ v ∈ vals, Whole v) :
    (linkedBytes (List.flatMap sent) list).length ≤
        (linkedBytes (List.flatMap Content.bytes) list).length ∧
      ((linkedBytes (List.flatMap sent) list).length =
          (linkedBytes (List.flatMap Content.bytes) list).length →
        ∀ vals ∈ list, ∀ v ∈ vals, (sent v).length = v.bytes.length) := by
  induction list with
  | nil => simp [linkedBytes]
  | cons vals list ih =>
      obtain ⟨hLe, hEq⟩ := ih fun w hw => hWhole w (List.mem_cons_of_mem vals hw)
      obtain ⟨hHead, hElem⟩ := length_flatMap_sent (hWhole vals List.mem_cons_self)
      simp only [linkedBytes, List.length_append]
      refine ⟨by omega, ?_⟩
      rintro hSum w (_ | ⟨_, hMem⟩)
      · exact hElem (by omega)
      · exact hEq (by omega) w hMem

/-- A filter that is faithful to a list makes a memory that holds it. -/
theorem Faithful.exists_laidOut (h : c.Faithful list) :
    ∃ (m : Memory) (ps : List Nat), LaidOut m.heap m.caller (list.map c.values) ps ∧ ps.Nodup := by
  obtain ⟨-, m, ps, -, -, hLaid, hNodup, -⟩ := h.decodes (m := Memory.empty) ByteStream.lawful
    rfl (Nat.lt_succ_self _) (List.append_nil _).symm
  exact ⟨m, ps, hLaid, hNodup⟩

theorem Faithful.sendable_values (h : c.Faithful list) :
    ∀ vals ∈ list.map c.values, ∀ v ∈ vals, v.Sendable := by
  obtain ⟨m, ps, hLaid, -⟩ := h.exists_laidOut
  have hWhole := whole_of_laidOut hLaid
  have hFuel := Nat.lt_succ_self list.length
  obtain ⟨t, hRun, rfl⟩ := h.encodes (σ := ByteStream) (s := []) hLaid hFuel trivial trivial
  obtain ⟨hLoop, -⟩ := unrolls_encode (σ := ByteStream) hLaid hFuel
  have hPut : (putRecords (list.map c.values) : Fallible ByteStream Unit).run [] =
      (some (), linkedBytes c.bytes list) := by
    have hSame := (hLoop []).symm.trans hRun
    rw [run_onStream] at hSame
    obtain ⟨hAns, hState⟩ := Prod.mk.inj hSame
    exact Prod.ext hAns (Prod.mk.inj hState).1
  have hPasses := passes_of_run_putRecords hWhole hPut
  have hSent := (emits_sent_putRecords (σ := ByteStream) hWhole hPasses).run_byteStream
  have hBytes := (congrArg Prod.snd (hSent.symm.trans hPut)).trans (linkedBytes_eq c list)
  intro vals hVals v hMem
  have hLen := (length_linkedBytes_sent hWhole).2 (congrArg List.length hBytes) vals hVals v hMem
  exact sendable_of_length (hWhole vals hVals v hMem) (hPasses vals hVals v hMem) hLen

theorem Faithful.safe (h : c.Faithful list) : c.Safe list where
  pmaplist hPmap := by
    subst hPmap
    cases list with
    | nil => rfl
    | cons a list =>
        obtain ⟨m, ps, hLaid, hNodup⟩ := h.exists_laidOut
        obtain ⟨m', hRun, -, -⟩ := h.frees (σ := ByteStream) [] hLaid hNodup (Nat.lt_succ_self _)
        have hFuel : ((a :: list).map pmaplist.values).length < (a :: list).length + 1 := by
          rw [List.length_map]
          exact Nat.lt_succ_self _
        generalize hCaller : m.caller = link at hLaid
        have hLoad : m.load .caller = some (.ptr link) := by
          rw [← hCaller]
          rfl
        cases link with
        | none => cases hLaid
        | some p =>
            obtain ⟨m'', hStrays, -⟩ := strays_xdrListAt hLaid rfl
              (h.sendable_values _ List.mem_cons_self) hNodup hLoad hFuel ([] : ByteStream)
            rw [xdr_eq] at hRun
            cases hStrays.symm.trans hRun
  sendable a hIn := h.sendable_values _ (List.mem_map.mpr ⟨a, hIn, rfl⟩)

/-- The filters for lists are faithful and free safely, but for `xdr_pmaplist`, which frees no
list safely but the empty one, and but for strings that cannot be sent. -/
theorem faithful_iff_safe (c : ListCodec) (list : List c.Elem) :
    c.Faithful list ↔ c.Safe list :=
  ⟨Faithful.safe, Safe.faithful⟩

/-- A map as `pmap_getmaps` finds it: the port mapper itself. -/
def portmapEntry : Pmap := { pmProg := 100000, pmVers := 2, pmProt := 6, pmPort := 111 }

/-- A `pmaplist` with the one element, at the address 0. -/
def portmapMemory : Memory :=
  { Memory.empty with
    heap := ⟨[some (.object [.word 100000, .word 2, .word 6, .word 111, .ptr none])]⟩
    caller := some 0 }

/-- `xdr_pmaplist` frees the only element of the list and then reads the link in it. -/
theorem not_faithful_pmaplist : ¬ Faithful .pmaplist [portmapEntry] := by
  intro h
  have hElem : portmapMemory.heap.read 0 =
      some (.object ([.word 100000, .word 2, .word 6, .word 111] ++ [.ptr none])) := rfl
  have hHolds : Holds portmapMemory.heap [.word 100000, .word 2, .word 6, .word 111]
      portmapEntry.values [] := Holds.word _ (Holds.word _ (Holds.word _ (Holds.word _ Holds.nil)))
  have hLaid : LaidOut portmapMemory.heap portmapMemory.caller [portmapEntry.values] [0] :=
    LaidOut.cons hElem hHolds LaidOut.nil
  obtain ⟨m', hRun, hEmptied, -⟩ :=
    h.frees (σ := ByteStream) [] hLaid (List.nodup_singleton 0) (Nat.lt_succ_self 1)
  have hStray : ((pmaplist.xdr .free 2 : Fallible (ByteStream × Memory) Unit).run
      ([], portmapMemory)).2.2.stray = true := by decide
  rw [hRun] at hStray
  cases hEmptied.stray.symm.trans hStray

end ListCodec
end OncRpc
