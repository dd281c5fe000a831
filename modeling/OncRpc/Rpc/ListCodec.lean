import OncRpc.Rpc.RpcbProt
import OncRpc.Xdr.Pointers

/-! The lists of `pmap_prot2.c` and `rpcb_prot.c` as they lie in memory: what the loops that
`xdr_pointer` was unrolled into do with the elements, in each direction. -/
namespace OncRpc

open XdrOps Fallible

/-- The kinds of the members that are filtered. -/
inductive Member where
  | word
  | text
  deriving DecidableEq, Repr

/-- What a member holds. -/
inductive Content where
  | word (w : BitVec 32)
  | text (s : CString)
  deriving DecidableEq, Repr

def Content.member : Content → Member
  | .word _ => .word
  | .text _ => .text

def Content.bytes : Content → List UInt8
  | .word w => Word.toBytes w
  | .text s => textBytes s

/-- A member of which the memory is zeroed. -/
def Member.zero : Member → Slot
  | .word => .word 0
  | .text => .ptr none

/-- An element of a list, zeroed: its members, and its link behind them. -/
def zeroed (members : List Member) : List Slot := members.map Member.zero ++ [.ptr none]

/-- What the loops remember of the next object while they free one: where the pointer to it
is, or the pointer. -/
inductive Remembered where
  | place
  | pointer
  deriving DecidableEq, Repr

section Filters

variable {σ : Type} [XdrOps σ]

def xdrMember (op : XdrOp) (ip : Place) : Member → Fallible (σ × Memory) Unit
  | .word => xdrUInt32TAt op ip
  | .text => xdrStringAt rpcMaxdatasize op ip

/-- The filter of a struct: its members in order, from the member `i` on. -/
def xdrMembers (op : XdrOp) (objp : Nat) : Nat → List Member → Fallible (σ × Memory) Unit
  | _, [] => pure ()
  | i, mem :: rest => do
      xdrMember op (.member objp i) mem
      xdrMembers op objp (i + 1) rest

/-- `pm_prog`, `pm_vers`, `pm_prot` and `pm_port`. -/
def pmapMembers : List Member := [.word, .word, .word, .word]

/-- `r_prog`, `r_vers`, `r_netid`, `r_addr` and `r_owner`. -/
def rpcbMembers : List Member := [.word, .word, .text, .text, .text]

/-- `r_maddr`, `r_nc_netid`, `r_nc_semantics`, `r_nc_protofmly` and `r_nc_proto`. -/
def rpcbEntryMembers : List Member := [.text, .text, .word, .text, .text]

/-- The loop of the three filters, with a bound on how often it is entered. A `*rp` that is
tested for NULL there where it cannot be NULL is not tested here. -/
def xdrListAt (remembered : Remembered) (members : List Member) (op : XdrOp) :
    Nat → Place → Fallible (σ × Memory) Unit
  | 0, _ => fail
  | n + 1, rp => do
      let elem ← loadPtr rp
      let moreElements ← xdrBool op (if elem.isSome then 1 else 0)
      if moreElements = 0 then pure ()
      else if op = .free then do
        let elem ← deref elem
        match remembered with
        | .place => do
            xdrReferenceAt (zeroed members) (fun op obj => xdrMembers op obj 0 members) op rp
            xdrListAt remembered members op n (.member elem members.length)
        | .pointer => do
            let next ← loadPtr (.member elem members.length)
            xdrReferenceAt (zeroed members) (fun op obj => xdrMembers op obj 0 members) op rp
            storeAt .nextCopy (.ptr next)
            xdrListAt remembered members op n .nextCopy
      else do
        xdrReferenceAt (zeroed members) (fun op obj => xdrMembers op obj 0 members) op rp
        let elem ← loadPtr rp
        let elem ← deref elem
        xdrListAt remembered members op n (.member elem members.length)

/-- `xdr_pmaplist`. -/
def xdrPmaplistAt (op : XdrOp) (n : Nat) (rp : Place) : Fallible (σ × Memory) Unit :=
  xdrListAt .place pmapMembers op n rp

/-- `xdr_rpcblist_ptr`. -/
def xdrRpcblistPtrAt (op : XdrOp) (n : Nat) (rp : Place) : Fallible (σ × Memory) Unit :=
  xdrListAt .pointer rpcbMembers op n rp

/-- `xdr_rpcb_entry_list_ptr`. -/
def xdrRpcbEntryListPtrAt (op : XdrOp) (n : Nat) (rp : Place) : Fallible (σ × Memory) Unit :=
  xdrListAt .pointer rpcbEntryMembers op n rp

/-- The recursive definition, by way of `xdr_pointer`. -/
def xdrListRecAt (members : List Member) : Nat → XdrOp → Place → Fallible (σ × Memory) Unit
  | 0, _, _ => fail
  | n + 1, op, rp =>
      xdrPointerAt (zeroed members) (fun op elem => do
        xdrMembers op elem 0 members
        xdrListRecAt members n op (.member elem members.length)) op rp

end Filters

/-! ### Lists in memory -/

/-- The members hold these values, with their strings at the addresses `ps`. -/
inductive Holds (h : Heap Cell) : List Slot → List Content → List Nat → Prop where
  | nil : Holds h [] [] []
  | word {slots vals ps} (w : BitVec 32) (hRest : Holds h slots vals ps) :
      Holds h (.word w :: slots) (.word w :: vals) ps
  | text {slots vals ps} {p : Nat} {bytes : List UInt8}
      (hArea : h.read p = some (.area bytes)) (hNul : 0 ∈ bytes) (hRest : Holds h slots vals ps) :
      Holds h (.ptr (some p) :: slots) (.text (cString bytes) :: vals) (p :: ps)

/-- From `link` on the elements hold these values. The addresses are those of the strings of
each element, and its own. -/
inductive LaidOut (h : Heap Cell) : Option Nat → List (List Content) → List Nat → Prop where
  | nil : LaidOut h none [] []
  | cons {p : Nat} {slots : List Slot} {next : Option Nat} {vals : List Content}
      {list : List (List Content)} {ps qs : List Nat}
      (hElem : h.read p = some (.object (slots ++ [.ptr next]))) (hHolds : Holds h slots vals ps)
      (hRest : LaidOut h next list qs) :
      LaidOut h (some p) (vals :: list) (ps ++ p :: qs)

section Values

variable {h h' : Heap Cell} {slots : List Slot} {vals : List Content} {ps : List Nat}
  {link : Option Nat} {list : List (List Content)}

theorem Holds.length_eq (hHolds : Holds h slots vals ps) : slots.length = vals.length := by
  induction hHolds with
  | nil => rfl
  | word w hRest ih => exact congrArg Nat.succ ih
  | text hArea hNul hRest ih => exact congrArg Nat.succ ih

theorem Holds.congr (hHolds : Holds h slots vals ps) (hSame : ∀ q ∈ ps, h'.read q = h.read q) :
    Holds h' slots vals ps := by
  induction hHolds with
  | nil => exact Holds.nil
  | word w hRest ih => exact Holds.word w (ih hSame)
  | text hArea hNul hRest ih =>
      have hKept := (hSame _ List.mem_cons_self).trans hArea
      exact Holds.text hKept hNul (ih fun q hq => hSame q (List.mem_cons_of_mem _ hq))

theorem LaidOut.congr (hLaid : LaidOut h link list ps)
    (hSame : ∀ q ∈ ps, h'.read q = h.read q) : LaidOut h' link list ps := by
  induction hLaid with
  | nil => exact LaidOut.nil
  | cons hElem hHolds hRest ih =>
      have hKept := (hSame _ (List.mem_append_right _ List.mem_cons_self)).trans hElem
      refine LaidOut.cons hKept (hHolds.congr fun q hq => ?_) (ih fun q hq => ?_)
      · exact hSame q (List.mem_append_left _ hq)
      · exact hSame q (List.mem_append_right _ (List.mem_cons_of_mem _ hq))

end Values

/-! ### Encoding -/

section Encode

open Memory

variable {σ : Type} [XdrOps σ] {m : Memory} {link : Option Nat} {list : List (List Content)}
  {ps : List Nat}

/-- What a member is put as. -/
def putValue : Content → Fallible σ Unit
  | .word w => putlong w
  | .text s => do
      let _ ← xdrText rpcMaxdatasize .encode s
      pure ()

def putValues : List Content → Fallible σ Unit
  | [] => pure ()
  | v :: vals => do
      putValue v
      putValues vals

/-- What a list is put as. -/
def putRecords : List (List Content) → Fallible σ Unit :=
  putLinked fun _ vals => do
    putValues vals
    pure vals

theorem putRecords_nil : (putRecords [] : Fallible σ Unit) =
    xdrBool .encode 0 >>= fun _ => pure () := rfl

theorem putRecords_cons (vals : List Content) (list : List (List Content)) :
    (putRecords (vals :: list) : Fallible σ Unit) =
      xdrBool .encode 1 >>= fun _ => putValues vals >>= fun _ => putRecords list := by
  simp only [putRecords, putLinked, xdrReference, bind_assoc, pure_bind]

/-- Only the string itself is put, whatever follows its end. -/
theorem xdrOpaque_encode_take (cp cp' : List UInt8) {cnt : Nat} (h : cp.take cnt = cp'.take cnt) :
    (xdrOpaque .encode cp cnt >>= fun _ => pure () : Fallible σ Unit) =
      xdrOpaque .encode cp' cnt >>= fun _ => pure () := by
  simp only [xdrOpaque, h]
  split
  · rfl
  · split <;> simp only [bind_assoc, pure_bind]

theorem cString_take {bytes : List UInt8} {n : Nat} (h : n ≤ strlen bytes) :
    bytes.take n = (cString bytes).take n := by
  have hPrefix : cString bytes <+: bytes := List.takeWhile_prefix _
  obtain ⟨rest, hSplit⟩ := hPrefix
  conv_lhs => rw [← hSplit]
  exact List.take_append_of_le_length h

theorem xdrString_encode_cString (maxsize : Nat) (bytes : List UInt8) :
    (xdrString maxsize .encode (some bytes) >>= fun _ => pure () : Fallible σ Unit) =
      xdrString maxsize .encode (some (cString bytes ++ [0])) >>= fun _ => pure () := by
  have hNul : 0 ∉ cString bytes := by
    intro hMem
    have hNot := List.mem_takeWhile_imp hMem
    simp at hNot
  have hSame : cString (cString bytes ++ [0]) = cString bytes := cString_append_nul hNul
  have hLen : strlen (cString bytes ++ [0]) = strlen bytes := congrArg List.length hSame
  have hTake : bytes.take (BitVec.ofNat 32 (strlen bytes)).toNat =
      (cString bytes ++ [0]).take (BitVec.ofNat 32 (strlen bytes)).toNat := by
    rw [cString_take (toNat_strlen_le bytes), List.take_append_of_le_length (toNat_strlen_le bytes)]
  simp only [xdrString, xdrUInt, xdrInteger, Option.getD_some, hLen, bind_assoc, pure_bind, id,
    xdrOpaque_encode_take _ _ hTake]

theorem mirrors_xdrMembers {objp : Nat} (pre : List Slot) {slots post : List Slot}
    {vals : List Content}
    (hObj : m.heap.read objp = some (.object (pre ++ slots ++ post)))
    (hHolds : Holds m.heap slots vals ps) :
    Mirrors m (xdrMembers .encode objp pre.length (vals.map Content.member) :
      Fallible (σ × Memory) _) (putValues vals) := by
  induction hHolds generalizing pre with
  | nil => exact Mirrors.pure m ()
  | @word slots vals ps w hRest ih =>
      have hMember : m.heap.read objp = some (.object (pre ++ .word w :: (slots ++ post))) := by
        simpa using hObj
      have hNext : m.heap.read objp = some (.object (pre ++ [.word w] ++ slots ++ post)) := by
        simpa using hObj
      have hTail := ih _ hNext
      rw [List.length_append] at hTail
      refine Mirrors.bind ?_ fun _ => hTail
      exact (runs_loadWord (load_member_middle hMember)).mirrors (Mirrors.putlong m w)
  | @text slots vals ps p bytes hArea hNul hRest ih =>
      have hMember : m.heap.read objp =
          some (.object (pre ++ .ptr (some p) :: (slots ++ post))) := by
        simpa using hObj
      have hNext : m.heap.read objp = some (.object (pre ++ [.ptr (some p)] ++ slots ++ post)) := by
        simpa using hObj
      have hTail := ih _ hNext
      rw [List.length_append] at hTail
      refine Mirrors.bind ?_ fun _ => hTail
      have hString := mirrors_xdrStringAt (σ := σ) rpcMaxdatasize hMember hArea hNul
      rw [xdrString_encode_cString] at hString
      simpa [putValue, xdrText, Content.member, xdrMember] using hString

omit [XdrOps σ] in
theorem mirrors_xdrReferenceAt {zero : List Slot} {pp : Place} {p : Nat}
    {proc : XdrOp → Nat → Fallible (σ × Memory) Unit} {q : Fallible σ Unit}
    (hLoad : m.load pp = some (.ptr (some p))) (hProc : Mirrors m (proc .encode p) q) :
    Mirrors m (xdrReferenceAt zero proc .encode pp) q :=
  (runs_loadPtr hLoad).mirrors ((runs_deref m p).mirrors hProc)

theorem load_link {p : Nat} {slots : List Slot} {next : Option Nat} {vals : List Content}
    (hElem : m.heap.read p = some (.object (slots ++ [.ptr next])))
    (hHolds : Holds m.heap slots vals ps) :
    m.load (.member p (vals.map Content.member).length) = some (.ptr next) := by
  rw [List.length_map, ← hHolds.length_eq]
  exact load_member_middle hElem

theorem xdrBool_encode_bind {τ γ : Type} [XdrOps τ] (v : BitVec 32) (f : BitVec 32 → Fallible τ γ) :
    xdrBool .encode v >>= f = putlong (if v = 0 then 0 else 1) >>= fun _ => f v := by
  simp only [xdrBool, xdrInteger, bind_assoc, pure_bind]

/-- The loop puts the elements one by one. The induction is on the list in memory. -/
theorem mirrors_xdrListAt {members : List Member} (remembered : Remembered)
    (hLaid : LaidOut m.heap link list ps)
    (hMembers : ∀ vals ∈ list, vals.map Content.member = members) {rp : Place}
    (hLoad : m.load rp = some (.ptr link)) {n : Nat} (hFuel : list.length < n) :
    Mirrors m (xdrListAt remembered members .encode n rp : Fallible (σ × Memory) _)
      (putRecords list) := by
  induction hLaid generalizing rp n with
  | nil =>
      obtain ⟨n, rfl⟩ := Nat.exists_eq_succ_of_ne_zero (Nat.ne_of_gt hFuel)
      refine (runs_loadPtr hLoad).mirrors ?_
      rw [putRecords_nil, xdrBool_encode_bind, xdrBool_encode_bind]
      exact (Mirrors.putlong m _).bind fun _ => Mirrors.pure m ()
  | @cons p slots next vals list ps qs hElem hHolds hRest ih =>
      obtain ⟨n, rfl⟩ := Nat.exists_eq_succ_of_ne_zero (Nat.ne_of_gt (Nat.zero_lt_of_lt hFuel))
      obtain rfl := hMembers vals List.mem_cons_self
      have hTail := ih (fun w hw => hMembers w (List.mem_cons_of_mem _ hw))
        (load_link hElem hHolds) (Nat.lt_of_succ_lt_succ hFuel)
      have hProc := mirrors_xdrMembers (σ := σ) [] hElem hHolds
      refine (runs_loadPtr hLoad).mirrors ?_
      rw [putRecords_cons, xdrBool_encode_bind, xdrBool_encode_bind]
      refine (Mirrors.putlong m _).bind fun _ => ?_
      refine (mirrors_xdrReferenceAt hLoad hProc).bind fun _ => ?_
      exact (runs_loadPtr hLoad).mirrors ((runs_deref m p).mirrors hTail)

/-- So does the recursion. -/
theorem mirrors_xdrListRecAt {members : List Member} (hLaid : LaidOut m.heap link list ps)
    (hMembers : ∀ vals ∈ list, vals.map Content.member = members) {rp : Place}
    (hLoad : m.load rp = some (.ptr link)) {n : Nat} (hFuel : list.length < n) :
    Mirrors m (xdrListRecAt members n .encode rp : Fallible (σ × Memory) _)
      (putRecords list) := by
  induction hLaid generalizing rp n with
  | nil =>
      obtain ⟨n, rfl⟩ := Nat.exists_eq_succ_of_ne_zero (Nat.ne_of_gt hFuel)
      refine (runs_loadPtr hLoad).mirrors ?_
      rw [putRecords_nil, xdrBool_encode_bind, xdrBool_encode_bind]
      refine (Mirrors.putlong m _).bind fun _ => ?_
      exact fun s => runs_storeAt (store_self hLoad) s
  | @cons p slots next vals list ps qs hElem hHolds hRest ih =>
      obtain ⟨n, rfl⟩ := Nat.exists_eq_succ_of_ne_zero (Nat.ne_of_gt (Nat.zero_lt_of_lt hFuel))
      obtain rfl := hMembers vals List.mem_cons_self
      have hTail := ih (fun w hw => hMembers w (List.mem_cons_of_mem _ hw))
        (load_link hElem hHolds) (Nat.lt_of_succ_lt_succ hFuel)
      have hProc := mirrors_xdrMembers (σ := σ) [] hElem hHolds
      refine (runs_loadPtr hLoad).mirrors ?_
      rw [putRecords_cons, xdrBool_encode_bind, xdrBool_encode_bind]
      refine (Mirrors.putlong m _).bind fun _ => ?_
      rw [if_neg (by simp)]
      apply mirrors_xdrReferenceAt hLoad
      exact hProc.bind fun _ => hTail

end Encode

/-! ### Decoding -/

/-- A value that the filters let through: a string of C, and not too long. -/
def Content.Sendable : Content → Prop
  | .word _ => True
  | .text s => 0 ∉ s ∧ CString.Short s

theorem textBytes_of_whole {s : CString} (h : 0 ∉ s) :
    textBytes s = Word.toBytes (BitVec.ofNat 32 s.length) ++ padded s := by
  rw [textBytes, strlen, cString_append_nul h]

section Decode

open Memory

variable {σ : Type} [XdrOps σ] {R : σ → List UInt8 → Prop}

theorem decodes_getlong (hLaw : LawfulReader R) (m : Memory) (w : BitVec 32) :
    Decodes R m m (Word.toBytes w) (getlong : Fallible (σ × Memory) _) w :=
  Decodes.of_takes (hLaw.beside m).getlong (ByteStream.Takes.getlong w)

/-- The members are filled in one by one, and their strings are new cells. The induction is on
the members. -/
theorem decodes_xdrMembers (hLaw : LawfulReader R) {objp : Nat} (vals : List Content)
    (hSend : ∀ v ∈ vals, v.Sendable) {m : Memory} {pre post : List Slot}
    (hObj : m.heap.read objp = some (.object
      (pre ++ (vals.map Content.member).map Member.zero ++ post))) :
    ∃ m' slots ps, Decodes R m m' (vals.flatMap Content.bytes)
        (xdrMembers .decode objp pre.length (vals.map Content.member)) () ∧
      m'.heap.read objp = some (.object (pre ++ slots ++ post)) ∧ Holds m'.heap slots vals ps ∧
      Grown [objp] m m' ∧ ps.Nodup ∧ ∀ q ∈ ps, m.heap.brk ≤ q := by
  induction vals generalizing m pre with
  | nil =>
      refine ⟨m, [], [], (Runs.pure m ()).decodes, hObj, Holds.nil, Grown.refl _ m, ?_, ?_⟩
      · exact List.nodup_nil
      · simp
  | cons v vals ih =>
      have hSend' : ∀ w ∈ vals, w.Sendable := fun w hw => hSend w (List.mem_cons_of_mem v hw)
      cases v with
      | word w =>
          have hMember : m.heap.read objp = some (.object (pre ++ .word 0 ::
              ((vals.map Content.member).map Member.zero ++ post))) := by
            simpa [Content.member, Member.zero] using hObj
          obtain ⟨m₁, hStore, hWrote⟩ := store_member hMember (.word w)
          have hNext : m₁.heap.read objp = some (.object (pre ++ [.word w] ++
              (vals.map Content.member).map Member.zero ++ post)) := by
            rw [hWrote.heap.read, if_pos rfl]
            simp
          obtain ⟨m', slots, ps, hRest, hDone, hHolds, hGrown, hNodup, hNew⟩ := ih hSend' hNext
          rw [List.length_append] at hRest
          refine ⟨m', .word w :: slots, ps, ?_, ?_, Holds.word w hHolds, ?_, hNodup, ?_⟩
          · exact ((decodes_getlong hLaw m w).bind_runs (runs_storeAt hStore)).bind hRest
          · simpa using hDone
          · exact ((Grown.refl _ m).wrote hWrote (Or.inl List.mem_cons_self)).trans hGrown
          · rwa [hWrote.heap.brk] at hNew
      | text s =>
          obtain ⟨hWhole, hShort⟩ : 0 ∉ s ∧ CString.Short s := hSend _ List.mem_cons_self
          have hMember : m.heap.read objp = some (.object (pre ++ .ptr none ::
              ((vals.map Content.member).map Member.zero ++ post))) := by
            simpa [Content.member, Member.zero] using hObj
          obtain ⟨m₁, hString, hPut, hArea, hBrk, hFirst⟩ :=
            decodes_xdrStringAt hLaw hMember hShort (by decide)
          have hNext : m₁.heap.read objp = some (.object (pre ++ [.ptr (some m.heap.brk)] ++
              (vals.map Content.member).map Member.zero ++ post)) := by
            rw [hPut]
            simp
          obtain ⟨m', slots, ps, hRest, hDone, hHolds, hGrown, hNodup, hNew⟩ := ih hSend' hNext
          rw [List.length_append] at hRest
          rw [hBrk] at hNew
          have hKept : m'.heap.read m.heap.brk = some (.area (s ++ [0])) := by
            rw [hGrown.read m.heap.brk (by omega), hArea]
            have hLt := Heap.lt_brk_of_read hObj
            simpa using Nat.ne_of_gt hLt
          have hText := Holds.text hKept (List.mem_append_right s List.mem_cons_self) hHolds
          rw [cString_append_nul hWhole] at hText
          refine ⟨m', _, _, ?_, ?_, hText, hFirst.trans hGrown, ?_, ?_⟩
          · rw [List.flatMap_cons, Content.bytes, textBytes_of_whole hWhole]
            exact hString.bind hRest
          · simpa using hDone
          · refine List.nodup_cons.mpr ⟨fun hMem => ?_, hNodup⟩
            exact Nat.not_succ_le_self _ (hNew _ hMem)
          · rintro q (_ | ⟨_, hMem⟩)
            · exact Nat.le_refl _
            · exact Nat.le_of_succ_le (hNew q hMem)

theorem Holds.read_isSome {h : Heap Cell} {slots : List Slot} {vals : List Content} {ps : List Nat}
    (hHolds : Holds h slots vals ps) : ∀ q ∈ ps, ∃ bytes, h.read q = some (.area bytes) := by
  induction hHolds with
  | nil => simp
  | word w hRest ih => exact ih
  | text hArea hNul hRest ih =>
      rintro q (_ | ⟨_, hMem⟩)
      · exact ⟨_, hArea⟩
      · exact ih q hMem

/-- An element is allocated, put where the pointer to it belongs, and filled in. -/
theorem decodes_xdrReferenceAt (hLaw : LawfulReader R) {members : List Member} {vals : List Content}
    (hMembers : vals.map Content.member = members) (hSend : ∀ v ∈ vals, v.Sendable) {m : Memory}
    {rp : Place} (hLoad : m.load rp = some (.ptr none)) :
    ∃ m₁ m' slots ps, m.store rp (.ptr (some m.heap.brk)) = some m₁ ∧
      Decodes R m m' (vals.flatMap Content.bytes)
        (xdrReferenceAt (zeroed members) (fun op obj => xdrMembers op obj 0 members) .decode rp)
        () ∧
      m'.heap.read m.heap.brk = some (.object (slots ++ [.ptr none])) ∧
      Holds m'.heap slots vals ps ∧ Grown [m.heap.brk] m₁ m' ∧ m₁.heap.brk = m.heap.brk ∧
      m'.load rp = some (.ptr (some m.heap.brk)) ∧ ps.Nodup ∧ ∀ q ∈ ps, m.heap.brk < q := by
  subst hMembers
  obtain ⟨m₁, hStore, hBrk, hPtr⟩ := store_ptr hLoad (some m.heap.brk)
  have hNew : (m₁.grown (.object (zeroed (vals.map Content.member)))).heap.read m.heap.brk =
      some (.object ([] ++ (vals.map Content.member).map Member.zero ++ [.ptr none])) := by
    rw [← hBrk]
    show (m₁.heap.malloc _).2.read m₁.heap.brk = _
    rw [Heap.read_malloc, if_pos rfl]
    rfl
  obtain ⟨m', slots, ps, hProc, hDone, hHolds, hGrown, hNodup, hFresh⟩ :=
    decodes_xdrMembers hLaw vals hSend hNew
  have hGrown' : Grown [m.heap.brk] m₁ m' := (grown_grown _ m₁ _).trans hGrown
  have hElsewhere : ∀ obj ∈ [m.heap.brk], ∀ i, rp ≠ .member obj i := by
    rintro obj hObj i rfl
    obtain rfl : obj = m.heap.brk := List.mem_singleton.mp hObj
    simp [Memory.load, object, Heap.read_brk] at hLoad
  refine ⟨m₁, m', slots, ps, hStore, ?_, hDone, hHolds, hGrown', hBrk, ?_, hNodup, ?_⟩
  · refine (runs_loadPtr hLoad).bind_decodes ((runs_newCell m _).bind_decodes ?_)
    exact (runs_storeAt (store_grown hStore _)).bind_decodes hProc
  · exact hGrown'.load hPtr hElsewhere
  · have hCount : (m₁.grown (.object (zeroed (vals.map Content.member)))).heap.brk =
        m.heap.brk + 1 := by
      rw [← hBrk]
      exact Heap.brk_malloc _ _
    rwa [hCount] at hFresh

/-- What the loop makes of the bytes of a list, when `*rp` is NULL: new cells that hold the list,
and a pointer to them in `*rp`. The induction is on the list. -/
theorem decodes_xdrListAt (hLaw : LawfulReader R) {members : List Member}
    (remembered : Remembered) (list : List (List Content))
    (hMembers : ∀ vals ∈ list, vals.map Content.member = members)
    (hSend : ∀ vals ∈ list, ∀ v ∈ vals, v.Sendable) {m : Memory} {rp : Place}
    (hLoad : m.load rp = some (.ptr none)) {n : Nat} (hFuel : list.length < n) :
    ∃ m₁ m' link ps, m.store rp (.ptr link) = some m₁ ∧
      Decodes R m m' (linkedBytes (List.flatMap Content.bytes) list)
        (xdrListAt remembered members .decode n rp) () ∧
      LaidOut m'.heap link list ps ∧ Grown [] m₁ m' ∧ m₁.heap.brk = m.heap.brk ∧ ps.Nodup ∧
      ∀ q ∈ ps, m.heap.brk ≤ q := by
  induction list generalizing m rp n with
  | nil =>
      obtain ⟨n, rfl⟩ := Nat.exists_eq_succ_of_ne_zero (Nat.ne_of_gt hFuel)
      refine ⟨m, m, none, [], store_self hLoad, ?_, LaidOut.nil, Grown.refl [] m, rfl, ?_, ?_⟩
      · refine (runs_loadPtr hLoad).bind_decodes ?_
        exact (Decodes.xdrInteger hLaw _ _ _ 0).bind_runs (Runs.pure m ())
      · exact List.nodup_nil
      · simp
  | cons vals list ih =>
      obtain ⟨n, rfl⟩ := Nat.exists_eq_succ_of_ne_zero (Nat.ne_of_gt (Nat.zero_lt_of_lt hFuel))
      obtain ⟨m₁, m₂, slots, ps, hStore, hFirst, hElem, hHolds, hGrown, hBrk, hPtr, hNodup,
        hFresh⟩ := decodes_xdrReferenceAt hLaw (hMembers vals List.mem_cons_self)
          (hSend vals List.mem_cons_self) hLoad
      have hLink : m₂.load (.member m.heap.brk members.length) = some (.ptr none) := by
        rw [← hMembers vals List.mem_cons_self]
        exact load_link hElem hHolds
      obtain ⟨m₃, m', link, qs, hStore', hRest, hLaid, hGrown', hBrk', hNodup', hFresh'⟩ :=
        ih (fun w hw => hMembers w (List.mem_cons_of_mem _ hw))
          (fun w hw => hSend w (List.mem_cons_of_mem _ hw)) hLink (Nat.lt_of_succ_lt_succ hFuel)
      have hWrote : Wrote m₂ m₃ m.heap.brk (.object (slots ++ [.ptr link])) := by
        obtain ⟨m₄, hSame, hWrote⟩ := store_member hElem (.ptr link)
        rw [hHolds.length_eq, ← List.length_map Content.member,
          hMembers vals List.mem_cons_self] at hSame
        obtain rfl : m₃ = m₄ := Option.some.inj (hStore'.symm.trans hSame)
        exact hWrote
      have hBehind : m.heap.brk < m₂.heap.brk := Heap.lt_brk_of_read hElem
      have hKept : ∀ q ∈ ps, m'.heap.read q = m₂.heap.read q := by
        intro q hq
        obtain ⟨bytes, hArea⟩ := hHolds.read_isSome q hq
        have hLt : q < m₃.heap.brk := by
          rw [hBrk']
          exact Heap.lt_brk_of_read hArea
        rw [hGrown'.read q hLt List.not_mem_nil, hWrote.heap.read,
          if_neg (Nat.ne_of_gt (hFresh q hq))]
      have hElem' : m'.heap.read m.heap.brk = some (.object (slots ++ [.ptr link])) := by
        rw [hGrown'.read _ (by rwa [hBrk']) List.not_mem_nil, hWrote.heap.read, if_pos rfl]
      refine ⟨m₁, m', some m.heap.brk, ps ++ m.heap.brk :: qs, hStore, ?_,
        LaidOut.cons hElem' (hHolds.congr hKept) hLaid, ?_, hBrk, ?_, ?_⟩
      · refine (runs_loadPtr hLoad).bind_decodes ((Decodes.xdrInteger hLaw _ _ _ 1).bind ?_)
        refine hFirst.bind ((runs_loadPtr hPtr).bind_decodes ?_)
        exact (runs_deref m₂ _).bind_decodes hRest
      · have hOwn : Grown [m.heap.brk] m₁ m' :=
          (hGrown.wrote hWrote (Or.inl List.mem_cons_self)).trans
            (hGrown'.mono (List.nil_subset _))
        exact hOwn.of_new (by simp [hBrk])
      · have hBetween : ∀ q ∈ ps, q < m₂.heap.brk := fun q hq =>
          let ⟨_, hArea⟩ := hHolds.read_isSome q hq
          Heap.lt_brk_of_read hArea
        refine List.nodup_append.mpr ⟨hNodup, List.nodup_cons.mpr ⟨fun hMem => ?_, hNodup'⟩, ?_⟩
        · have hLe := hFresh' _ hMem
          omega
        · rintro q hq r (_ | ⟨_, hr⟩)
          · exact Nat.ne_of_gt (hFresh q hq)
          · exact Nat.ne_of_lt (Nat.lt_of_lt_of_le (hBetween q hq) (hFresh' r hr))
      · intro q hq
        rcases List.mem_append.mp hq with hText | _ | ⟨_, hLater⟩
        · exact Nat.le_of_lt (hFresh q hText)
        · exact Nat.le_refl _
        · have hLe := hFresh' q hLater
          omega

end Decode

/-! ### Freeing -/

/-- The cells `ps` were freed, each once and in this order, and the other cells were left alone. -/
structure Emptied (ps : List Nat) (m m' : Memory) : Prop where
  read : ∀ q, m'.heap.read q = if q ∈ ps then none else m.heap.read q
  freed : m'.freed = m.freed ++ ps
  stray : m'.stray = m.stray

section Free

open Memory

variable {σ : Type} [XdrOps σ] {m : Memory} {ps : List Nat}

theorem Emptied.trans {qs : List Nat} {m₁ m' : Memory} (h : Emptied ps m m₁)
    (h' : Emptied qs m₁ m') : Emptied (ps ++ qs) m m' where
  read q := by
    rw [h'.read, h.read]
    by_cases hFirst : q ∈ ps <;> simp [hFirst]
  freed := by rw [h'.freed, h.freed, List.append_assoc]
  stray := h'.stray.trans h.stray

/-- The strings of a struct are freed one by one. The induction is on the members. -/
theorem runs_xdrMembers_free {objp : Nat} {vals : List Content}
    (hSend : ∀ v ∈ vals, v.Sendable) (pre : List Slot) {slots post : List Slot}
    (hObj : m.heap.read objp = some (.object (pre ++ slots ++ post)))
    (hHolds : Holds m.heap slots vals ps) (hNodup : ps.Nodup) :
    ∃ m' slots', Runs m m' (xdrMembers .free objp pre.length (vals.map Content.member) :
        Fallible (σ × Memory) _) () ∧
      m'.heap.read objp = some (.object slots') ∧ Released [objp] ps m m' := by
  induction vals generalizing m pre slots ps with
  | nil =>
      cases hHolds with
      | nil => exact ⟨m, _, Runs.pure m (), hObj, Released.refl _ m⟩
  | cons v vals ih =>
      have hSend' : ∀ w ∈ vals, w.Sendable := fun w hw => hSend w (List.mem_cons_of_mem v hw)
      cases hHolds with
      | @word slots _ _ w hRest =>
          have hNext : m.heap.read objp = some (.object (pre ++ [.word w] ++ slots ++ post)) := by
            simpa using hObj
          obtain ⟨m', slots', hRun, hLeft, hReleased⟩ := ih hSend' _ hNext hRest hNodup
          rw [List.length_append] at hRun
          exact ⟨m', slots', (Runs.pure m ()).bind hRun, hLeft, hReleased⟩
      | @text slots _ ps p bytes hArea hNul hRest =>
          obtain ⟨-, hShort⟩ : 0 ∉ cString bytes ∧ CString.Short (cString bytes) :=
            hSend _ List.mem_cons_self
          obtain ⟨hOnce, hNodup'⟩ := List.nodup_cons.mp hNodup
          have hMember : m.heap.read objp =
              some (.object (pre ++ .ptr (some p) :: (slots ++ post))) := by
            simpa using hObj
          obtain ⟨m₁, hString, hPut, hFirst⟩ :=
            runs_xdrStringAt_free (σ := σ) rpcMaxdatasize hMember hArea hNul hShort
          have hKept : ∀ q ∈ ps, m₁.heap.read q = m.heap.read q := by
            intro q hq
            have hNe : q ≠ p := by
              rintro rfl
              exact hOnce hq
            have hNotObj : q ≠ objp := by
              rintro rfl
              obtain ⟨bytes', hArea'⟩ := hRest.read_isSome q hq
              rw [hObj] at hArea'
              cases hArea'
            rw [hFirst.read q (by simpa using hNotObj), if_neg (by simpa using hNe)]
          have hNext : m₁.heap.read objp =
              some (.object (pre ++ [.ptr none] ++ slots ++ post)) := by
            rw [hPut]
            simp
          obtain ⟨m', slots', hRun, hLeft, hReleased⟩ :=
            ih hSend' _ hNext (hRest.congr hKept) hNodup'
          rw [List.length_append] at hRun
          exact ⟨m', slots', hString.bind hRun, hLeft, hFirst.trans hReleased⟩

/-- An element is freed after its strings, and the pointer to it becomes NULL. -/
theorem runs_xdrReferenceAt_free {members : List Member} {vals : List Content}
    (hMembers : vals.map Content.member = members) (hSend : ∀ v ∈ vals, v.Sendable) {rp : Place}
    (hRp : rp = .caller ∨ rp = .nextCopy) {p : Nat} {slots : List Slot} {next : Option Nat}
    (hLoad : m.load rp = some (.ptr (some p)))
    (hElem : m.heap.read p = some (.object (slots ++ [.ptr next])))
    (hHolds : Holds m.heap slots vals ps) (hNodup : ps.Nodup) :
    ∃ m', Runs m m' (xdrReferenceAt (zeroed members)
        (fun op obj => xdrMembers op obj 0 members) .free rp : Fallible (σ × Memory) _) () ∧
      Emptied (ps ++ [p]) m m' ∧ m'.caller = if rp = .caller then none else m.caller := by
  subst hMembers
  obtain ⟨m₁, slots', hProc, hLeft, hStrings⟩ :=
    runs_xdrMembers_free (σ := σ) hSend [] hElem hHolds hNodup
  obtain ⟨m₂, hFree, hDropped⟩ := runs_memFree (σ := σ) hLeft
  have hReleased := hStrings.dropped hDropped
  have hRest (m' : Memory) (hStore : m₂.store rp (.ptr none) = some m') :
      Runs m m' (xdrReferenceAt (zeroed (vals.map Content.member))
        (fun op obj => xdrMembers op obj 0 (vals.map Content.member)) .free rp :
          Fallible (σ × Memory) _) () := by
    refine (runs_loadPtr hLoad).bind ((Runs.attempt hProc).bind (hFree.bind ?_))
    exact (runs_storeAt hStore).bind (Runs.require rfl)
  have hRead (q : Nat) : m₂.heap.read q = if q ∈ ps ++ [p] then none else m.heap.read q :=
    hReleased.read q List.not_mem_nil
  rcases hRp with rfl | rfl
  · exact ⟨_, hRest _ rfl, ⟨hRead, hReleased.freed, hReleased.vars.stray⟩, rfl⟩
  · exact ⟨_, hRest _ rfl, ⟨hRead, hReleased.freed, hReleased.vars.stray⟩,
      hReleased.vars.caller⟩

/-- There is nothing to free behind NULL. -/
theorem runs_xdrListAt_null {members : List Member} (remembered : Remembered) {rp : Place}
    (hLoad : m.load rp = some (.ptr none)) {n : Nat} (hFuel : 0 < n) :
    Runs m m (xdrListAt remembered members .free n rp : Fallible (σ × Memory) _) () := by
  obtain ⟨n, rfl⟩ := Nat.exists_eq_succ_of_ne_zero (Nat.ne_of_gt hFuel)
  exact (runs_loadPtr hLoad).bind ((Runs.pure m _).bind (Runs.pure m ()))

theorem Emptied.refl (m : Memory) : Emptied [] m m where
  read _ := rfl
  freed := (List.append_nil _).symm
  stray := rfl

/-- The loop that remembers the pointer frees a list element by element. The induction is on
the list. -/
theorem runs_xdrListAt_free {members : List Member} {link : Option Nat}
    {list : List (List Content)} (hLaid : LaidOut m.heap link list ps)
    (hMembers : ∀ vals ∈ list, vals.map Content.member = members)
    (hSend : ∀ vals ∈ list, ∀ v ∈ vals, v.Sendable) (hNodup : ps.Nodup) {rp : Place}
    (hRp : rp = .caller ∨ rp = .nextCopy) (hLoad : m.load rp = some (.ptr link)) {n : Nat}
    (hFuel : list.length < n) :
    ∃ m', Runs m m' (xdrListAt .pointer members .free n rp : Fallible (σ × Memory) _) () ∧
      Emptied ps m m' ∧ m'.caller = if rp = .caller then none else m.caller := by
  induction list generalizing m link ps rp n with
  | nil =>
      cases hLaid with
      | nil =>
          refine ⟨m, runs_xdrListAt_null _ hLoad hFuel, Emptied.refl m, ?_⟩
          rcases hRp with rfl | rfl
          · exact Slot.ptr.inj (Option.some.inj hLoad)
          · rfl
  | cons vals list ih =>
      obtain ⟨n, rfl⟩ := Nat.exists_eq_succ_of_ne_zero (Nat.ne_of_gt (Nat.zero_lt_of_lt hFuel))
      cases hLaid with
      | @cons p slots next _ _ ps qs hElem hHolds hRest =>
          obtain ⟨hTexts, hOthers, hApart⟩ := List.nodup_append.mp hNodup
          obtain ⟨hOnce, hLater⟩ := List.nodup_cons.mp hOthers
          have hLink : m.load (.member p members.length) = some (.ptr next) := by
            rw [← hMembers vals List.mem_cons_self]
            exact load_link hElem hHolds
          obtain ⟨m₁, hFirst, hEmptied, hCaller⟩ :=
            runs_xdrReferenceAt_free (σ := σ) (hMembers vals List.mem_cons_self)
              (hSend vals List.mem_cons_self) hRp hLoad hElem hHolds hTexts
          have hKept : ∀ q ∈ qs, m₁.heap.read q = m.heap.read q := by
            intro q hq
            rw [hEmptied.read, if_neg]
            intro hMem
            rcases List.mem_append.mp hMem with hText | hSame
            · exact hApart q hText q (List.mem_cons_of_mem p hq) rfl
            · obtain rfl : q = p := List.mem_singleton.mp hSame
              exact hOnce hq
          -- The pointer to the next element is a copy, so that the element may go.
          have hLaid' : LaidOut { m₁ with nextCopy := next }.heap next list qs :=
            hRest.congr hKept
          obtain ⟨m', hRun, hEmptied', hCaller'⟩ := ih hLaid'
            (fun w hw => hMembers w (List.mem_cons_of_mem _ hw))
            (fun w hw => hSend w (List.mem_cons_of_mem _ hw)) hLater (Or.inr rfl) rfl
            (Nat.lt_of_succ_lt_succ hFuel)
          have hStore : m₁.store .nextCopy (.ptr next) = some { m₁ with nextCopy := next } := rfl
          refine ⟨m', ?_, ?_, hCaller'.trans hCaller⟩
          · refine (runs_loadPtr hLoad).bind ((Runs.pure m _).bind ?_)
            refine (runs_deref m p).bind ((runs_loadPtr hLink).bind (hFirst.bind ?_))
            exact (runs_storeAt hStore).bind hRun
          · have hBoth := hEmptied.trans ⟨hEmptied'.read, hEmptied'.freed, hEmptied'.stray⟩
            rwa [List.append_assoc] at hBoth

/-- The loop that remembers where the pointer is reads it there after the element was freed. -/
theorem strays_xdrListAt {members : List Member} {p : Nat} {vals : List Content}
    {list : List (List Content)} (hLaid : LaidOut m.heap (some p) (vals :: list) ps)
    (hMembers : vals.map Content.member = members) (hSend : ∀ v ∈ vals, v.Sendable)
    (hNodup : ps.Nodup) (hLoad : m.load .caller = some (.ptr (some p))) {n : Nat}
    (hFuel : (vals :: list).length < n) :
    Strays m (xdrListAt .place members .free n .caller : Fallible (σ × Memory) _) := by
  obtain ⟨n, rfl⟩ := Nat.exists_eq_succ_of_ne_zero (Nat.ne_of_gt (Nat.zero_lt_of_lt hFuel))
  rw [List.length_cons] at hFuel
  obtain ⟨n, rfl⟩ := Nat.exists_eq_succ_of_ne_zero
    (Nat.ne_of_gt (Nat.zero_lt_of_lt (Nat.lt_of_succ_lt_succ hFuel)))
  cases hLaid with
  | cons hElem hHolds hRest =>
      obtain ⟨hTexts, -, -⟩ := List.nodup_append.mp hNodup
      obtain ⟨m₁, hFirst, hEmptied, -⟩ :=
        runs_xdrReferenceAt_free (σ := σ) hMembers hSend (Or.inl rfl) hLoad hElem hHolds hTexts
      have hGone : m₁.load (.member p members.length) = none := by
        simp [Memory.load, object, hEmptied.read]
      have hRead : Strays m₁ (loadPtr (.member p members.length) : Fallible (σ × Memory) _) :=
        strays_touch (by simp only [hGone])
      refine Runs.strays (runs_loadPtr hLoad) (Runs.strays (Runs.pure m _) ?_)
      exact Runs.strays (runs_deref m p) (Runs.strays hFirst hRead.bind)

end Free
end OncRpc
