import OncRpc.Rec.Holding
import OncRpc.Rec.Writer

/-! What one call of `__xdrrec_getrec` does to a stream between two fragments. It
takes more of the next header; once the header is complete it refuses it or takes
what one read yields of the body, and only a body that comes whole with that read
brings the stream between two fragments again. -/
namespace OncRpc.RecStrm

open Fallible RecordMarking

/-- The stream with more bytes of the next header. -/
def withHeader (tcp : Transport) (bs : List UInt8) (s : RecStrm) : RecStrm :=
  { s with
    tcp := tcp
    inHeader := Buffer.writeAt s.inHeader s.inHdrlen bs
    inHdrlen := s.inHdrlen + bs.length }

/-- The stream on which the call goes on behind the header that it completes. -/
def completesHeader (s : RecStrm) : Option RecStrm :=
  if s.inHaveheader then none
  else
    match (Transport.readit (4 - s.inHdrlen)).run s.tcp with
    | (none, _) => none
    | (some bs, tcp) =>
        if bs = [] ∨ (s.withHeader tcp bs).inHdrlen < 4 then none
        else some (s.withHeader tcp bs)

/-- The length in the header that has been read. -/
def fraglen (s : RecStrm) : Nat := (Word.ofBytes s.inHeader &&& ~~~lastFragBit).toNat

/-- The call takes the path that refuses a header for its length. -/
def Refuses (s : RecStrm) : Prop :=
  ∃ s₁, s.completesHeader = some s₁ ∧ s₁.headerRefused s₁.fraglen

theorem getrec_completes {s s₁ : RecStrm} (h : s.completesHeader = some s₁) (expectdata : Bool) :
    getrec expectdata s = getrecHeader expectdata s₁ := by
  unfold completesHeader at h
  unfold getrec
  split at h
  · cases h
  · rename_i hNo
    rw [if_neg hNo]
    split at h
    · cases h
    · rename_i bs tcp hRead
      simp only [hRead]
      split at h
      · cases h
      · rename_i hLong
        obtain ⟨hNe, hFour⟩ := not_or.mp hLong
        cases h
        rw [if_neg hNe]
        exact if_neg hFour

theorem tcp_of_completesHeader {s s₁ : RecStrm} (h : s.completesHeader = some s₁) :
    s₁.tcp = ((Transport.readit (4 - s.inHdrlen)).run s.tcp).2 := by
  unfold completesHeader at h
  split at h
  · cases h
  · split at h
    · cases h
    · rename_i hRead
      split at h
      · cases h
      · cases h
        rw [hRead]
        rfl

/-- A stream in non-blocking mode, whatever has been read of the next fragment. -/
structure Listening (host : Host) (maxrec : Nat) (s : RecStrm) : Prop where
  nonblock : s.nonblock = true
  line : s.tcp.nonblock = true
  haveheader : s.inHaveheader = false
  header_length : s.inHeader.length = 4
  lastFrag : s.lastFrag = true
  base_length : s.inBase.length = s.recvsize
  host_eq : s.host = host
  maxrec_eq : s.inMaxrec = maxrec
  maxrec_int : maxrec < 2 ^ 31

/-- `k` bytes of the next header have been read, and `todo` are the fragments from
that one on. -/
structure AtHeader (host : Host) (maxrec k : Nat) (todo : List Fragment) (s : RecStrm) : Prop
    extends Listening host maxrec s where
  hdrlen_eq : s.inHdrlen = k
  hdrlen_lt : k < 4
  reclen_eq : s.inReclen = 0
  received_eq : s.inReceived = 0
  input_eq : s.inHeader.take k ++ Transport.bytes s.tcp.arrivals = encodeAll todo

/-- The header of `f` has been read, and the fragments `todo` follow it. -/
structure BehindHeader (host : Host) (maxrec : Nat) (f : Fragment) (todo : List Fragment) (s : RecStrm) : Prop
    extends Listening host maxrec s where
  hdrlen_eq : s.inHdrlen = 4
  reclen_eq : s.inReclen = 0
  received_eq : s.inReceived = 0
  header_eq : Word.ofBytes s.inHeader = f.head
  input_eq : Transport.bytes s.tcp.arrivals = f.body ++ encodeAll todo

/-- A header has been read and its body was not there in time. -/
structure Stuck (host : Host) (maxrec : Nat) (s : RecStrm) : Prop extends Listening host maxrec s where
  hdrlen_eq : s.inHdrlen = 4

variable {host : Host} {maxrec : Nat}

/-- A call that completes no header changes nothing but the header. -/
theorem AtHeader.header_grows {k : Nat} {todo : List Fragment} {s : RecStrm}
    (h : AtHeader host maxrec k todo s) {bs : List UInt8} {tcp : Transport}
    (hBytes : Transport.bytes s.tcp.arrivals = bs ++ Transport.bytes tcp.arrivals)
    (hLine : tcp.nonblock = s.tcp.nonblock) (hShort : k + bs.length < 4) :
    AtHeader host maxrec (k + bs.length) todo (s.withHeader tcp bs) := by
  have hLen := h.header_length
  exact {
    nonblock := h.nonblock
    line := hLine.trans h.line
    haveheader := h.haveheader
    header_length := by
      show (Buffer.writeAt s.inHeader s.inHdrlen bs).length = 4
      rw [Buffer.length_writeAt (by rw [h.hdrlen_eq]; omega), hLen]
    lastFrag := h.lastFrag
    base_length := h.base_length
    host_eq := h.host_eq
    maxrec_eq := h.maxrec_eq
    maxrec_int := h.maxrec_int
    hdrlen_eq := by
      show s.inHdrlen + bs.length = k + bs.length
      rw [h.hdrlen_eq]
    hdrlen_lt := hShort
    reclen_eq := h.reclen_eq
    received_eq := h.received_eq
    input_eq := by
      show (Buffer.writeAt s.inHeader s.inHdrlen bs).take (k + bs.length) ++ _ = _
      have hTake : (Buffer.writeAt s.inHeader k bs).take (k + bs.length + 0) =
          s.inHeader.take k ++ (bs ++ Buffer.readAt s.inHeader (k + bs.length) 0) :=
        Buffer.take_writeAt (by omega) 0
      rw [Nat.add_zero, Buffer.readAt_zero, List.append_nil] at hTake
      rw [h.hdrlen_eq, hTake, List.append_assoc]
      show _ ++ (bs ++ Transport.bytes tcp.arrivals) = _
      rw [← hBytes, h.input_eq] }

/-- The bytes that complete a header are the header of the next fragment. -/
theorem AtHeader.header_ends {k : Nat} {todo : List Fragment} {s : RecStrm}
    (h : AtHeader host maxrec k todo s) {bs : List UInt8} {tcp : Transport}
    (hBytes : Transport.bytes s.tcp.arrivals = bs ++ Transport.bytes tcp.arrivals)
    (hLine : tcp.nonblock = s.tcp.nonblock) (hFull : k + bs.length = 4) :
    ∃ f rest, todo = f :: rest ∧ BehindHeader host maxrec f rest (s.withHeader tcp bs) := by
  have hLen := h.header_length
  have hTake : (Buffer.writeAt s.inHeader k bs).take (k + bs.length + 0) =
      s.inHeader.take k ++ (bs ++ Buffer.readAt s.inHeader (k + bs.length) 0) :=
    Buffer.take_writeAt (by omega) 0
  rw [Nat.add_zero, Buffer.readAt_zero, List.append_nil, hFull] at hTake
  have hWrite : (Buffer.writeAt s.inHeader k bs).length = 4 := by
    rw [Buffer.length_writeAt (by omega), hLen]
  rw [List.take_of_length_le hWrite.le] at hTake
  have hInput := h.input_eq
  rw [hBytes, ← List.append_assoc, ← hTake] at hInput
  cases todo with
  | nil =>
      rw [encodeAll_nil, List.append_eq_nil_iff] at hInput
      rw [hInput.1] at hWrite
      cases hWrite
  | cons f rest =>
      rw [encodeAll_cons, Fragment.encode, List.append_assoc] at hInput
      obtain ⟨hHead, hRest⟩ := List.append_inj hInput (by rw [hWrite, Word.length_toBytes])
      refine ⟨f, rest, rfl, ?_⟩
      exact {
        nonblock := h.nonblock
        line := hLine.trans h.line
        haveheader := h.haveheader
        header_length := by
          show (Buffer.writeAt s.inHeader s.inHdrlen bs).length = 4
          rw [h.hdrlen_eq, hWrite]
        lastFrag := h.lastFrag
        base_length := h.base_length
        host_eq := h.host_eq
        maxrec_eq := h.maxrec_eq
        maxrec_int := h.maxrec_int
        hdrlen_eq := by
          show s.inHdrlen + bs.length = 4
          rw [h.hdrlen_eq, hFull]
        reclen_eq := h.reclen_eq
        received_eq := h.received_eq
        header_eq := by
          show Word.ofBytes (Buffer.writeAt s.inHeader s.inHdrlen bs) = _
          rw [h.hdrlen_eq, hHead, Word.ofBytes_toBytes]
        input_eq := hRest }

/-- Two streams with the same input buffer and the same place in it. -/
structure SameBuffer (s s' : RecStrm) : Prop where
  base_eq : s'.inBase = s.inBase
  finger_eq : s'.inFinger = s.inFinger
  boundry_eq : s'.inBoundry = s.inBoundry
  fbtbc_eq : s'.fbtbc = s.fbtbc

theorem Holding.of_sameBuffer {s s' : RecStrm} {t : List UInt8} (h : Holding s t)
    (hSame : SameBuffer s s') (hNonblock : s'.nonblock = true) (hLast : s'.lastFrag = true) :
    Holding s' t where
  nonblock := hNonblock
  lastFrag := hLast
  fbtbc_eq := by rw [hSame.fbtbc_eq, h.fbtbc_eq]
  boundry_eq := by rw [hSame.boundry_eq, hSame.finger_eq, h.boundry_eq]
  within := by
    rw [hSame.boundry_eq, hSame.base_eq]
    exact h.within
  bytes_eq := by
    rw [hSame.base_eq, hSame.finger_eq]
    exact h.bytes_eq

/-- What a call reports when it reports a death without a refusal. -/
def LineDied (expectdata : Bool) (s : RecStrm) : Prop :=
  Arrival.error ∈ s.tcp.arrivals ∨ (expectdata = true ∧ Transport.ready s.tcp.arrivals = [])

/-- One read yields as many bytes as were asked for. -/
def ReadsWhole (n : Nat) (tcp : Transport) : Prop :=
  ((Transport.readit n).run tcp).1.map List.length = some n

instance (n : Nat) (tcp : Transport) : Decidable (ReadsWhole n tcp) :=
  inferInstanceAs (Decidable (_ = _))

theorem readsWhole_iff {n : Nat} {tcp tcp' : Transport} {bs : List UInt8}
    (hRead : (Transport.readit n).run tcp = (some bs, tcp')) :
    ReadsWhole n tcp ↔ bs.length = n := by
  simp [ReadsWhole, hRead]

theorem not_readsWhole {n : Nat} {tcp tcp' : Transport}
    (hRead : (Transport.readit n).run tcp = (none, tcp')) : ¬ ReadsWhole n tcp := by
  simp [ReadsWhole, hRead]

/-- A call takes more of the header, and completes it or does not. -/
theorem AtHeader.call {k : Nat} {todo : List Fragment} {s : RecStrm}
    (h : AtHeader host maxrec k todo s) (expectdata : Bool) :
    (s.completesHeader = none ∧ (getrec expectdata s).1.1 = false ∧
      ((getrec expectdata s).1.2 = .died → LineDied expectdata s) ∧
      (Arrival.error ∈ (getrec expectdata s).2.tcp.arrivals → Arrival.error ∈ s.tcp.arrivals) ∧
      SameBuffer s (getrec expectdata s).2 ∧
      ∃ k', AtHeader host maxrec k' todo (getrec expectdata s).2) ∨
    ∃ f rest s₁, todo = f :: rest ∧ s.completesHeader = some s₁ ∧
      BehindHeader host maxrec f rest s₁ := by
  have hNo : ¬ s.inHaveheader = true := by rw [h.haveheader]; exact Bool.false_ne_true
  have hLt := h.hdrlen_lt
  have hLen : 0 < 4 - k := by omega
  have hAsk : (4 : Int) - s.inHdrlen = ((4 - k : Nat) : Int) := by
    rw [h.hdrlen_eq]
    omega
  obtain ⟨ans, tcp, hRead, hBytes, hLe, hLine, hErr⟩ := Transport.readit_bytes hLen s.tcp
  unfold completesHeader getrec
  rw [if_neg hNo, if_neg hNo, hAsk, hRead]
  cases ans with
  | none =>
      refine Or.inl ⟨rfl, rfl, fun _ => Or.inl (Transport.error_of_readit hLen h.line hRead), hErr,
        ⟨rfl, rfl, rfl, rfl⟩, k, ?_⟩
      exact { h with
        line := hLine.nonblock_eq.trans h.line
        input_eq := by rw [← h.input_eq, hBytes]; rfl }
  | some bs =>
      rw [Option.getD_some] at hBytes hLe
      by_cases hNil : bs = []
      · refine Or.inl ⟨if_pos (Or.inl hNil), ?_⟩
        simp only [if_pos hNil]
        refine ⟨trivial, fun hDied => Or.inr ?_, hErr, ⟨rfl, rfl, rfl, rfl⟩, k, ?_⟩
        · have hExpect : expectdata = true := by
            cases expectdata with
            | false => cases hDied
            | true => rfl
          refine ⟨hExpect, ?_⟩
          by_contra hReady
          obtain ⟨bs', tcp', hRead', hTook⟩ := Transport.readit_ready hLen hReady
          rw [hRead] at hRead'
          cases hRead'
          exact hTook.nonempty hNil
        · exact { h with
            line := hLine.nonblock_eq.trans h.line
            input_eq := by rw [← h.input_eq, hBytes, hNil]; rfl }
      · simp only [if_neg hNil]
        by_cases hShort : s.inHdrlen + bs.length < 4
        · refine Or.inl ⟨if_pos (Or.inr hShort), ?_⟩
          rw [if_pos hShort]
          refine ⟨rfl, fun hDied => (by cases hDied), hErr, ⟨rfl, rfl, rfl, rfl⟩, k + bs.length, ?_⟩
          rw [h.hdrlen_eq] at hShort
          exact h.header_grows hBytes hLine.nonblock_eq hShort
        · have hFull : k + bs.length = 4 := by
            rw [h.hdrlen_eq] at hShort
            omega
          obtain ⟨f, rest, hTodo, hBehind⟩ := h.header_ends hBytes hLine.nonblock_eq hFull
          exact Or.inr ⟨f, rest, _, hTodo, if_neg (not_or.mpr ⟨hNil, hShort⟩), hBehind⟩

/-- A read of all that is missing completes the header. -/
theorem AtHeader.completes {todo : List Fragment} {s : RecStrm}
    (h : AtHeader host maxrec 0 todo s) (hWhole : ReadsWhole 4 s.tcp) :
    ∃ f rest s₁, todo = f :: rest ∧ s.completesHeader = some s₁ ∧
      BehindHeader host maxrec f rest s₁ := by
  rcases h.call false with ⟨hNone, -⟩ | hSome
  · obtain ⟨ans, tcp, hRead, -⟩ := Transport.readit_bytes (Nat.zero_lt_succ 3) s.tcp
    obtain ⟨bs, rfl⟩ : ∃ bs, ans = some bs := by
      cases ans with
      | none => exact absurd hWhole (not_readsWhole hRead)
      | some bs => exact ⟨bs, rfl⟩
    have hLen := (readsWhole_iff hRead).mp hWhole
    have hNo : ¬ s.inHaveheader = true := by rw [h.haveheader]; exact Bool.false_ne_true
    have hAsk : (4 : Int) - s.inHdrlen = ((4 : Nat) : Int) := by
      rw [h.hdrlen_eq]
      rfl
    have hLong : ¬ (bs = [] ∨ (s.withHeader tcp bs).inHdrlen < 4) := by
      rintro (rfl | hLt)
      · cases hLen
      · have hSum : s.inHdrlen + bs.length < 4 := hLt
        omega
    unfold completesHeader at hNone
    rw [if_neg hNo, hAsk, hRead] at hNone
    simp only [if_neg hLong] at hNone
    cases hNone
  · exact hSome

/-- Nothing less completes it. -/
theorem AtHeader.completesHeader_eq_none {todo : List Fragment} {s : RecStrm}
    (h : AtHeader host maxrec 0 todo s) (hPart : ¬ ReadsWhole 4 s.tcp) :
    s.completesHeader = none := by
  have hNo : ¬ s.inHaveheader = true := by rw [h.haveheader]; exact Bool.false_ne_true
  have hAsk : (4 : Int) - s.inHdrlen = ((4 : Nat) : Int) := by
    rw [h.hdrlen_eq]
    rfl
  obtain ⟨ans, tcp, hRead, -, hLe, -⟩ := Transport.readit_bytes (Nat.zero_lt_succ 3) s.tcp
  unfold completesHeader
  rw [if_neg hNo, hAsk, hRead]
  cases ans with
  | none => rfl
  | some bs =>
      have hLen : bs.length ≠ 4 := mt (readsWhole_iff hRead).mpr hPart
      have hShort : (s.withHeader tcp bs).inHdrlen < 4 := by
        show s.inHdrlen + bs.length < 4
        rw [h.hdrlen_eq]
        rw [Option.getD_some] at hLe
        omega
      exact if_pos (Or.inr hShort)

/-- Nothing moves a stuck stream: it asks for no byte and gets none. -/
theorem Stuck.call {s : RecStrm} (h : Stuck host maxrec s) (expectdata : Bool) :
    s.completesHeader = none ∧
      getrec expectdata s = ((false, if expectdata then .died else .idle), s) := by
  have hNo : ¬ s.inHaveheader = true := by rw [h.haveheader]; exact Bool.false_ne_true
  have hRead : (Transport.readit ((4 : Int) - s.inHdrlen)).run s.tcp = (some [], s.tcp) := by
    rw [h.hdrlen_eq]
    rfl
  unfold completesHeader getrec
  rw [if_neg hNo, if_neg hNo, hRead]
  exact ⟨rfl, rfl⟩

theorem BehindHeader.fraglen_eq {f : Fragment} {todo : List Fragment}
    {s : RecStrm} (h : BehindHeader host maxrec f todo s) : s.fraglen = f.body.length := by
  rw [fraglen, h.header_eq]
  exact length_of_header f.fits f.last

theorem intAdd_zero {n : Nat} (h : n < 2 ^ 31) : intAdd 0 n = n := by
  rw [intAdd, Int.zero_add]
  exact Int.bmod_eq_of_le (by omega) (by omega)

/-- Empty and over-long fragments are refused, and no others. -/
theorem BehindHeader.refused_iff {f : Fragment} {todo : List Fragment}
    {s : RecStrm} (h : BehindHeader host maxrec f todo s) :
    s.headerRefused s.fraglen ↔ f.body = [] ∨ maxrec < f.body.length := by
  rw [h.fraglen_eq, headerRefused, h.maxrec_eq, h.reclen_eq, intAdd_zero f.fits,
    List.length_eq_zero_iff]
  apply or_congr Iff.rfl
  omega

/-- The stream with room for `size` bytes. -/
theorem run_reallocStream {s : RecStrm} (hBase : s.inBase.length = s.recvsize) (size : Nat) :
    (reallocStream size).run s = (none, s) ∧ s.host.reallocs size = false ∨
    ∃ base boundry recvsize inSize, (reallocStream size).run s =
        (some (), { s with
          inBase := base, inBoundry := boundry, recvsize := recvsize, inSize := inSize }) ∧
      base.length = recvsize ∧ size ≤ recvsize := by
  simp only [Fallible.run, reallocStream]
  by_cases hGrow : size > s.recvsize
  · rw [if_pos hGrow]
    cases hHost : s.host.reallocs size with
    | false => exact Or.inl ⟨rfl, rfl⟩
    | true =>
        refine Or.inr ⟨_, _, _, _, rfl, ?_, le_refl _⟩
        rw [List.length_append, List.length_map, List.length_range']
        omega
  · rw [if_neg hGrow]
    exact Or.inr ⟨s.inBase, s.inBoundry, s.recvsize, s.inSize, rfl, hBase, Nat.not_lt.mp hGrow⟩

/-- Everything is ready for the body of `f`. -/
structure BeforeBody (host : Host) (maxrec : Nat) (f : Fragment) (todo : List Fragment) (s : RecStrm) : Prop
    extends Listening host maxrec s where
  hdrlen_eq : s.inHdrlen = 4
  reclen_eq : s.inReclen = f.body.length
  received_eq : s.inReceived = 0
  room : f.body.length ≤ s.inBase.length
  input_eq : Transport.bytes s.tcp.arrivals = f.body ++ encodeAll todo

/-- A fragment has been taken: the stream holds it, and stands before the next one. -/
structure Delivered (host : Host) (maxrec : Nat) (body : List UInt8) (todo : List Fragment) (s : RecStrm) :
    Prop extends AtHeader host maxrec 0 todo s where
  holding : Holding s body
  finger_eq : s.inFinger = 0

/-- The stream when the body of a fragment has come whole. -/
def tookBody (tcp : Transport) (body : List UInt8) (s : RecStrm) : RecStrm :=
  { s with
    tcp := tcp
    inBase := Buffer.writeAt s.inBase s.inReceived.toNat body
    inHaveheader := false
    inHdrlen := 0
    fbtbc := s.inReclen.toNat
    inBoundry := s.inReclen.toNat
    inFinger := 0
    inReclen := 0
    inReceived := 0 }

theorem BeforeBody.delivered {f : Fragment} {todo : List Fragment} {s : RecStrm}
    (h : BeforeBody host maxrec f todo s) {tcp : Transport}
    (hRest : Transport.bytes tcp.arrivals = encodeAll todo) (hLine : tcp.nonblock = true) :
    Delivered host maxrec f.body todo (s.tookBody tcp f.body) := by
  have hLen : s.inReclen.toNat = f.body.length := by
    rw [h.reclen_eq, Int.toNat_natCast]
  have hOff : s.inReceived.toNat = 0 := by
    rw [h.received_eq]
    rfl
  have hWrite : (Buffer.writeAt s.inBase s.inReceived.toNat f.body).length = s.inBase.length := by
    apply Buffer.length_writeAt
    rw [hOff, Nat.zero_add]
    exact h.room
  exact {
    nonblock := h.nonblock
    line := hLine
    haveheader := rfl
    header_length := h.header_length
    lastFrag := h.lastFrag
    base_length := hWrite.trans h.base_length
    host_eq := h.host_eq
    maxrec_eq := h.maxrec_eq
    maxrec_int := h.maxrec_int
    hdrlen_eq := rfl
    hdrlen_lt := Nat.zero_lt_succ 3
    reclen_eq := rfl
    received_eq := rfl
    input_eq := hRest
    holding := {
      nonblock := h.nonblock
      lastFrag := h.lastFrag
      fbtbc_eq := hLen
      boundry_eq := hLen.trans (Nat.zero_add _).symm
      within := by
        show s.inReclen.toNat ≤ (Buffer.writeAt s.inBase s.inReceived.toNat f.body).length
        rw [hWrite, hLen]
        exact h.room
      bytes_eq := by
        show Buffer.readAt (Buffer.writeAt s.inBase s.inReceived.toNat f.body) 0 _ = _
        rw [hOff]
        exact Buffer.readAt_writeAt (Nat.zero_le _) }
    finger_eq := rfl }

/-- The body comes whole, or the stream is stuck. -/
theorem BeforeBody.step {f : Fragment} {todo : List Fragment} {s : RecStrm}
    (h : BeforeBody host maxrec f todo s) (hBody : f.body ≠ []) (expectdata : Bool) :
    (∃ s', getrecBody expectdata s = ((true, .moreReqs), s') ∧
      Delivered host maxrec f.body todo s' ∧
      s'.tcp = ((Transport.readit f.body.length).run s.tcp).2) ∨
    (¬ ReadsWhole f.body.length s.tcp ∧
      ∃ xstat s', getrecBody expectdata s = ((false, xstat), s') ∧ Stuck host maxrec s') := by
  have hPos : 0 < f.body.length := List.length_pos_iff.mpr hBody
  have hRoom := h.room
  have hAsk : s.inReclen - s.inReceived = (f.body.length : Int) := by
    rw [h.reclen_eq, h.received_eq]
    omega
  obtain ⟨ans, tcp, hRead, hBytes, hLe, hLine, -⟩ := Transport.readit_bytes hPos s.tcp
  have hTcp : tcp.nonblock = true := hLine.nonblock_eq.trans h.line
  unfold getrecBody
  rw [hAsk, hRead]
  cases ans with
  | none =>
      exact Or.inr ⟨not_readsWhole hRead, .died, { s with tcp := tcp }, rfl,
        { h with line := hTcp }⟩
  | some bs =>
      rw [Option.getD_some] at hBytes hLe
      have hWrite : (Buffer.writeAt s.inBase s.inReceived.toNat bs).length = s.inBase.length := by
        apply Buffer.length_writeAt
        rw [h.received_eq]
        show 0 + bs.length ≤ _
        omega
      by_cases hWhole : bs.length = f.body.length
      · have hNil : bs ≠ [] := fun hNil => by
          rw [hNil] at hWhole
          exact absurd hWhole.symm (Nat.ne_of_gt hPos)
        have hInput := h.input_eq
        rw [hBytes] at hInput
        obtain ⟨rfl, hRest⟩ := List.append_inj hInput hWhole
        have hAll : s.inReceived + (f.body.length : Int) = s.inReclen := by
          rw [h.received_eq, h.reclen_eq, Int.zero_add]
        refine Or.inl ⟨s.tookBody tcp f.body, ?_, h.delivered hRest hTcp, rfl⟩
        simp only [if_neg hNil, if_pos hAll, if_pos h.lastFrag]
        rfl
      · have hPart : ¬ s.inReceived + (bs.length : Int) = s.inReclen := by
          rw [h.received_eq, h.reclen_eq]
          omega
        refine Or.inr ⟨mt (readsWhole_iff hRead).mp hWhole, ?_⟩
        · have hListen : Stuck host maxrec { s with
              tcp := tcp
              inBase := Buffer.writeAt s.inBase s.inReceived.toNat bs } :=
            { h with line := hTcp, base_length := hWrite.trans h.base_length }
          by_cases hNil : bs = []
          · simp only [if_pos hNil]
            exact ⟨_, _, rfl, hListen⟩
          · simp only [if_neg hNil, if_neg hPart]
            exact ⟨_, _, rfl, { hListen with }⟩

/-- What `__xdrrec_getrec` does with a header that it accepts. -/
def afterHeader (expectdata : Bool) (header : List UInt8) :
    Option Unit × RecStrm → (Bool × XprtStat) × RecStrm
  | (none, s) => ((false, .died), s)
  | (some (), s) =>
      if Word.ofBytes header &&& lastFragBit ≠ 0 then
        getrecBody expectdata { s with lastFrag := true }
      else getrecBody expectdata s

/-- Behind the header of a fragment that is accepted the body comes whole, or the
stream is stuck for want of it or of memory. -/
theorem BehindHeader.step {f : Fragment} {todo : List Fragment} {s : RecStrm}
    (h : BehindHeader host maxrec f todo s) (hBody : f.body ≠ []) (hMax : f.body.length ≤ maxrec)
    (expectdata : Bool) :
    (∃ s', getrecHeader expectdata s = ((true, .moreReqs), s') ∧
      Delivered host maxrec f.body todo s' ∧
      s'.tcp = ((Transport.readit f.body.length).run s.tcp).2) ∨
    (¬ (ReadsWhole f.body.length s.tcp ∧ host.reallocs f.body.length = true) ∧
      ∃ xstat s', getrecHeader expectdata s = ((false, xstat), s') ∧ Stuck host maxrec s') := by
  have hFits := f.fits
  have hAccept : ¬ s.headerRefused s.fraglen := by
    rw [h.refused_iff, not_or]
    exact ⟨hBody, Nat.not_lt.mpr hMax⟩
  have hReclen : intAdd s.inReclen s.fraglen = f.body.length := by
    rw [h.fraglen_eq, h.reclen_eq, intAdd_zero f.fits]
  have hSize : (BitVec.ofInt 32 (f.body.length : Int)).toNat = f.body.length := by
    rw [BitVec.ofInt_natCast, BitVec.toNat_ofNat]
    exact Nat.mod_eq_of_lt (by omega)
  let s₁ : RecStrm := { s with inReclen := f.body.length }
  have hHeader : getrecHeader expectdata s =
      afterHeader expectdata s₁.inHeader ((reallocStream f.body.length).run s₁) := by
    have hStep : getrecHeader expectdata s =
        afterHeader expectdata s₁.inHeader
          ((reallocStream (BitVec.ofInt 32 (intAdd s.inReclen s.fraglen)).toNat).run
            { s with inReclen := intAdd s.inReclen s.fraglen }) := by
      unfold getrecHeader
      exact (if_neg hAccept).trans rfl
    rw [hStep, hReclen, hSize]
  rcases run_reallocStream (s := s₁) h.base_length f.body.length with
    ⟨hRun, hHost⟩ | ⟨base, boundry, recvsize, inSize, hRun, hLen, hRoom⟩
  · refine Or.inr ⟨fun hBoth => ?_, .died, s₁, ?_, { h with }⟩
    · have hSame : s.host.reallocs f.body.length = false := hHost
      rw [← h.host_eq, hSame] at hBoth
      cases hBoth.2
    · rw [hHeader, hRun]
      rfl
  · let s₂ : RecStrm := { s₁ with
      inBase := base, inBoundry := boundry, recvsize := recvsize, inSize := inSize }
    have hBefore : BeforeBody host maxrec f todo s₂ :=
      { h with base_length := hLen, reclen_eq := rfl, room := hLen ▸ hRoom }
    have hMark : ({ s₂ with lastFrag := true } : RecStrm) = s₂ := by
      rw [← hBefore.lastFrag]
    have hBodyEq : getrecHeader expectdata s = getrecBody expectdata s₂ := by
      rw [hHeader, hRun]
      show (if _ then getrecBody expectdata { s₂ with lastFrag := true }
        else getrecBody expectdata s₂) = _
      rw [hMark, ite_self]
    rw [hBodyEq]
    rcases hBefore.step hBody expectdata with hWhole | ⟨hPart, hStuck⟩
    · exact Or.inl hWhole
    · exact Or.inr ⟨fun hBoth => hPart hBoth.1, hStuck⟩

end OncRpc.RecStrm
