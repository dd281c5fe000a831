import OncRpc.Rec.Accepted
import OncRpc.Rec.Sink

/-! The bounds of the non-blocking reader, whatever the peer sends. A header is read
only where no part of a record is held, so the length of a record is that of one
fragment, and the body goes to a buffer that has been made long enough for it. -/
namespace OncRpc.RecStrm

open Fallible RecordMarking

variable {host : Host} {maxrec : Nat} {dead : Bool}

/-- The stream with the fragment counted whose header has been read. -/
def counted (s : RecStrm) : RecStrm := { s with inReclen := intAdd s.inReclen s.fraglen }

/-- The stream after a look at the mark of the last fragment. -/
def withMark (header : BitVec 32) (s : RecStrm) : RecStrm :=
  if header &&& lastFragBit ≠ 0 then { s with lastFrag := true } else s

/-- A stream that is at the last fragment from the start does not see the mark. -/
theorem withMark_eq {s : RecStrm} (h : s.lastFrag = true) (header : BitVec 32) :
    s.withMark header = s := by
  unfold withMark
  rw [← h]
  exact ite_self s

/-- What a call does behind the header, step by step. -/
theorem getrecHeader_eq (expectdata : Bool) (s : RecStrm) :
    getrecHeader expectdata s =
      if s.headerRefused s.fraglen then ((false, .died), s)
      else
        match (reallocStream (BitVec.ofInt 32 s.counted.inReclen).toNat).run s.counted with
        | (none, s') => ((false, .died), s')
        | (some (), s') => getrecBody expectdata (s'.withMark (Word.ofBytes s.inHeader)) := by
  unfold getrecHeader
  apply if_congr Iff.rfl rfl
  show (match (reallocStream (BitVec.ofInt 32 s.counted.inReclen).toNat).run s.counted with
    | (none, s) => _
    | (some (), s) => _) = _
  rcases (reallocStream (BitVec.ofInt 32 s.counted.inReclen).toNat).run s.counted with
    ⟨_ | _, s'⟩
  · rfl
  · exact (apply_ite (getrecBody expectdata) _ _ _).symm

/-- The stream on which the call reads the body of a fragment, if it comes to that. -/
def readsBody (s : RecStrm) : Option RecStrm :=
  if s.inHaveheader then some s
  else
    match s.completesHeader with
    | none => none
    | some s₁ =>
        if s₁.headerRefused s₁.fraglen then none
        else
          match (reallocStream (BitVec.ofInt 32 s₁.counted.inReclen).toNat).run s₁.counted with
          | (none, _) => none
          | (some (), s₂) => some (s₂.withMark (Word.ofBytes s₁.inHeader))

/-- The one place where a call stores in `in_base`. -/
theorem getrec_readsBody {s s₁ : RecStrm} (h : s.readsBody = some s₁) (expectdata : Bool) :
    getrec expectdata s = getrecBody expectdata s₁ := by
  unfold readsBody at h
  split at h
  · rename_i hHave
    cases h
    unfold getrec
    rw [if_pos hHave]
  · split at h
    · cases h
    · rename_i s₂ hHeader
      rw [getrec_completes hHeader, getrecHeader_eq]
      split at h
      · cases h
      · rename_i hAccept
        rw [if_neg hAccept]
        split at h
        · cases h
        · rename_i s₃ hRoom
          cases h
          rfl

/-- A call that completes no header leaves everything but the header. -/
structure TookHeader (s s' : RecStrm) : Prop where
  nonblock_eq : s'.nonblock = s.nonblock
  line_eq : s'.tcp.nonblock = s.tcp.nonblock
  haveheader_eq : s'.inHaveheader = s.inHaveheader
  header_length : s.inHdrlen ≤ 4 → s.inHeader.length = 4 → s'.inHeader.length = 4
  hdrlen_le : s.inHdrlen ≤ 4 → s'.inHdrlen ≤ 4
  lastFrag_eq : s'.lastFrag = s.lastFrag
  base_eq : s'.inBase = s.inBase
  recvsize_eq : s'.recvsize = s.recvsize
  host_eq : s'.host = s.host
  maxrec_eq : s'.inMaxrec = s.inMaxrec
  reclen_eq : s'.inReclen = s.inReclen
  received_eq : s'.inReceived = s.inReceived

/-- A read of what is missing of a header, at any state of it. -/
theorem readit_header (s : RecStrm) (hLe : s.inHdrlen ≤ 4) :
    ∃ ans tcp, (Transport.readit (4 - s.inHdrlen)).run s.tcp = (ans, tcp) ∧
      tcp.nonblock = s.tcp.nonblock ∧ s.inHdrlen + (ans.getD []).length ≤ 4 := by
  rcases Nat.lt_or_ge s.inHdrlen 4 with hLt | hFull
  · have hAsk : (4 : Int) - s.inHdrlen = ((4 - s.inHdrlen : Nat) : Int) := by omega
    obtain ⟨ans, tcp, hRead, -, hLen, hLine, -⟩ :=
      Transport.readit_bytes (by omega : 0 < 4 - s.inHdrlen) s.tcp
    refine ⟨ans, tcp, ?_, hLine.nonblock_eq, by omega⟩
    rw [hAsk, hRead]
  · have hAsk : (4 : Int) - s.inHdrlen = 0 := by omega
    refine ⟨some [], s.tcp, ?_, rfl, by simpa using hLe⟩
    rw [hAsk]
    rfl

theorem tookHeader_withHeader {s : RecStrm} {tcp : Transport} {bs : List UInt8}
    (hLine : tcp.nonblock = s.tcp.nonblock) (hLen : s.inHdrlen + bs.length ≤ 4) :
    TookHeader s (s.withHeader tcp bs) where
  nonblock_eq := rfl
  line_eq := hLine
  haveheader_eq := rfl
  header_length _ hFour := by
    show (Buffer.writeAt s.inHeader s.inHdrlen bs).length = 4
    rw [Buffer.length_writeAt (by rwa [hFour]), hFour]
  hdrlen_le _ := hLen
  lastFrag_eq := rfl
  base_eq := rfl
  recvsize_eq := rfl
  host_eq := rfl
  maxrec_eq := rfl
  reclen_eq := rfl
  received_eq := rfl

theorem tookHeader_tcp {s : RecStrm} {tcp : Transport}
    (hLine : tcp.nonblock = s.tcp.nonblock) : TookHeader s { s with tcp := tcp } where
  nonblock_eq := rfl
  line_eq := hLine
  haveheader_eq := rfl
  header_length _ hFour := hFour
  hdrlen_le hLe := hLe
  lastFrag_eq := rfl
  base_eq := rfl
  recvsize_eq := rfl
  host_eq := rfl
  maxrec_eq := rfl
  reclen_eq := rfl
  received_eq := rfl

/-- Where no header is held, the call completes one or takes part of one. -/
theorem getrec_header {s : RecStrm} (hNo : s.inHaveheader = false) (hLe : s.inHdrlen ≤ 4)
    (expectdata : Bool) :
    (s.completesHeader = none ∧ TookHeader s (getrec expectdata s).2) ∨
    ∃ s₁, s.completesHeader = some s₁ ∧ TookHeader s s₁ ∧ s.inHdrlen < 4 ∧ s₁.inHdrlen = 4 := by
  have hNot : ¬ s.inHaveheader = true := by rw [hNo]; exact Bool.false_ne_true
  obtain ⟨ans, tcp, hRead, hLine, hLen⟩ := readit_header s hLe
  unfold completesHeader getrec
  rw [if_neg hNot, if_neg hNot, hRead]
  cases ans with
  | none => exact Or.inl ⟨rfl, tookHeader_tcp hLine⟩
  | some bs =>
      rw [Option.getD_some] at hLen
      by_cases hNil : bs = []
      · refine Or.inl ⟨if_pos (Or.inl hNil), ?_⟩
        simp only [if_pos hNil]
        exact tookHeader_tcp hLine
      · have hTook : TookHeader s (s.withHeader tcp bs) := tookHeader_withHeader hLine hLen
        by_cases hShort : s.inHdrlen + bs.length < 4
        · refine Or.inl ⟨if_pos (Or.inr hShort), ?_⟩
          simp only [if_neg hNil, if_pos hShort]
          exact hTook
        · have hPos : 0 < bs.length := List.length_pos_iff.mpr hNil
          refine Or.inr ⟨s.withHeader tcp bs, if_neg (not_or.mpr ⟨hNil, hShort⟩), hTook, ?_, ?_⟩
          · omega
          · show s.inHdrlen + bs.length = 4
            omega

/-- What is not reallocated stays as it is. -/
theorem eq_of_reallocStream_none {s s' : RecStrm} {size : Nat}
    (h : (reallocStream size).run s = (none, s')) : s' = s := by
  simp only [Fallible.run, reallocStream] at h
  split at h
  · split at h
    · cases h
    · cases h
      rfl
  · cases h

/-- Without a body to read the buffer stays as it is. -/
theorem getrec_not_readsBody {s : RecStrm} (hLe : s.inHdrlen ≤ 4) (h : s.readsBody = none)
    (expectdata : Bool) : (getrec expectdata s).2.inBase = s.inBase := by
  unfold readsBody at h
  split at h
  · cases h
  · rename_i hNo
    rcases getrec_header (by simpa using hNo) hLe expectdata with
      ⟨-, hTook⟩ | ⟨s₁, hHeader, hTook, -⟩
    · exact hTook.base_eq
    · rw [getrec_completes hHeader, ← hTook.base_eq, getrecHeader_eq]
      rw [hHeader] at h
      simp only at h
      by_cases hRefused : s₁.headerRefused s₁.fraglen
      · rw [if_pos hRefused]
      · rw [if_neg hRefused] at h ⊢
        rcases hRun : (reallocStream (BitVec.ofInt 32 s₁.counted.inReclen).toNat).run s₁.counted
          with ⟨_ | _, s₂⟩
        · obtain rfl := eq_of_reallocStream_none hRun
          rfl
        · rw [hRun] at h
          cases h

/-- A stream between two calls; `dead` tells whether one of them has reported a death. -/
structure Bounded (host : Host) (maxrec : Nat) (dead : Bool) (s : RecStrm) : Prop
    extends Listening host maxrec s where
  hdrlen_le : s.inHdrlen ≤ 4
  received_nonneg : 0 ≤ s.inReceived
  received_le : s.inReceived ≤ s.inReclen
  reclen_le : s.inReclen ≤ s.inMaxrec
  /-- A record is begun by its header. -/
  fresh : s.inHdrlen < 4 → s.inReclen = 0
  room : dead = false → s.inReclen ≤ s.recvsize

theorem Bounded.weaken {s : RecStrm} (h : Bounded host maxrec dead s) (b : Bool) :
    Bounded host maxrec (dead || b) s :=
  { h with room := fun hAlive => h.room (Bool.or_eq_false_iff.mp hAlive).1 }

/-- A header has been read at the front of a record. -/
structure HeaderRead (host : Host) (maxrec : Nat) (s : RecStrm) : Prop
    extends Stuck host maxrec s where
  reclen_eq : s.inReclen = 0
  received_eq : s.inReceived = 0

/-- The buffer is ready for the body of a fragment. -/
structure BodyFits (host : Host) (maxrec : Nat) (s : RecStrm) : Prop
    extends Stuck host maxrec s where
  received_eq : s.inReceived = 0
  reclen_pos : 0 < s.inReclen
  reclen_le : s.inReclen ≤ s.inMaxrec
  fits : s.inReclen ≤ s.inBase.length

/-- A call on a bounded stream completes a header, or leaves it bounded. -/
theorem Bounded.header {s : RecStrm} (h : Bounded host maxrec dead s) (expectdata : Bool) :
    (s.completesHeader = none ∧ Bounded host maxrec dead (getrec expectdata s).2) ∨
    ∃ s₁, s.completesHeader = some s₁ ∧ HeaderRead host maxrec s₁ := by
  have listening : ∀ {s'}, TookHeader s s' → Listening host maxrec s' := fun {s'} hTook =>
    { nonblock := hTook.nonblock_eq.trans h.nonblock
      line := hTook.line_eq.trans h.line
      haveheader := hTook.haveheader_eq.trans h.haveheader
      header_length := hTook.header_length h.hdrlen_le h.header_length
      lastFrag := hTook.lastFrag_eq.trans h.lastFrag
      base_length := by rw [hTook.base_eq, hTook.recvsize_eq, h.base_length]
      host_eq := hTook.host_eq.trans h.host_eq
      maxrec_eq := hTook.maxrec_eq.trans h.maxrec_eq
      maxrec_int := h.maxrec_int }
  rcases Nat.lt_or_ge s.inHdrlen 4 with hLt | hFull
  · have hZero := h.fresh hLt
    have hNone : s.inReceived = 0 := by
      have hLe := h.received_le
      have hNonneg := h.received_nonneg
      omega
    rcases getrec_header h.haveheader h.hdrlen_le expectdata with
      ⟨hNo, hTook⟩ | ⟨s₁, hHeader, hTook, -, hFour⟩
    · refine Or.inl ⟨hNo, ?_⟩
      exact {
        listening hTook with
        hdrlen_le := hTook.hdrlen_le h.hdrlen_le
        received_nonneg := by rw [hTook.received_eq]; exact h.received_nonneg
        received_le := by rw [hTook.received_eq, hTook.reclen_eq]; exact h.received_le
        reclen_le := by rw [hTook.reclen_eq, hTook.maxrec_eq]; exact h.reclen_le
        fresh := fun _ => hTook.reclen_eq.trans hZero
        room := fun hAlive => by
          rw [hTook.reclen_eq, hTook.recvsize_eq]
          exact h.room hAlive }
    · exact Or.inr ⟨s₁, hHeader, {
        listening hTook with
        hdrlen_eq := hFour
        reclen_eq := hTook.reclen_eq.trans hZero
        received_eq := hTook.received_eq.trans hNone }⟩
  · have hStuck : Stuck host maxrec s := { h with hdrlen_eq := Nat.le_antisymm h.hdrlen_le hFull }
    obtain ⟨hNo, hRun⟩ := hStuck.call expectdata
    refine Or.inl ⟨hNo, ?_⟩
    rw [hRun]
    exact h

/-- The only addition of two lengths is one to zero. -/
theorem HeaderRead.intAdd_eq {s : RecStrm} (h : HeaderRead host maxrec s) :
    intAdd s.inReclen s.fraglen = s.fraglen ∧ s.fraglen < 2 ^ 31 := by
  have hLt : s.fraglen < 2 ^ 31 := by
    have hMask : (~~~lastFragBit : BitVec 32).toNat < 2 ^ 31 := by decide
    rw [fraglen, BitVec.toNat_and]
    exact lt_of_le_of_lt Nat.and_le_right hMask
  exact ⟨by rw [h.reclen_eq, intAdd_zero hLt], hLt⟩

theorem HeaderRead.bounded {s : RecStrm} (h : HeaderRead host maxrec s) :
    Bounded host maxrec dead s :=
  { h with
    hdrlen_le := h.hdrlen_eq.le
    received_nonneg := h.received_eq.ge
    received_le := by rw [h.received_eq, h.reclen_eq]
    reclen_le := by
      rw [h.reclen_eq, h.maxrec_eq]
      exact Int.natCast_nonneg maxrec
    fresh := fun _ => h.reclen_eq
    room := fun _ => by
      rw [h.reclen_eq]
      exact Int.natCast_nonneg s.recvsize }

/-- A header that is accepted is followed by a buffer that is long enough, or by the
report that there is none. -/
theorem HeaderRead.room {s : RecStrm} (h : HeaderRead host maxrec s)
    (hAccept : ¬ s.headerRefused s.fraglen) :
    ((reallocStream (BitVec.ofInt 32 s.counted.inReclen).toNat).run s.counted =
      (none, s.counted) ∧ Bounded host maxrec true s.counted) ∨
    ∃ s', (reallocStream (BitVec.ofInt 32 s.counted.inReclen).toNat).run s.counted =
      (some (), s') ∧ BodyFits host maxrec (s'.withMark (Word.ofBytes s.inHeader)) := by
  obtain ⟨hSum, hLt⟩ := h.intAdd_eq
  have hReclen : s.counted.inReclen = (s.fraglen : Int) := hSum
  have hPos : 0 < s.fraglen := Nat.pos_of_ne_zero fun hZero => hAccept (Or.inl hZero)
  have hLe : (s.fraglen : Int) ≤ s.inMaxrec :=
    not_lt.mp fun hLong => hAccept (Or.inr (Or.inl hLong))
  have hSize : (BitVec.ofInt 32 s.counted.inReclen).toNat = s.fraglen := by
    rw [hReclen, BitVec.ofInt_natCast, BitVec.toNat_ofNat]
    exact Nat.mod_eq_of_lt (by omega)
  have hStuck : Stuck host maxrec s.counted := { h with }
  rw [hSize]
  rcases run_reallocStream (s := s.counted) h.base_length s.fraglen with
    ⟨hRun, -⟩ | ⟨base, boundry, recvsize, inSize, hRun, hLen, hRoom⟩
  · refine Or.inl ⟨hRun, ?_⟩
    exact {
      hStuck with
      hdrlen_le := h.hdrlen_eq.le
      received_nonneg := h.received_eq.ge
      received_le := by
        rw [hReclen, show s.counted.inReceived = 0 from h.received_eq]
        exact Int.natCast_nonneg _
      reclen_le := by
        rw [hReclen]
        exact hLe
      fresh := fun hShort => absurd h.hdrlen_eq (Nat.ne_of_lt hShort)
      room := fun hAlive => absurd hAlive Bool.noConfusion }
  · let s₁ : RecStrm := { s.counted with
      inBase := base, inBoundry := boundry, recvsize := recvsize, inSize := inSize }
    have hFits : BodyFits host maxrec s₁ := {
      hStuck with
      base_length := hLen
      received_eq := h.received_eq
      reclen_pos := by
        show 0 < s.counted.inReclen
        rw [hReclen]
        exact_mod_cast hPos
      reclen_le := by
        show s.counted.inReclen ≤ s.inMaxrec
        rw [hReclen]
        exact hLe
      fits := by
        show s.counted.inReclen ≤ (base.length : Int)
        rw [hReclen, hLen]
        exact_mod_cast hRoom }
    refine Or.inr ⟨s₁, hRun, ?_⟩
    rw [withMark_eq hFits.lastFrag]
    exact hFits

/-- A read of a body into a buffer that is long enough. -/
theorem BodyFits.getrecBody {s : RecStrm} (h : BodyFits host maxrec s) (expectdata : Bool) :
    Bounded host maxrec false (getrecBody expectdata s).2 := by
  have hPos := h.reclen_pos
  have hFits := h.fits
  have hBase := h.base_length
  have hReclen : s.inReclen - s.inReceived = ((s.inReclen.toNat : Nat) : Int) := by
    rw [h.received_eq]
    omega
  obtain ⟨ans, tcp, hRead, -, hLe, hLine, -⟩ :=
    Transport.readit_bytes (by omega : 0 < s.inReclen.toNat) s.tcp
  have hTcp : tcp.nonblock = true := hLine.nonblock_eq.trans h.line
  unfold RecStrm.getrecBody
  rw [hReclen, hRead]
  cases ans with
  | none =>
      exact {
        h with
        line := hTcp
        hdrlen_le := h.hdrlen_eq.le
        received_nonneg := h.received_eq.ge
        received_le := by
          show s.inReceived ≤ s.inReclen
          rw [h.received_eq]
          exact hPos.le
        fresh := fun hShort => absurd h.hdrlen_eq (Nat.ne_of_lt hShort)
        room := fun _ => by
          show s.inReclen ≤ (s.recvsize : Int)
          omega }
  | some bs =>
      rw [Option.getD_some] at hLe
      have hWrite : (Buffer.writeAt s.inBase s.inReceived.toNat bs).length = s.recvsize := by
        rw [Buffer.length_writeAt, hBase]
        rw [h.received_eq]
        show 0 + bs.length ≤ _
        omega
      have hListen : Listening host maxrec { s with
          tcp := tcp
          inBase := Buffer.writeAt s.inBase s.inReceived.toNat bs } :=
        { h with line := hTcp, base_length := hWrite }
      by_cases hNil : bs = []
      · simp only [if_pos hNil]
        exact {
          hListen with
          hdrlen_le := h.hdrlen_eq.le
          received_nonneg := h.received_eq.ge
          received_le := by
            show s.inReceived ≤ s.inReclen
            rw [h.received_eq]
            exact hPos.le
          reclen_le := h.reclen_le
          fresh := fun hShort => absurd h.hdrlen_eq (Nat.ne_of_lt hShort)
          room := fun _ => by
            show s.inReclen ≤ (s.recvsize : Int)
            omega }
      · simp only [if_neg hNil]
        split
        · rw [if_pos h.lastFrag]
          exact {
            hListen with
            haveheader := rfl
            hdrlen_le := Nat.zero_le 4
            received_nonneg := le_refl 0
            received_le := le_refl 0
            reclen_le := by
              show (0 : Int) ≤ s.inMaxrec
              rw [h.maxrec_eq]
              exact Int.natCast_nonneg maxrec
            fresh := fun _ => rfl
            room := fun _ => Int.natCast_nonneg s.recvsize }
        · exact {
            hListen with
            hdrlen_le := h.hdrlen_eq.le
            received_nonneg := by
              show 0 ≤ s.inReceived + (bs.length : Int)
              rw [h.received_eq]
              omega
            received_le := by
              show s.inReceived + (bs.length : Int) ≤ s.inReclen
              rw [h.received_eq]
              omega
            reclen_le := h.reclen_le
            fresh := fun hShort => absurd h.hdrlen_eq (Nat.ne_of_lt hShort)
            room := fun _ => by
              show s.inReclen ≤ (s.recvsize : Int)
              omega }

/-- What holds of the stream before a call holds of it behind the call, unless the call
reports a death. -/
theorem Bounded.getrec {s : RecStrm} (h : Bounded host maxrec dead s) (expectdata : Bool) :
    Bounded host maxrec (dead || decide ((getrec expectdata s).1.2 = .died))
      (getrec expectdata s).2 := by
  rcases h.header expectdata with ⟨-, hNext⟩ | ⟨s₁, hHeader, hRead⟩
  · exact hNext.weaken _
  · rw [getrec_completes hHeader, getrecHeader_eq]
    by_cases hRefused : s₁.headerRefused s₁.fraglen
    · rw [if_pos hRefused]
      exact hRead.bounded
    · rw [if_neg hRefused]
      rcases hRead.room hRefused with ⟨hRun, hDead⟩ | ⟨s', hRun, hFits⟩
      · rw [hRun]
        exact { hDead with room := fun hAlive => by simp at hAlive }
      · rw [hRun]
        have hBody := hFits.getrecBody expectdata
        exact { hBody with room := fun _ => hBody.room rfl }

/-- The body is read only into a buffer that is long enough. -/
theorem Bounded.bodyFits {s s₁ : RecStrm} (h : Bounded host maxrec dead s)
    (hs : s.readsBody = some s₁) : BodyFits host maxrec s₁ := by
  have hNo : ¬ s.inHaveheader = true := by rw [h.haveheader]; exact Bool.false_ne_true
  unfold readsBody at hs
  rw [if_neg hNo] at hs
  rcases h.header false with ⟨hNone, -⟩ | ⟨s₂, hHeader, hRead⟩
  · rw [hNone] at hs
    cases hs
  · rw [hHeader] at hs
    simp only at hs
    by_cases hRefused : s₂.headerRefused s₂.fraglen
    · rw [if_pos hRefused] at hs
      cases hs
    · rw [if_neg hRefused] at hs
      rcases hRead.room hRefused with ⟨hRun, -⟩ | ⟨s', hRun, hFits⟩
      · rw [hRun] at hs
        cases hs
      · rw [hRun] at hs
        cases hs
        exact hFits

/-! ### The other operations -/

/-- What the input side of the reader keeps between two calls. The rest of the stream
may change at will, and with it what is still to arrive. -/
structure SameReader (s s' : RecStrm) : Prop where
  nonblock_eq : s'.nonblock = s.nonblock
  line_eq : s'.tcp.nonblock = s.tcp.nonblock
  haveheader_eq : s'.inHaveheader = s.inHaveheader
  header_eq : s'.inHeader = s.inHeader
  hdrlen_eq : s'.inHdrlen = s.inHdrlen
  lastFrag_eq : s'.lastFrag = s.lastFrag
  base_eq : s'.inBase = s.inBase
  recvsize_eq : s'.recvsize = s.recvsize
  host_eq : s'.host = s.host
  maxrec_eq : s'.inMaxrec = s.inMaxrec
  reclen_eq : s'.inReclen = s.inReclen
  received_eq : s'.inReceived = s.inReceived

theorem SameReader.refl (s : RecStrm) : SameReader s s :=
  ⟨rfl, rfl, rfl, rfl, rfl, rfl, rfl, rfl, rfl, rfl, rfl, rfl⟩

theorem Bounded.sameReader {s s' : RecStrm} (h : Bounded host maxrec dead s)
    (hSame : SameReader s s') : Bounded host maxrec dead s' where
  nonblock := hSame.nonblock_eq.trans h.nonblock
  line := hSame.line_eq.trans h.line
  haveheader := hSame.haveheader_eq.trans h.haveheader
  header_length := by rw [hSame.header_eq]; exact h.header_length
  lastFrag := hSame.lastFrag_eq.trans h.lastFrag
  base_length := by rw [hSame.base_eq, hSame.recvsize_eq]; exact h.base_length
  host_eq := hSame.host_eq.trans h.host_eq
  maxrec_eq := hSame.maxrec_eq.trans h.maxrec_eq
  maxrec_int := h.maxrec_int
  hdrlen_le := by rw [hSame.hdrlen_eq]; exact h.hdrlen_le
  received_nonneg := by rw [hSame.received_eq]; exact h.received_nonneg
  received_le := by rw [hSame.received_eq, hSame.reclen_eq]; exact h.received_le
  reclen_le := by rw [hSame.reclen_eq, hSame.maxrec_eq]; exact h.reclen_le
  fresh hShort := by
    rw [hSame.hdrlen_eq] at hShort
    exact hSame.reclen_eq.trans (h.fresh hShort)
  room hAlive := by rw [hSame.reclen_eq, hSame.recvsize_eq]; exact h.room hAlive

section Operations

variable {s₀ : RecStrm}

theorem sparedByMoves_sameReader (hOpen : s₀.nonblock = true) :
    SparedByMoves (SameReader s₀) where
  finger _ _ h := { h with }
  fbtbc _ _ h := { h with }
  fill := by
    intro s h
    simp only [Fallible.run, fillInputBuf, if_pos (h.nonblock_eq.trans hOpen)]
    exact h

/-- No fragment is begun but by `__xdrrec_getrec`. -/
theorem sameReader_setInputFragment (hOpen : s₀.nonblock = true) :
    Stays (SameReader s₀) setInputFragment := by
  intro s h
  have hNot : ¬ s.nonblock = false := by
    rw [h.nonblock_eq, hOpen]
    exact Bool.noConfusion
  unfold setInputFragment
  rw [run_bind_gets, run_bind_require, if_neg hNot]
  exact h

theorem readsStay_sameReader (hOpen : s₀.nonblock = true) : ReadsStay (SameReader s₀) where
  getlong := (sparedByMoves_sameReader hOpen).xdrrecGetlong (sameReader_setInputFragment hOpen)
  getbytes n := (sparedByMoves_sameReader hOpen).getbytesLoop (sameReader_setInputFragment hOpen) _ n

theorem stays_xdrrecInline (op : XdrOp) (len : Nat) :
    Stays (SameReader s₀) (xdrrecInline op len) := by
  intro s h
  simp only [Fallible.run, xdrrecInline]
  cases op with
  | free => exact h
  | encode =>
      show SameReader s₀ (if _ then _ else _ : Option (Option Nat) × RecStrm).2
      split
      · exact { h with }
      · exact h
  | decode =>
      show SameReader s₀ (if _ then _ else _ : Option (Option Nat) × RecStrm).2
      split
      · exact { h with }
      · exact h

theorem sameReader_xdrrecEof {s : RecStrm} (hOpen : s.nonblock = true) :
    SameReader s (xdrrecEof s).2 := by
  have hSkip : SameReader s (skipRecord.run s).2 :=
    (sparedByMoves_sameReader hOpen).skipRecordLoop (sameReader_setInputFragment hOpen) _ s
      (SameReader.refl s)
  unfold xdrrecEof
  rcases hRun : skipRecord.run s with ⟨_ | _, s'⟩
  · rw [hRun] at hSkip
    exact hSkip
  · rw [hRun] at hSkip
    exact hSkip

/-- A skip is a call whose report nobody sees. -/
theorem sameReader_xdrrecSkiprecord {s : RecStrm} (hOpen : s.nonblock = true) :
    SameReader (RecStrm.getrec false s).2 (xdrrecSkiprecord.run s).2 := by
  simp only [Fallible.run, xdrrecSkiprecord, if_pos hOpen]
  rcases RecStrm.getrec false s with ⟨⟨_ | _, xstat⟩, s'⟩
  · show SameReader s' (if _ then _ else _ : Option Unit × RecStrm).2
    split
    · exact { SameReader.refl s' with }
    · exact SameReader.refl s'
  · exact { SameReader.refl s' with }

end Operations

end OncRpc.RecStrm
