import OncRpc.Rec.Accepted

/-! Reassembly in non-blocking mode. Calls of `__xdrrec_getrec` yield the records of
the stream, each in the call that takes its last byte, as long as every header comes
with a whole body behind it and belongs to the last fragment of its record. -/
namespace OncRpc.RecStrm

open Fallible RecordMarking

variable {host : Host} {maxrec : Nat}

/-- A condition on every call of a run and the state before it. -/
def CallsMeet (P : Bool → RecStrm → Prop) : List Bool → RecStrm → Prop
  | [], _ => True
  | expectdata :: calls, s =>
      P expectdata s ∧ CallsMeet P calls (getrec expectdata s).2

/-- Data are expected only when some byte is there. -/
def Honest (expectdata : Bool) (s : RecStrm) : Prop :=
  expectdata = true → Transport.ready s.tcp.arrivals ≠ []

/-- If the call completes a header, it is that of the last fragment of its record, and
the next read has the whole body. -/
def BodyFollows (_ : Bool) (s : RecStrm) : Prop :=
  match s.completesHeader with
  | none => True
  | some s₁ =>
      Word.ofBytes s₁.inHeader &&& lastFragBit ≠ 0 ∧ ReadsWhole s₁.fraglen s₁.tcp

instance (expectdata : Bool) (s : RecStrm) : Decidable (BodyFollows expectdata s) := by
  unfold BodyFollows
  split <;> infer_instance

/-- If a call completes a header, the read behind the body has no whole header. -/
def HeaderWaits (s : RecStrm) : Prop :=
  match s.completesHeader with
  | none => True
  | some s₁ => ¬ ReadsWhole 4 ((Transport.readit s₁.fraglen).run s₁.tcp).2

instance (s : RecStrm) : Decidable s.HeaderWaits := by
  unfold HeaderWaits
  split <;> infer_instance

instance (expectdata : Bool) (s : RecStrm) : Decidable (Honest expectdata s) :=
  inferInstanceAs (Decidable (_ → _))

instance decidableCallsMeet (P : Bool → RecStrm → Prop) [∀ b s, Decidable (P b s)] :
    ∀ calls s, Decidable (CallsMeet P calls s)
  | [], _ => inferInstanceAs (Decidable True)
  | expectdata :: calls, s =>
      have := decidableCallsMeet P calls (getrec expectdata s).2
      inferInstanceAs (Decidable (P expectdata s ∧ CallsMeet P calls (getrec expectdata s).2))

/-- The bytes of records on the wire. -/
def wire (rs : List Record) : List UInt8 := encodeAll (rs.flatMap Record.frags)

/-- The call from `s` to `s'` takes the last byte in front of the records `rest`. -/
def EndsRecord (rest : List Record) (s s' : RecStrm) : Prop :=
  (Transport.bytes s'.tcp.arrivals).length ≤ (wire rest).length ∧
    (wire rest).length < (Transport.bytes s.tcp.arrivals).length

/-- The calls yield the records `todo` as they end, and report no death. -/
def Reassembles : List Bool → List Record → RecStrm → Prop
  | [], _, _ => True
  | expectdata :: calls, todo, s =>
      let s' := (getrec expectdata s).2
      if (getrec expectdata s).1.1 then
        ∃ r rest, todo = r :: rest ∧ EndsRecord rest s s' ∧
          s'.fbtbc = r.body.length ∧ s'.inBase.take s'.fbtbc = r.body ∧
          Reassembles calls rest s'
      else
        (getrec expectdata s).1.2 ≠ .died ∧
        (∀ r rest, todo = r :: rest → ¬ EndsRecord rest s s') ∧ Reassembles calls todo s'

/-- Between two records that are not empty nor too long, on a line without errors. -/
structure Expecting (host : Host) (maxrec k : Nat) (todo : List Record) (s : RecStrm) : Prop where
  header : AtHeader host maxrec k (todo.flatMap Record.frags) s
  filled : ∀ r ∈ todo, ∀ f ∈ r.frags, f.body ≠ []
  short : ∀ r ∈ todo, r.body.length ≤ maxrec
  quiet : Arrival.error ∉ s.tcp.arrivals

/-- A record whose first fragment is its last one has no other. -/
theorem frags_eq_of_last {r : Record} {f : Fragment} {fs fs' : List Fragment}
    (h : r.frags ++ fs = f :: fs') (hLast : f.last = true) :
    r.body = f.body ∧ f ∈ r.frags ∧ fs' = fs := by
  obtain ⟨hFrags, hBody⟩ | ⟨g, r', hFrags, hMore, -⟩ := r.frags_cases
  · rw [hFrags, List.singleton_append] at h
    cases h
    exact ⟨hBody, by rw [hFrags]; exact List.mem_singleton_self _, rfl⟩
  · rw [hFrags, List.cons_append] at h
    cases h
    rw [hLast] at hMore
    cases hMore

/-- A header is never longer than what is left of its record. -/
theorem Expecting.wire_lt {k : Nat} {r : Record} {rest : List Record} {s : RecStrm}
    (h : Expecting host maxrec k (r :: rest) s) : (wire rest).length <
      (Transport.bytes s.tcp.arrivals).length := by
  have hLt := h.header.hdrlen_lt
  have hLen := congrArg List.length h.header.input_eq
  have hHeader := h.header.header_length
  have hFirst : 4 ≤ (encodeAll r.frags).length := by
    rw [Record.frags, encodeAll_append, List.length_append, encodeAll_cons, List.length_append,
      Fragment.length_encode]
    omega
  rw [List.flatMap_cons, encodeAll_append, List.length_append, List.length_append,
    List.length_take] at hLen
  unfold wire
  omega

/-- What one call does. -/
theorem Expecting.call {k : Nat} {todo : List Record} {s : RecStrm}
    (h : Expecting host maxrec k todo s) (hHost : ∀ n ≤ maxrec, host.reallocs n = true)
    (expectdata : Bool) (hHonest : Honest expectdata s) (hFollows : BodyFollows expectdata s) :
    (s.completesHeader = none ∧ (getrec expectdata s).1.1 = false ∧
      (getrec expectdata s).1.2 ≠ .died ∧ SameBuffer s (getrec expectdata s).2 ∧
      ∃ k', Expecting host maxrec k' todo (getrec expectdata s).2) ∨
    ∃ r rest s₁, todo = r :: rest ∧ s.completesHeader = some s₁ ∧
      (getrec expectdata s).2.tcp = ((Transport.readit s₁.fraglen).run s₁.tcp).2 ∧
      (getrec expectdata s).1.1 = true ∧
      Holding (getrec expectdata s).2 r.body ∧ (getrec expectdata s).2.inFinger = 0 ∧
      Expecting host maxrec 0 rest (getrec expectdata s).2 := by
  rcases h.header.call expectdata with
    ⟨hNone, hFalse, hDied, hErr, hSame, k', hAt⟩ | ⟨f, fs, s₁, hTodo, hHeader, hBehind⟩
  · refine Or.inl ⟨hNone, hFalse, fun hDead => ?_, hSame, k', hAt, h.filled, h.short, fun hMem => ?_⟩
    · rcases hDied hDead with hMem | ⟨hExpect, hNothing⟩
      · exact h.quiet hMem
      · exact hHonest hExpect hNothing
    · exact h.quiet (hErr hMem)
  · unfold BodyFollows at hFollows
    rw [hHeader] at hFollows
    obtain ⟨hMark, hWhole⟩ := hFollows
    cases todo with
    | nil => cases hTodo
    | cons r rest =>
        have hLast : f.last = true := by
          rw [hBehind.header_eq] at hMark
          cases hf : f.last with
          | true => rfl
          | false => exact absurd ((last_of_header f.fits f.last).mpr hf) hMark
        rw [List.flatMap_cons] at hTodo
        obtain ⟨hBody, hMem, rfl⟩ := frags_eq_of_last hTodo hLast
        have hFull := h.filled r List.mem_cons_self f hMem
        have hMax : f.body.length ≤ maxrec := by
          rw [← hBody]
          exact h.short r List.mem_cons_self
        rw [hBehind.fraglen_eq] at hWhole
        rcases hBehind.step hFull hMax expectdata with ⟨s', hRun, hDone, hTcp⟩ | ⟨hPart, -⟩
        · refine Or.inr ⟨r, rest, s₁, rfl, hHeader, ?_⟩
          rw [getrec_completes hHeader, hRun, hBody, hBehind.fraglen_eq]
          refine ⟨hTcp, rfl, hDone.holding, hDone.finger_eq, hDone.toAtHeader,
            fun r' hr' => h.filled r' (List.mem_cons_of_mem r hr'),
            fun r' hr' => h.short r' (List.mem_cons_of_mem r hr'), fun hErr => ?_⟩
          rw [show s'.tcp = _ from hTcp] at hErr
          have hErr₁ := Transport.error_after_readit hErr
          rw [tcp_of_completesHeader hHeader] at hErr₁
          exact h.quiet (Transport.error_after_readit hErr₁)
        · exact absurd ⟨hWhole, hHost _ hMax⟩ hPart

/-- The induction is on the calls, and carries what is expected from each to the next. -/
theorem Expecting.reassembles (calls : List Bool) {k : Nat} {todo : List Record} {s : RecStrm}
    (h : Expecting host maxrec k todo s) (hHost : ∀ n ≤ maxrec, host.reallocs n = true)
    (hHonest : CallsMeet Honest calls s) (hFollows : CallsMeet BodyFollows calls s) :
    Reassembles calls todo s := by
  induction calls generalizing k todo s with
  | nil => trivial
  | cons expectdata calls ih =>
      obtain ⟨hHere, hLater⟩ := hHonest
      obtain ⟨hBody, hBodies⟩ := hFollows
      rcases h.call hHost expectdata hHere hBody with
        ⟨-, hFalse, hAlive, -, k', hNext⟩ |
          ⟨r, rest, s₁, rfl, -, -, hTrue, hHold, hFinger, hNext⟩
      · simp only [Reassembles, hFalse, Bool.false_eq_true, if_false]
        refine ⟨hAlive, ?_, ih hNext hLater hBodies⟩
        rintro r rest rfl ⟨hEnd, -⟩
        exact absurd hNext.wire_lt (Nat.not_lt.mpr hEnd)
      · simp only [Reassembles, hTrue, if_true]
        have hBytes := hHold.bytes_eq
        rw [hFinger, ← hHold.fbtbc_eq] at hBytes
        have hWire := hNext.header.input_eq
        rw [List.take_zero, List.nil_append] at hWire
        refine ⟨r, rest, rfl, ⟨?_, h.wire_lt⟩, hHold.fbtbc_eq, hBytes,
          ih hNext hLater hBodies⟩
        rw [hWire]
        exact le_refl _

/-- Whatever the schedule, calls whose headers come with their bodies reassemble the
records. -/
theorem getrec_reassembles (sendsize recvsize : BitVec 32) (host : Host) (maxrec : Nat)
    (line : Transport) (rs : List Record) (calls : List Bool) (hPos : 0 < maxrec)
    (hInt : maxrec < 2 ^ 31) (hHost : ∀ n ≤ maxrec, host.reallocs n = true)
    (hLine : line.nonblock = true) (hQuiet : Arrival.error ∉ line.arrivals)
    (hBytes : Transport.bytes line.arrivals = wire rs)
    (hFilled : ∀ r ∈ rs, ∀ f ∈ r.frags, f.body ≠ []) (hShort : ∀ r ∈ rs, r.body.length ≤ maxrec)
    (hHonest : CallsMeet Honest calls (listener sendsize recvsize host maxrec line))
    (hFollows : CallsMeet BodyFollows calls (listener sendsize recvsize host maxrec line)) :
    Reassembles calls rs (listener sendsize recvsize host maxrec line) := by
  have hNew : Expecting host maxrec 0 rs (listener sendsize recvsize host maxrec line) :=
    ⟨atHeader_listener sendsize recvsize hPos hInt hLine hBytes, hFilled, hShort, hQuiet⟩
  exact hNew.reassembles calls hHost hHonest hFollows

/-- Three bytes in one fragment. -/
def smallRecord : Record where
  more := []
  final := { body := [1, 2, 3], last := true, fits := by decide }
  more_last := Record.none_last
  final_last := rfl

/-- The header in two pieces, then the body; nothing is there in between. -/
def headerThenBody : Transport where
  arrivals := [.data [0x80, 0], .data [], .data [0, 3], .data [1, 2, 3]]
  written := []
  nonblock := true
  writable := true

theorem getrec_reassembles_smallRecord :
    Reassembles [true, false, true, false] [smallRecord]
      (listener 100 100 zeroHost 3 headerThenBody) :=
  getrec_reassembles 100 100 zeroHost 3 headerThenBody [smallRecord] [true, false, true, false]
    (by decide) (by decide) (fun _ _ => rfl) rfl (by decide) (by decide)
    (by simp [smallRecord, Record.frags]) (by simp [smallRecord, Record.frags, Record.body])
    (by decide) (by decide)

/-- The same record with nothing there between its header and its body. -/
def bodyLate : Transport where
  arrivals := [.data [0x80, 0, 0, 3], .data [], .data [1, 2, 3]]
  written := []
  nonblock := true
  writable := true

/-- The call that finds the header dies for want of the body. -/
theorem not_reassembles_bodyLate :
    ¬ ∀ (sendsize recvsize : BitVec 32) (host : Host) (maxrec : Nat) (line : Transport)
        (rs : List Record) (calls : List Bool), 0 < maxrec → maxrec < 2 ^ 31 →
      (∀ n ≤ maxrec, host.reallocs n = true) → line.nonblock = true →
      Arrival.error ∉ line.arrivals → Transport.bytes line.arrivals = wire rs →
      (∀ r ∈ rs, ∀ f ∈ r.frags, f.body ≠ []) → (∀ r ∈ rs, r.body.length ≤ maxrec) →
      CallsMeet Honest calls (listener sendsize recvsize host maxrec line) →
      Reassembles calls rs (listener sendsize recvsize host maxrec line) := by
  intro h
  have hRun := h 100 100 zeroHost 3 bodyLate [smallRecord] [true] (by decide) (by decide)
    (fun _ _ => rfl) rfl (by decide) (by decide) (by simp [smallRecord, Record.frags])
    (by simp [smallRecord, Record.frags, Record.body]) (by decide)
  have hDied : (getrec true (listener 100 100 zeroHost 3 bodyLate)).1 = (false, .died) := by
    decide
  simp only [Reassembles, hDied, Bool.false_eq_true, if_false] at hRun
  exact hRun.1 rfl

end OncRpc.RecStrm
