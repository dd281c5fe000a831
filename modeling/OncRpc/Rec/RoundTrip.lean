import OncRpc.Rec.PutRecords
import OncRpc.Rec.ReadScript

/-! The round trip of a blocking stream: what scripts of puts send is what scripts
of reads receive, unless an empty fragment is closed in the middle of a record or a
buffer holds more than an `int` can count. -/
namespace OncRpc.RecStrm

open Fallible RecordMarking

/-- A line on which nothing arrives and everything can be sent. -/
def sendLine : Transport :=
  { arrivals := [], written := [], nonblock := false, writable := true }

/-- A new stream that is going to encode. -/
def encoder (sendsize recvsize : BitVec 32) (host : Host) : RecStrm :=
  xdrrecCreate sendsize recvsize host sendLine

/-- The bytes arrive in pieces, each of at least one byte. -/
def ArrivesAs (wire : List UInt8) (arrivals : List Arrival) : Prop :=
  ∃ pieces : List (List UInt8), (∀ p ∈ pieces, p ≠ []) ∧ pieces.flatten = wire ∧
    arrivals = pieces.map Arrival.data

theorem ArrivesAs.ready_eq {wire : List UInt8} {arrivals : List Arrival}
    (h : ArrivesAs wire arrivals) : Transport.ready arrivals = wire := by
  obtain ⟨pieces, hPieces, rfl, rfl⟩ := h
  induction pieces with
  | nil => rfl
  | cons p pieces ih =>
      obtain ⟨b, bs, rfl⟩ := List.exists_cons_of_ne_nil (hPieces p List.mem_cons_self)
      have hRest := ih fun q hq => hPieces q (List.mem_cons_of_mem _ hq)
      rw [List.map_cons, List.flatten_cons, Transport.ready, hRest]

/-- Bytes can always arrive in one piece. -/
theorem exists_arrivesAs (wire : List UInt8) : ∃ arrivals, ArrivesAs wire arrivals := by
  by_cases hNil : wire = []
  · exact ⟨[], [], by simp, hNil.symm, rfl⟩
  · exact ⟨[.data wire], [wire], by simpa using hNil, by simp, rfl⟩

/-- What a script has sent. -/
def written (rs : List PutRecord) (s : RecStrm) : List UInt8 :=
  ((runRecords rs).run s).2.tcp.written

/-- The round trip of a script. -/
structure RoundTrips (sendsize recvsize : BitVec 32) (host : Host) (rs : List PutRecord) :
    Prop where
  accepted : ((runRecords rs).run (encoder sendsize recvsize host)).1.isSome
  /-- What is sent parses as the records put, and no header is the zero word. -/
  marked : ∃ sent : List Record,
    written rs (encoder sendsize recvsize host) = encodeAll (sent.flatMap Record.frags) ∧
    ((runRecords rs).run (encoder sendsize recvsize host)).1 = some (sent.map Record.body) ∧
    ∀ f ∈ sent.flatMap Record.frags, f.head ≠ 0
  /-- However it arrives, it is read back. -/
  read_back : ∀ bodies,
    ((runRecords rs).run (encoder sendsize recvsize host)).1 = some bodies →
    ∀ (sendsize' : BitVec 32) (host' : Host) (line : Transport), line.nonblock = false →
    ArrivesAs (written rs (encoder sendsize recvsize host)) line.arrivals →
    ∀ scripts, ReadsBack bodies scripts (xdrrecCreate sendsize' recvsize host' line)

/-- The put puts no byte. -/
def PutOp.Void : PutOp → RecStrm → Prop
  | .long _, _ => False
  | .bytes addr, _ => addr = []
  | .inline bs, s => bs = [] ∨ s.outBoundry < s.outFinger + bs.length

/-- The record has no byte. -/
def PutRecord.Void (r : PutRecord) (s : RecStrm) : Prop := OpsMeet PutOp.Void r.ops s

/-- There is nothing to read back: one record at most, and that one empty. -/
def NothingPut (rs : List PutRecord) (s : RecStrm) : Prop :=
  rs.length ≤ 1 ∧ RecordsMeet PutRecord.Void rs s

/-- The condition for the round trip. -/
structure Orderly (sendsize recvsize : BitVec 32) (host : Host) (rs : List PutRecord) :
    Prop where
  fits : RecordsMeet PutRecord.Fits rs (encoder sendsize recvsize host)
  filled : RecordsMeet PutRecord.Filled rs (encoder sendsize recvsize host)
  receivable : recvsize.toNat ≤ 2 ^ 31 - 4 ∨ NothingPut rs (encoder sendsize recvsize host)

theorem writing_encoder {sendsize : BitVec 32} (recvsize : BitVec 32) (host : Host)
    (hSend : sendsize.toNat ≤ 2 ^ 32 - 4) :
    Writing [] [] (encoder sendsize recvsize host) where
  boundry_eq := (length_malloc host _).symm
  boundry_min := le_fixBufSize hSend
  boundry_max := (fixBufSize sendsize).isLt
  finger_eq := rfl
  finger_le := by
    have hMin := le_fixBufSize hSend
    show 4 ≤ (fixBufSize sendsize).toNat
    omega
  closed_eq := rfl
  open_eq := rfl
  room := by
    intro _
    have hMin := le_fixBufSize hSend
    show 4 < (fixBufSize sendsize).toNat
    omega
  writable := rfl

/-- Nothing is put exactly by a put that is void. -/
theorem PutOp.put_eq_nil_iff (op : PutOp) {s s' : RecStrm} {put : List UInt8}
    (hRun : op.run.run s = (some put, s')) : put = [] ↔ op.Void s := by
  cases op with
  | long l =>
      obtain ⟨u, s₁, -, hPure⟩ := exists_of_run_bind hRun
      cases hPure
      exact iff_of_false (List.cons_ne_nil _ _) id
  | bytes addr =>
      obtain ⟨u, s₁, -, hPure⟩ := exists_of_run_bind hRun
      cases hPure
      exact Iff.rfl
  | inline bs =>
      rw [PutOp.run_inline] at hRun
      by_cases hFit : s.outFinger + bs.length ≤ s.outBoundry
      · rw [if_pos hFit] at hRun
        cases hRun
        exact ⟨Or.inl, fun h => h.resolve_right (Nat.not_lt.mpr hFit)⟩
      · rw [if_neg hFit] at hRun
        cases hRun
        exact ⟨fun _ => Or.inr (Nat.not_le.mp hFit), fun _ => rfl⟩

theorem runPuts_eq_nil_iff (ops : List PutOp) {s s' : RecStrm} {put : List UInt8}
    (hRun : (runPuts ops).run s = (some put, s')) : put = [] ↔ OpsMeet PutOp.Void ops s := by
  induction ops generalizing s put with
  | nil =>
      cases hRun
      exact ⟨fun _ => trivial, fun _ => rfl⟩
  | cons op ops ih =>
      obtain ⟨first, s₁, rest, hFirst, hRest, rfl⟩ := exists_of_runPuts hRun
      rw [List.append_eq_nil_iff, op.put_eq_nil_iff hFirst, ih hRest, OpsMeet, hFirst]

theorem length_runRecords (rs : List PutRecord) {s s' : RecStrm} {bodies : List (List UInt8)}
    (hRun : (runRecords rs).run s = (some bodies, s')) : bodies.length = rs.length := by
  induction rs generalizing s bodies with
  | nil =>
      cases hRun
      rfl
  | cons r rs ih =>
      obtain ⟨body, s₁, rest, -, hRest, rfl⟩ := exists_of_runRecords hRun
      rw [List.length_cons, List.length_cons, ih hRest]

/-- A script puts nothing when its records are none, or one without a byte. -/
theorem nothingPut_iff (rs : List PutRecord) {s s' : RecStrm} {bodies : List (List UInt8)}
    (hRun : (runRecords rs).run s = (some bodies, s')) :
    NothingPut rs s ↔ bodies = [] ∨ bodies = [[]] := by
  have hLen := length_runRecords rs hRun
  cases rs with
  | nil =>
      cases hRun
      exact ⟨fun _ => Or.inl rfl, fun _ => ⟨Nat.zero_le 1, trivial⟩⟩
  | cons r rs =>
      obtain ⟨body, s₁, rest, hRecord, hRest, rfl⟩ := exists_of_runRecords hRun
      obtain ⟨s₂, hPuts, -⟩ := PutRecord.exists_of_run hRecord
      have hVoid : body = [] ↔ r.Void s := runPuts_eq_nil_iff r.ops hPuts
      cases rs with
      | nil =>
          cases hRest
          simp [NothingPut, RecordsMeet, hVoid]
      | cons r' rs =>
          obtain ⟨body', s₃, rest', -, -, rfl⟩ := exists_of_runRecords hRest
          simp [NothingPut]

/-- Such a stream reads nothing back but nothing. -/
theorem readsBack_deaf {bodies : List (List UInt8)} (sendsize : BitVec 32) {recvsize : BitVec 32}
    (host : Host) (line : Transport) (hMax : recvsize.toNat ≤ 2 ^ 32 - 4)
    (hBig : 2 ^ 31 - 4 < recvsize.toNat) :
    (∀ scripts, ReadsBack bodies scripts (xdrrecCreate sendsize recvsize host line)) ↔
      bodies = [] ∨ bodies = [[]] := by
  have hNew := deaf_xdrrecCreate sendsize host line hMax hBig
  have hSkip := hNew.skip_ends rfl
  have hDeaf : Deaf { xdrrecCreate sendsize recvsize host line with lastFrag := false } :=
    { hNew with }
  constructor
  · intro h
    rcases bodies with _ | ⟨body, _ | ⟨body', bodies⟩⟩
    · exact Or.inl rfl
    · refine Or.inr ?_
      obtain ⟨-, ⟨t', hAns, -⟩, -⟩ := h [[.bytes 1]]
      rw [hSkip, ReadOp.run, hDeaf.getbytes_fails 0] at hAns
      rw [List.length_eq_zero_iff.mp (Nat.lt_one_iff.mp hAns.1)]
    · obtain ⟨-, -, hNext, -⟩ := h [[], []]
      rw [hSkip, runReads, hDeaf.skip_fails rfl] at hNext
      cases hNext
  · rintro (rfl | rfl) scripts
    · trivial
    · cases scripts with
      | nil => trivial
      | cons ops scripts =>
          rw [ReadsBack, hSkip]
          exact ⟨rfl, (hDeaf.answersAll ops).1, trivial⟩

/-- What a script that fits sends: its records, nothing else. -/
theorem runRecords_sends (rs : List PutRecord) {sendsize : BitVec 32} (recvsize : BitVec 32)
    (host : Host) (hSend : sendsize.toNat ≤ 2 ^ 32 - 4) (hLast : LastSent rs)
    (hFits : RecordsMeet PutRecord.Fits rs (encoder sendsize recvsize host)) :
    ∃ sent : List Record,
      ((runRecords rs).run (encoder sendsize recvsize host)).1 = some (sent.map Record.body) ∧
      written rs (encoder sendsize recvsize host) = encodeAll (sent.flatMap Record.frags) ∧
      ((∀ f ∈ sent.flatMap Record.frags, f.head ≠ 0) ↔
        RecordsMeet PutRecord.Filled rs (encoder sendsize recvsize host)) ∧
      ((∀ f ∈ sent.flatMap Record.frags, f.body ≠ []) ↔
        RecordsMeet PutRecord.Filled rs (encoder sendsize recvsize host) ∧
        RecordsMeet PutRecord.EndFilled rs (encoder sendsize recvsize host)) := by
  obtain ⟨sent, s', hRun, hWriting, hFlushed, hMore, hFinal⟩ :=
    runRecords_emits rs (writing_encoder recvsize host hSend) hFits
  have hHeader : s'.fragHeader = 0 := by
    cases rs with
    | nil =>
        obtain rfl : encoder sendsize recvsize host = s' := congrArg Prod.snd hRun
        rfl
    | cons r rs => exact hFlushed (List.cons_ne_nil r rs) hLast
  have hWire := hWriting.closed_eq
  rw [hHeader, List.take_zero, List.append_nil, List.nil_append] at hWire
  refine ⟨sent, by rw [hRun], by rw [written, hRun, hWire], ?_, ?_⟩
  · rw [← not_iff_not, ← hMore, ← exists_head_eq_zero_iff]
    simp only [ne_eq, not_forall, not_not, exists_prop]
  · rw [← not_iff_not, not_and_or, ← hMore, ← hFinal, ← exists_body_eq_nil_iff]
    simp only [ne_eq, not_forall, not_not, exists_prop]

/-- A script that goes and comes back is orderly: the records on the wire can be
told from its bytes, so an empty fragment inside one would show. -/
theorem RoundTrips.orderly {sendsize recvsize : BitVec 32} {host : Host} {rs : List PutRecord}
    (h : RoundTrips sendsize recvsize host rs) (hSend : sendsize.toNat ≤ 2 ^ 32 - 4)
    (hRecv : recvsize.toNat ≤ 2 ^ 32 - 4) (hLast : LastSent rs) :
    Orderly sendsize recvsize host rs := by
  obtain ⟨bodies, hBodies⟩ := Option.isSome_iff_exists.mp h.accepted
  have hRun : (runRecords rs).run (encoder sendsize recvsize host) =
      (some bodies, ((runRecords rs).run (encoder sendsize recvsize host)).2) :=
    Prod.ext hBodies rfl
  have hFits := runRecords_fits rs (writing_encoder recvsize host hSend) hLast hRun
  obtain ⟨sent, hSent, hWire, hHeads, -⟩ := runRecords_sends rs recvsize host hSend hLast hFits
  obtain ⟨sent', hWire', -, hHeads'⟩ := h.marked
  have hSame := encodeAll_injective (hWire.symm.trans hWire')
  refine ⟨hFits, hHeads.mp (hSame ▸ hHeads'), ?_⟩
  rcases Nat.lt_or_ge (2 ^ 31 - 4) recvsize.toNat with hBig | hSmall
  · obtain ⟨arrivals, hArrives⟩ :=
      exists_arrivesAs (written rs (encoder sendsize recvsize host))
    have hBack := h.read_back bodies hBodies sendsize host { sendLine with arrivals := arrivals }
      rfl hArrives
    rw [readsBack_deaf sendsize host _ hRecv hBig] at hBack
    exact Or.inr ((nothingPut_iff rs hRun).mpr hBack)
  · exact Or.inl hSmall

/-- An orderly script goes and comes back. -/
theorem Orderly.roundTrips {sendsize recvsize : BitVec 32} {host : Host} {rs : List PutRecord}
    (h : Orderly sendsize recvsize host rs) (hSend : sendsize.toNat ≤ 2 ^ 32 - 4)
    (hRecv : recvsize.toNat ≤ 2 ^ 32 - 4) (hLast : LastSent rs) :
    RoundTrips sendsize recvsize host rs := by
  obtain ⟨sent, hSent, hWire, hHeads, -⟩ := runRecords_sends rs recvsize host hSend hLast h.fits
  have hMarked := hHeads.mpr h.filled
  refine ⟨by rw [hSent]; rfl, ⟨sent, hWire, hSent, hMarked⟩, ?_⟩
  intro bodies hBodies sendsize' host' line hBlock hArrives
  obtain rfl : sent.map Record.body = bodies := Option.some.inj (hSent.symm.trans hBodies)
  rcases Nat.lt_or_ge (2 ^ 31 - 4) recvsize.toNat with hBig | hSmall
  · rw [readsBack_deaf sendsize' host' line hRecv hBig]
    have hRun : (runRecords rs).run (encoder sendsize recvsize host) =
        (some (sent.map Record.body),
          ((runRecords rs).run (encoder sendsize recvsize host)).2) := Prod.ext hSent rfl
    exact (nothingPut_iff rs hRun).mp (h.receivable.resolve_left (Nat.not_le.mpr hBig))
  · intro scripts
    have hRead := reading_xdrrecCreate sendsize' host' hSmall hBlock
    rw [hArrives.ready_eq, hWire] at hRead
    exact readsBack_records sent scripts hRead hMarked

/-- A script goes and comes back if and only if it is orderly. -/
theorem xdrrec_round_trip (sendsize recvsize : BitVec 32) (host : Host) (rs : List PutRecord)
    (hSend : sendsize.toNat ≤ 2 ^ 32 - 4) (hRecv : recvsize.toNat ≤ 2 ^ 32 - 4)
    (hLast : LastSent rs) :
    RoundTrips sendsize recvsize host rs ↔ Orderly sendsize recvsize host rs :=
  ⟨fun h => h.orderly hSend hRecv hLast, fun h => h.roundTrips hSend hRecv hLast⟩

/-- Two records that share a buffer of a hundred bytes, the second one cut by it. -/
def sharedBuffer : List PutRecord :=
  [⟨[.long 7, .bytes [1, 2, 3]], false⟩, ⟨[.inline [4, 5, 6, 7], .bytes (List.replicate 90 8)], true⟩]

theorem xdrrec_round_trip_sharedBuffer : RoundTrips 100 100 zeroHost sharedBuffer :=
  (xdrrec_round_trip 100 100 zeroHost sharedBuffer (by decide) (by decide)
    (fun r h => by cases h; rfl)).mpr ⟨by decide +kernel, by decide +kernel, Or.inl (by decide)⟩

/-- A record of 91 bytes leaves room for the next header and for nothing else. -/
def headerAtEnd : List PutRecord :=
  [⟨[.bytes (List.replicate 91 0)], false⟩, ⟨[.long 7], true⟩]

/-- The word behind it is put by sending that header, over nothing: a zero word. -/
theorem not_round_trips_headerAtEnd :
    ¬ ∀ (sendsize recvsize : BitVec 32) (host : Host) (rs : List PutRecord),
      sendsize.toNat ≤ 2 ^ 32 - 4 → recvsize.toNat ≤ 2 ^ 32 - 4 → LastSent rs →
      RoundTrips sendsize recvsize host rs := by
  intro h
  have hTrip := h 100 100 zeroHost headerAtEnd (by decide) (by decide)
    (fun r h => by cases h; rfl)
  have hFilled := (hTrip.orderly (by decide) (by decide) (fun r h => by cases h; rfl)).filled
  revert hFilled
  decide +kernel

end OncRpc.RecStrm
