import OncRpc.Rec.Getrec
import OncRpc.Rec.RoundTrip

/-! The encoder of the library against its non-blocking decoder. A record that has
been encoded is accepted on every schedule if and only if none of its fragments was
closed empty. -/
namespace OncRpc.RecStrm

open Fallible RecordMarking

variable {host : Host} {maxrec : Nat}

/-- The stream after some calls of `__xdrrec_getrec`. -/
def runGetrec : List Bool → RecStrm → RecStrm
  | [], s => s
  | expectdata :: calls, s => runGetrec calls (getrec expectdata s).2

/-- A new stream in non-blocking mode. -/
def listener (sendsize recvsize : BitVec 32) (host : Host) (maxrec : Nat) (line : Transport) :
    RecStrm :=
  setNonblock maxrec (xdrrecCreate sendsize recvsize host line)

theorem atHeader_listener (sendsize recvsize : BitVec 32) {line : Transport}
    {todo : List Fragment} (hMax : 0 < maxrec) (hInt : maxrec < 2 ^ 31)
    (hLine : line.nonblock = true) (hBytes : Transport.bytes line.arrivals = encodeAll todo) :
    AtHeader host maxrec 0 todo (listener sendsize recvsize host maxrec line) where
  nonblock := rfl
  line := hLine
  haveheader := rfl
  header_length := rfl
  lastFrag := rfl
  base_length := length_malloc host _
  host_eq := rfl
  maxrec_eq := by
    show (if (maxrec : Int) = 0 then _ else (maxrec : Int)) = _
    rw [if_neg (by omega)]
  maxrec_int := hInt
  hdrlen_eq := rfl
  hdrlen_lt := Nat.zero_lt_succ 3
  reclen_eq := rfl
  received_eq := rfl
  input_eq := hBytes

/-- No call refuses a header of `wire`, however the bytes arrive, whatever is said
about them in advance, and whatever the stream is made of. -/
def NeverRefused (maxrec : Nat) (wire : List UInt8) : Prop :=
  ∀ (sendsize recvsize : BitVec 32) (host : Host) (line : Transport) (calls : List Bool),
    line.nonblock = true → Transport.bytes line.arrivals = wire →
    ¬ (runGetrec calls (listener sendsize recvsize host maxrec line)).Refuses

/-- What is still to come will not be refused, if it is ever looked at. -/
def Acceptable (host : Host) (maxrec : Nat) (s : RecStrm) : Prop :=
  (∃ k todo, AtHeader host maxrec k todo s ∧
    ∀ f ∈ todo, f.body ≠ [] ∧ f.body.length ≤ maxrec) ∨ Stuck host maxrec s

theorem Acceptable.call {s : RecStrm} (h : Acceptable host maxrec s) (expectdata : Bool) :
    ¬ s.Refuses ∧ Acceptable host maxrec (getrec expectdata s).2 := by
  rcases h with ⟨k, todo, hAt, hTodo⟩ | hStuck
  · rcases hAt.call expectdata with ⟨hNone, -, -, -, -, k', hAt'⟩ | ⟨f, rest, s₁, rfl, hHeader, hBehind⟩
    · refine ⟨?_, Or.inl ⟨k', todo, hAt', hTodo⟩⟩
      rintro ⟨s₁, hSome, -⟩
      rw [hNone] at hSome
      cases hSome
    · obtain ⟨hBody, hMax⟩ := hTodo f List.mem_cons_self
      constructor
      · rintro ⟨s₁', hSome, hRefused⟩
        rw [hHeader] at hSome
        cases hSome
        rcases hBehind.refused_iff.mp hRefused with hNil | hLong
        · exact hBody hNil
        · omega
      · rw [getrec_completes hHeader]
        rcases hBehind.step hBody hMax expectdata with
          ⟨s', hRun, hDone, -⟩ | ⟨-, xstat, s', hRun, hStuck⟩
        · rw [hRun]
          exact Or.inl ⟨0, rest, hDone.toAtHeader, fun g hg => hTodo g (List.mem_cons_of_mem f hg)⟩
        · rw [hRun]
          exact Or.inr hStuck
  · obtain ⟨hNone, hRun⟩ := hStuck.call expectdata
    refine ⟨?_, Or.inr (by rwa [hRun])⟩
    rintro ⟨s₁, hSome, -⟩
    rw [hNone] at hSome
    cases hSome

/-- The induction is on the calls. -/
theorem Acceptable.run (calls : List Bool) {s : RecStrm} (h : Acceptable host maxrec s) :
    Acceptable host maxrec (runGetrec calls s) := by
  induction calls generalizing s with
  | nil => exact h
  | cons expectdata calls ih => exact ih (h.call expectdata).2

/-- The read that asks for exactly what comes first. -/
theorem readit_data {bs : List UInt8} {rest : List Arrival} {t : Transport} (hNe : bs ≠ [])
    (hArr : t.arrivals = .data bs :: rest) :
    (Transport.readit bs.length).run t = (some bs, { t with arrivals := rest }) := by
  rw [Transport.run_readit (List.length_pos_iff.mpr hNe), hArr]
  simp only [if_neg hNe, List.take_length, Transport.leave, if_pos (le_refl bs.length)]

/-- A fragment that arrives header first and then body is taken by one call. -/
theorem AtHeader.takes {f : Fragment} {todo : List Fragment} {rest : List Arrival} {s : RecStrm}
    (h : AtHeader host maxrec 0 (f :: todo) s) (hBody : f.body ≠ [])
    (hMax : f.body.length ≤ maxrec) (hHost : host.reallocs f.body.length = true)
    (hArr : s.tcp.arrivals = .data (Word.toBytes f.head) :: .data f.body :: rest)
    (expectdata : Bool) :
    AtHeader host maxrec 0 todo (getrec expectdata s).2 ∧
      (getrec expectdata s).2.tcp.arrivals = rest := by
  have hHead : (Transport.readit (4 : Nat)).run s.tcp =
      (some (Word.toBytes f.head), { s.tcp with arrivals := .data f.body :: rest }) :=
    readit_data (List.cons_ne_nil _ _) hArr
  obtain ⟨g, todo', s₁, hTodo, hHeader, hBehind⟩ := h.completes ((readsWhole_iff hHead).mpr rfl)
  cases hTodo
  have hTcp := tcp_of_completesHeader hHeader
  have hAsk : (4 : Int) - s.inHdrlen = ((4 : Nat) : Int) := by
    rw [h.hdrlen_eq]
    rfl
  rw [hAsk, hHead] at hTcp
  have hRead : (Transport.readit f.body.length).run s₁.tcp =
      (some f.body, { s₁.tcp with arrivals := rest }) := readit_data hBody (by rw [hTcp])
  rw [getrec_completes hHeader]
  rcases hBehind.step hBody hMax expectdata with ⟨s', hRun, hDone, hLine⟩ | ⟨hPart, -⟩
  · rw [hRun]
    refine ⟨hDone.toAtHeader, ?_⟩
    show s'.tcp.arrivals = rest
    rw [hLine, hRead]
  · exact absurd ⟨(readsWhole_iff hRead).mpr rfl, hHost⟩ hPart

/-- An empty fragment is refused on the schedule that brings everything in front of
it piece by piece. -/
theorem exists_refusal (todo : List Fragment) (hEmpty : ∃ f ∈ todo, f.body = [])
    (hMax : ∀ f ∈ todo, f.body.length ≤ maxrec) (hHost : ∀ n, host.reallocs n = true) :
    ∃ arrivals calls, Transport.bytes arrivals = encodeAll todo ∧
      ∀ s, AtHeader host maxrec 0 todo s → s.tcp.arrivals = arrivals →
        (runGetrec calls s).Refuses := by
  induction todo with
  | nil =>
      obtain ⟨f, hf, -⟩ := hEmpty
      cases hf
  | cons f todo ih =>
      by_cases hBody : f.body = []
      · refine ⟨[.data (encodeAll (f :: todo))], [], by simp [Transport.bytes], ?_⟩
        intro s hAt hArr
        have hLong : 4 ≤ (encodeAll (f :: todo)).length := by
          rw [encodeAll_cons, List.length_append, Fragment.length_encode]
          omega
        have hNe : encodeAll (f :: todo) ≠ [] := fun hNil => by
          rw [hNil] at hLong
          cases hLong
        have hWhole : ReadsWhole 4 s.tcp := by
          have hRead : (Transport.readit (4 : Nat)).run s.tcp =
              (some ((encodeAll (f :: todo)).take 4),
                { s.tcp with arrivals := Transport.leave (encodeAll (f :: todo)) 4 [] }) := by
            rw [Transport.run_readit (Nat.zero_lt_succ 3), hArr]
            exact if_neg hNe
          exact (readsWhole_iff hRead).mpr (List.length_take_of_le hLong)
        obtain ⟨g, todo', s₁, hTodo, hHeader, hBehind⟩ := hAt.completes hWhole
        cases hTodo
        exact ⟨s₁, hHeader, hBehind.refused_iff.mpr (Or.inl hBody)⟩
      · have hRest : ∃ g ∈ todo, g.body = [] := by
          obtain ⟨g, hg, hNil⟩ := hEmpty
          rcases List.mem_cons.mp hg with rfl | hg
          · exact absurd hNil hBody
          · exact ⟨g, hg, hNil⟩
        obtain ⟨arrivals, calls, hBytes, hRefuse⟩ :=
          ih hRest fun g hg => hMax g (List.mem_cons_of_mem f hg)
        refine ⟨.data (Word.toBytes f.head) :: .data f.body :: arrivals, true :: calls, ?_, ?_⟩
        · simp [Transport.bytes, hBytes, Fragment.encode]
        · intro s hAt hArr
          obtain ⟨hNext, hArr'⟩ :=
            hAt.takes hBody (hMax f List.mem_cons_self) (hHost _) hArr true
          exact hRefuse _ hNext hArr'

/-- Fragments of records that are not too long are never refused if and only if none
of them is empty. -/
theorem neverRefused_iff (hPos : 0 < maxrec) (hInt : maxrec < 2 ^ 31) (rs : List Record)
    (hMax : ∀ r ∈ rs, r.body.length ≤ maxrec) :
    NeverRefused maxrec (encodeAll (rs.flatMap Record.frags)) ↔
      ∀ f ∈ rs.flatMap Record.frags, f.body ≠ [] := by
  have hFrag : ∀ f ∈ rs.flatMap Record.frags, f.body.length ≤ maxrec := by
    intro f hf
    obtain ⟨r, hr, hfr⟩ := List.mem_flatMap.mp hf
    exact (Record.length_le_of_mem_frags hfr).trans (hMax r hr)
  constructor
  · intro h f hf hNil
    obtain ⟨arrivals, calls, hBytes, hRefuse⟩ :=
      @exists_refusal zeroHost _ _ ⟨f, hf, hNil⟩ hFrag fun _ => rfl
    apply h 0 0 zeroHost { arrivals := arrivals, written := [], nonblock := true, writable := true }
      calls rfl hBytes
    exact hRefuse _ (atHeader_listener 0 0 hPos hInt rfl hBytes) rfl
  · intro h sendsize recvsize host line calls hLine hBytes
    have hNew : Acceptable host maxrec (listener sendsize recvsize host maxrec line) :=
      Or.inl ⟨0, _, atHeader_listener sendsize recvsize hPos hInt hLine hBytes,
        fun f hf => ⟨h f hf, hFrag f hf⟩⟩
    exact ((hNew.run calls).call false).1

/-- What the library encodes is accepted by the library if and only if no put and no
end of a record closes an empty fragment. -/
theorem getrec_accepts_encoded (maxrec : Nat) (sendsize recvsize : BitVec 32) (host : Host)
    (rs : List PutRecord) (bodies : List (List UInt8)) (s : RecStrm) (hPos : 0 < maxrec)
    (hInt : maxrec < 2 ^ 31) (hSend : sendsize.toNat ≤ 2 ^ 32 - 4) (hLast : LastSent rs)
    (hRun : (runRecords rs).run (encoder sendsize recvsize host) = (some bodies, s))
    (hBodies : ∀ body ∈ bodies, 1 ≤ body.length ∧ body.length ≤ maxrec) :
    NeverRefused maxrec s.tcp.written ↔
      RecordsMeet PutRecord.Filled rs (encoder sendsize recvsize host) ∧
      RecordsMeet PutRecord.EndFilled rs (encoder sendsize recvsize host) := by
  have hFits := runRecords_fits rs (writing_encoder recvsize host hSend) hLast hRun
  obtain ⟨sent, hSent, hWire, -, hFull⟩ := runRecords_sends rs recvsize host hSend hLast hFits
  rw [hRun] at hSent
  have hSame : bodies = sent.map Record.body := Option.some.inj hSent
  rw [written, hRun] at hWire
  rw [← hFull, hWire]
  apply neverRefused_iff hPos hInt
  intro r hr
  exact (hBodies r.body (hSame ▸ List.mem_map_of_mem hr)).2

/-- A record that a buffer of a hundred bytes holds with room to spare. -/
def shortRecord : List PutRecord := [⟨[.long 7, .bytes [1, 2, 3]], true⟩]

theorem getrec_accepts_encoded_shortRecord :
    NeverRefused 10 ((runRecords shortRecord).run (encoder 100 100 zeroHost)).2.tcp.written :=
  (getrec_accepts_encoded 10 100 100 zeroHost shortRecord [[0, 0, 0, 7, 1, 2, 3]] _
    (by decide) (by decide) (by decide) (fun r h => by cases h; rfl)
    (Prod.ext (by decide) rfl) (by decide)).mpr
      ⟨by decide, by decide⟩

/-- A record whose put fills a buffer of a hundred bytes to the last byte. -/
def fullBuffer : List PutRecord := [⟨[.bytes (List.replicate 96 1)], true⟩]

/-- The put is flushed at once, and the end of the record closes an empty fragment. -/
def fullBufferSent : Record where
  more := [{ body := List.replicate 96 1, last := false, fits := by decide }]
  final := { body := [], last := true, fits := Fragment.fits_nil }
  more_last := by simp
  final_last := Fragment.last_nil

theorem not_getrec_accepts_fullBuffer :
    ¬ ∀ (maxrec : Nat) (sendsize recvsize : BitVec 32) (host : Host) (rs : List PutRecord)
        (bodies : List (List UInt8)) (s : RecStrm), 0 < maxrec → maxrec < 2 ^ 31 →
      sendsize.toNat ≤ 2 ^ 32 - 4 → LastSent rs →
      (runRecords rs).run (encoder sendsize recvsize host) = (some bodies, s) →
      (∀ body ∈ bodies, 1 ≤ body.length ∧ body.length ≤ maxrec) →
      NeverRefused maxrec s.tcp.written := by
  intro h
  have hAns : ((runRecords fullBuffer).run (encoder 100 100 zeroHost)).1 =
      some [List.replicate 96 1] := by decide +kernel
  have hWire : ((runRecords fullBuffer).run (encoder 100 100 zeroHost)).2.tcp.written =
      encodeAll ([fullBufferSent].flatMap Record.frags) := by decide +kernel
  rcases hRun : (runRecords fullBuffer).run (encoder 100 100 zeroHost) with ⟨ans, s⟩
  rw [hRun] at hAns hWire
  obtain rfl : ans = some [List.replicate 96 1] := hAns
  have hNever := h 96 100 100 zeroHost fullBuffer [List.replicate 96 1] s (by decide) (by decide)
    (by decide) (fun r h => by cases h; rfl) hRun (by simp)
  rw [show s.tcp.written = _ from hWire,
    neverRefused_iff (by decide) (by decide) _ (by simp [Record.body, Record.frags, fullBufferSent])]
    at hNever
  exact hNever fullBufferSent.final (by simp [Record.frags]) rfl

end OncRpc.RecStrm
