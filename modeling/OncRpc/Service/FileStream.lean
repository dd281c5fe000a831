import OncRpc.Base.Journal
import OncRpc.Service.Volumes

/-! The stream of the volumes of a log: one file after another, each of which is removed again if
nothing was written. -/
namespace OncRpc.Service

open Journal

/-- A newline in a text file. -/
def textMode (c : UInt8) : List UInt8 := if c = 10 then [13, 10] else [c]

/-- `FileStream`, the files, and a journal of what has become of them. -/
structure FileStream where
  files : Files CString UInt8
  filename : Option CString
  size : Nat
  blocks : Nat
  journal : List (Note CString UInt8)

namespace FileStream

/-- `sb.st_size`, which is 0 for a file of which `_stat` cannot tell the size. -/
def statSize (text : List UInt8) : Nat := if text.length < 2 ^ 31 then text.length else 0

section Members

variable (s : FileStream)

def note (n : Note CString UInt8) : FileStream := { s with journal := s.journal ++ [n] }

/-- `std::remove`. -/
def remove (path : CString) : FileStream :=
  { s with files := Function.update s.files path none }.note (.removed path)

/-- `close`. -/
def close : FileStream :=
  match s.filename with
  | none => s
  | some path => { if s.size = 0 then s.remove path else s with filename := none }

/-- `open`, where `opens` is whether there is a file then. -/
def openFile (path : CString) (opens : Bool) : FileStream :=
  let s := s.close
  if opens then
    let size := statSize (contents s.files path)
    { s with
      files := Function.update s.files path (some (contents s.files path))
      filename := some path
      size := size
      blocks := if size ≠ 0 then size / 60 else 0 }.note (.opened path)
  else s

/-- `write`. The count is what `fwrite` makes of the length. -/
def write (fwrite : Nat → Nat) (path : CString) (buffer : List UInt8) : Nat × FileStream :=
  let cnt := min (fwrite buffer.length) buffer.length
  let text := contents s.files path ++ (buffer.take cnt).flatMap textMode
  (cnt, { s with files := Function.update s.files path (some text) })

end Members

/-- The loop of `push`. A round writes one byte at least, so that there are no more rounds than
bytes. A `size_t` has `sizeT` values. -/
def pushLoop (sizeT : Nat) (fwrite : Nat → Nat) (path : CString) :
    Nat → List UInt8 → FileStream → FileStream
  | 0, _, s => s
  | rounds + 1, buffer, s =>
      let (cnt, s) := s.write fwrite path buffer
      if cnt = 0 then s
      else
        let s := { s with size := (s.size + cnt) % sizeT }
        if buffer.length - cnt ≠ 0 then pushLoop sizeT fwrite path rounds (buffer.drop cnt) s
        else s

/-- `push`. -/
def push (s : FileStream) (sizeT : Nat) (fwrite : Nat → Nat) (buffer : List UInt8) : FileStream :=
  match s.filename with
  | none => s
  | some path =>
      let s := pushLoop sizeT fwrite path buffer.length buffer s
      { s with blocks := (s.blocks + 1) % sizeT }

/-! ### What is known of a stream -/

/-- `fwrite` writes something. -/
def Writes (fwrite : Nat → Nat) : Prop := ∀ n, 0 < n → 0 < fwrite n

/-- All that has become of the files is what the journal says, only empty files were removed, and a
stream that takes its file to be empty is right. -/
structure Sound (disk : Files CString UInt8) (s : FileStream) : Prop where
  files : s.files = replay textMode disk s.journal
  removed : RemovedEmpty textMode disk s.journal
  size : ∀ path ∈ s.filename, s.size = 0 → contents s.files path = []

section Sound

variable {disk : Files CString UInt8} {s : FileStream}

/-- A loop that writes comes to the end of its buffer. -/
theorem pushLoop_eq {sizeT : Nat} {fwrite : Nat → Nat} (hWrites : Writes fwrite) (path : CString)
    (rounds : Nat) (buffer : List UInt8) (s : FileStream) (hRounds : buffer.length ≤ rounds)
    (hRoom : s.size + buffer.length < sizeT) (hNonempty : buffer ≠ []) :
    pushLoop sizeT fwrite path rounds buffer s =
      { s with
        files := Function.update s.files path
          (some (contents s.files path ++ buffer.flatMap textMode))
        size := s.size + buffer.length } := by
  induction rounds generalizing buffer s with
  | zero => exact absurd (List.length_eq_zero_iff.mp (Nat.le_zero.mp hRounds)) hNonempty
  | succ rounds ih =>
      have hPos := hWrites buffer.length (List.length_pos_of_ne_nil hNonempty)
      have hLength := List.length_pos_of_ne_nil hNonempty
      obtain ⟨cnt, hCnt⟩ : ∃ cnt, cnt = min (fwrite buffer.length) buffer.length := ⟨_, rfl⟩
      have hSome : cnt ≠ 0 := by omega
      have hMost : cnt ≤ buffer.length := by omega
      have hSize : (s.size + cnt) % sizeT = s.size + cnt := Nat.mod_eq_of_lt (by omega)
      simp only [pushLoop, write, ← hCnt, if_neg hSome, hSize]
      by_cases hMore : buffer.length - cnt ≠ 0
      · have hRest : buffer.drop cnt ≠ [] := by
          rw [ne_eq, List.drop_eq_nil_iff]
          omega
        have hParts : (buffer.take cnt).flatMap textMode ++ (buffer.drop cnt).flatMap textMode =
            buffer.flatMap textMode := by
          rw [← List.flatMap_append, List.take_append_drop]
        rw [if_pos hMore, ih _ _ (by rw [List.length_drop]; omega)
          (by rw [List.length_drop]; dsimp only; omega) hRest]
        simp only [contents_update_self, Function.update_idem, List.append_assoc, hParts,
          List.length_drop]
        congr 1
        omega
      · have hAll : cnt = buffer.length := by omega
        rw [if_neg hMore, hAll, List.take_length]

/-- A note that says what has become of the files. -/
theorem Sound.note (h : s.Sound disk) {s' : FileStream} {n : Note CString UInt8}
    (hJournal : s'.journal = s.journal ++ [n]) (hFiles : s'.files = n.apply textMode s.files)
    (hRemoved : ∀ path, n = .removed path → contents s.files path = [])
    (hSize : ∀ path ∈ s'.filename, s'.size = 0 → contents s'.files path = []) :
    s'.Sound disk where
  files := by rw [hJournal, replay_concat, ← h.files, hFiles]
  removed := by
    rw [hJournal, removedEmpty_concat, ← h.files]
    exact ⟨h.removed, hRemoved⟩
  size := hSize

theorem close_of_none (h : s.filename = none) : s.close = s := by
  rw [FileStream.close, h]

theorem close_of_size {path : CString} (h : s.filename = some path) (hSize : s.size ≠ 0) :
    s.close = { s with filename := none } := by
  rw [FileStream.close, h]
  simp only [if_neg hSize]

theorem close_of_empty {path : CString} (h : s.filename = some path) (hSize : s.size = 0) :
    s.close = { s.remove path with filename := none } := by
  rw [FileStream.close, h]
  simp only [if_pos hSize]

/-- Nothing but its name is lost when a stream is closed. -/
theorem Sound.close (h : s.Sound disk) :
    s.close.Sound disk ∧ s.close.filename = none ∧ texts s.close.journal = texts s.journal ∧
      ∀ path, contents s.close.files path = contents s.files path := by
  cases hName : s.filename with
  | none =>
      rw [close_of_none hName]
      exact ⟨h, hName, rfl, fun _ => rfl⟩
  | some path =>
      by_cases hEmpty : s.size = 0
      · have hContents := h.size path hName hEmpty
        rw [close_of_empty hName hEmpty]
        refine ⟨h.note rfl rfl ?_ (fun _ hPath => nomatch hPath), rfl, ?_, fun path' => ?_⟩
        · intro path' hIs
          rw [← Note.removed.inj hIs]
          exact hContents
        · exact (texts_concat s.journal (.removed path)).trans (List.append_nil _)
        · by_cases hSame : path' = path
          · rw [hSame, hContents]
            have hGone : Function.update s.files path none path = none :=
              Function.update_self ..
            exact congrArg (Option.getD · []) hGone
          · have hOther : Function.update s.files path none path' = s.files path' :=
              Function.update_of_ne hSame ..
            exact congrArg (Option.getD · []) hOther
      · rw [close_of_size hName hEmpty]
        exact ⟨⟨h.files, h.removed, fun _ hPath => nomatch hPath⟩, rfl, rfl, fun _ => rfl⟩

/-- A volume is opened behind what is in it. -/
theorem Sound.openFile (h : s.Sound disk) {path : CString}
    (hSmall : (contents s.files path).length < 2 ^ 31) :
    (s.openFile path true).Sound disk ∧ (s.openFile path true).filename = some path ∧
      texts (s.openFile path true).journal = texts s.journal := by
  obtain ⟨hSound, -, hTexts, hContents⟩ := h.close
  rw [← hContents path] at hSmall
  have hSize : statSize (contents s.close.files path) = (contents s.close.files path).length :=
    if_pos hSmall
  unfold FileStream.openFile
  rw [if_pos rfl, hSize]
  refine ⟨hSound.note rfl rfl (fun _ hIs => nomatch hIs) ?_, rfl, ?_⟩
  · intro path' hPath hEmpty
    rw [← Option.some.inj hPath]
    exact (contents_update_self ..).trans (List.length_eq_zero_iff.mp hEmpty)
  · exact (texts_concat s.close.journal (.opened path)).trans
      ((List.append_nil _).trans hTexts)

/-- A text is written whole, to the volume that is open. -/
theorem Sound.push (h : s.Sound disk) {path : CString} (hOpen : s.filename = some path)
    {sizeT : Nat} {fwrite : Nat → Nat} (hWrites : Writes fwrite) {text : List UInt8}
    (hRoom : s.size + text.length < sizeT) (hNonempty : text ≠ []) :
    ((s.push sizeT fwrite text).note (.wrote path text)).Sound disk ∧
      ((s.push sizeT fwrite text).note (.wrote path text)).filename = some path ∧
      texts ((s.push sizeT fwrite text).note (.wrote path text)).journal =
        texts s.journal ++ [text] := by
  have hLoop := pushLoop_eq hWrites path text.length text s (Nat.le_refl _) hRoom hNonempty
  have hPush : s.push sizeT fwrite text =
      { s with
        files := Function.update s.files path
          (some (contents s.files path ++ text.flatMap textMode))
        size := s.size + text.length
        blocks := (s.blocks + 1) % sizeT } := by
    rw [FileStream.push, hOpen]
    simp only [hLoop, hOpen]
  rw [hPush]
  refine ⟨h.note rfl rfl (fun _ hIs => nomatch hIs) ?_, hOpen, texts_concat _ _⟩
  intro path' _ hEmpty
  exact absurd hEmpty (Nat.ne_of_gt (Nat.add_pos_right _ (List.length_pos_of_ne_nil hNonempty)))

end Sound

end FileStream
end OncRpc.Service
