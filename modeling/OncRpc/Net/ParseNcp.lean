import Mathlib.Data.List.TakeWhile
import OncRpc.Rpc.Address

/-! `getnetconfig.c`: the lines of `/etc/netconfig`, and what `parse_ncp` makes of them. -/
namespace OncRpc

open CString

/-- `MAXNETCONFIGLINE`. -/
def maxnetconfigline : Nat := 1000

/-- `nc_semantics`: `NC_TPI_CLTS`, `NC_TPI_COTS`, `NC_TPI_COTS_ORD`, `NC_TPI_RAW`. -/
def ncTpiClts : BitVec 32 := 1
def ncTpiCots : BitVec 32 := 2
def ncTpiCotsOrd : BitVec 32 := 3
def ncTpiRaw : BitVec 32 := 4

/-- `nc_flag`: `NC_NOFLAG`, `NC_VISIBLE`, `NC_BROADCAST`. -/
def ncNoflag : BitVec 32 := 0
def ncVisible : BitVec 32 := 1
def ncBroadcast : BitVec 32 := 2

/-- `struct netconfig` as `parse_ncp` fills it. `nc_nlookups` is the number of lookups. -/
structure NcEntry extends Netconfig where
  ncSemantics : BitVec 32
  ncFlag : BitVec 32
  ncDevice : CString
  ncLookups : List CString
  deriving DecidableEq, Repr

/-! ### Tokens -/

/-- `"\t "`. -/
def isBlank (c : UInt8) : Bool := decide (c = 9 ∨ c = 32)

/-- `strtok_r` with blanks: the token, and `*lasts`. -/
def strtokR : Option CString → Option (CString × Option CString)
  | none => none
  | some s =>
      let s := s.dropWhile isBlank
      if s = [] then none
      else some (s.takeWhile (! isBlank ·), (s.dropWhile (! isBlank ·)).tail?)

/-- The backslash. -/
def backslash : UInt8 := 92

/-- The last loop of `_get_next_token`: backslashes are taken out, with a bound on their number. -/
def unescapeFrom : Nat → CString → CString
  | 0, ep => ep
  | n + 1, ep =>
      match ep.dropWhile (· ≠ backslash) with
      | [] => ep
      | _ :: s =>
          let before := ep.takeWhile (· ≠ backslash)
          -- Of two backslashes the second goes. The search goes on behind what moves up.
          let (kept, s) := if s.head? = some backslash then ([backslash], s.tail) else ([], s)
          match s with
          | [] => before ++ kept
          | c :: s => before ++ kept ++ c :: unescapeFrom n s

/-- `_get_next_token`, with a bound on its calls: the token that `npp` is then, and the rest. -/
def getNextTokenFrom (token : UInt8) : Nat → CString → CString × Option CString
  | 0, npp => (npp, none)
  | n + 1, npp =>
      match npp.dropWhile (· ≠ token) with
      | [] => (npp, none)
      | _ :: cp =>
          let before := npp.takeWhile (· ≠ token)
          if before.getLast? = some backslash ∧ 1 < before.length ∧
              before.dropLast.getLast? ≠ some backslash then
            let (rest, ros) := getNextTokenFrom token n cp
            (before.dropLast ++ token :: rest, ros)
          else (unescapeFrom before.length before, some cp)

def getNextToken (npp : CString) (token : UInt8) : CString × Option CString :=
  getNextTokenFrom token (npp.length + 1) npp

/-- The loop of `parse_ncp` over the libraries, with a bound on their number. -/
def parseLookups : Nat → Option CString → List CString
  | _, none => []
  | 0, some _ => []
  | n + 1, some tokenp =>
      let (cp, tokenp) := getNextToken tokenp 44
      cp :: parseLookups n tokenp

/-! ### An entry -/

/-- What stands for a value of `nc_semantics`. -/
def parseSemantics (tokenp : CString) : Option (BitVec 32) :=
  if tokenp = ascii "tpi_cots_ord" then some ncTpiCotsOrd
  else if tokenp = ascii "tpi_cots" then some ncTpiCots
  else if tokenp = ascii "tpi_clts" then some ncTpiClts
  else if tokenp = ascii "tpi_raw" then some ncTpiRaw
  else none

/-- The loop over the flags: `-`, `v` and `b`. -/
def parseFlags (flag : BitVec 32) : CString → Option (BitVec 32)
  | [] => some flag
  | c :: tokenp =>
      if c = 45 then parseFlags flag tokenp
      else if c = 118 then parseFlags (flag ||| ncVisible) tokenp
      else if c = 98 then parseFlags (flag ||| ncBroadcast) tokenp
      else none

/-- `parse_ncp`. The last character goes, whatever it is. -/
def parseNcp (stringp : CString) : Option NcEntry := do
  let (netid, lasts) ← strtokR (some stringp.dropLast)
  let (tokenp, lasts) ← strtokR lasts
  let semantics ← parseSemantics tokenp
  let (tokenp, lasts) ← strtokR lasts
  let flag ← parseFlags ncNoflag tokenp
  let (protofmly, lasts) ← strtokR lasts
  let (proto, lasts) ← strtokR lasts
  let (device, lasts) ← strtokR lasts
  let (tokenp, _) ← strtokR lasts
  pure { ncNetid := netid, ncProtofmly := protofmly, ncProto := proto
         ncSemantics := semantics, ncFlag := flag, ncDevice := device
         ncLookups := if tokenp = ascii "-" then [] else
                       parseLookups (tokenp.length + 1) (some tokenp) }

/-! ### The file -/

/-- `netconfig[]`, which stands in for the file. -/
def netconfigTable : List CString :=
  [ascii "udp6   tpi_clts        v   inet6     udp   -   -\n",
   ascii "tcp6   tpi_cots_ord    v   inet6     tcp   -   -\n",
   ascii "udp    tpi_clts        v   inet      udp   -   -\n",
   ascii "tcp    tpi_cots_ord    v   inet      tcp   -   -\n",
   ascii "local  tpi_cots_ord    -   loopback  -     -   -\n"]

/-- `NCFILE`: what is left of the file if there is one, or the next line of the table. -/
structure NcFile where
  file : Option (List UInt8)
  offset : Nat
  deriving DecidableEq, Repr

/-- `/etc/netconfig` where there is one, and whether the library is that of Windows. -/
structure NcDb where
  text : Option (List UInt8)
  win32 : Bool

/-- `ncopen`, or `fopen` elsewhere. -/
def ncopen (db : NcDb) : Option NcFile :=
  if db.text.isSome ∨ db.win32 then some { file := db.text, offset := 0 } else none

/-- The characters that `fgets` reads, at most `n`, and the rest. -/
def takeLine : Nat → List UInt8 → List UInt8 × List UInt8
  | 0, s => ([], s)
  | _, [] => ([], [])
  | n + 1, c :: s => if c = 10 then ([c], s) else (c :: (takeLine n s).1, (takeLine n s).2)

/-- The string that is in a buffer. -/
def bufferString (buf : List UInt8) : CString := buf.takeWhile (· ≠ 0)

/-- `ncgets` with `MAXNETCONFIGLINE`. -/
def ncgets (stream : NcFile) : Option (CString × NcFile) :=
  match stream.file with
  | some [] => none
  | some text =>
      let (line, rest) := takeLine (maxnetconfigline - 1) text
      some (bufferString line, { stream with file := some rest })
  | none =>
      netconfigTable[stream.offset]?.map fun line =>
        (line, { stream with offset := stream.offset + 1 })

/-- A comment. -/
def isComment (stringp : CString) : Bool := decide (stringp.head? = some 35)

/-- The loop of `getnetconfig` that reads a line, with a bound on its rounds. -/
def readLineFrom : Nat → NcFile → Option CString × NcFile
  | 0, stream => (none, stream)
  | n + 1, stream =>
      match ncgets stream with
      | none => (none, stream)
      | some (stringp, stream) =>
          if isComment stringp then readLineFrom n stream else (some stringp, stream)

/-- Each round takes a character of the file or a line of the table. -/
def NcFile.left (stream : NcFile) : Nat :=
  match stream.file with
  | some text => text.length
  | none => netconfigTable.length - stream.offset

def readLine (stream : NcFile) : Option CString × NcFile :=
  readLineFrom (stream.left + 1) stream

/-! ### The lines and the entries of the file -/

theorem length_takeLine (n : Nat) (s : List UInt8) :
    (takeLine n s).1.length + (takeLine n s).2.length = s.length := by
  induction n generalizing s with
  | zero => simp [takeLine]
  | succ n ih =>
      cases s with
      | nil => rfl
      | cons c s =>
          have hRest := ih s
          simp only [takeLine]
          split <;> simp only [List.length_cons, List.length_nil] <;> omega

theorem takeLine_shrinks {n : Nat} (hn : 0 < n) {s : List UInt8} (hs : s ≠ []) :
    (takeLine n s).2.length < s.length := by
  obtain ⟨n, rfl⟩ := Nat.exists_eq_succ_of_ne_zero (Nat.ne_of_gt hn)
  obtain ⟨c, s, rfl⟩ := List.exists_cons_of_ne_nil hs
  have hRest := length_takeLine n s
  simp only [takeLine]
  split <;> simp only [List.length_cons] <;> omega

/-- The lines of a text, as they are read. -/
def textLines (text : List UInt8) : List CString :=
  if h : text = [] then []
  else
    have := takeLine_shrinks (n := maxnetconfigline - 1) (by decide) h
    bufferString (takeLine (maxnetconfigline - 1) text).1 ::
      textLines (takeLine (maxnetconfigline - 1) text).2
termination_by text.length

@[simp] theorem textLines_nil : textLines [] = [] := by
  rw [textLines, dif_pos rfl]

theorem textLines_of_ne_nil {text : List UInt8} (h : text ≠ []) :
    textLines text = bufferString (takeLine (maxnetconfigline - 1) text).1 ::
      textLines (takeLine (maxnetconfigline - 1) text).2 := by
  rw [textLines, dif_neg h]

theorem takeLine_append {n : Nat} {l : List UInt8} (hNewline : 10 ∉ l) (hShort : l.length < n)
    (s : List UInt8) : takeLine n (l ++ 10 :: s) = (l ++ [10], s) := by
  induction l generalizing n with
  | nil =>
      obtain ⟨n, rfl⟩ := Nat.exists_eq_succ_of_ne_zero (Nat.ne_of_gt hShort)
      simp [takeLine]
  | cons c l ih =>
      obtain ⟨n, rfl⟩ := Nat.exists_eq_succ_of_ne_zero (Nat.ne_of_gt (Nat.zero_lt_of_lt hShort))
      obtain ⟨hc, hl⟩ := not_or.mp (fun h => hNewline (List.mem_cons.mpr h))
      have hRest := ih hl (Nat.lt_of_succ_lt_succ hShort)
      rw [List.cons_append, takeLine, if_neg (Ne.symm hc), hRest, List.cons_append]

/-- A text whose lines fit the buffer is read line by line. -/
theorem textLines_flatMap (ls : List CString)
    (h : ∀ l ∈ ls, 10 ∉ l ∧ 0 ∉ l ∧ l.length + 1 < maxnetconfigline) :
    textLines (ls.flatMap (· ++ [10])) = ls.map (· ++ [10]) := by
  induction ls with
  | nil => simp
  | cons l ls ih =>
      obtain ⟨hNewline, hNull, hShort⟩ := h l List.mem_cons_self
      have hRest := ih fun l' hl' => h l' (List.mem_cons_of_mem l hl')
      have hLine := takeLine_append (n := maxnetconfigline - 1) hNewline (by omega)
        (ls.flatMap (· ++ [10]))
      have hString : bufferString (l ++ [10]) = l ++ [10] := by
        apply List.takeWhile_eq_self_iff.mpr
        intro c hc
        rcases List.mem_append.mp hc with hMem | hMem
        · exact decide_eq_true fun (hZero : c = 0) => hNull (hZero ▸ hMem)
        · rw [List.mem_singleton.mp hMem]
          rfl
      rw [List.flatMap_cons, List.append_assoc, List.singleton_append,
        textLines_of_ne_nil (by simp), hLine, hString, hRest, List.map_cons]

namespace NcFile

/-- The lines that are still to be read. -/
def lines (stream : NcFile) : List CString :=
  match stream.file with
  | some text => textLines text
  | none => netconfigTable.drop stream.offset

/-- The lines that are not comments. -/
def entryLines (stream : NcFile) : List CString := stream.lines.filter (! isComment ·)

end NcFile

/-- The entries of the file, when all of them parse. -/
def NcDb.entries (db : NcDb) : Option (List NcEntry) := do
  let stream ← ncopen db
  stream.entryLines.mapM parseNcp

namespace NcFile

variable {stream : NcFile} {l : CString} {ls : List CString}

theorem ncgets_eq_none (h : stream.lines = []) : ncgets stream = none := by
  obtain ⟨file, offset⟩ := stream
  cases file with
  | none =>
      have hBehind : netconfigTable.length ≤ offset := List.drop_eq_nil_iff.mp h
      simp only [ncgets, List.getElem?_eq_none hBehind, Option.map_none]
  | some text =>
      cases text with
      | nil => rfl
      | cons c text =>
          have hLines : textLines (c :: text) = [] := h
          rw [textLines_of_ne_nil (List.cons_ne_nil c text)] at hLines
          cases hLines

theorem ncgets_eq_some (h : stream.lines = l :: ls) :
    ∃ stream', ncgets stream = some (l, stream') ∧ stream'.lines = ls ∧
      stream'.left < stream.left := by
  obtain ⟨file, offset⟩ := stream
  cases file with
  | none =>
      have hDrop : netconfigTable.drop offset = l :: ls := h
      have hLt : offset < netconfigTable.length := by
        by_contra hBehind
        rw [List.drop_eq_nil_of_le (Nat.not_lt.mp hBehind)] at hDrop
        cases hDrop
      rw [List.drop_eq_getElem_cons hLt, List.cons.injEq] at hDrop
      obtain ⟨hLine, hRest⟩ := hDrop
      refine ⟨{ file := none, offset := offset + 1 }, ?_, hRest, ?_⟩
      · simp only [ncgets, List.getElem?_eq_getElem hLt, Option.map_some, hLine]
      · show netconfigTable.length - (offset + 1) < netconfigTable.length - offset
        omega
  | some text =>
      cases text with
      | nil =>
          have hLines : textLines [] = l :: ls := h
          rw [textLines_nil] at hLines
          cases hLines
      | cons c text =>
          have hText := List.cons_ne_nil c text
          have hLines : textLines (c :: text) = l :: ls := h
          rw [textLines_of_ne_nil hText, List.cons.injEq] at hLines
          obtain ⟨hLine, hRest⟩ := hLines
          refine ⟨{ file := some (takeLine (maxnetconfigline - 1) (c :: text)).2
                    offset := offset }, ?_, hRest, ?_⟩
          · simp only [ncgets, hLine]
          · exact takeLine_shrinks (by decide) hText

/-- Reading a line passes over the comments. -/
theorem readLineFrom_eq {n : Nat} (hFuel : stream.left < n) :
    (readLineFrom n stream).1 = stream.entryLines.head? ∧
      (readLineFrom n stream).2.entryLines = stream.entryLines.tail := by
  induction n generalizing stream with
  | zero => cases hFuel
  | succ n ih =>
      cases hLines : stream.lines with
      | nil => simp [readLineFrom, ncgets_eq_none hLines, entryLines, hLines]
      | cons l ls =>
          obtain ⟨stream', hGets, hRest, hLeft⟩ := ncgets_eq_some hLines
          simp only [readLineFrom, hGets, entryLines, hLines, List.filter_cons]
          cases hComment : isComment l with
          | true =>
              have hLater := ih (Nat.lt_of_lt_of_le hLeft (Nat.le_of_lt_succ hFuel))
              simpa [entryLines, hRest] using hLater
          | false => simp [hRest]

end NcFile
end OncRpc
