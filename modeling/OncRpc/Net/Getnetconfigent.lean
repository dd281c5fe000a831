import OncRpc.Net.Netpath

/-! `getnetconfig.c`: the look-up of a netid in any state of the list that is shared, against the
entry of the file that it is meant to find. -/
namespace OncRpc

open CString

/-! ### The look-up -/

/-- What strings take up in a buffer, one behind the other. -/
def stored (ss : List CString) : Nat := (ss.map fun s => s.length + 1).sum

/-- The strings of an entry, in the order in which `dup_ncp` copies them. -/
def NcEntry.strings (ncp : NcEntry) : List CString :=
  ncp.ncNetid :: ncp.ncProtofmly :: ncp.ncProto :: ncp.ncDevice :: ncp.ncLookups

/-- `dup_ncp`: the copy. There is none when the strings do not fit the buffer that it has for
them. -/
def dupNcp (ncp : NcEntry) : Option NcEntry :=
  if stored ncp.strings ≤ maxnetconfigline then some ncp else none

/-- A call of `getnetconfigent`: what it returns, and the state that it leaves. The strings of the
entry are in a buffer of `MAXNETCONFIGLINE` characters, where they were copied or where their line
was read to. -/
def NcState.getnetconfigentCopy (db : NcDb) (netid : Option CString) (s : NcState) :
    Option (Option NcEntry × NcState) :=
  match netid with
  | none => some (none, s)
  | some netid => do
      match ← s.getnetconfigent db netid with
      | none => pure (none, s)
      | some ncp => do
          let p ← dupNcp ncp
          pure (some p, s)

/-! ### What it is meant to find -/

/-- The lines of the file that are not comments. -/
def NcDb.entryLines (db : NcDb) : List CString :=
  match ncopen db with
  | none => []
  | some file => file.entryLines

/-- The entries of the file. A line that does not parse is none. -/
def NcDb.listedEntries (db : NcDb) : List NcEntry := db.entryLines.filterMap parseNcp

/-- The first entry of the file that has the netid. -/
def NcDb.entryWith (db : NcDb) (netid : CString) : Option NcEntry := named db.listedEntries netid

/-- The line has the netid in front of its first blank. -/
def BeginsWith (netid stringp : CString) : Prop :=
  stringp.any isBlank = true ∧ stringp.takeWhile (! isBlank ·) = netid

/-- The first line that begins with the netid reads as the entry, and each line in front of it has
a blank. -/
def Leads (netid : CString) (e : NcEntry) (ls : List CString) : Prop :=
  ∃ front l back, ls = front ++ l :: back ∧ BeginsWith netid l ∧ parseNcp l = some e ∧
    ∀ l' ∈ front, l'.any isBlank = true ∧ ¬ BeginsWith netid l'

/-- The list has an entry with the netid. -/
def NcState.Holds (s : NcState) (netid : CString) : Prop :=
  ∃ vs, Heap.Linked NetconfigList.next s.lists s.head vs ∧
    ∃ v ∈ vs, ∃ list, s.lists.read v = some list ∧ list.ncp.ncNetid = netid

/-- Where the look-up finds what it is meant to find. -/
def NcState.Finds (db : NcDb) (s : NcState) (netid : CString) : Prop :=
  s.Holds netid ∨ (s.head.isSome ∧ s.eof = true) ∨
    ∀ e, db.entryWith netid = some e → Leads netid e db.entryLines

/-! ### The strings of an entry are in its line -/

/-- What is left of a line for `strtok_r`, with the null at its end. -/
def roomLeft (lasts : Option CString) : Nat := (lasts.map fun s => s.length + 1).getD 0

@[simp] theorem stored_cons (s : CString) (ss : List CString) :
    stored (s :: ss) = s.length + 1 + stored ss := rfl

theorem strtokR_room {lasts lasts' : Option CString} {tokenp : CString}
    (h : strtokR lasts = some (tokenp, lasts')) :
    tokenp.length + 1 + roomLeft lasts' ≤ roomLeft lasts := by
  cases lasts with
  | none => cases h
  | some s =>
      have hSkipped := (List.dropWhile_suffix (p := isBlank) (l := s)).length_le
      have hSplit := congrArg List.length
        (List.takeWhile_append_dropWhile (p := (! isBlank ·)) (l := s.dropWhile isBlank))
      rw [List.length_append] at hSplit
      simp only [strtokR] at h
      split at h
      · cases h
      · obtain ⟨rfl, rfl⟩ := Prod.mk.inj (Option.some.inj h)
        cases hRest : (s.dropWhile isBlank).dropWhile (! isBlank ·) with
        | nil =>
            rw [hRest, List.length_nil] at hSplit
            show _ + 1 + 0 ≤ s.length + 1
            omega
        | cons c rest =>
            rw [hRest, List.length_cons] at hSplit
            show _ + 1 + (rest.length + 1) ≤ s.length + 1
            omega

theorem length_takeOut (s : CString) : (takeOut s).length ≤ s.length := by
  induction s using escapes_induct with
  | nil => exact Nat.le_refl _
  | last => exact Nat.zero_le _
  | lastTwo => exact Nat.le_succ _
  | double e s ih =>
      rw [takeOut_double]
      simp only [List.length_cons]
      omega
  | escaped d s hd ih =>
      rw [takeOut_escaped hd]
      simp only [List.length_cons]
      omega
  | plain c s hc ih =>
      rw [takeOut_cons_of_ne hc]
      simp only [List.length_cons]
      omega

theorem getNextToken_room (token : UInt8) (npp : CString) :
    (getNextToken npp token).1.length + 1 + roomLeft (getNextToken npp token).2 ≤
      npp.length + 1 := by
  induction hLen : npp.length using Nat.strong_induction_on generalizing npp with
  | _ n ih =>
      subst hLen
      rcases exists_first token npp with hNone | ⟨b, rest, hb, rfl⟩
      · rw [getNextToken_of_not_mem hNone]
        exact Nat.le_refl _
      · rw [getNextToken_append hb]
        split
        · next hTaken =>
            have hRest := ih rest.length (by simp; omega) rest rfl
            have hLast : 1 < b.length := hTaken.2.1
            simp only [List.length_append, List.length_cons, List.length_dropLast]
            omega
        · have hBefore := length_takeOut b
          simp only [List.length_append, List.length_cons]
          show (takeOut b).length + 1 + (rest.length + 1) ≤ _
          omega

theorem stored_parseLookups (n : Nat) (tokenp : Option CString) :
    stored (parseLookups n tokenp) ≤ roomLeft tokenp := by
  induction n generalizing tokenp with
  | zero => cases tokenp <;> exact Nat.zero_le _
  | succ n ih =>
      cases tokenp with
      | none => exact Nat.le_refl _
      | some tokenp =>
          have hToken := getNextToken_room 44 tokenp
          have hRest := ih (getNextToken tokenp 44).2
          calc stored ((getNextToken tokenp 44).1 :: parseLookups n (getNextToken tokenp 44).2)
            _ = (getNextToken tokenp 44).1.length + 1 +
                  stored (parseLookups n (getNextToken tokenp 44).2) := stored_cons _ _
            _ ≤ tokenp.length + 1 := by omega

theorem strtokR_of_parseNcp {stringp : CString} {e : NcEntry} (h : parseNcp stringp = some e) :
    ∃ lasts, strtokR (some stringp.dropLast) = some (e.ncNetid, lasts) := by
  obtain ⟨⟨netid, lasts⟩, hNetid, h⟩ := Option.bind_eq_some_iff.mp h
  obtain ⟨_, -, h⟩ := Option.bind_eq_some_iff.mp h
  obtain ⟨_, -, h⟩ := Option.bind_eq_some_iff.mp h
  obtain ⟨_, -, h⟩ := Option.bind_eq_some_iff.mp h
  obtain ⟨_, -, h⟩ := Option.bind_eq_some_iff.mp h
  obtain ⟨_, -, h⟩ := Option.bind_eq_some_iff.mp h
  obtain ⟨_, -, h⟩ := Option.bind_eq_some_iff.mp h
  obtain ⟨_, -, h⟩ := Option.bind_eq_some_iff.mp h
  obtain ⟨_, -, h⟩ := Option.bind_eq_some_iff.mp h
  obtain rfl := Option.some.inj h
  exact ⟨lasts, hNetid⟩

/-- The strings of an entry fit where its line does. -/
theorem stored_strings {stringp : CString} {e : NcEntry} (h : parseNcp stringp = some e) :
    stored e.strings ≤ stringp.length + 1 := by
  simp only [parseNcp, Option.bind_eq_bind, Option.bind_eq_some_iff, Prod.exists] at h
  obtain ⟨netid, lasts₁, hNetid, semantics, lasts₂, hSemantics, _, -, flag, lasts₃, hFlag, _, -,
    protofmly, lasts₄, hProtofmly, proto, lasts₅, hProto, device, lasts₆, hDevice, lookups, lasts₇,
    hLookups, hEntry⟩ := h
  obtain rfl := Option.some.inj hEntry
  have hLine : roomLeft (some stringp.dropLast) ≤ stringp.length + 1 := by
    show stringp.dropLast.length + 1 ≤ _
    rw [List.length_dropLast]
    omega
  have h₁ := strtokR_room hNetid
  have h₂ := strtokR_room hSemantics
  have h₃ := strtokR_room hFlag
  have h₄ := strtokR_room hProtofmly
  have h₅ := strtokR_room hProto
  have h₆ := strtokR_room hDevice
  have h₇ := strtokR_room hLookups
  have hLibraries : stored (if lookups = ascii "-" then []
      else parseLookups (lookups.length + 1) (some lookups)) ≤ lookups.length + 1 := by
    split
    · exact Nat.zero_le _
    · exact stored_parseLookups _ _
  simp only [NcEntry.strings, stored_cons]
  omega

theorem length_takeLine_le (n : Nat) (s : List UInt8) : (takeLine n s).1.length ≤ n := by
  induction n generalizing s with
  | zero => exact Nat.le_refl _
  | succ n ih =>
      cases s with
      | nil => exact Nat.zero_le _
      | cons c s =>
          have hRest := ih s
          simp only [takeLine]
          split <;> simp only [List.length_cons, List.length_nil] <;> omega

theorem length_textLines (text : List UInt8) :
    ∀ l ∈ textLines text, l.length < maxnetconfigline := by
  induction hLen : text.length using Nat.strong_induction_on generalizing text with
  | _ n ih =>
      subst hLen
      by_cases hText : text = []
      · rw [hText, textLines_nil]
        exact fun l hl => absurd hl List.not_mem_nil
      · rw [textLines_of_ne_nil hText]
        intro l hl
        rcases List.mem_cons.mp hl with rfl | hLater
        · have hTaken := length_takeLine_le (maxnetconfigline - 1) text
          have hString : (bufferString (takeLine (maxnetconfigline - 1) text).1).length ≤
              (takeLine (maxnetconfigline - 1) text).1.length :=
            (List.takeWhile_prefix _).length_le
          exact Nat.lt_of_le_of_lt (hString.trans hTaken) (by decide)
        · exact ih _ (takeLine_shrinks (by decide) hText) _ rfl l hLater

theorem length_lines (file : NcFile) : ∀ l ∈ file.lines, l.length < maxnetconfigline := by
  obtain ⟨text, offset⟩ := file
  cases text with
  | some text => exact length_textLines text
  | none =>
      intro l (hl : l ∈ netconfigTable.drop offset)
      have hTable : ∀ l ∈ netconfigTable, l.length < maxnetconfigline := by decide
      exact hTable l (List.mem_of_mem_drop hl)

/-- Each entry of the file fits the buffer of `dup_ncp`. -/
theorem dupNcp_eq {db : NcDb} {e : NcEntry} (he : e ∈ db.listedEntries) : dupNcp e = some e := by
  obtain ⟨l, hLine, hParse⟩ := List.mem_filterMap.mp he
  have hLength : l.length < maxnetconfigline := by
    rw [NcDb.entryLines] at hLine
    cases hOpen : ncopen db with
    | none =>
        rw [hOpen] at hLine
        cases hLine
    | some file =>
        rw [hOpen] at hLine
        exact length_lines file l (List.mem_filter.mp hLine).1
  exact if_pos ((stored_strings hParse).trans hLength)

/-! ### The scan of the file -/

variable {netid l : CString} {ls : List CString} {e : NcEntry}

/-- A line that begins with a netid and reads as an entry is an entry for the netid. -/
theorem ncNetid_of_beginsWith (hBegins : BeginsWith netid l) (hNetid : netid ≠ [])
    (hParse : parseNcp l = some e) : e.ncNetid = netid := by
  have hFlush : l.head?.map isBlank ≠ some true := by
    intro hBlank
    obtain ⟨c, hHead, hc⟩ := Option.map_eq_some_iff.mp hBlank
    obtain ⟨rest, rfl⟩ := List.head?_eq_some_iff.mp hHead
    have hField := hBegins.2
    rw [List.takeWhile_cons, if_neg (by rw [hc]; decide)] at hField
    exact hNetid hField.symm
  exact (netid_of_parseNcp hParse hFlush).2.1.symm.trans hBegins.2

theorem not_leads_nil : ¬ Leads netid e [] := by
  rintro ⟨front, l, back, hAll, -⟩
  cases front <;> cases hAll

theorem leads_cons_iff : Leads netid e (l :: ls) ↔
    (BeginsWith netid l ∧ parseNcp l = some e) ∨
      (l.any isBlank = true ∧ ¬ BeginsWith netid l ∧ Leads netid e ls) := by
  constructor
  · rintro ⟨front, l', back, hAll, hBegins, hParse, hFront⟩
    cases front with
    | nil =>
        obtain ⟨rfl, rfl⟩ := List.cons.inj hAll
        exact Or.inl ⟨hBegins, hParse⟩
    | cons l'' front =>
        obtain ⟨rfl, rfl⟩ := List.cons.inj hAll
        obtain ⟨hBlank, hOther⟩ := hFront l List.mem_cons_self
        exact Or.inr ⟨hBlank, hOther, front, l', back, rfl, hBegins, hParse,
          fun l' hl' => hFront l' (List.mem_cons_of_mem l hl')⟩
  · rintro (⟨hBegins, hParse⟩ | ⟨hBlank, hOther, front, l', back, rfl, hBegins, hParse, hFront⟩)
    · exact ⟨[], l, ls, rfl, hBegins, hParse, fun l' hl' => absurd hl' List.not_mem_nil⟩
    · refine ⟨l :: front, l', back, rfl, hBegins, hParse, fun l'' hl'' => ?_⟩
      rcases List.mem_cons.mp hl'' with rfl | hLater
      · exact ⟨hBlank, hOther⟩
      · exact hFront l'' hLater

/-- The entry that a line leads to is in the file. -/
theorem Leads.exists_mem (h : Leads netid e ls) (hNetid : netid ≠ []) :
    e ∈ ls.filterMap parseNcp ∧ e.ncNetid = netid := by
  obtain ⟨front, l, back, rfl, hBegins, hParse, -⟩ := h
  exact ⟨List.mem_filterMap.mpr ⟨l, by simp, hParse⟩, ncNetid_of_beginsWith hBegins hNetid hParse⟩

/-- Each line takes characters of the file. -/
theorem left_readLineFrom (n : Nat) {file : NcFile} (h : (readLineFrom n file).1 = some l) :
    (readLineFrom n file).2.left < file.left := by
  induction n generalizing file with
  | zero => cases h
  | succ n ih =>
      cases hLines : file.lines with
      | nil =>
          rw [readLineFrom, NcFile.ncgets_eq_none hLines] at h
          cases h
      | cons l' ls =>
          obtain ⟨file', hGets, -, hLeft⟩ := NcFile.ncgets_eq_some hLines
          simp only [readLineFrom, hGets] at h ⊢
          split at h
          · next hComment =>
              rw [if_pos hComment]
              exact (ih h).trans hLeft
          · next hComment =>
              rw [if_neg hComment]
              exact hLeft

/-- The loop over the file stops at the first line that is without a blank or begins with the
netid. -/
theorem findLine_eq_some_iff {n : Nat} {file : NcFile} (hFuel : file.left < n) :
    NcState.findLine netid n file = some e ↔ Leads netid e file.entryLines := by
  induction n generalizing file with
  | zero => cases hFuel
  | succ n ih =>
      obtain ⟨hLine, hRest⟩ := NcFile.readLineFrom_eq (Nat.lt_succ_self file.left)
      have hLeft : ∀ l, (readLineFrom (file.left + 1) file).1 = some l →
          (readLineFrom (file.left + 1) file).2.left < file.left := fun _ => left_readLineFrom _
      change (readLine file).1 = _ at hLine
      change (readLine file).2.entryLines = _ at hRest
      change ∀ l, (readLine file).1 = some l → (readLine file).2.left < _ at hLeft
      rw [NcState.findLine]
      generalize readLine file = read at *
      obtain ⟨line, file'⟩ := read
      cases hLines : file.entryLines with
      | nil =>
          rw [hLines] at hLine
          obtain rfl : line = none := hLine
          exact ⟨fun h => (by cases h), fun h => absurd h not_leads_nil⟩
      | cons l ls =>
          rw [hLines] at hLine hRest
          obtain rfl : line = some l := hLine
          obtain rfl : file'.entryLines = ls := hRest
          have hLater := ih (Nat.lt_of_lt_of_le (hLeft l rfl) (Nat.le_of_lt_succ hFuel))
          have hSolid : l.all (! isBlank ·) = ! l.any isBlank := by
            rw [List.not_any_eq_all_not]
          rw [leads_cons_iff]
          simp only [hSolid]
          by_cases hBlank : l.any isBlank = true
          · by_cases hField : l.takeWhile (! isBlank ·) = netid
            · have hBegins : BeginsWith netid l := ⟨hBlank, hField⟩
              simp [hBlank, hField, hBegins]
            · have hOther : ¬ BeginsWith netid l := fun hBegins => hField hBegins.2
              simp only [hBlank, hField, hOther]
              simpa using hLater
          · have hOther : ¬ BeginsWith netid l := fun hBegins => hBlank hBegins.1
            simp [hBlank, hOther]

/-! ### The list that is shared -/

/-- The list holds a netid when one of the first entries of the file has it. -/
theorem Listed.holds_iff (netid : CString) {E : List NcEntry} {vs : List Nat} {s : NcState}
    (h : Listed E vs s.head s.tail s.lists) :
    s.Holds netid ↔ (named (E.take vs.length) netid).isSome := by
  rw [named, List.find?_isSome]
  constructor
  · rintro ⟨vs', hLinked, v, hv, list, hRead, hNetid⟩
    obtain rfl := h.linked.unique hLinked
    obtain ⟨i, hi⟩ := List.mem_iff_getElem?.mp hv
    obtain ⟨e, hEntry, hNode⟩ := h.node hi
    obtain rfl := Option.some.inj (hRead.symm.trans hNode)
    have hLt : i < vs.length := (List.getElem?_eq_some_iff.mp hi).1
    refine ⟨e, List.mem_of_getElem? (i := i) ?_, decide_eq_true hNetid⟩
    rw [List.getElem?_take_of_lt hLt, hEntry]
  · rintro ⟨e, hMem, hNetid⟩
    obtain ⟨i, hi⟩ := List.mem_iff_getElem?.mp hMem
    have hLt : i < vs.length := by
      have hShort := (List.getElem?_eq_some_iff.mp hi).1
      rw [List.length_take] at hShort
      omega
    rw [List.getElem?_take_of_lt hLt] at hi
    obtain ⟨e', hEntry, hNode⟩ := h.node (List.getElem?_eq_getElem hLt)
    obtain rfl := Option.some.inj (hi.symm.trans hEntry)
    exact ⟨vs, h.linked, _, List.getElem_mem hLt, _, hNode, of_decide_eq_true hNetid⟩

/-- The list has the first entries of the file, and what is left of the file the others. -/
structure Filled (E : List NcEntry) (vs : List Nat) (s : NcState) : Prop where
  listed : Listed E vs s.head s.tail s.lists
  closed : s.ncFile = none → vs = [] ∧ s.eof = false
  rest : ∀ {f}, s.ncFile = some f → f.entryLines.filterMap parseNcp = E.drop vs.length
  eof : s.eof = true → vs.length = E.length

namespace Filled

variable {E : List NcEntry} {vs : List Nat} {s s' : NcState} {db : NcDb}

theorem init (E : List NcEntry) : Filled E [] NcState.init where
  listed := Listed.nil Heap.empty
  closed := fun _ => ⟨rfl, rfl⟩
  rest := fun h => by cases h
  eof := fun h => by cases h

theorem setnetconfig (h : Filled db.listedEntries vs s) :
    Filled db.listedEntries vs (s.setnetconfig db).2 := by
  rw [NcState.setnetconfig]
  cases hFile : s.ncFile with
  | some f =>
      exact ⟨h.listed, fun hClosed => (by cases hClosed), fun hSame => h.rest (hFile.trans hSame),
        h.eof⟩
  | none =>
      cases hOpen : ncopen db with
      | none => exact h
      | some f =>
          obtain ⟨rfl, -⟩ := h.closed hFile
          refine ⟨h.listed, fun hClosed => (by cases hClosed), ?_, h.eof⟩
          rintro f' ⟨⟩
          rw [List.length_nil, List.drop_zero, NcDb.listedEntries, NcDb.entryLines, hOpen]

theorem withVars (h : Filled E vs s) (vars : Heap NetconfigVars) :
    Filled E vs { s with vars := vars } := ⟨h.listed, h.closed, h.rest, h.eof⟩

/-- A line that is read is put at the end of the list if it parses. -/
theorem readEntry {p : Nat} {v : NetconfigVars} {f : NcFile} {r : Option NcEntry}
    (h : Filled E vs s) (hFile : s.ncFile = some f) (hEof : s.eof = false)
    (hRun : s.readEntry p v f = some (r, s')) : ∃ vs', Filled E vs' s' := by
  have hLines := h.rest hFile
  obtain ⟨hLine, hLeft⟩ := NcFile.readLineFrom_eq (Nat.lt_succ_self f.left)
  have hLe := h.listed.length_le
  change (readLine f).1 = _ at hLine
  change (readLine f).2.entryLines = _ at hLeft
  rw [NcState.readEntry] at hRun
  generalize readLine f = read at *
  obtain ⟨line, f'⟩ := read
  cases hEntries : f.entryLines with
  | nil =>
      rw [hEntries] at hLine hLeft hLines
      obtain rfl : line = none := hLine
      have hAll : E.length ≤ vs.length := List.drop_eq_nil_iff.mp hLines.symm
      obtain ⟨-, rfl⟩ := Prod.mk.inj (Option.some.inj hRun)
      refine ⟨vs, h.listed, fun hClosed => (by cases hClosed), ?_, fun _ => by omega⟩
      rintro f'' ⟨⟩
      have hNil : f'.entryLines = [] := hLeft
      rw [hNil, ← hLines]
  | cons l ls =>
      rw [hEntries] at hLine hLeft hLines
      obtain rfl : line = some l := hLine
      have hRest : f'.entryLines = ls := hLeft
      cases hParse : parseNcp l with
      | none =>
          simp only [hParse] at hRun
          obtain ⟨-, rfl⟩ := Prod.mk.inj (Option.some.inj hRun)
          refine ⟨vs, h.listed, fun hClosed => (by cases hClosed), ?_, h.eof⟩
          rintro f'' ⟨⟩
          rw [hRest, ← hLines, List.filterMap_cons_none hParse]
      | some e =>
          rw [List.filterMap_cons_some hParse] at hLines
          have hEntry : E[vs.length]? = some e := by
            rw [← List.head?_drop, ← hLines]
            rfl
          obtain ⟨head, tail, lists, hAppend, hListed⟩ := Listed.append
            (s := { s with ncFile := some f' }) h.listed hEntry
          simp only [hParse, hAppend, Option.bind_eq_bind, Option.bind_some] at hRun
          obtain ⟨vars, -, hRun⟩ := Option.bind_eq_some_iff.mp hRun
          obtain ⟨-, rfl⟩ := Prod.mk.inj (Option.some.inj hRun)
          refine ⟨_, hListed, fun hClosed => (by cases hClosed), ?_, ?_⟩
          · rintro f'' ⟨⟩
            rw [hRest, List.length_append, List.length_singleton, ← List.drop_drop, ← hLines]
            rfl
          · intro (hTrue : s.eof = true)
            rw [hEof] at hTrue
            cases hTrue

theorem getnetconfig {p : Nat} {r : Option NcEntry} (h : Filled E vs s)
    (hRun : s.getnetconfig (some p) = some (r, s')) : ∃ vs', Filled E vs' s' := by
  obtain ⟨eof, ref, head, tail, ncFile, lists, vars⟩ := s
  cases ncFile with
  | none =>
      obtain ⟨-, rfl⟩ := Prod.mk.inj (Option.some.inj hRun)
      exact ⟨vs, h⟩
  | some f =>
      simp only [NcState.getnetconfig, Option.bind_eq_bind] at hRun
      obtain ⟨ncp, -, hRun⟩ := Option.bind_eq_some_iff.mp hRun
      split at hRun
      · obtain ⟨-, rfl⟩ := Prod.mk.inj (Option.some.inj hRun)
        exact ⟨vs, h⟩
      · obtain ⟨⟨ncp, cached⟩, -, hRun⟩ := Option.bind_eq_some_iff.mp hRun
        obtain ⟨vars, -, hRun⟩ := Option.bind_eq_some_iff.mp hRun
        have hKept := h.withVars vars
        cases cached with
        | some list =>
            obtain ⟨-, rfl⟩ := Prod.mk.inj (Option.some.inj hRun)
            exact ⟨vs, hKept⟩
        | none =>
            cases eof with
            | true =>
                obtain ⟨-, rfl⟩ := Prod.mk.inj (Option.some.inj hRun)
                exact ⟨vs, hKept⟩
            | false => exact hKept.readEntry rfl rfl hRun

theorem endnetconfig {p : Nat} {r : Int} (h : Filled E vs s)
    (hRun : s.endnetconfig (some p) = some (r, s')) : ∃ vs', Filled E vs' s' := by
  simp only [NcState.endnetconfig, Option.bind_eq_bind] at hRun
  obtain ⟨ncHandlep, -, hRun⟩ := Option.bind_eq_some_iff.mp hRun
  split at hRun
  · obtain ⟨-, rfl⟩ := Prod.mk.inj (Option.some.inj hRun)
    exact ⟨vs, h⟩
  · obtain ⟨vars, -, hRun⟩ := Option.bind_eq_some_iff.mp hRun
    split at hRun
    · obtain ⟨vars, -, hRun⟩ := Option.bind_eq_some_iff.mp hRun
      obtain ⟨-, rfl⟩ := Prod.mk.inj (Option.some.inj hRun)
      exact ⟨vs, h.listed, h.closed, h.rest, h.eof⟩
    · obtain ⟨lists, -, hRun⟩ := Option.bind_eq_some_iff.mp hRun
      obtain ⟨vars, -, hRun⟩ := Option.bind_eq_some_iff.mp hRun
      obtain ⟨-, rfl⟩ := Prod.mk.inj (Option.some.inj hRun)
      exact ⟨[], Listed.nil lists, fun _ => ⟨rfl, rfl⟩, fun hOpen => (by cases hOpen),
        fun hEof => (by cases hEof)⟩

theorem step {call : NcCall} {r : NcResult} (h : Filled db.listedEntries vs s)
    (hRun : s.step db call = some (r, s')) : ∃ vs', Filled db.listedEntries vs' s' := by
  cases call with
  | setnetconfig =>
      obtain ⟨-, rfl⟩ := Prod.mk.inj (Option.some.inj hRun)
      exact ⟨vs, h.setnetconfig⟩
  | getnetconfig p =>
      obtain ⟨⟨ncp, s''⟩, hGet, hSame⟩ := Option.map_eq_some_iff.mp hRun
      obtain ⟨-, rfl⟩ := Prod.mk.inj hSame
      exact h.getnetconfig hGet
  | endnetconfig p =>
      obtain ⟨⟨status, s''⟩, hEnd, hSame⟩ := Option.map_eq_some_iff.mp hRun
      obtain ⟨-, rfl⟩ := Prod.mk.inj hSame
      exact h.endnetconfig hEnd

end Filled

theorem NcRun.filled {db : NcDb} {t : NcTrace} {s : NcState} (h : NcRun db t s) :
    ∃ vs, Filled db.listedEntries vs s := by
  induction h with
  | init => exact ⟨[], Filled.init _⟩
  | step _ _ hLast ih =>
      obtain ⟨vs, hFilled⟩ := ih
      exact hFilled.step hLast

/-! ### The list, the file, and what is found -/

section Lookup

variable {db : NcDb} {t : NcTrace} {s : NcState} {vs : List Nat}

theorem ncNetid_ne_nil {stringp : CString} (h : parseNcp stringp = some e) : e.ncNetid ≠ [] := by
  obtain ⟨lasts, hFirst⟩ := strtokR_of_parseNcp h
  rw [strtokR] at hFirst
  split at hFirst
  · cases hFirst
  · next hSome =>
      obtain ⟨c, rest, hRest⟩ := List.exists_cons_of_ne_nil hSome
      have hc := List.head?_dropWhile_not isBlank stringp.dropLast
      rw [hRest] at hFirst hc
      have hSolid : (! isBlank c) = true := by simpa using hc
      obtain ⟨hToken, -⟩ := Prod.mk.inj (Option.some.inj hFirst)
      rw [← hToken, List.takeWhile_cons, if_pos hSolid]
      exact List.cons_ne_nil _ _

theorem entryWith_nil (db : NcDb) : db.entryWith [] = none := by
  rw [NcDb.entryWith, named, List.find?_eq_none]
  intro e he
  obtain ⟨l, -, hParse⟩ := List.mem_filterMap.mp he
  simpa using ncNetid_ne_nil hParse

/-- The look-up in the file. -/
theorem findLine_bind_iff (db : NcDb) :
    ((ncopen db).bind fun file => NcState.findLine netid (file.left + 1) file) = some e ↔
      Leads netid e db.entryLines := by
  rw [NcDb.entryLines]
  cases ncopen db with
  | none => exact ⟨fun h => (by cases h), fun h => absurd h not_leads_nil⟩
  | some file => exact findLine_eq_some_iff (Nat.lt_succ_self file.left)

theorem mem_of_findLine (hNetid : netid ≠ [])
    (h : ((ncopen db).bind fun file => NcState.findLine netid (file.left + 1) file) = some e) :
    e ∈ db.listedEntries ∧ e.ncNetid = netid :=
  ((findLine_bind_iff db).mp h).exists_mem hNetid

/-- The file leads to nothing that is not in it. -/
theorem findLine_bind_eq_iff (hNetid : netid ≠ []) :
    ((ncopen db).bind fun file => NcState.findLine netid (file.left + 1) file) =
        db.entryWith netid ↔
      ∀ e, db.entryWith netid = some e → Leads netid e db.entryLines := by
  constructor
  · intro hSame e hEntry
    exact (findLine_bind_iff db).mp (hSame.trans hEntry)
  · intro hLeads
    cases hEntry : db.entryWith netid with
    | some e => exact (findLine_bind_iff db).mpr (hLeads e hEntry)
    | none =>
        rw [Option.eq_none_iff_forall_ne_some]
        intro e hFound
        obtain ⟨hMem, hSame⟩ := mem_of_findLine hNetid hFound
        exact List.find?_eq_none.mp hEntry e hMem (decide_eq_true hSame)

theorem getnetconfigentCopy_of_mem {r : Option NcEntry}
    (hFound : s.getnetconfigent db netid = some r) (hMem : ∀ e, r = some e → e ∈ db.listedEntries) :
    s.getnetconfigentCopy db (some netid) = some (r, s) := by
  rw [NcState.getnetconfigentCopy, hFound]
  cases r with
  | none => rfl
  | some e =>
      simp only [Option.bind_eq_bind, Option.bind_some, dupNcp_eq (hMem e rfl)]
      rfl

/-- What the look-up returns: an entry that was read already, or nothing if all of them were, or
else what the file leads to. -/
theorem Filled.getnetconfigent_eq (h : Filled db.listedEntries vs s) (hNetid : netid ≠ []) :
    s.getnetconfigent db netid =
      some ((named (db.listedEntries.take vs.length) netid).or
        (if s.head.isSome ∧ s.eof = true then none
         else (ncopen db).bind fun file => NcState.findLine netid (file.left + 1) file)) := by
  have hList := findCached_eq (i := 0) h.listed netid
    (Nat.le_trans (h.listed.linked.length_le h.listed.nodup) (Nat.le_add_left _ _))
  rw [← List.head?_eq_getElem?, ← h.listed.head, List.drop_zero] at hList
  unfold NcState.getnetconfigent
  rw [if_neg hNetid, hList]
  simp only [Option.bind_eq_bind, Option.bind_some]
  cases named (db.listedEntries.take vs.length) netid with
  | some e => rfl
  | none =>
      dsimp only
      split
      · rfl
      · cases ncopen db <;> rfl

/-- The look-up touches no memory that is not its own, and finds what it is meant to find just
where `Finds` says. -/
theorem getnetconfigent_eq_iff (hRun : NcRun db t s) (netid : Option CString) :
    ∃ r, s.getnetconfigentCopy db netid = some (r, s) ∧
      (r = netid.bind db.entryWith ↔ ∀ id, netid = some id → s.Finds db id) := by
  obtain ⟨vs, hFilled⟩ := hRun.filled
  cases netid with
  | none => exact ⟨none, rfl, fun _ id hid => (by cases hid), fun _ => rfl⟩
  | some netid =>
      by_cases hNetid : netid = []
      · subst hNetid
        refine ⟨none, rfl, fun _ id hid => ?_, fun _ => (entryWith_nil db).symm⟩
        obtain rfl := Option.some.inj hid
        refine Or.inr (Or.inr fun e hEntry => ?_)
        rw [entryWith_nil] at hEntry
        cases hEntry
      · have hHolds := hFilled.listed.holds_iff netid
        have hFound := hFilled.getnetconfigent_eq hNetid
        have hSplit : db.entryWith netid = (named (db.listedEntries.take vs.length) netid).or
            (named (db.listedEntries.drop vs.length) netid) := by
          rw [named, named, ← List.find?_append, List.take_append_drop, NcDb.entryWith, named]
        have hOnly : (∀ id, some netid = some id → s.Finds db id) ↔ s.Finds db netid :=
          ⟨fun h => h netid rfl, fun h id hid => Option.some.inj hid ▸ h⟩
        rw [hOnly, Option.bind_some]
        cases hListed : named (db.listedEntries.take vs.length) netid with
        | some e =>
            rw [hListed, Option.some_or] at hFound hSplit
            rw [hListed] at hHolds
            refine ⟨some e, getnetconfigentCopy_of_mem hFound fun e' he' => ?_,
              fun _ => Or.inl (hHolds.mpr rfl), fun _ => hSplit.symm⟩
            obtain rfl := Option.some.inj he'
            exact List.mem_of_mem_take (List.mem_of_find?_eq_some hListed)
        | none =>
            rw [hListed, Option.none_or] at hFound hSplit
            rw [hListed] at hHolds
            by_cases hAll : s.head.isSome ∧ s.eof = true
            · have hNone : db.listedEntries.drop vs.length = [] :=
                List.drop_eq_nil_of_le (Nat.le_of_eq (hFilled.eof hAll.2).symm)
              rw [if_pos hAll] at hFound
              rw [hNone] at hSplit
              exact ⟨none, getnetconfigentCopy_of_mem hFound fun e' he' => (by cases he'),
                fun _ => Or.inr (Or.inl hAll), fun _ => hSplit.symm⟩
            · rw [if_neg hAll] at hFound
              refine ⟨_, getnetconfigentCopy_of_mem hFound fun e he =>
                (mem_of_findLine hNetid he).1, ?_⟩
              rw [findLine_bind_eq_iff hNetid]
              constructor
              · exact fun hLeads => Or.inr (Or.inr hLeads)
              · rintro (hHeld | hEnd | hLeads)
                · cases hHolds.mp hHeld
                · exact absurd hEnd hAll
                · exact hLeads

/-- A session of which the first entry is in the list, and a netid that is not. -/
theorem getnetconfigent_eq_iff_table :
    ∃ t s, NcRun tableDb t s ∧ t.length = 2 ∧
      ∃ r, s.getnetconfigentCopy tableDb (some (ascii "tcp")) = some (r, s) ∧
        (r = (some (ascii "tcp")).bind tableDb.entryWith ↔
          ∀ id, some (ascii "tcp") = some id → s.Finds tableDb id) := by
  have hFirst : NcRun tableDb ([] ++ [(.setnetconfig, .handle (some 0))]) _ :=
    NcRun.step NcRun.init trivial rfl
  have hGet : NcRun tableDb ([] ++ [(.setnetconfig, .handle (some 0))] ++
      [(.getnetconfig 0, .entry tableEntries[0]?)]) _ :=
    NcRun.step hFirst ⟨List.mem_cons_self, by simp⟩ (by with_unfolding_all rfl)
  exact ⟨_, _, hGet, rfl, getnetconfigent_eq_iff hGet (some (ascii "tcp"))⟩

/-- A file with one entry, in front of which there is a blank. -/
def indentedDb : NcDb where
  text := some (ascii " udp tpi_clts v inet udp - -\n")
  win32 := false

/-- The look-up in the file takes the empty text in front of the blank for the netid. -/
theorem not_getnetconfigent_eq : ¬ ∀ (db : NcDb) (t : NcTrace) (s : NcState), NcRun db t s →
    ∀ netid : Option CString,
      s.getnetconfigentCopy db netid = some (netid.bind db.entryWith, s) := by
  intro h
  have hRun := h indentedDb [] NcState.init NcRun.init (some (ascii "udp"))
  have hText : ascii " udp tpi_clts v inet udp - -\n" =
      [ascii " udp tpi_clts v inet udp - -"].flatMap (· ++ [10]) := by decide
  have hLines : indentedDb.entryLines = [ascii " udp tpi_clts v inet udp - -\n"] := by
    show (textLines (ascii " udp tpi_clts v inet udp - -\n")).filter (! isComment ·) = _
    rw [hText, textLines_flatMap _ (by decide)]
    decide
  have hEntry : (indentedDb.entryWith (ascii "udp")).isSome = true := by
    rw [NcDb.entryWith, NcDb.listedEntries, hLines]
    decide
  have hFound : (NcState.init.getnetconfigentCopy indentedDb (some (ascii "udp"))).map Prod.fst =
      some none := by decide
  rw [hRun] at hFound
  have hNone : indentedDb.entryWith (ascii "udp") = none := Option.some.inj hFound
  rw [hNone] at hEntry
  cases hEntry

end Lookup
end OncRpc
