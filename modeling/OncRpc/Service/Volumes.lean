import Mathlib.Data.List.DropRight
import OncRpc.Base.Scan
import OncRpc.Compat.Timegm

/-! The volumes of a log: how they are named, and which of them are purged. -/
namespace OncRpc.Service.FileStream

open CString Calendar Compat

/-- Of `_YYYYMMDD_HHMMSS.log`. -/
def suffixlen : Nat := 20

/-- `_MAX_PATH`. -/
def MAX_PATH : Nat := 260

/-- A trailing `.log`, in any case, is removed from a longer name. -/
def removeLog (name : CString) : CString :=
  if name.length > 4 ∧ SameCase (name.drop (name.length - 4)) (ascii ".log") then
    name.take (name.length - 4)
  else name

/-- Not among the separators of a path. -/
def inName (c : UInt8) : Bool := c != '/'.toUInt8 && c != '\\'.toUInt8

/-- `split_path`: the directory, and the name with no `.log`. -/
def splitPath (basename : CString) : CString × CString :=
  match basename.rdropWhile inName with
  | [] => (ascii ".", removeLog basename)
  | c :: cs => ((c :: cs).dropLast, removeLog (basename.rtakeWhile inName))

/-- A time stamp, of the texts of its numbers. -/
def spell (year mon mday hour min sec : CString) : CString :=
  '_'.toUInt8 :: (year ++ (mon ++ (mday ++ '_'.toUInt8 :: (hour ++ (min ++ (sec ++
    ascii ".log"))))))

/-- What `_snprintf` makes of a time with `_%04u%02u%02u_%02u%02u%02u.log`. -/
def stamp (tm : Tm) : CString :=
  spell (padded 4 (tm.year + 1900).toNat) (padded 2 (tm.mon + 1).toNat) (padded 2 tm.mday.toNat)
    (padded 2 tm.hour.toNat) (padded 2 tm.min.toNat) (padded 2 tm.sec.toNat)

/-- `generate_log_name`, of the times that `gmtime` knows. -/
def generateLogName (basename : CString) (now : Int) : Option CString :=
  (gmtime now).map fun tm => removeLog basename ++ stamp tm

/-- What `sscanf` finds in `_%4u%2u%2u_%2u%2u%2u.log`. It has its six numbers before it comes to
the `.log`. -/
def scanStamp (s : CString) : Option Tm := do
  let s ← scanChar '_'.toUInt8 s
  let (year, s) ← scanUnsigned 4 s
  let (mon, s) ← scanUnsigned 2 s
  let (mday, s) ← scanUnsigned 2 s
  let s ← scanChar '_'.toUInt8 s
  let (hour, s) ← scanUnsigned 2 s
  let (min, s) ← scanUnsigned 2 s
  let (sec, _) ← scanUnsigned 2 s
  return { year := year, mon := mon, mday := mday, hour := hour, min := min, sec := sec }

/-- `parse_timestamp`. -/
def parseTimestamp (name : CString) : Int :=
  if name.length < suffixlen then -1
  else
    match scanStamp (name.drop (name.length - suffixlen)) with
    | none => -1
    | some tm =>
        if tm.year < 1900 ∨ tm.year > 2099 ∨ tm.mon < 1 ∨ tm.mon > 12 ∨ tm.mday < 1 ∨
            tm.mday > 31 then -1
        else timegm { tm with year := tm.year - 1900, mon := tm.mon - 1 }

/-- Whether a file of the directory is removed. -/
def isPurged (stem : CString) (expired : Int) (name : CString) : Bool :=
  if name = ascii "." ∨ name = ascii ".." then false
  else if name.length ≠ stem.length + suffixlen then false
  else if name.take stem.length ≠ stem then false
  else
    let timestamp := parseTimestamp name
    decide (timestamp > 0 ∧ timestamp < expired)

/-- The loop over the directory: how many files are removed, and which. -/
def purgeEntries (stem : CString) (expired : Int) :
    List CString → Int → List CString → Int × List CString
  | [], ret, removed => (ret, removed)
  | name :: entries, ret, removed =>
      if isPurged stem expired name then
        purgeEntries stem expired entries (ret + 1) (removed ++ [name])
      else purgeEntries stem expired entries ret removed

/-- `purge_logs`, on what `opendir` and `readdir` find: what is returned, and the files that are
removed. -/
def purgeLogs (basename : CString) (now : Int) (period : Nat) (entries : Option (List CString)) :
    Int × List CString :=
  let expired := now - period
  if (splitPath basename).1.length < MAX_PATH then
    match entries with
    | none => (-1, [])
    | some entries => purgeEntries (splitPath basename).2 expired entries 0 []
  else (-1, [])

/-! ### What is to be purged -/

/-- A file of the directory of the volumes. -/
def pathOf (basename name : CString) : CString := basename.rdropWhile inName ++ name

/-- A name that is generated for a time. -/
def IsVolume (basename : CString) (t : Int) (name : CString) : Prop :=
  generateLogName basename t = some (pathOf basename name)

/-- What was purged are the volumes of the times before the period, and they were counted. -/
structure PurgesRight (basename : CString) (now : Int) (period : Nat) (entries : List CString)
    (outcome : Int × List CString) : Prop where
  removed : ∀ name ∈ entries, name ∈ outcome.2 ↔
    ∃ t, 0 < t ∧ t < now - period ∧ IsVolume basename t name
  onlyEntries : outcome.2.Sublist entries
  count : outcome.1 = outcome.2.length

/-- The start of the year 2100. -/
def year2100 : Int := 4102444800

/-- A name of nothing but `.log`, in a directory that is spelled out. -/
def OnlyLog (basename : CString) : Prop :=
  basename.rdropWhile inName ≠ [] ∧ SameCase (basename.rtakeWhile inName) (ascii ".log")

def Digits (w : Nat) (ds : CString) : Prop := ds.length = w ∧ ∀ c ∈ ds, isdigit c = true

/-- A time stamp in which there are digits only where there are to be digits, and `.log` behind
them, and no sixtieth second. -/
def Spelled (s : CString) : Prop :=
  ∃ year mon mday hour min sec, Digits 4 year ∧ Digits 2 mon ∧ Digits 2 mday ∧ Digits 2 hour ∧
    Digits 2 min ∧ Digits 2 sec ∧ digitsValue 0 sec ≠ 60 ∧ s = spell year mon mday hour min sec

/-- A name that is no volume's is not read as one, and a volume is read as what it is. -/
structure Unmistaken (basename : CString) (now : Int) (period : Nat) (name : CString) : Prop where
  spelled : ∀ s, name = (splitPath basename).2 ++ s → s.length = suffixlen →
    0 < parseTimestamp s → parseTimestamp s < now - period → Spelled s ∧ ¬OnlyLog basename
  known : ∀ t, 0 < t → t < now - period → IsVolume basename t name →
    t < year2100 ∧ ¬OnlyLog basename

/-! ### Stems -/

section Stems

variable (basename : CString)

theorem splitPath_stem : (splitPath basename).2 = removeLog (basename.rtakeWhile inName) := by
  have hSplit := List.rdropWhile_append_rtakeWhile (p := inName) (l := basename)
  unfold splitPath
  split
  · next hNone =>
      rw [hNone, List.nil_append] at hSplit
      rw [hSplit]
  · rfl

theorem inName_of_sameCase_log {s : CString} (h : SameCase s (ascii ".log")) :
    ∀ c ∈ s, inName c = true := by
  intro c hc
  by_contra hSeparator
  have hFold : tolower c ∈ fold (ascii ".log") := by
    rw [← h]
    exact List.mem_map_of_mem hc
  have hIs : c = '/'.toUInt8 ∨ c = '\\'.toUInt8 := by
    simp only [inName, Bool.and_eq_true, bne_iff_ne, not_and_or, not_not] at hSeparator
    exact hSeparator
  rcases hIs with rfl | rfl
  · exact absurd hFold (by decide)
  · exact absurd hFold (by decide)

/-- In a longer name the end is looked at alone. -/
theorem removeLog_append_of_long {dir file : CString} (h : 4 < file.length) :
    removeLog (dir ++ file) = dir ++ removeLog file := by
  have hLength : (dir ++ file).length - 4 = dir.length + (file.length - 4) := by
    rw [List.length_append]
    omega
  have hLong : (dir ++ file).length > 4 := by
    rw [List.length_append]
    omega
  rw [removeLog, removeLog, hLength, List.drop_length_add_append, List.take_length_add_append]
  simp only [hLong, h, true_and]
  split <;> rfl

theorem removeLog_of_short {file : CString} (h : file.length ≤ 4) : removeLog file = file :=
  if_neg fun hLong => absurd hLong.1 (Nat.not_lt.mpr h)

/-- A directory is never taken for a part of `.log`. -/
theorem removeLog_basename (h : ¬OnlyLog basename) :
    removeLog basename = basename.rdropWhile inName ++ (splitPath basename).2 := by
  rw [splitPath_stem]
  have hSplit := List.rdropWhile_append_rtakeWhile (p := inName) (l := basename)
  have hLast := List.rdropWhile_last_not inName basename
  unfold OnlyLog at h
  generalize basename.rdropWhile inName = dir at *
  generalize basename.rtakeWhile inName = file at *
  subst hSplit
  by_cases hLong : 4 < file.length
  · exact removeLog_append_of_long hLong
  rw [removeLog_of_short (Nat.le_of_not_lt hLong)]
  apply if_neg
  rintro ⟨hLength, hLog⟩
  rw [List.length_append] at hLength hLog
  have hDir : dir ≠ [] := by
    rintro rfl
    rw [List.length_nil] at hLength
    omega
  by_cases hFour : file.length = 4
  · rw [hFour, Nat.add_sub_cancel, List.drop_left' rfl] at hLog
    exact h ⟨hDir, hLog⟩
  · -- the separator is among the last four characters
    have hMem : dir.getLast hDir ∈ (dir ++ file).drop (dir.length + file.length - 4) := by
      have hParts := congrArg (· ++ file) (List.dropLast_append_getLast hDir)
      simp only [List.append_assoc, List.singleton_append] at hParts
      have hCount : dir.dropLast.length = dir.length - 1 := List.length_dropLast
      rw [← hParts, List.drop_append_of_le_length (by omega)]
      exact List.mem_append_right _ List.mem_cons_self
    exact hLast hDir (inName_of_sameCase_log hLog _ hMem)

theorem removeLog_onlyLog (h : OnlyLog basename) :
    removeLog basename = basename.rdropWhile inName ∧ (splitPath basename).2.length = 4 := by
  rw [splitPath_stem]
  have hSplit := List.rdropWhile_append_rtakeWhile (p := inName) (l := basename)
  unfold OnlyLog at h
  generalize basename.rdropWhile inName = dir at *
  generalize basename.rtakeWhile inName = file at *
  subst hSplit
  have hFour : file.length = 4 := by
    have hFold : (fold file).length = 4 := congrArg List.length h.2
    rwa [fold, List.length_map] at hFold
  rw [removeLog_of_short hFour.le]
  refine ⟨?_, hFour⟩
  have hLength : (dir ++ file).length - 4 = dir.length := by
    rw [List.length_append, hFour, Nat.add_sub_cancel]
  have hLong : (dir ++ file).length > 4 := by
    have hPos := List.length_pos_of_ne_nil h.1
    rw [List.length_append]
    omega
  rw [removeLog, hLength, List.drop_left' rfl, List.take_left' rfl, if_pos ⟨hLong, h.2⟩]

end Stems

/-! ### Time stamps -/

theorem digits_padded (w n : Nat) : Digits w (padded w n) := ⟨length_padded w n, isdigit_padded w n⟩

theorem scanUnsigned_of_digits {w : Nat} {ds rest : CString} (hDigits : Digits w ds) (hw : w ≠ 0) :
    scanUnsigned w (ds ++ rest) = some ((digitsValue 0 ds : Int), rest) :=
  scanUnsigned_digits hDigits.1 hw hDigits.2

theorem padded_of_digits {w : Nat} {ds : CString} (hDigits : Digits w ds) :
    padded w (digitsValue 0 ds) = ds := by
  obtain ⟨rfl, hAll⟩ := hDigits
  exact padded_digitsValue hAll

section Spell

variable {year mon mday hour min sec : CString}

theorem length_spell (hYear : Digits 4 year) (hMon : Digits 2 mon) (hMday : Digits 2 mday)
    (hHour : Digits 2 hour) (hMin : Digits 2 min) (hSec : Digits 2 sec) :
    (spell year mon mday hour min sec).length = suffixlen := by
  have hLog : (ascii ".log").length = 4 := by decide
  simp only [spell, List.length_cons, List.length_append, hYear.1, hMon.1, hMday.1, hHour.1,
    hMin.1, hSec.1, hLog, suffixlen]

/-- Where the digits are where they are to be the scan finds their numbers. -/
theorem scanStamp_spell (hYear : Digits 4 year) (hMon : Digits 2 mon) (hMday : Digits 2 mday)
    (hHour : Digits 2 hour) (hMin : Digits 2 min) (hSec : Digits 2 sec) :
    scanStamp (spell year mon mday hour min sec) =
      some ⟨digitsValue 0 year, digitsValue 0 mon, digitsValue 0 mday, digitsValue 0 hour,
        digitsValue 0 min, digitsValue 0 sec⟩ := by
  have hTwo : (2 : Nat) ≠ 0 := by decide
  have hScan (s : CString) : scanChar '_'.toUInt8 ('_'.toUInt8 :: s) = some s := by
    rw [scanChar, if_pos rfl]
  unfold scanStamp spell
  simp only [Option.bind_eq_bind, hScan, Option.bind_some,
    scanUnsigned_of_digits hYear (show (4 : Nat) ≠ 0 by decide), scanUnsigned_of_digits hMon hTwo,
    scanUnsigned_of_digits hMday hTwo, scanUnsigned_of_digits hHour hTwo,
    scanUnsigned_of_digits hMin hTwo, scanUnsigned_of_digits hSec hTwo]
  rfl

end Spell

/-- Of a name the end is looked at alone. -/
theorem parseTimestamp_append (dir : CString) {s : CString} (h : s.length = suffixlen) :
    parseTimestamp (dir ++ s) = parseTimestamp s := by
  have hLength : (dir ++ s).length - suffixlen = dir.length := by
    rw [List.length_append, h, Nat.add_sub_cancel]
  have hShort : ¬(dir ++ s).length < suffixlen := by
    rw [List.length_append]
    omega
  have hShort' : ¬s.length < suffixlen := by omega
  unfold parseTimestamp
  rw [if_neg hShort, if_neg hShort', hLength, List.drop_left' rfl, h, Nat.sub_self, List.drop_zero]

theorem length_stamp (tm : Tm) : (stamp tm).length = suffixlen :=
  length_spell (digits_padded _ _) (digits_padded _ _) (digits_padded _ _) (digits_padded _ _)
    (digits_padded _ _) (digits_padded _ _)

theorem spelled_stamp {m : Moment} (hSec : m.sec < 60) : Spelled (stamp m.tm) := by
  refine ⟨_, _, _, _, _, _, digits_padded _ _, digits_padded _ _, digits_padded _ _,
    digits_padded _ _, digits_padded _ _, digits_padded _ _, ?_, rfl⟩
  have hSecond : m.tm.sec.toNat = m.sec := Int.toNat_natCast m.sec
  rw [hSecond, digitsValue_padded (by omega)]
  omega

theorem month_le {leap : Bool} {mon month : Nat} (h : (daysOfMonths leap)[mon]? = some month) :
    month ≤ 31 := by
  have hMem := List.mem_of_getElem? h
  have hAll : (daysOfMonths leap).all fun l => decide (l ≤ 31) := by cases leap <;> decide
  exact of_decide_eq_true (List.all_eq_true.mp hAll month hMem)

/-- What is read of a moment's stamp. -/
theorem parseTimestamp_stamp (m : Moment) (hSec : m.sec < 60) (hYear : m.year < 8100) :
    parseTimestamp (stamp m.tm) = if m.year < 200 then timegm m.tm else (-1 : Int) := by
  have hMon := m.mon_lt
  have hDay := m.hDay
  have hMonth := month_le m.hMonth
  have hHour := m.hHour
  have hMin := m.hMin
  have hScan : scanStamp (stamp m.tm) = some ⟨(m.year + 1900 : Nat), (m.mon + 1 : Nat),
      (m.mday + 1 : Nat), m.hour, m.min, m.sec⟩ := by
    have hYears : (m.tm.year + 1900).toNat = m.year + 1900 := by
      simp only [Moment.tm]
      omega
    have hMons : (m.tm.mon + 1).toNat = m.mon + 1 := by
      simp only [Moment.tm]
      omega
    have hDays : m.tm.mday.toNat = m.mday + 1 := by
      simp only [Moment.tm]
      omega
    have hHours : m.tm.hour.toNat = m.hour := Int.toNat_natCast m.hour
    have hMins : m.tm.min.toNat = m.min := Int.toNat_natCast m.min
    have hSecs : m.tm.sec.toNat = m.sec := Int.toNat_natCast m.sec
    rw [stamp, scanStamp_spell (digits_padded _ _) (digits_padded _ _) (digits_padded _ _)
      (digits_padded _ _) (digits_padded _ _) (digits_padded _ _), hYears, hMons, hDays, hHours,
      hMins, hSecs, digitsValue_padded (by omega), digitsValue_padded (by omega),
      digitsValue_padded (by omega), digitsValue_padded (by omega), digitsValue_padded (by omega),
      digitsValue_padded (by omega)]
  rw [parseTimestamp, if_neg (by rw [length_stamp]; exact Nat.lt_irrefl _), length_stamp,
    Nat.sub_self, List.drop_zero, hScan]
  dsimp only
  by_cases hKnown : m.year < 200
  · rw [if_pos hKnown, if_neg (by omega)]
    refine congrArg timegm ?_
    simp only [Moment.tm, Tm.mk.injEq, and_self, and_true]
    omega
  · rw [if_neg hKnown, if_pos (by omega)]

/-- A stamp that is spelled right is the one of the time that is read of it. -/
theorem stamp_of_spelled {s : CString} (hSpelled : Spelled s) (hPos : 0 < parseTimestamp s) :
    ∃ tm, gmtime (parseTimestamp s) = some tm ∧ stamp tm = s := by
  obtain ⟨year, mon, mday, hour, min, sec, hYear, hMon, hMday, hHour, hMin, hSec, hSixty, rfl⟩ :=
    hSpelled
  have hLength := length_spell hYear hMon hMday hHour hMin hSec
  have hParse : parseTimestamp (spell year mon mday hour min sec) = timegm
      ⟨(digitsValue 0 year : Int) - 1900, (digitsValue 0 mon : Int) - 1, digitsValue 0 mday,
        digitsValue 0 hour, digitsValue 0 min, digitsValue 0 sec⟩ ∧
      (digitsValue 0 year : Int) ≤ 2099 := by
    rw [parseTimestamp, if_neg (by omega), hLength, Nat.sub_self, List.drop_zero,
      scanStamp_spell hYear hMon hMday hHour hMin hSec] at hPos ⊢
    dsimp only at hPos ⊢
    split at hPos
    · exact absurd hPos (by decide)
    · next hRange =>
        rw [if_neg hRange]
        exact ⟨rfl, by omega⟩
  obtain ⟨hParse, hLate⟩ := hParse
  rw [hParse] at hPos ⊢
  obtain ⟨m, hMoment⟩ := moment_of_timegm fun hRefused => by
    rw [hRefused] at hPos
    exact absurd hPos (by decide)
  rw [← hMoment] at hPos ⊢
  have hFields := hMoment
  simp only [Moment.tm, Tm.mk.injEq] at hFields
  obtain ⟨hYears, hMons, hDays, hHours, hMins, hSecs⟩ := hFields
  have hStart : startOfYear 70 = 0 := by decide
  have hFirst : 70 ≤ m.year := by
    by_contra hEarly
    have hLe := timegm_le_of_year_lt (Nat.lt_of_not_le hEarly)
    rw [hStart] at hLe
    omega
  have hSecond := m.hSec
  refine ⟨m.tm, gmtime_eq_some_iff.mpr ⟨m, rfl, hFirst, by omega, by omega, rfl⟩, ?_⟩
  have hText {w : Nat} {ds : CString} {n : Int} (hDigits : Digits w ds)
      (hIs : n = digitsValue 0 ds) : padded w n.toNat = ds := by
    rw [hIs, Int.toNat_natCast]
    exact padded_of_digits hDigits
  rw [stamp, hText hYear, hText hMon, hText hMday, hText hHour, hText hMin, hText hSec] <;>
    simp only [Moment.tm] <;> omega

/-! ### The purge -/

theorem isPurged_iff {stem name : CString} {expired : Int} :
    isPurged stem expired name = true ↔ ∃ s, name = stem ++ s ∧ s.length = suffixlen ∧
      0 < parseTimestamp s ∧ parseTimestamp s < expired := by
  have hDots : (ascii ".").length = 1 ∧ (ascii "..").length = 2 := by decide
  constructor
  · intro h
    unfold isPurged at h
    split at h
    · exact nomatch h
    split at h
    · exact nomatch h
    split at h
    · exact nomatch h
    next hLength hStem =>
      rw [not_not] at hLength hStem
      have hParts := List.take_append_drop stem.length name
      rw [hStem] at hParts
      have hRest : (name.drop stem.length).length = suffixlen := by
        rw [List.length_drop, hLength, Nat.add_sub_cancel_left]
      rw [← hParts, parseTimestamp_append _ hRest, decide_eq_true_eq] at h
      exact ⟨_, hParts.symm, hRest, h⟩
  · rintro ⟨s, rfl, hLength, hTime⟩
    have hLong : (stem ++ s).length = stem.length + suffixlen := by rw [List.length_append, hLength]
    have hSuffix : suffixlen = 20 := rfl
    have hDot : ¬(stem ++ s = ascii "." ∨ stem ++ s = ascii "..") := by
      rintro (hIs | hIs)
      · have hOne := congrArg List.length hIs
        omega
      · have hTwo := congrArg List.length hIs
        omega
    unfold isPurged
    rw [if_neg hDot, if_neg (not_not.mpr hLong), if_neg (not_not.mpr (List.take_left' rfl)),
      parseTimestamp_append _ hLength]
    exact decide_eq_true hTime

theorem purgeEntries_eq (stem : CString) (expired : Int) (entries : List CString) (ret : Int)
    (removed : List CString) :
    purgeEntries stem expired entries ret removed =
      (ret + (entries.filter (isPurged stem expired)).length,
        removed ++ entries.filter (isPurged stem expired)) := by
  induction entries generalizing ret removed with
  | nil =>
      rw [purgeEntries, List.filter_nil, List.append_nil, List.length_nil, Int.natCast_zero,
        Int.add_zero]
  | cons name entries ih =>
      rw [purgeEntries]
      by_cases h : isPurged stem expired name = true
      · rw [if_pos h, ih, List.filter_cons_of_pos h, List.append_assoc, List.length_cons,
          Int.natCast_succ, Int.add_assoc, Int.add_comm 1]
        rfl
      · rw [if_neg h, ih, List.filter_cons_of_neg h]

theorem purgeLogs_eq (basename : CString) (now : Int) (period : Nat) (entries : List CString) :
    purgeLogs basename now period (some entries) =
      if (splitPath basename).1.length < MAX_PATH then
        let removed := entries.filter (isPurged (splitPath basename).2 (now - period))
        ((removed.length : Int), removed)
      else (-1, []) := by
  unfold purgeLogs
  split
  · simp only [purgeEntries_eq, List.nil_append, Int.zero_add]
  · rfl

/-- A volume is the stem and a stamp, if the stem is not nothing but `.log`. -/
theorem isVolume_iff {basename name : CString} {t : Int} (h : ¬OnlyLog basename) :
    IsVolume basename t name ↔
      ∃ tm, gmtime t = some tm ∧ name = (splitPath basename).2 ++ stamp tm := by
  unfold IsVolume generateLogName pathOf
  rw [Option.map_eq_some_iff]
  refine exists_congr fun tm => and_congr_right fun _ => ?_
  rw [removeLog_basename basename h, List.append_assoc, List.append_cancel_left_eq]
  exact eq_comm

theorem length_of_onlyLog {basename name : CString} {t : Int} (h : OnlyLog basename)
    (hVolume : IsVolume basename t name) : name.length = suffixlen := by
  unfold IsVolume generateLogName pathOf at hVolume
  rw [Option.map_eq_some_iff, (removeLog_onlyLog basename h).1] at hVolume
  obtain ⟨tm, -, hText⟩ := hVolume
  rw [← List.append_cancel_left hText, length_stamp]

/-- The years of which a stamp is read back. -/
theorem startOfYear_200 : startOfYear 200 * 86400 = year2100 := by decide

theorem parse_of_gmtime {t : Int} {tm : Tm} (h : gmtime t = some tm) :
    Spelled (stamp tm) ∧ parseTimestamp (stamp tm) = if t < year2100 then t else (-1 : Int) := by
  obtain ⟨m, rfl, -, hLast, hSec, rfl⟩ := gmtime_eq_some_iff.mp h
  have hYear := timegm_lt_iff hSec 200
  rw [startOfYear_200] at hYear
  refine ⟨spelled_stamp hSec, ?_⟩
  rw [parseTimestamp_stamp m hSec (by omega)]
  simp only [hYear]

/-- What is generated for a time up to the year 2100 is read back as that time. -/
theorem parseTimestamp_generateLogName (basename : CString) (t : Int) (hStart : 0 ≤ t)
    (hNear : t < year2100) : (generateLogName basename t).map parseTimestamp = some t := by
  have hYears : (years.take 130).sum ≤ years.sum := by
    conv => rhs; rw [← List.take_append_drop 130 years, List.sum_append]
    exact Nat.le_add_right _ _
  have hSum := sum_take_years (y := 130) (by decide)
  rw [show leapYears 1969 = 477 by decide, show leapYears (1969 + 130) = 509 by decide] at hSum
  obtain ⟨tm, hTime⟩ := gmtime_of_lt hStart (by unfold year2100 at hNear; omega)
  rw [generateLogName, hTime, Option.map_some, Option.map_some,
    parseTimestamp_append _ (length_stamp tm), (parse_of_gmtime hTime).2, if_pos hNear]

/-- A file is purged as it should be just when its name is no mistake. -/
theorem isPurged_right_iff (basename : CString) (now : Int) (period : Nat) (name : CString) :
    (isPurged (splitPath basename).2 (now - period) name = true ↔
      ∃ t, 0 < t ∧ t < now - period ∧ IsVolume basename t name) ↔
      Unmistaken basename now period name := by
  rw [isPurged_iff]
  constructor
  · intro h
    have hOnly (s : CString) (hName : name = (splitPath basename).2 ++ s)
        (hLength : s.length = suffixlen) {t : Int} (hVolume : IsVolume basename t name) :
        ¬OnlyLog basename := by
      intro hOnly
      have hShort := length_of_onlyLog hOnly hVolume
      rw [hName, List.length_append, (removeLog_onlyLog basename hOnly).2, hLength] at hShort
      omega
    refine ⟨fun s hName hLength hPos hLate => ?_, fun t hPos hLate hVolume => ?_⟩
    · obtain ⟨t, -, -, hVolume⟩ := h.mp ⟨s, hName, hLength, hPos, hLate⟩
      have hNot := hOnly s hName hLength hVolume
      obtain ⟨tm, hTime, hStamp⟩ := (isVolume_iff hNot).mp hVolume
      refine ⟨?_, hNot⟩
      rw [List.append_cancel_left (hName.symm.trans hStamp)]
      exact (parse_of_gmtime hTime).1
    · obtain ⟨s, hName, hLength, hScanned, -⟩ := h.mpr ⟨t, hPos, hLate, hVolume⟩
      have hNot := hOnly s hName hLength hVolume
      obtain ⟨tm, hTime, hStamp⟩ := (isVolume_iff hNot).mp hVolume
      refine ⟨?_, hNot⟩
      rw [List.append_cancel_left (hName.symm.trans hStamp), (parse_of_gmtime hTime).2] at hScanned
      by_contra hFar
      rw [if_neg hFar] at hScanned
      exact absurd hScanned (by decide)
  · intro h
    constructor
    · rintro ⟨s, hName, hLength, hPos, hLate⟩
      obtain ⟨hSpelled, hNot⟩ := h.spelled s hName hLength hPos hLate
      obtain ⟨tm, hTime, hStamp⟩ := stamp_of_spelled hSpelled hPos
      exact ⟨_, hPos, hLate, (isVolume_iff hNot).mpr ⟨tm, hTime, by rw [hStamp, hName]⟩⟩
    · rintro ⟨t, hPos, hLate, hVolume⟩
      obtain ⟨hNear, hNot⟩ := h.known t hPos hLate hVolume
      obtain ⟨tm, hTime, hName⟩ := (isVolume_iff hNot).mp hVolume
      have hParse := (parse_of_gmtime hTime).2
      rw [if_pos hNear] at hParse
      exact ⟨stamp tm, hName, length_stamp tm, by rw [hParse]; exact hPos,
        by rw [hParse]; exact hLate⟩

theorem getLast?_spell (year mon mday hour min sec : CString) :
    (spell year mon mday hour min sec).getLast? = some 'g'.toUInt8 := by
  have hLog : (ascii ".log").getLast? = some 'g'.toUInt8 := by decide
  simp only [spell, List.getLast?_cons, List.getLast?_append, hLog, Option.some_or,
    Option.getD_some]

end OncRpc.Service.FileStream
