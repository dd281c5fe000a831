import OncRpc.Base.Scan

/-! The limits of a logger's profile, as they are read from the settings of a service. -/
namespace OncRpc.Service.Logger

open CString

/-- What the limits need of a `float`: whether it is zero, and the whole units in it. -/
structure Fraction where
  nonzero : Bool
  scaled : Nat → Nat

def Fraction.zero : Fraction := ⟨false, fun _ => 0⟩

/-- `strtof`. -/
abbrev Strtof := CString → Fraction × CString

/-- `<value><unit>`. A letter that is no unit has 0 for its unit. -/
def parseUnits (unitOf : UInt8 → Nat) (strtof : Strtof) (limit : CString) (result : Nat) :
    Bool × Nat :=
  let (size, stop) := strtoul limit
  let (bits, units) :=
    match stop with
    | [] => (Fraction.zero, 1)
    | c :: _ =>
        let spec := toupper c
        let (bits, spec) :=
          if spec = '.'.toUInt8 then
            let (bits, end2) := strtof stop
            (bits, end2.headD 0)
          else (Fraction.zero, spec)
        (bits, if spec = 0 then 1 else unitOf spec)
  if size = ULONG_MAX ∨ units = 0 then (false, result)
  else
    let whole := size * units % 2 ^ 32
    (true, if bits.nonzero ∧ 1 < units then (whole + bits.scaled units) % 2 ^ 32 else whole)

def sizeUnit (spec : UInt8) : Nat :=
  if spec = 'B'.toUInt8 then 1
  else if spec = 'K'.toUInt8 then 1024
  else if spec = 'M'.toUInt8 then 1024 * 1024
  else if spec = 'G'.toUInt8 then 1024 * 1024 * 1024
  else 0

def timeUnit (spec : UInt8) : Nat :=
  if spec = 'S'.toUInt8 then 1
  else if spec = 'M'.toUInt8 then 60
  else if spec = 'H'.toUInt8 then 60 * 60
  else if spec = 'D'.toUInt8 then 24 * 60 * 60
  else 0

def parseSizeLimit (strtof : Strtof) (limit : CString) (result : Nat) : Bool × Nat :=
  parseUnits sizeUnit strtof limit result

/-- `hh:mm[:ss]`. -/
def parseClock (limit : CString) (result : Nat) : Bool × Nat :=
  let next (s : CString) := (scanChar ':'.toUInt8 s).bind (scanUnsigned 2)
  match scanUnsigned 2 limit with
  | none => (false, result)
  | some (hour, s) =>
      match next s with
      | none => (false, result)
      | some (minute, s) =>
          let second := ((next s).map Prod.fst).getD 0
          (true, ((hour * 60 * 60 + minute * 60 + second) % 2 ^ 32).toNat)

def parseTimeLimit (strtof : Strtof) (limit : CString) (result : Nat) : Bool × Nat :=
  if ':'.toUInt8 ∈ limit then parseClock limit result
  else parseUnits timeUnit strtof limit result

/-! ### The profile -/

def MIN_SIZE_LIMIT : Nat := 32 * 1024

def DEF_SIZE_LIMIT : Nat := 1024 * 1024

def MAX_SIZE_LIMIT : Nat := 1024 * 1024 * 1024

def MIN_TIME_LIMIT : Nat := 5 * 60

def DEF_TIME_LIMIT : Nat := 4 * 60 * 60

def MAX_TIME_LIMIT : Nat := 7 * 24 * 60 * 60

def MIN_LINE_LIMIT : Nat := 1000

def DEF_LINE_LIMIT : Nat := 0

/-- `Logger::Profile`, with the defaults of its constructor. -/
structure Profile where
  basePath : CString := ascii "./logs/logger.log"
  toconsole : Bool := false
  sizeLimit : Nat := DEF_SIZE_LIMIT
  timePeriod : Nat := DEF_TIME_LIMIT
  lineLimit : Nat := 0
  timeEpoch : Nat := 0
  timeRounding : Bool := false
  purgePeriod : Nat := 7 * 24 * 60 * 60

/-- A limit from a text, or its default without one: what is returned, and what the limit is
afterwards. -/
def limitOf (parse : CString → Nat → Bool × Nat) (default : Nat) (clamp : Nat → Nat)
    (text : Option CString) (limit : Nat) : Bool × Nat :=
  match text with
  | none => (true, default)
  | some text =>
      match parse text limit with
      | (false, limit) => (false, limit)
      | (true, limit) => (true, clamp limit)

/-- Not under the one, and not over the other. -/
def clampLimit (least most limit : Nat) : Nat :=
  let limit := if limit < least then least else limit
  if limit > most then most else limit

namespace Profile

variable (strtof : Strtof) (text : Option CString) (profile : Profile)

/-- `size_limit`. -/
def setSizeLimit : Bool × Profile :=
  let (ok, limit) := limitOf (parseSizeLimit strtof) DEF_SIZE_LIMIT
    (clampLimit MIN_SIZE_LIMIT MAX_SIZE_LIMIT) text profile.sizeLimit
  (ok, { profile with sizeLimit := limit })

/-- `time_period`. -/
def setTimePeriod : Bool × Profile :=
  let (ok, limit) := limitOf (parseTimeLimit strtof) DEF_TIME_LIMIT
    (clampLimit MIN_TIME_LIMIT MAX_TIME_LIMIT) text profile.timePeriod
  (ok, { profile with timePeriod := limit })

/-- `line_limit`, of which the text is read as a time. -/
def setLineLimit : Bool × Profile :=
  let (ok, limit) := limitOf (parseTimeLimit strtof) DEF_LINE_LIMIT
    (fun limit => if limit < MIN_LINE_LIMIT then MIN_LINE_LIMIT else limit) text profile.lineLimit
  (ok, { profile with lineLimit := limit })

/-- `purge_period`. -/
def setPurgePeriod : Bool × Profile :=
  let (ok, limit) := limitOf (parseTimeLimit strtof) 0 (fun limit => limit) text profile.purgePeriod
  (ok, { profile with purgePeriod := limit })

end Profile

/-! ### What the texts say -/

def sizeUnits : List (Char × Nat) := [('B', 1), ('K', 1024), ('M', 1024 ^ 2), ('G', 1024 ^ 3)]

def timeUnits : List (Char × Nat) := [('S', 1), ('M', 60), ('H', 3600), ('D', 86400)]

/-- At most one letter of a unit, in either case, and what it is worth. -/
inductive UnitText (units : List (Char × Nat)) : CString → Nat → Prop
  | none : UnitText units [] 1
  | letter {spec : Char} {worth : Nat} {c : UInt8} (hUnit : (spec, worth) ∈ units)
      (hCase : c = spec.toUInt8 ∨ c = spec.toLower.toUInt8) : UnitText units [c] worth

/-- Digits, and at most one letter. -/
structure Quantity (units : List (Char × Nat)) where
  digits : CString
  letter : CString
  worth : Nat
  hNonempty : digits ≠ []
  hDigits : ∀ c ∈ digits, isdigit c = true
  hLetter : UnitText units letter worth

variable {units : List (Char × Nat)}

def Quantity.text (q : Quantity units) : CString := q.digits ++ q.letter

def Quantity.number (q : Quantity units) : Nat := digitsValue 0 q.digits

/-- What the text denotes. -/
def Quantity.amount (q : Quantity units) : Nat := q.number * q.worth

/-- Either what the text denotes, or nothing. -/
def ParsesRight (parse : CString → Nat → Bool × Nat) (q : Quantity units) : Prop :=
  ∀ result, parse q.text result =
    if q.amount < 2 ^ 32 then (true, q.amount) else (false, result)

/-- The larger of two quantities does not yield the smaller limit. -/
def Monotone (set : Option CString → Profile → Bool × Profile) (limit : Profile → Nat)
    (q r : Quantity units) : Prop :=
  ∀ profile profile', (set (some q.text) profile).1 = true →
    (set (some r.text) profile').1 = true → q.amount ≤ r.amount →
      limit (set (some q.text) profile).2 ≤ limit (set (some r.text) profile').2

/-- A number that is less than what `strtoul` saturates at, and with its unit less than what an
`unsigned` holds, or one that is not less, and not also small enough for an `unsigned`. -/
def Quantity.Fits (q : Quantity units) : Prop :=
  (q.number < ULONG_MAX → q.amount < 2 ^ 32) ∧ (q.number = ULONG_MAX → q.worth ≠ 1)

/-! ### What is read of them -/

/-- A letter that is looked up as the unit it is. -/
def LooksUp (unitOf : UInt8 → Nat) (c : UInt8) (worth : Nat) : Prop :=
  isdigit c = false ∧ c ≠ ':'.toUInt8 ∧ toupper c ≠ '.'.toUInt8 ∧ toupper c ≠ 0 ∧
    unitOf (toupper c) = worth ∧ 0 < worth

instance (unitOf : UInt8 → Nat) (c : UInt8) (worth : Nat) : Decidable (LooksUp unitOf c worth) :=
  inferInstanceAs (Decidable (_ ∧ _))

/-- All the letters of some units, in either case. -/
def Knows (unitOf : UInt8 → Nat) (units : List (Char × Nat)) : Prop :=
  ∀ spec worth, (spec, worth) ∈ units →
    LooksUp unitOf spec.toUInt8 worth ∧ LooksUp unitOf spec.toLower.toUInt8 worth

theorem knows_of_all {unitOf : UInt8 → Nat}
    (h : (units.all fun unit => decide (LooksUp unitOf unit.1.toUInt8 unit.2 ∧
      LooksUp unitOf unit.1.toLower.toUInt8 unit.2)) = true) : Knows unitOf units :=
  fun spec worth hUnit => of_decide_eq_true (List.all_eq_true.mp h (spec, worth) hUnit)

theorem knows_sizeUnit : Knows sizeUnit sizeUnits := knows_of_all (by decide)

theorem knows_timeUnit : Knows timeUnit timeUnits := knows_of_all (by decide)

section Parses

variable {unitOf : UInt8 → Nat} {strtof : Strtof} {q r : Quantity units}

theorem looksUp_of_letter (hKnows : Knows unitOf units) {spec : Char} {worth : Nat} {c : UInt8}
    (hUnit : (spec, worth) ∈ units) (hCase : c = spec.toUInt8 ∨ c = spec.toLower.toUInt8) :
    LooksUp unitOf c worth := by
  rcases hCase with rfl | rfl
  · exact (hKnows spec worth hUnit).1
  · exact (hKnows spec worth hUnit).2

theorem worth_pos (hKnows : Knows unitOf units) (q : Quantity units) : 0 < q.worth := by
  obtain ⟨digits, letter, worth, hNonempty, hDigits, hLetter⟩ := q
  cases hLetter with
  | none => exact Nat.one_pos
  | letter hUnit hCase => exact (looksUp_of_letter hKnows hUnit hCase).2.2.2.2.2

/-- The number saturates, and what it comes to is cut off. -/
theorem parseUnits_text (hKnows : Knows unitOf units) (q : Quantity units) (result : Nat) :
    parseUnits unitOf strtof q.text result =
      if ULONG_MAX ≤ q.number then (false, result) else (true, q.amount % 2 ^ 32) := by
  have hPos := worth_pos hKnows q
  have hSaturated : min q.number ULONG_MAX = ULONG_MAX ∨ q.worth = 0 ↔ ULONG_MAX ≤ q.number := by
    omega
  have hWhole : ¬ULONG_MAX ≤ q.number →
      min q.number ULONG_MAX * q.worth % 2 ^ 32 = q.amount % 2 ^ 32 := by
    intro hLess
    rw [Nat.min_eq_left (Nat.le_of_not_le hLess), Quantity.amount]
  obtain ⟨digits, letter, worth, hNonempty, hDigits, hLetter⟩ := q
  cases hLetter with
  | none =>
      have hNumber : strtoul (digits ++ []) = (min (digitsValue 0 digits) ULONG_MAX, []) :=
        strtoul_digits hNonempty hDigits fun c hc => nomatch hc
      simp only [parseUnits, Quantity.text, hNumber]
      simp only [Quantity.number] at hSaturated hWhole
      simp only [hSaturated, Fraction.zero, Bool.false_eq_true, false_and, if_false]
      exact ite_congr rfl (fun _ => rfl) fun hLess => congrArg _ (hWhole hLess)
  | letter hUnit hCase =>
      rename_i spec c
      obtain ⟨hOther, -, hPoint, hNul, hIs, -⟩ := looksUp_of_letter hKnows hUnit hCase
      have hNumber : strtoul (digits ++ [c]) = (min (digitsValue 0 digits) ULONG_MAX, [c]) := by
        apply strtoul_digits hNonempty hDigits
        intro d hd
        rw [← Option.some.inj hd]
        exact hOther
      simp only [parseUnits, Quantity.text, hNumber]
      simp only [Quantity.number] at hSaturated hWhole
      simp only [if_neg hPoint, if_neg hNul, hIs, hSaturated, Fraction.zero, Bool.false_eq_true,
        false_and, if_false]
      exact ite_congr rfl (fun _ => rfl) fun hLess => congrArg _ (hWhole hLess)

/-- Texts with a colon are not among them. -/
theorem parseTimeLimit_text (q : Quantity timeUnits) (result : Nat) :
    parseTimeLimit strtof q.text result = parseUnits timeUnit strtof q.text result := by
  have hColon : ':'.toUInt8 ∉ q.text := by
    intro hMem
    rcases List.mem_append.mp hMem with hDigit | hUnit
    · exact absurd (q.hDigits _ hDigit) (by decide)
    · obtain ⟨digits, letter, worth, hNonempty, hDigits, hLetter⟩ := q
      cases hLetter with
      | none => exact nomatch hUnit
      | letter hWorth hCase =>
          exact (looksUp_of_letter knows_timeUnit hWorth hCase).2.1
            (List.mem_singleton.mp hUnit).symm
  rw [parseTimeLimit, if_neg hColon]

theorem parsesRight_iff {parse : CString → Nat → Bool × Nat} (hPos : 0 < q.worth)
    (hParse : ∀ result, parse q.text result =
      if ULONG_MAX ≤ q.number then (false, result) else (true, q.amount % 2 ^ 32)) :
    ParsesRight parse q ↔ q.Fits := by
  simp only [ParsesRight, hParse, Quantity.Fits]
  by_cases hLess : q.number < ULONG_MAX
  · simp only [if_neg (Nat.not_le.mpr hLess), hLess, true_imp_iff]
    constructor
    · intro hRight
      refine ⟨?_, fun hEq => absurd hEq (Nat.ne_of_lt hLess)⟩
      by_contra hWraps
      have hFalse := hRight 0
      rw [if_neg hWraps] at hFalse
      exact nomatch congrArg Prod.fst hFalse
    · intro hFits result
      rw [if_pos hFits.1, Nat.mod_eq_of_lt hFits.1]
  · have hGe : ULONG_MAX ≤ q.number := Nat.le_of_not_lt hLess
    simp only [if_pos hGe, hLess, false_imp_iff, true_and]
    -- the largest number fits an unsigned, on its own
    have hAmount : q.amount < 2 ^ 32 ↔ q.number = ULONG_MAX ∧ q.worth = 1 := by
      constructor
      · intro hSmall
        have hMul : q.number ≤ q.amount := Nat.le_mul_of_pos_right _ hPos
        have hNumber : q.number = ULONG_MAX := by
          unfold ULONG_MAX at hGe ⊢
          omega
        refine ⟨hNumber, ?_⟩
        by_contra hOne
        have hTwo : ULONG_MAX * 2 ≤ q.amount := by
          rw [Quantity.amount, hNumber]
          exact Nat.mul_le_mul_left _ (by omega)
        unfold ULONG_MAX at hTwo
        omega
      · rintro ⟨hNumber, hOne⟩
        rw [Quantity.amount, hNumber, hOne]
        decide
    constructor
    · intro hRight hNumber hOne
      have hTrue := hRight 0
      rw [if_pos (hAmount.mpr ⟨hNumber, hOne⟩)] at hTrue
      exact nomatch congrArg Prod.fst hTrue
    · intro hOne result
      rw [if_neg fun hSmall => hOne (hAmount.mp hSmall).1 (hAmount.mp hSmall).2]

theorem parseSizeLimit_right_iff (q : Quantity sizeUnits) :
    ParsesRight (parseSizeLimit strtof) q ↔ q.Fits :=
  parsesRight_iff (worth_pos knows_sizeUnit q) (parseUnits_text knows_sizeUnit q)

theorem parseTimeLimit_right_iff (q : Quantity timeUnits) :
    ParsesRight (parseTimeLimit strtof) q ↔ q.Fits := by
  apply parsesRight_iff (worth_pos knows_timeUnit q)
  intro result
  rw [parseTimeLimit_text, parseUnits_text knows_timeUnit]

theorem limitOf_right {parse : CString → Nat → Bool × Nat} {default limit : Nat} {clamp : Nat → Nat}
    (hRight : ParsesRight parse q)
    (hOk : (limitOf parse default clamp (some q.text) limit).1 = true) :
    (limitOf parse default clamp (some q.text) limit).2 = clamp q.amount := by
  have hParse : parse q.text limit = _ := hRight limit
  by_cases hSmall : q.amount < 2 ^ 32
  · rw [if_pos hSmall] at hParse
    simp only [limitOf, hParse]
  · rw [if_neg hSmall] at hParse
    simp only [limitOf, hParse] at hOk
    exact nomatch hOk

/-- Where two texts are read right, a limit made of them is as monotone as what clamps it. -/
theorem limitOf_mono {parse : CString → Nat → Bool × Nat} (default : Nat) {clamp : Nat → Nat}
    (hClamp : ∀ ⦃m n⦄, m ≤ n → clamp m ≤ clamp n) (hq : ParsesRight parse q)
    (hr : ParsesRight parse r) (m n : Nat)
    (hqOk : (limitOf parse default clamp (some q.text) m).1 = true)
    (hrOk : (limitOf parse default clamp (some r.text) n).1 = true)
    (hLe : q.amount ≤ r.amount) :
    (limitOf parse default clamp (some q.text) m).2 ≤
      (limitOf parse default clamp (some r.text) n).2 := by
  rw [limitOf_right hq hqOk, limitOf_right hr hrOk]
  exact hClamp hLe

theorem clampLimit_mono (least most : Nat) ⦃m n : Nat⦄ (h : m ≤ n) :
    clampLimit least most m ≤ clampLimit least most n := by
  simp only [clampLimit]
  grind

theorem atLeast_mono (least : Nat) ⦃m n : Nat⦄ (h : m ≤ n) :
    (if m < least then least else m) ≤ if n < least then least else n := by
  split <;> split <;> omega

end Parses

/-- Two sizes are read right, and the larger does not yield the smaller limit. -/
def SizeLimitsRight (strtof : Strtof) (q r : Quantity sizeUnits) : Prop :=
  ParsesRight (parseSizeLimit strtof) q ∧ ParsesRight (parseSizeLimit strtof) r ∧
    Monotone (Profile.setSizeLimit strtof) Profile.sizeLimit q r

/-- Two times are read right, and the larger does not yield the smaller of any limit. -/
def TimeLimitsRight (strtof : Strtof) (q r : Quantity timeUnits) : Prop :=
  ParsesRight (parseTimeLimit strtof) q ∧ ParsesRight (parseTimeLimit strtof) r ∧
    Monotone (Profile.setTimePeriod strtof) Profile.timePeriod q r ∧
    Monotone (Profile.setLineLimit strtof) Profile.lineLimit q r ∧
    Monotone (Profile.setPurgePeriod strtof) Profile.purgePeriod q r

/-- The limits are right for just the texts of which neither the number nor what it comes to in its
unit is mistaken: the product is cut off without notice, and the largest number is taken for an
overflow. -/
theorem limits_right_iff (strtof : Strtof) :
    (∀ q r : Quantity sizeUnits, SizeLimitsRight strtof q r ↔ q.Fits ∧ r.Fits) ∧
      ∀ q r : Quantity timeUnits, TimeLimitsRight strtof q r ↔ q.Fits ∧ r.Fits := by
  refine ⟨fun q r => ⟨?_, ?_⟩, fun q r => ⟨?_, ?_⟩⟩
  · rintro ⟨hq, hr, -⟩
    exact ⟨(parseSizeLimit_right_iff q).mp hq, (parseSizeLimit_right_iff r).mp hr⟩
  · rintro ⟨hFitsQ, hFitsR⟩
    have hq := (@parseSizeLimit_right_iff strtof q).mpr hFitsQ
    have hr := (@parseSizeLimit_right_iff strtof r).mpr hFitsR
    refine ⟨hq, hr, fun profile profile' hqOk hrOk hLe => ?_⟩
    exact limitOf_mono DEF_SIZE_LIMIT (clampLimit_mono _ _) hq hr _ _ hqOk hrOk hLe
  · rintro ⟨hq, hr, -⟩
    exact ⟨(parseTimeLimit_right_iff q).mp hq, (parseTimeLimit_right_iff r).mp hr⟩
  · rintro ⟨hFitsQ, hFitsR⟩
    have hq := (@parseTimeLimit_right_iff strtof q).mpr hFitsQ
    have hr := (@parseTimeLimit_right_iff strtof r).mpr hFitsR
    refine ⟨hq, hr, ?_, ?_, ?_⟩
    · exact fun profile profile' hqOk hrOk hLe =>
        limitOf_mono DEF_TIME_LIMIT (clampLimit_mono _ _) hq hr _ _ hqOk hrOk hLe
    · exact fun profile profile' hqOk hrOk hLe =>
        limitOf_mono DEF_LINE_LIMIT (atLeast_mono _) hq hr _ _ hqOk hrOk hLe
    · exact fun profile profile' hqOk hrOk hLe =>
        limitOf_mono 0 (fun _ _ h => h) hq hr _ _ hqOk hrOk hLe

/-- `4G`. -/
def fourGigabytes : Quantity sizeUnits where
  digits := ['4'.toUInt8]
  letter := ['G'.toUInt8]
  worth := 1024 ^ 3
  hNonempty := List.cons_ne_nil _ _
  hDigits := fun _ hc => by
    rw [List.mem_singleton.mp hc]
    decide
  hLetter := @UnitText.letter _ 'G' _ _ (List.mem_cons_of_mem _ (List.mem_cons_of_mem _
    (List.mem_cons_of_mem _ List.mem_cons_self))) (.inl rfl)

/-- `4G` is taken for no size at all. -/
theorem not_limits_right :
    ¬((∀ strtof (q r : Quantity sizeUnits), SizeLimitsRight strtof q r) ∧
      ∀ strtof (q r : Quantity timeUnits), TimeLimitsRight strtof q r) := by
  rintro ⟨hRight, -⟩
  have hParse := (hRight (fun s => (Fraction.zero, s)) fourGigabytes fourGigabytes).1 7
  have hTrue : (parseSizeLimit (fun s => (Fraction.zero, s)) fourGigabytes.text 7).1 = true := by
    decide
  rw [hParse] at hTrue
  exact absurd hTrue (by decide)

end OncRpc.Service.Logger
